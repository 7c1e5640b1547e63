import TimedCache.Proofs.Store.Sweeps

/-!
Reads of a store. All of them go by the live entries, each under its key. To ask for a key takes its
entry out if that is dead, and leaves the other keys alone; so to ask for every key once, in any
order, takes out what a sweep takes out and finds what a listing has, even where a read gives the
entry that it finds no life at all and leaves it dead.
-/
namespace TimedCache

open Std (ExtTreeMap)

variable {K V : Type} [CacheKey K]

namespace Store

variable {s s' : Store K V} {key k : K} {keys : List K} {now : Instant} {e : Entry V}

def live? (s : Store K V) (key : K) (now : Instant) : Option (Entry V) :=
  s.entries[key]?.filter fun e => !e.isDead now

theorem live?_eq_some_iff :
    s.live? key now = some e ↔ s.entries[key]? = some e ∧ e.isDead now = false := by
  simp [live?]

theorem live?_of_none (h : s.entries[key]? = none) : s.live? key now = none := by
  simp [live?, h]

theorem live?_of_dead (h : s.entries[key]? = some e) (hdead : e.isDead now = true) :
    s.live? key now = none := by
  simp [live?, h, hdead]

theorem live?_of_live (h : s.entries[key]? = some e) (hdead : e.isDead now = false) :
    s.live? key now = some e :=
  live?_eq_some_iff.mpr ⟨h, hdead⟩

theorem live?_congr (h : s'.entries[k]? = s.entries[k]?) (now : Instant) :
    s'.live? k now = s.live? k now := by
  rw [live?, live?, h]

theorem mem_deadKeys_congr (h : s'.entries[k]? = s.entries[k]?) (now : Instant) :
    k ∈ s'.deadKeys now ↔ k ∈ s.deadKeys now := by
  rw [mem_deadKeys_iff, mem_deadKeys_iff, h]

theorem contains_eq (s : Store K V) (key : K) (now : Instant) :
    s.contains key now = (s.live? key now).isSome := by
  unfold contains
  cases he : s.entries[key]? with
  | none =>
    rw [live?_of_none he]
    rfl
  | some e =>
    cases hdead : e.isDead now with
    | true => simp [live?_of_dead he hdead, hdead]
    | false => simp [live?_of_live he hdead, hdead]

theorem mem_items_iff {i : Item K V} :
    i ∈ s.items now ↔ ∃ e, s.live? i.key now = some e ∧ e.value = i.value := by
  rw [items, List.mem_map]
  constructor
  · rintro ⟨⟨key, e⟩, hmem, rfl⟩
    obtain ⟨hp, hlive⟩ := List.mem_filter.mp hmem
    rw [ExtTreeMap.mem_toList_iff_getElem?_eq_some] at hp
    exact ⟨e, live?_of_live hp (by simpa using hlive), rfl⟩
  · rintro ⟨e, hlive, hvalue⟩
    obtain ⟨he, hdead⟩ := live?_eq_some_iff.mp hlive
    refine ⟨(i.key, e), List.mem_filter.mpr ⟨?_, by simp [hdead]⟩, by rw [hvalue]⟩
    exact ExtTreeMap.mem_toList_iff_getElem?_eq_some.mpr he

theorem nodup_keys_items (s : Store K V) (now : Instant) : ((s.items now).map Item.key).Nodup := by
  rw [items, List.map_map]
  exact (Listing.nodup_keys s.entries).sublist (List.filter_sublist.map Prod.fst)

theorem get_of_none (h : s.entries[key]? = none) (now : Instant) :
    s.get key now = (none, s.note (·.miss)) := by
  simp only [get, h]

theorem get_of_dead (h : s.entries[key]? = some e) (hdead : e.isDead now = true) :
    s.get key now = (none, (s.bury key).note (·.miss)) := by
  simp only [get, h, Policy.isDead_eq, hdead, if_true]

theorem get_of_live (h : s.entries[key]? = some e) (hdead : e.isDead now = false) :
    s.get key now = (some e.value, (s.place key (s.policy.read e now)).note (·.hit)) := by
  simp [get, h, hdead]

/-- What a read of the key finds, and what it makes of the entries. -/
structure Reads (s : Store K V) (key : K) (now : Instant) (found : Option V)
    (s' : Store K V) : Prop where
  policy : s'.policy = s.policy
  found : found = (s.live? key now).map Entry.value
  entry : s'.entries[key]? = (s.live? key now).map (s.policy.read · now)
  others : ∀ k, k ≠ key → s'.entries[k]? = s.entries[k]?
  expirations : s'.tally.expirations =
    s.tally.expirations + if key ∈ s.deadKeys now then 1 else 0

theorem reads_get (s : Store K V) (key : K) (now : Instant) :
    s.Reads key now (s.get key now).1 (s.get key now).2 := by
  cases he : s.entries[key]? with
  | none =>
    rw [get_of_none he]
    refine ⟨rfl, ?_, ?_, fun _ _ => rfl, ?_⟩
    · rw [live?_of_none he]
      rfl
    · rw [live?_of_none he]
      exact he
    · simp [mem_deadKeys_iff, he, Counters.miss]
  | some e =>
    cases hdead : e.isDead now with
    | true =>
      have hkey : s.entries.contains key = true := by
        rw [ExtTreeMap.contains_eq_isSome_getElem?, he]
        rfl
      rw [get_of_dead he hdead]
      refine ⟨congrArg Rules.policy (s.rules_bury key), ?_, ?_, ?_, ?_⟩
      · rw [live?_of_dead he hdead]
        rfl
      · rw [live?_of_dead he hdead, entries_note, entries_bury, if_pos rfl]
        rfl
      · intro k hk
        rw [entries_note, entries_bury, if_neg hk]
      · simp [mem_deadKeys_iff, he, hdead, bury_eq, hkey, Counters.miss, Counters.expire,
          Counters.hold]
    | false =>
      rw [get_of_live he hdead]
      refine ⟨congrArg Rules.policy (s.rules_place key _), ?_, ?_, ?_, ?_⟩
      · rw [live?_of_live he hdead]
        rfl
      · simp [live?_of_live he hdead]
      · intro k hk
        simp [ExtTreeMap.getElem?_insert, Ne.symm hk]
      · simp [mem_deadKeys_iff, he, hdead, Counters.hit]

/-- A read of each key in turn, all at one instant. -/
def round (keys : List K) (now : Instant) : List (Instant × Op K V) :=
  keys.map fun key => (now, .get key)

def Answer.isMiss : Answer K V → Bool
  | .value none => true
  | _ => false

def Record.item? (r : Record K V) : Option (Item K V) :=
  match r.op, r.answer with
  | .get key, .value (some value) => some ⟨key, value⟩
  | _, _ => none

/-- What a round finds is what is live at its start, for a read of one key leaves the others. -/
structure GoesRound (s : Store K V) (keys : List K) (now : Instant) (answers : List (Answer K V))
    (s' : Store K V) : Prop where
  answers : answers = keys.map fun key => .value ((s.live? key now).map Entry.value)
  entries : ∀ key, s'.entries[key]? =
    if key ∈ keys then (s.live? key now).map (s.policy.read · now) else s.entries[key]?
  expirations : s'.tally.expirations = s.tally.expirations + keys.countP (· ∈ s.deadKeys now)

theorem goesRound_run (s : Store K V) (h : keys.Nodup) (now : Instant) :
    s.GoesRound keys now (s.run (round keys now)).1 (s.run (round keys now)).2 := by
  induction keys generalizing s with
  | nil => exact ⟨rfl, by simp [round], rfl⟩
  | cons key keys ih =>
    rw [List.nodup_cons] at h
    have hfirst := s.reads_get key now
    have hrest := ih (s.get key now).2 h.2
    have hsame : ∀ k ∈ keys, (s.get key now).2.entries[k]? = s.entries[k]? := by
      intro k hk
      exact hfirst.others k fun hkk => h.1 (hkk ▸ hk)
    refine ⟨?_, ?_, ?_⟩
    · show Answer.value (s.get key now).1 :: ((s.get key now).2.run (round keys now)).1 = _
      rw [hfirst.found, hrest.answers, List.map_cons]
      apply congrArg
      apply List.map_congr_left
      intro k hk
      rw [live?_congr (hsame k hk)]
    · intro k
      show ((s.get key now).2.run (round keys now)).2.entries[k]? = _
      rw [hrest.entries, hfirst.policy]
      by_cases hk : k = key
      · rw [hk, if_neg h.1, if_pos List.mem_cons_self, hfirst.entry]
      · simp only [List.mem_cons, hk, false_or, live?_congr (hfirst.others k hk),
          hfirst.others k hk]
    · show ((s.get key now).2.run (round keys now)).2.tally.expirations = _
      have hcount : keys.countP (· ∈ (s.get key now).2.deadKeys now) =
          keys.countP (· ∈ s.deadKeys now) := by
        apply List.countP_congr
        intro k hk
        simp only [mem_deadKeys_congr (hsame k hk)]
      rw [hrest.expirations, hfirst.expirations, hcount, List.countP_cons]
      simp only [decide_eq_true_eq]
      omega

theorem isMiss_iff (h : key ∈ s.entries) :
    (Answer.value ((s.live? key now).map Entry.value) : Answer K V).isMiss = true ↔
      key ∈ s.deadKeys now := by
  rw [ExtTreeMap.mem_iff_isSome_getElem?, Option.isSome_iff_exists] at h
  obtain ⟨e, he⟩ := h
  cases hdead : e.isDead now with
  | true => simp [mem_deadKeys_iff, he, hdead, live?_of_dead, Answer.isMiss]
  | false => simp [mem_deadKeys_iff, he, hdead, live?_of_live he hdead, Answer.isMiss]

theorem countP_deadKeys (hnodup : keys.Nodup) (hkeys : ∀ key, key ∈ keys ↔ key ∈ s.entries) :
    keys.countP (· ∈ s.deadKeys now) = (s.deadKeys now).length := by
  rw [List.countP_eq_length_filter]
  apply List.Perm.length_eq
  rw [List.perm_ext_iff_of_nodup (hnodup.filter _) (s.nodup_deadKeys now)]
  intro key
  rw [List.mem_filter, decide_eq_true_eq, and_iff_right_iff_imp, hkeys, mem_deadKeys_iff]
  rintro ⟨e, he, -⟩
  exact ExtTreeMap.mem_iff_isSome_getElem?.mpr (Option.isSome_of_eq_some he)

theorem items_round (s : Store K V) (keys : List K) (now : Instant) :
    (history (round keys now) (keys.map fun key =>
      Answer.value ((s.live? key now).map Entry.value))).filterMap Record.item? =
      keys.filterMap fun key => (s.live? key now).map fun e => ⟨key, e.value⟩ := by
  induction keys with
  | nil => rfl
  | cons key keys ih =>
    have hitem : Record.item? ⟨now, .get key, .value ((s.live? key now).map Entry.value)⟩ =
        (s.live? key now).map fun e => (⟨key, e.value⟩ : Item K V) := by
      cases s.live? key now <;> rfl
    rw [List.filterMap_cons, ← ih, ← hitem, ← List.filterMap_cons]
    rfl

theorem items_perm (hnodup : keys.Nodup) (hkeys : ∀ key, key ∈ keys ↔ key ∈ s.entries) :
    (keys.filterMap fun key => (s.live? key now).map fun e => (⟨key, e.value⟩ : Item K V)).Perm
      (s.items now) := by
  rw [List.perm_ext_iff_of_nodup]
  · intro i
    rw [mem_items_iff, List.mem_filterMap]
    constructor
    · rintro ⟨key, -, hi⟩
      obtain ⟨e, he, rfl⟩ := Option.map_eq_some_iff.mp hi
      exact ⟨e, he, rfl⟩
    · rintro ⟨e, he, hvalue⟩
      refine ⟨i.key, ?_, ?_⟩
      · rw [hkeys, ExtTreeMap.mem_iff_isSome_getElem?, (live?_eq_some_iff.mp he).1]
        rfl
      · rw [he, Option.map_some, hvalue]
  · apply hnodup.filterMap
    intro a b i ha hb
    obtain ⟨e, -, rfl⟩ := Option.map_eq_some_iff.mp ha
    obtain ⟨f, -, hf⟩ := Option.map_eq_some_iff.mp hb
    exact (congrArg Item.key hf).symm
  · exact (s.nodup_keys_items now).of_map

/-- Whether a store is rid of the dead by one sweep or by reads of all its keys, one after another
in any order, the same keys are left with the same values, and as many entries are counted as dead.
The reads that find nothing are as many as the sweep takes out; the others find what is listed. -/
theorem round_eq_sweep (s : Store K V) (now : Instant) (hkeys : keys.Perm s.entries.keys) :
    let (answers, s') := s.run (round keys now)
    let (removed, swept) := s.sweep now
    (∀ key : K, s'.entries[key]?.map Entry.value = swept.entries[key]?.map Entry.value) ∧
      s'.counters.expirations = swept.counters.expirations ∧
      answers.countP Answer.isMiss = removed ∧
      ((history (round keys now) answers).filterMap Record.item?).Perm (s.items now) := by
  have hnodup : keys.Nodup := hkeys.nodup_iff.mpr s.entries.nodup_keys
  have hmem (key : K) : key ∈ keys ↔ key ∈ s.entries := by
    rw [hkeys.mem_iff, ExtTreeMap.mem_keys]
  have hround := s.goesRound_run hnodup now
  refine ⟨?_, ?_, ?_, ?_⟩
  · intro key
    show (s.run (round keys now)).2.entries[key]?.map Entry.value =
      (s.buryDead now).2.entries[key]?.map Entry.value
    rw [hround.entries, s.entries_buryDead]
    by_cases hkey : key ∈ keys
    · rw [if_pos hkey, Option.map_map]
      rfl
    · have hnone : s.entries[key]? = none := ExtTreeMap.getElem?_eq_none ((hmem key).not.mp hkey)
      rw [if_neg hkey, hnone]
      rfl
  · have hswept := congrArg Counters.expirations (s.tally_buryDead now 0)
    show (s.run (round keys now)).2.tally.expirations = (s.buryDead now).2.tally.expirations
    rw [hround.expirations, countP_deadKeys hnodup hmem]
    exact hswept.symm
  · show (s.run (round keys now)).1.countP Answer.isMiss = (s.deadKeys now).length
    rw [hround.answers, List.countP_map, ← countP_deadKeys hnodup hmem]
    apply List.countP_congr
    intro key hkey
    rw [Function.comp_apply, isMiss_iff ((hmem key).mp hkey), decide_eq_true_eq]
  · show ((history (round keys now) (s.run (round keys now)).1).filterMap Record.item?).Perm _
    rw [hround.answers, items_round]
    exact items_perm hnodup hmem

/-- Of three entries one is dead. Reads that give no life leave the other two there, and dead. -/
theorem round_eq_sweep_of_no_life :
    let now : Instant := ⟨2_000_000_000, by decide⟩
    let ops : List (Instant × Op Nat Nat) :=
      [(.origin, .insertFor 1 10 (.ofSeconds 5)), (.origin, .insertFor 2 20 (.ofSeconds 1)),
        (.origin, .insertFor 3 30 (.ofSeconds 5))]
    let s := ((empty (some 3) (.ofSeconds 9) (.sliding .zero) : Store Nat Nat).run ops).2
    let (answers, s') := s.run (round [3, 2, 1] now)
    [3, 2, 1].Perm s.entries.keys ∧ s'.liveSize now = 0 ∧
      s'.entries[1]?.map Entry.value = some 10 ∧ s'.entries[2]?.map Entry.value = none ∧
      answers.countP Answer.isMiss = 1 ∧ s'.counters.expirations = 1 := by
  intro now ops s
  have hkeys : [3, 2, 1].Perm s.entries.keys := by decide
  obtain ⟨hvalues, hexpirations, hmisses, -⟩ := s.round_eq_sweep now hkeys
  refine ⟨hkeys, by decide, ?_, ?_, ?_, ?_⟩
  · exact (hvalues 1).trans (by decide)
  · exact (hvalues 2).trans (by decide)
  · exact hmisses.trans (by decide)
  · exact hexpirations.trans (by decide)

end Store
end TimedCache
