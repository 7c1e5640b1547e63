import Mathlib.Data.Finset.Card
import TimedCache.Proofs.Store.Moments

/-!
What a bounded store keeps. A key that was used stands in front of those that were used after it, so
it is not given up before as many others were used as the store has room for: neither failed reads
nor removals of other keys, nor any number of uses of the same few, cost it its place.
-/
namespace TimedCache

variable {K V : Type}

namespace Line

/-- The key has a place in the list, and all keys behind it are among the others. -/
def Keeps (entries : List (K × Entry V)) (key : K) (others : Finset K) : Prop :=
  ∃ older e newer, entries = older ++ (key, e) :: newer ∧ ∀ p ∈ newer, p.1 ∈ others

theorem keeps_last (older : List (K × Entry V)) (key : K) (e : Entry V) (others : Finset K) :
    Keeps (older ++ [(key, e)]) key others := ⟨older, e, [], rfl, by simp⟩

namespace Keeps

variable {entries : List (K × Entry V)} {key k : K} {others : Finset K}

theorem exists_mem (h : Keeps entries key others) : ∃ e, (key, e) ∈ entries := by
  obtain ⟨older, e, newer, rfl, -⟩ := h
  exact ⟨e, by simp⟩

theorem filter (h : Keeps entries key others) {p : K × Entry V → Bool}
    (hp : ∀ e, (key, e) ∈ entries → p (key, e) = true) : Keeps (entries.filter p) key others := by
  obtain ⟨older, e, newer, rfl, hnewer⟩ := h
  refine ⟨older.filter p, e, newer.filter p, ?_, fun q hq => hnewer q (List.mem_of_mem_filter hq)⟩
  rw [List.filter_append, List.filter_cons_of_pos (hp e (by simp))]

theorem append (h : Keeps entries key others) (e : Entry V) (hk : k ∈ others) :
    Keeps (entries ++ [(k, e)]) key others := by
  obtain ⟨older, e', newer, rfl, hnewer⟩ := h
  refine ⟨older, e', newer ++ [(k, e)], by simp, ?_⟩
  intro p hp
  rcases List.mem_append.mp hp with hp | hp
  · exact hnewer p hp
  · rw [List.mem_singleton.mp hp]
    exact hk

/-- The keys behind and a new one are all among the others, so a list with more keys than those has
one in front of this. -/
theorem tail [DecidableEq K] (h : Keeps entries key others) (hkeys : (entries.map Prod.fst).Nodup)
    (hnew : k ∉ entries.map Prod.fst) (hk : k ∈ others) (hcard : others.card < entries.length) :
    Keeps entries.tail key others := by
  obtain ⟨older, e, newer, rfl, hnewer⟩ := h
  have hnodup : (k :: newer.map Prod.fst).Nodup := by
    have hsub : newer.Sublist (older ++ (key, e) :: newer) := by simp
    rw [List.nodup_cons]
    exact ⟨fun hmem => hnew ((hsub.map Prod.fst).subset hmem), hkeys.sublist (hsub.map Prod.fst)⟩
  have hothers : (k :: newer.map Prod.fst).toFinset ⊆ others := by
    intro k' hk'
    rw [List.mem_toFinset, List.mem_cons, List.mem_map] at hk'
    obtain rfl | ⟨p, hp, rfl⟩ := hk'
    · exact hk
    · exact hnewer p hp
  have hle := Finset.card_le_card hothers
  rw [List.toFinset_card_of_nodup hnodup, List.length_cons, List.length_map] at hle
  rw [List.length_append, List.length_cons] at hcard
  cases older with
  | nil =>
    rw [List.length_nil] at hcard
    omega
  | cons first rest => exact ⟨rest, e, newer, rfl, hnewer⟩

end Keeps

variable {l : Line K V} {key k : K} {others : Finset K} {now : Instant} {n : Nat}

theorem keeps_buryDead (h : Keeps l.entries key others)
    (hlive : ∀ e, (key, e) ∈ l.entries → e.isDead now = false) :
    Keeps (l.buryDead now).2.entries key others :=
  h.filter fun e he => by simpa using hlive e he

variable [CacheKey K]

theorem keeps_place (h : Keeps l.entries key others) (hk : k = key ∨ k ∈ others) (e : Entry V) :
    Keeps (l.place k e).entries key others := by
  by_cases hkey : k = key
  · subst hkey
    exact keeps_last _ k e others
  · have hwithout : Keeps (without l.entries k) key others :=
      h.filter fun _ _ => by simpa using Ne.symm hkey
    exact hwithout.append e (hk.resolve_left hkey)

theorem keeps_insertFor (h : Keeps l.entries key others) (hk : k = key ∨ k ∈ others)
    (hlive : ∀ e, (key, e) ∈ l.entries → e.isDead now = false)
    (hcapacity : l.rules.capacity = some n) (hcard : others.card < n) (hkeys : l.Distinct)
    (value : V) (life : Duration) :
    Keeps (l.insertFor k value life now).2.entries key others := by
  have hbury := keeps_buryDead h hlive
  have ha := admitted_insertFor l k value life now
  generalize l.insertFor k value life now = written at ha ⊢
  obtain ⟨admission, l'⟩ := written
  cases ha with
  | dropped hzero => exact h
  | replaced hzero hkey => exact keeps_place h hk _
  | added hzero hkey hroom => exact keeps_place h hk _
  | reclaimed hzero hkey hfull hroom => exact keeps_place hbury hk _
  | evicted hzero hkey hfull hstill =>
    -- The new key is not this one, which is there; it is one of the others, and will be behind.
    have hsub : ((l.buryDead now).2.entries.map Prod.fst).Sublist (l.entries.map Prod.fst) :=
      List.filter_sublist.map Prod.fst
    have hnew : k ∉ (l.buryDead now).2.entries.map Prod.fst :=
      fun hmem => not_mem_keys_of_find?_eq_none hkey (hsub.subset hmem)
    have hne : k ≠ key := by
      rintro rfl
      obtain ⟨e, he⟩ := h.exists_mem
      exact ne_of_find?_eq_none hkey he rfl
    obtain ⟨m, hm, hle⟩ := Rules.isFull_iff.mp hstill
    have hmn : m = n := Option.some.inj (hm.symm.trans hcapacity)
    have htail := hbury.tail (hkeys.sublist hsub) hnew (hk.resolve_left hne) (by omega)
    exact keeps_place (l := (l.buryDead now).2.evict) htail hk _

theorem keeps_get (h : Keeps l.entries key others)
    (hk : ∀ e, l.find? k = some e → e.isDead now = false → k = key ∨ k ∈ others)
    (hlive : ∀ e, (key, e) ∈ l.entries → e.isDead now = false) :
    Keeps (l.get k now).2.entries key others := by
  cases he : l.find? k with
  | none =>
    rw [get_of_none he]
    exact h
  | some e =>
    cases hdead : e.isDead now with
    | true =>
      have hne : k ≠ key := by
        rintro rfl
        rw [hlive e (mem_of_find? he)] at hdead
        cases hdead
      rw [get_of_dead he hdead]
      exact h.filter fun _ _ => by simpa using Ne.symm hne
    | false =>
      rw [get_of_live he hdead]
      exact keeps_place h (hk e he hdead) _

end Line

namespace Store

variable [CacheKey K]

/-- The key that the operation made the last used one: that of a write, or of a read that found a
value. -/
def Record.used? (r : Record K V) : Option K :=
  match r.op, r.answer with
  | .insert key _, _ | .insertFor key _ _, _ => some key
  | .get key, .value (some _) => some key
  | _, _ => none

def lastWritten? (lifetime : Duration) (ops : List (Instant × Op K V)) (key : K) : Option V :=
  (ops.filterMap fun o => o.2.written? lifetime key).getLast?.map Prod.fst

theorem lastWritten?_of_grounds {lifetime : Duration} {policy : Policy}
    {history : List (Record K V)} {key : K} {value : V} {deadline : Option Instant}
    (h : Grounds lifetime policy history key value deadline) :
    lastWritten? lifetime (history.map fun r => (r.now, r.op)) key = some value := by
  obtain ⟨before, write, since, life, rfl, hwrite, hsince, -⟩ := h
  have hnone : (since.filterMap fun r => r.op.written? lifetime key) = [] := by
    rw [List.filterMap_eq_nil_iff]
    exact fun r hr => (hsince r hr).1
  simp [lastWritten?, List.filterMap_map, hwrite, hnone]

end Store

namespace Line

variable [CacheKey K] {l : Line K V} {key : K} {others : Finset K} {now : Instant}
  {op : Store.Op K V} {n : Nat}

theorem keeps_insertFor_self (hzero : l.rules.capacity ≠ some 0) (key : K) (value : V)
    (life : Duration) (others : Finset K) :
    Keeps (l.insertFor key value life now).2.entries key others := by
  have ha := admitted_insertFor l key value life now
  generalize l.insertFor key value life now = written at ha ⊢
  obtain ⟨admission, l'⟩ := written
  cases ha with
  | dropped hzero' => exact absurd hzero' hzero
  | _ => exact keeps_last _ key _ others

theorem keeps_of_used (hzero : l.rules.capacity ≠ some 0)
    (hused : (l.record now op).used? = some key) (others : Finset K) :
    Keeps (l.step now op).2.entries key others := by
  cases op with
  | insert k value =>
    obtain rfl : k = key := Option.some.inj hused
    exact keeps_insertFor_self hzero k value _ others
  | insertFor k value life =>
    obtain rfl : k = key := Option.some.inj hused
    exact keeps_insertFor_self hzero k value life others
  | get k =>
    cases he : l.find? k with
    | none => simp [Store.Record.used?, record, step, get_of_none he] at hused
    | some e =>
      cases hdead : e.isDead now with
      | true => simp [Store.Record.used?, record, step, get_of_dead he hdead] at hused
      | false =>
        obtain rfl : k = key := by
          simpa [Store.Record.used?, record, step, get_of_live he hdead] using hused
        show Keeps (l.get k now).2.entries k others
        rw [get_of_live he hdead]
        exact keeps_last _ k _ others
  | _ => cases hused

theorem keeps_step (h : Keeps l.entries key others) (hkeys : l.Distinct)
    (hcapacity : l.rules.capacity = some n) (hcard : others.card < n)
    (hused : ∀ k ∈ (l.record now op).used?, k = key ∨ k ∈ others)
    (hremoves : op.removes key = false)
    (hlive : op.isTimed = true → ∀ e, (key, e) ∈ l.entries → e.isDead now = false) :
    Keeps (l.step now op).2.entries key others := by
  cases op with
  | insert k value =>
    exact keeps_insertFor h (hused k rfl) (hlive rfl) hcapacity hcard hkeys value _
  | insertFor k value life =>
    exact keeps_insertFor h (hused k rfl) (hlive rfl) hcapacity hcard hkeys value life
  | get k =>
    refine keeps_get h ?_ (hlive rfl)
    intro e he hdead
    apply hused k
    simp [Store.Record.used?, record, step, get_of_live he hdead]
  | erase k =>
    have hne : k ≠ key := by simpa [Store.Op.removes] using hremoves
    exact h.filter fun _ _ => by simpa using Ne.symm hne
  | clear => cases hremoves
  | sweep => exact keeps_buryDead h (hlive rfl)
  | contains | items | liveSize => exact h

end Line

namespace Store

variable [CacheKey K] {s : Store K V} {l : Line K V} {key : K} {others : Finset K} {n : Nat}

theorem record_eq (h : s.Listed l) (now : Instant) (op : Op K V) :
    (s.moment now op).toRecord = l.record now op :=
  congrArg (Record.mk now op) (listed_step h now op).1

theorem keeps_run (h : s.Kept l) (hkeeps : Line.Keeps l.entries key others)
    (hcapacity : l.rules.capacity = some n) (hcard : others.card < n)
    {ops : List (Instant × Op K V)}
    (hused : ∀ m ∈ s.moments ops, ∀ k ∈ m.used?, k = key ∨ k ∈ others)
    (hremoves : ∀ m ∈ s.moments ops, m.op.removes key = false)
    (hlive : ∀ m ∈ s.moments ops, m.op.isTimed = true →
      ∀ e ∈ m.store.entries[key]?, e.isDead m.now = false) :
    Line.Keeps (l.run ops).2.entries key others := by
  induction ops generalizing s l with
  | nil => exact hkeeps
  | cons first rest ih =>
    obtain ⟨now, op⟩ := first
    rw [moments_cons] at hused hremoves hlive
    rw [List.forall_mem_cons] at hused hremoves hlive
    have hkeys : l.Distinct := h.listed.arranged.nodup_keys
    have hstep : Line.Keeps (l.step now op).2.entries key others := by
      apply Line.keeps_step hkeeps hkeys hcapacity hcard
      · rw [← record_eq h.listed]
        exact hused.1
      · exact hremoves.1
      · intro htimed e he
        exact hlive.1 htimed e (h.listed.arranged.mem_iff.mp he)
    have hrules : (l.step now op).2.rules.capacity = some n :=
      (congrArg Rules.capacity (l.rules_step now op)).trans hcapacity
    exact ih (kept_step h now op) hstep hrules hused.2 hremoves.2 hlive.2

theorem map_history (s : Store K V) (ops : List (Instant × Op K V)) :
    (history ops (s.run ops).1).map (fun r => (r.now, r.op)) = ops := by
  induction ops generalizing s with
  | nil => rfl
  | cons first rest ih => exact congrArg _ (ih _)

theorem lastWritten?_of_stored {capacity : Option Nat} {lifetime : Duration} {policy : Policy}
    {ops : List (Instant × Op K V)} {e : Entry V}
    (h : ((empty capacity lifetime policy : Store K V).run ops).2.entries[key]? = some e) :
    lastWritten? lifetime ops key = some e.value := by
  obtain ⟨-, hgrounds⟩ := grounds_of_stored h
  have hlast := lastWritten?_of_grounds hgrounds
  rwa [map_history] at hlast

/-- A store gives up a key only for as many others as it has room for: a key that was written or
read, that nothing has taken out on purpose since, and that was never found dead, is still there
with its last value if the other keys that were written or read since are fewer than that. -/
theorem stored_of_few_others (n : Nat) (lifetime : Duration) (policy : Policy)
    (before : List (Instant × Op K V)) (now : Instant) (op : Op K V)
    (since : List (Instant × Op K V)) (key : K) (others : Finset K) :
    let s := ((empty (some n) lifetime policy : Store K V).run before).2
    let used := (s.step now op).2
    (s.moment now op).used? = some key →
      (∀ m ∈ used.moments since, m.op.removes key = false) →
      (∀ m ∈ used.moments since, m.op.isTimed = true →
        ∀ e ∈ m.store.entries[key]?, e.isDead m.now = false) →
      (∀ m ∈ used.moments since, ∀ k ∈ m.used?, k = key ∨ k ∈ others) →
      others.card < n →
      ∃ e, (used.run since).2.entries[key]? = some e ∧
        lastWritten? lifetime (before ++ (now, op) :: since) key = some e.value := by
  intro s used huse hremoves hlive hothers hcard
  let l : Line K V := { rules := ⟨some n, lifetime, policy⟩ }
  have hempty : (empty (some n) lifetime policy : Store K V).Kept l :=
    kept_empty (some n) lifetime policy
  have hs : s.Kept (l.run before).2 := kept_run hempty before
  have hused : used.Kept ((l.run before).2.step now op).2 := kept_step hs now op
  have hcapacity : (l.run before).2.rules.capacity = some n :=
    congrArg Rules.capacity (l.rules_run before)
  have hcapacity' : ((l.run before).2.step now op).2.rules.capacity = some n :=
    (congrArg Rules.capacity (Line.rules_step _ now op)).trans hcapacity
  have hzero : (l.run before).2.rules.capacity ≠ some 0 := by
    rw [hcapacity, ne_eq, Option.some.injEq]
    omega
  have hkeeps := Line.keeps_of_used hzero (record_eq hs.listed now op ▸ huse) others
  obtain ⟨e, he⟩ := (keeps_run hused hkeeps hcapacity' hcard hothers hremoves hlive).exists_mem
  have hstored := (kept_run hused since).listed.arranged.mem_iff.mp he
  have hrun : ((empty (some n) lifetime policy).run (before ++ (now, op) :: since)).2 =
      (used.run since).2 := by
    rw [run_append]
    rfl
  rw [← hrun] at hstored
  exact ⟨e, hrun ▸ hstored, lastWritten?_of_stored hstored⟩

/-- Two keys in turn never cost a third its place among three, nor do failed reads and removals. -/
theorem stored_of_few_others_three :
    let before : List (Instant × Op Nat Nat) := [(.origin, .insert 1 10), (.origin, .insert 2 20)]
    let since : List (Instant × Op Nat Nat) :=
      [(.origin, .insert 3 30), (.origin, .get 5), (.origin, .erase 2), (.origin, .insert 4 40),
        (.origin, .get 3), (.origin, .insert 4 41)]
    let s := ((empty (some 3) (.ofSeconds 1) .fixed : Store Nat Nat).run before).2
    let used := (s.step .origin (.get 1)).2
    let others : Finset Nat := {3, 4}
    (s.moment .origin (.get 1)).used? = some 1 ∧
      (∀ m ∈ used.moments since, m.op.removes 1 = false) ∧
      (∀ m ∈ used.moments since, m.op.isTimed = true →
        ∀ e ∈ m.store.entries[1]?, e.isDead m.now = false) ∧
      (∀ m ∈ used.moments since, ∀ k ∈ m.used?, k = 1 ∨ k ∈ others) ∧
      others.card < 3 ∧ ∃ e, (used.run since).2.entries[1]? = some e ∧ e.value = 10 := by
  intro before since s used others
  have huse : (s.moment .origin (.get 1)).used? = some 1 := by decide
  have hremoves : ∀ m ∈ used.moments since, m.op.removes 1 = false := by decide
  have hlive : ∀ m ∈ used.moments since, m.op.isTimed = true →
      ∀ e ∈ m.store.entries[1]?, e.isDead m.now = false := by decide
  have hothers : ∀ m ∈ used.moments since, ∀ k ∈ m.used?, k = 1 ∨ k ∈ others := by decide
  have hcard : others.card < 3 := by decide
  obtain ⟨e, he, hlast⟩ := stored_of_few_others 3 (.ofSeconds 1) .fixed before .origin (.get 1)
    since 1 others huse hremoves hlive hothers hcard
  have hvalue : lastWritten? (.ofSeconds 1) (before ++ (.origin, .get 1) :: since) 1 = some 10 := by
    decide
  exact ⟨huse, hremoves, hlive, hothers, hcard, e, he, Option.some.inj (hlast.symm.trans hvalue)⟩

end Store
end TimedCache
