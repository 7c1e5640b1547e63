import TimedCache.Proofs.Store.Retention
import TimedCache.Proofs.Store.Writes
import TimedCache.Proofs.Uses

/-!
Last uses by the stamps, by the instants in the entries and by the history. As long as time does not
go back the three agree, so the entry that a full store gives up is one whose last use was at the
earliest instant, and of those that were used then the one that was used first.
-/
namespace TimedCache

variable {K V : Type}

theorem Recency.pairwise_stamps [CacheKey K] {r : Recency K} (h : r.Coherent) :
    r.toList.Pairwise fun a b => ∀ m n : Nat, r.stamps[a]? = some m → r.stamps[b]? = some n →
      m < n := by
  rw [toList, List.pairwise_map]
  apply r.order.ordered_keys_toList.imp_of_mem
  rintro ⟨stamp, a⟩ ⟨stamp', b⟩ hp hq hlt m n hm hn
  rw [Std.ExtTreeMap.mem_toList_iff_getElem?_eq_some, h.inverse] at hp hq
  obtain rfl : m = stamp := Option.some.inj (hm.symm.trans hp)
  obtain rfl : n = stamp' := Option.some.inj (hn.symm.trans hq)
  exact Nat.compare_eq_lt.mp hlt

namespace Line

/-- The instants of the last uses never decrease along the list, and none of them is after `t`. -/
structure Timely (entries : List (K × Entry V)) (t : Instant) : Prop where
  sorted : entries.Pairwise fun p q => p.2.lastUse ≤ q.2.lastUse
  upTo : ∀ p ∈ entries, p.2.lastUse ≤ t

namespace Timely

variable {entries rest : List (K × Entry V)} {t u : Instant}

theorem sublist (h : Timely entries t) (hrest : rest.Sublist entries) : Timely rest t :=
  ⟨h.sorted.sublist hrest, fun p hp => h.upTo p (hrest.subset hp)⟩

theorem later (h : Timely entries t) (htu : t ≤ u) : Timely entries u :=
  ⟨h.sorted, fun p hp => Nat.le_trans (h.upTo p hp) htu⟩

theorem concat (h : Timely entries t) (key : K) {e : Entry V} (he : e.lastUse = t) :
    Timely (entries ++ [(key, e)]) t := by
  constructor
  · rw [List.pairwise_append]
    refine ⟨h.sorted, List.pairwise_singleton _ _, ?_⟩
    intro p hp q hq
    rw [List.mem_singleton.mp hq, he]
    exact h.upTo p hp
  · intro p hp
    rcases List.mem_append.mp hp with hp | hp
    · exact h.upTo p hp
    · rw [List.mem_singleton.mp hp, he]
      exact Nat.le_refl _

end Timely

variable [CacheKey K] {l : Line K V} {now t : Instant} {op : Store.Op K V} {key : K}
  {entries : List (K × Entry V)} {past : List (Store.Record K V)}

/-- What an operation does to the order of a list: it uses no key that it leaves there, or else the
one that it puts at the back, and notes its own instant there. -/
inductive Moved (l : Line K V) (now : Instant) (op : Store.Op K V) : List (K × Entry V) → Prop
  | stayed {entries : List (K × Entry V)}
      (hunused : ∀ p ∈ entries, (l.record now op).used? ≠ some p.1)
      (hsub : entries.Sublist l.entries) : Moved l now op entries
  | used {older : List (K × Entry V)} {key : K} {e : Entry V} (htimed : op.isTimed = true)
      (hused : (l.record now op).used? = some key) (hsub : older.Sublist l.entries)
      (hnew : key ∉ older.map Prod.fst) (hnow : e.lastUse = now) :
      Moved l now op (older ++ [(key, e)])

theorem moved_of_unused (hunused : (l.record now op).used? = none)
    (hsub : entries.Sublist l.entries) : l.Moved now op entries :=
  .stayed (fun _ _ => by simp [hunused]) hsub

theorem moved_place (htimed : op.isTimed = true) (hused : (l.record now op).used? = some key)
    {l' : Line K V} (hsub : l'.entries.Sublist l.entries) {e : Entry V} (hnow : e.lastUse = now) :
    l.Moved now op (l'.place key e).entries := by
  have hnew : key ∉ (without l'.entries key).map Prod.fst := by
    rw [keys_without]
    simp
  exact .used htimed hused (List.filter_sublist.trans hsub) hnew hnow

theorem moved_insertFor (hfits : l.Fits) (htimed : op.isTimed = true)
    (hused : (l.record now op).used? = some key) (value : V) (life : Duration) :
    l.Moved now op (l.insertFor key value life now).2.entries := by
  have ha := admitted_insertFor l key value life now
  generalize l.insertFor key value life now = written at ha ⊢
  obtain ⟨admission, l'⟩ := written
  have hliving : (l.buryDead now).2.entries.Sublist l.entries := List.filter_sublist
  cases ha with
  | dropped hzero =>
    -- A write that is dropped is no use of a key that is there, as there are none.
    have hnil : l.entries = [] := List.eq_nil_of_length_eq_zero (Nat.le_zero.mp (hfits 0 hzero))
    exact .stayed (fun p hp => absurd (hnil ▸ hp : p ∈ []) List.not_mem_nil) (List.Sublist.refl _)
  | replaced | added => exact moved_place htimed hused (List.Sublist.refl _) rfl
  | reclaimed => exact moved_place htimed hused hliving rfl
  | evicted =>
    have hrest : (l.buryDead now).2.evict.entries.Sublist l.entries :=
      (List.tail_sublist _).trans hliving
    exact moved_place htimed hused hrest rfl

theorem moved_get (l : Line K V) (key : K) (now : Instant) :
    l.Moved now (.get key) (l.get key now).2.entries := by
  cases he : l.find? key with
  | none =>
    have hunused : (l.record now (.get key)).used? = none := by
      simp [Store.Record.used?, record, step, get_of_none he]
    rw [get_of_none he]
    exact moved_of_unused hunused (List.Sublist.refl _)
  | some e =>
    cases hdead : e.isDead now with
    | true =>
      have hunused : (l.record now (.get key)).used? = none := by
        simp [Store.Record.used?, record, step, get_of_dead he hdead]
      rw [get_of_dead he hdead]
      exact moved_of_unused hunused List.filter_sublist
    | false =>
      have hused : (l.record now (.get key)).used? = some key := by
        simp [Store.Record.used?, record, step, get_of_live he hdead]
      rw [get_of_live he hdead]
      exact moved_place rfl hused (List.Sublist.refl _) rfl

theorem moved_step (hfits : l.Fits) (now : Instant) (op : Store.Op K V) :
    l.Moved now op (l.step now op).2.entries := by
  cases op with
  | insert key value => exact moved_insertFor hfits rfl rfl value _
  | insertFor key value life => exact moved_insertFor hfits rfl rfl value life
  | get key => exact moved_get l key now
  | erase key => exact moved_of_unused rfl List.filter_sublist
  | clear => exact moved_of_unused rfl (List.nil_sublist _)
  | sweep => exact moved_of_unused rfl List.filter_sublist
  | contains | items | liveSize => exact moved_of_unused rfl (List.Sublist.refl _)

theorem Moved.timely (hmoved : l.Moved now op entries) (h : Timely l.entries t)
    (hnow : op.isTimed = true → t ≤ now) : Timely entries (op.time t now) := by
  have htime := h.later (Store.Op.le_time hnow)
  cases hmoved with
  | stayed hunused hsub => exact htime.sublist hsub
  | used htimed hused hsub hnew he =>
    have hlast : op.time t now = now := if_pos htimed
    exact (htime.sublist hsub).concat _ (he.trans hlast.symm)

theorem Moved.inOrder (hmoved : l.Moved now op entries)
    (h : Uses.InOrder Store.Record.used? past (l.entries.map Prod.fst)) :
    Uses.InOrder Store.Record.used? (past ++ [l.record now op]) (entries.map Prod.fst) := by
  cases hmoved with
  | stayed hunused hsub =>
    apply (h.sublist (hsub.map Prod.fst)).concat
    intro key hkey
    obtain ⟨p, hp, rfl⟩ := List.mem_map.mp hkey
    exact hunused p hp
  | used htimed hused hsub hnew he =>
    rw [List.map_append]
    exact (h.sublist (hsub.map Prod.fst)).use hused hnew

theorem timely_run (hfits : l.Fits) (h : Timely l.entries t) {ops : List (Instant × Store.Op K V)}
    (hsince : Store.Since t ops) (hchron : Store.Chronological ops) :
    ∃ u, Timely (l.run ops).2.entries u := by
  induction ops generalizing l t with
  | nil => exact ⟨t, h⟩
  | cons first rest ih =>
    obtain ⟨now, op⟩ := first
    have hnow := hsince (now, op) List.mem_cons_self
    exact ih (fits_step hfits now op) ((moved_step hfits now op).timely h hnow)
      (Store.since_cons hsince hchron) (Store.chronological_cons.mp hchron).2

theorem inOrder_run (hfits : l.Fits)
    (h : Uses.InOrder Store.Record.used? past (l.entries.map Prod.fst))
    (ops : List (Instant × Store.Op K V)) :
    Uses.InOrder Store.Record.used? (past ++ Store.history ops (l.run ops).1)
      ((l.run ops).2.entries.map Prod.fst) := by
  induction ops generalizing l past with
  | nil => simpa [Store.history] using h
  | cons first rest ih =>
    obtain ⟨now, op⟩ := first
    have hrest := ih (fits_step hfits now op) ((moved_step hfits now op).inOrder h)
    rw [List.append_assoc] at hrest
    exact hrest

theorem evicted_of_insertFor (hzero : l.rules.capacity ≠ some 0) {value : V} {life : Duration}
    (h : (l.insertFor key value life now).2.tally.evictions ≠ l.tally.evictions) :
    ∃ left, (l.insertFor key value life now).1 = .evicted left := by
  have ha := admitted_insertFor l key value life now
  generalize l.insertFor key value life now = written at ha h ⊢
  obtain ⟨admission, l'⟩ := written
  cases ha with
  | dropped hzero' => exact absurd hzero' hzero
  | evicted => exact ⟨_, rfl⟩
  | _ => exact absurd rfl h

/-- Where there is room for entries at all, only a write that gives one up counts as an eviction. -/
theorem evicted_of_step (hzero : l.rules.capacity ≠ some 0)
    (h : (l.step now op).2.tally.evictions ≠ l.tally.evictions) :
    ∃ left, (l.step now op).1 = .admission (.evicted left) := by
  cases op with
  | insert key value =>
    obtain ⟨left, hleft⟩ := evicted_of_insertFor hzero h
    exact ⟨left, congrArg Store.Answer.admission hleft⟩
  | insertFor key value life =>
    obtain ⟨left, hleft⟩ := evicted_of_insertFor hzero h
    exact ⟨left, congrArg Store.Answer.admission hleft⟩
  | get key => exact absurd (evictions_get l key now) h
  | _ => exact absurd rfl h

end Line

namespace Store

open Line (Timely)

variable [CacheKey K] {s : Store K V} {l : Line K V} {t : Instant}

theorem lastUse_le_of_stamp_lt (h : s.Listed l) (htimely : Timely l.entries t) {r : Recency K}
    (hr : r ∈ s.recency?) {a b : K} {e f : Entry V} {m n : Nat} (ha : s.entries[a]? = some e)
    (hb : s.entries[b]? = some f) (hm : r.stamps[a]? = some m) (hn : r.stamps[b]? = some n)
    (hlt : m < n) : e.lastUse ≤ f.lastUse := by
  have hstamps := Recency.pairwise_stamps (h.arranged.coherent r hr)
  rw [h.arranged.order r hr, List.pairwise_map] at hstamps
  have hboth := hstamps.and htimely.sorted
  obtain ⟨i, hi, hp⟩ := List.mem_iff_getElem.mp (h.arranged.mem_iff.mpr ha)
  obtain ⟨j, hj, hq⟩ := List.mem_iff_getElem.mp (h.arranged.mem_iff.mpr hb)
  rw [List.pairwise_iff_getElem] at hboth
  rcases Nat.lt_trichotomy i j with hij | rfl | hji
  · have hle := (hboth i j hi hj hij).2
    rwa [hp, hq] at hle
  · obtain ⟨rfl, rfl⟩ := Prod.mk.inj (hp.symm.trans hq)
    exact Nat.le_refl _
  · have hgt := (hboth j i hj hi hji).1 n m (by rwa [hq]) (by rwa [hp])
    omega

variable {now : Instant} {op : Op K V} {left : Nat}

theorem leaves_of_evicted (h : s.Kept l) {key : K} {value : V} {life : Duration}
    (hanswer : (s.insertFor key value life now).1 = .evicted left) :
    l.find? key = none ∧ ∃ p rest, l.entries = p :: rest ∧
      s.Leaves (s.insertFor key value life now).2 key (.write value life now) (· = p.1) := by
  have ha := l.admitted_insertFor key value life now
  rw [← (h.listed.insertFor key value life now).1, hanswer] at ha
  generalize (l.insertFor key value life now).2 = l' at ha
  cases ha with
  | evicted hzero hkey hfull hstill =>
    have hdead : l.deadCount now = 0 := by
      by_contra hne
      rw [Line.isFull_buryDead_of_dead h.fits (Nat.pos_of_ne_zero hne)] at hstill
      cases hstill
    obtain ⟨p, rest, hentries, hleaves, -⟩ := leaves_of_none_dead h hzero hkey hfull hdead
    exact ⟨hkey, p, rest, hentries, hleaves⟩

/-- An operation that gives up an entry gives up the one in front, and no other. -/
theorem step_of_evicted (h : s.Kept l) (hanswer : (s.step now op).1 = .admission (.evicted left)) :
    ∃ p rest, l.entries = p :: rest ∧ (s.step now op).2.entries[p.1]? = none ∧
      ∀ q ∈ rest, (s.step now op).2.entries[q.1]? = some q.2 := by
  have hwrite : ∃ key value life, (s.insertFor key value life now).1 = .evicted left ∧
      (s.step now op).2 = (s.insertFor key value life now).2 := by
    cases op with
    | insert key value => exact ⟨key, value, s.lifetime, Answer.admission.inj hanswer, rfl⟩
    | insertFor key value life => exact ⟨key, value, life, Answer.admission.inj hanswer, rfl⟩
    | _ => cases hanswer
  obtain ⟨key, value, life, hevicted, hstep⟩ := hwrite
  obtain ⟨hkey, p, rest, hentries, hleaves⟩ := leaves_of_evicted h hevicted
  have hne : ∀ q ∈ l.entries, q.1 ≠ key := fun q hq => Line.ne_of_find?_eq_none hkey hq
  have hkeys := h.listed.arranged.nodup_keys
  rw [hentries, List.map_cons, List.nodup_cons] at hkeys
  rw [hstep]
  refine ⟨p, rest, hentries, ?_, ?_⟩
  · rw [hleaves.others p.1 (hne p (by simp [hentries]))]
    simp
  · intro q hq
    have hmem : q ∈ l.entries := hentries ▸ List.mem_cons_of_mem p hq
    have hother : q.1 ≠ p.1 := fun heq => hkeys.1 (heq ▸ List.mem_map_of_mem hq)
    rw [hleaves.others q.1 (hne q hmem)]
    simpa [hother] using h.listed.arranged.mem_iff.mp hmem

/-- In a list in order, the entry that is given up was used before all that stay, and no later. -/
theorem earliest_of_evicted {past : List (Record K V)} (h : s.Kept l) (htimely : Timely l.entries t)
    (horder : Uses.InOrder Record.used? past (l.entries.map Prod.fst))
    (hzero : l.rules.capacity ≠ some 0)
    (hevictions : (s.step now op).2.counters.evictions ≠ s.counters.evictions) :
    ∃ victim e, s.entries[victim]? = some e ∧ (s.step now op).2.entries[victim]? = none ∧
      ∀ key f, s.entries[key]? = some f → key ≠ victim →
        (s.step now op).2.entries[key]? = some f ∧ e.lastUse ≤ f.lastUse ∧
          Uses.Earlier Record.used? past victim key := by
  obtain ⟨hsame, hlisted⟩ := listed_step h.listed now op
  rw [hlisted.counters, h.listed.counters] at hevictions
  obtain ⟨left, hanswer⟩ := Line.evicted_of_step hzero hevictions
  obtain ⟨p, rest, hentries, hgone, hstay⟩ := step_of_evicted h (hsame.trans hanswer)
  have hsorted := htimely.sorted
  rw [hentries, List.pairwise_cons] at hsorted
  have hearlier := horder.order
  rw [hentries, List.map_cons, List.pairwise_cons] at hearlier
  have hvictim : p ∈ l.entries := hentries ▸ List.mem_cons_self
  refine ⟨p.1, p.2, h.listed.arranged.mem_iff.mp hvictim, hgone, ?_⟩
  intro key f hf hne
  have hmem : (key, f) ∈ p :: rest := hentries ▸ h.listed.arranged.mem_iff.mpr hf
  have hrest : (key, f) ∈ rest := by
    apply (List.mem_cons.mp hmem).resolve_left
    rintro rfl
    exact hne rfl
  exact ⟨hstay _ hrest, hsorted.1 _ hrest, hearlier.1 key (List.mem_map_of_mem hrest)⟩

/-- As long as time does not go back, the stamps of a bounded store agree with the instants in its
entries: a smaller stamp never goes with a later last use. So whenever a store that takes entries at
all counts an eviction, the last use of the entry that goes was at the earliest instant of all that
are stored and, by the history, before that of any other; and no other goes with it. -/
theorem stamps_agree_with_lastUse (capacity : Nat) (lifetime : Duration) (policy : Policy)
    (ops : List (Instant × Op K V)) (hchron : Chronological ops) :
    let answers := ((empty (some capacity) lifetime policy : Store K V).run ops).1
    let s := ((empty (some capacity) lifetime policy : Store K V).run ops).2
    (∃ r, s.recency? = some r ∧ (∀ key, key ∈ r.stamps ↔ key ∈ s.entries) ∧
      ∀ (a b : K) (e f : Entry V) (m n : Nat), s.entries[a]? = some e → s.entries[b]? = some f →
        r.stamps[a]? = some m → r.stamps[b]? = some n → m < n → e.lastUse ≤ f.lastUse) ∧
    ∀ now op, capacity ≠ 0 → (s.step now op).2.counters.evictions ≠ s.counters.evictions →
      ∃ victim e, s.entries[victim]? = some e ∧ (s.step now op).2.entries[victim]? = none ∧
        ∀ key f, s.entries[key]? = some f → key ≠ victim →
          (s.step now op).2.entries[key]? = some f ∧ e.lastUse ≤ f.lastUse ∧
            Uses.Earlier Record.used? (history ops answers) victim key := by
  intro answers s
  let start : Line K V := { rules := ⟨some capacity, lifetime, policy⟩ }
  have hempty : (empty (some capacity) lifetime policy : Store K V).Kept start :=
    kept_empty (some capacity) lifetime policy
  have h : s.Kept (start.run ops).2 := kept_run hempty ops
  have hanswers : (start.run ops).1 = answers := (listed_run hempty.listed ops).1.symm
  have hnone : Timely start.entries .origin := ⟨List.Pairwise.nil, by simp [start]⟩
  obtain ⟨t, htimely⟩ := Line.timely_run hempty.fits hnone (since_origin ops) hchron
  have hstart : Uses.InOrder (Record.used? (V := V)) [] (start.entries.map Prod.fst) :=
    Uses.inOrder_nil Record.used? []
  have horder := Line.inOrder_run hempty.fits hstart ops
  rw [List.nil_append, hanswers] at horder
  have hrules : s.rules = start.rules := h.listed.rules.trans (start.rules_run ops)
  have hsome : s.recency?.isSome = true := by rw [isSome_recency?, hrules]; rfl
  obtain ⟨r, hr⟩ := Option.isSome_iff_exists.mp hsome
  refine ⟨⟨r, hr, h.coherent.tracked r hr, ?_⟩, ?_⟩
  · intro a b e f m n
    exact lastUse_le_of_stamp_lt h.listed htimely hr
  · intro now op hzero
    apply earliest_of_evicted h htimely horder
    rw [start.rules_run, ne_eq, Option.some.injEq]
    exact hzero

/-- Both entries were used last at the same instant, and the one that was used first goes. -/
theorem stamps_agree_with_lastUse_of_tie :
    let now : Instant := ⟨1_000_000_000, by decide⟩
    let ops : List (Instant × Op Nat Nat) :=
      [(.origin, .insert 1 10), (now, .insert 2 20), (now, .get 1)]
    let answers := ((empty (some 2) (.ofSeconds 9) .fixed : Store Nat Nat).run ops).1
    let s := ((empty (some 2) (.ofSeconds 9) .fixed : Store Nat Nat).run ops).2
    let s' := (s.step now (.insert 3 30)).2
    Chronological ops ∧ s'.counters.evictions ≠ s.counters.evictions ∧
      s'.entries[2]? = none ∧ s'.entries[1]? = some ⟨10, now, Instant.origin.add? (.ofSeconds 9)⟩ ∧
      Uses.Earlier Record.used? (history ops answers) 2 1 := by
  intro now ops answers s s'
  let start : Line Nat Nat := { rules := ⟨some 2, .ofSeconds 9, .fixed⟩ }
  have h : s.Listed (start.run ops).2 := (listed_run (listed_empty _ _ _) ops).2
  have h' : s'.Listed ((start.run ops).2.step now (.insert 3 30)).2 := (listed_step h now _).2
  have hchron : Chronological ops := by decide
  have hevictions : s'.counters.evictions ≠ s.counters.evictions := by
    rw [h'.counters, h.counters]
    decide
  have hgone : s'.entries[2]? = none := (h'.arranged.find?_eq 2).symm.trans (by decide)
  have hone : s.entries[1]? = some ⟨10, now, Instant.origin.add? (.ofSeconds 9)⟩ := by decide
  have htwo : s.entries[2]? = some ⟨20, now, now.add? (.ofSeconds 9)⟩ := by decide
  have hs : ((empty (some 2) (.ofSeconds 9) .fixed : Store Nat Nat).run ops).2 = s := rfl
  have hearliest := (stamps_agree_with_lastUse 2 (.ofSeconds 9) .fixed ops hchron).2 now
    (.insert 3 30) (by decide) hevictions
  rw [hs] at hearliest
  obtain ⟨victim, e, -, -, hothers⟩ := hearliest
  have heq : victim = 2 := by
    by_contra hne
    cases hgone.symm.trans (hothers 2 _ htwo (Ne.symm hne)).1
  subst heq
  obtain ⟨hstay, -, hearlier⟩ := hothers 1 _ hone (by decide)
  exact ⟨hchron, hevictions, hgone, hstay, hearlier⟩

end Store
end TimedCache
