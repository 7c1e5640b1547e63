import Mathlib.Data.List.Forall2
import Mathlib.Data.List.Perm.Subperm
import TimedCache.Proofs.Store.Coherence
import TimedCache.Proofs.Store.Fate

/-!
Stores whose entries live longer. Of two stores that live through the same operations at the same
times, the one whose writes and reads give no shorter lives, and that has no bound, has every entry
of the other, with a deadline that comes no sooner. It may have more, which the other has lost since
it died, so the two part at the first read that misses; but what both have stays in this order.
-/
namespace TimedCache

variable {K V : Type}

/-- A life that starts no sooner and is no shorter does not end sooner; one beyond the range of
clocks does not end at all, whether the other one does or not. -/
theorem Instant.exists_add?_le {t u : Instant} {d d' : Duration} (htu : t ≤ u) (h : d ≤ d') :
    ∀ later ∈ u.add? d', ∃ sooner ∈ t.add? d, sooner ≤ later := by
  intro later hlater
  have hnanos : later.nanos = u.nanos + d'.nanos := add?_eq_some_iff.mp hlater
  have hrange := later.inRange
  rw [le_iff] at htu
  rw [Duration.le_iff] at h
  refine ⟨⟨t.nanos + d.nanos, by omega⟩, add?_eq_some_iff.mpr rfl, ?_⟩
  rw [le_iff]
  show t.nanos + d.nanos ≤ later.nanos
  omega

/-- The policies agree on whether a read gives a new life, and the second gives no shorter ones. -/
inductive Policy.NoLonger : Policy → Policy → Prop
  | fixed : NoLonger .fixed .fixed
  | sliding {window window' : Duration} (h : window ≤ window') :
      NoLonger (.sliding window) (.sliding window')

namespace Entry

/-- The entry has the value of the other, and dies no sooner. -/
structure Outlasts (e' e : Entry V) : Prop where
  value : e'.value = e.value
  deadline : ∀ later ∈ e'.deadline, ∃ sooner ∈ e.deadline, sooner ≤ later

theorem outlasts_write {life life' : Duration} (h : life ≤ life') (value : V) (now : Instant) :
    (write value life' now).Outlasts (write value life now) :=
  ⟨rfl, Instant.exists_add?_le (Nat.le_refl now.nanos) h⟩

namespace Outlasts

variable {e' e : Entry V} {now : Instant}

theorem isDead_eq_false (h : e'.Outlasts e) (hlive : e.isDead now = false) :
    e'.isDead now = false := by
  rw [isDead_eq_false_iff] at hlive ⊢
  intro later hlater
  obtain ⟨sooner, hsooner, hle⟩ := h.deadline later hlater
  exact Nat.lt_of_lt_of_le (hlive sooner hsooner) hle

theorem read (h : e'.Outlasts e) {policy policy' : Policy} (hp : policy.NoLonger policy')
    (now : Instant) : (policy'.read e' now).Outlasts (policy.read e now) := by
  refine ⟨h.value, ?_⟩
  cases hp with
  | fixed => exact h.deadline
  | sliding hwindow => exact Instant.exists_add?_le (Nat.le_refl now.nanos) hwindow

end Outlasts
end Entry

namespace Line

/-- The list has no bound, and has an entry that outlasts it for each entry of the other. -/
structure Outlasts (l' l : Line K V) : Prop where
  policy : l.rules.policy.NoLonger l'.rules.policy
  unbounded : l'.rules.capacity = none
  entries : ∀ key e, (key, e) ∈ l.entries → ∃ e', (key, e') ∈ l'.entries ∧ e'.Outlasts e

theorem outlasts_empty (capacity : Option Nat) (short long : Duration) {policy policy' : Policy}
    (h : policy.NoLonger policy') :
    ({ rules := ⟨none, long, policy'⟩ } : Line K V).Outlasts
      { rules := ⟨capacity, short, policy⟩ } where
  policy := h
  unbounded := rfl
  entries _ _ he := absurd he List.not_mem_nil

namespace Outlasts

variable {l' l : Line K V}

theorem exists_living (h : l'.Outlasts l) (now : Instant) {key : K} {e : Entry V}
    (he : (key, e) ∈ living l.entries now) :
    ∃ e', (key, e') ∈ living l'.entries now ∧ e'.value = e.value := by
  simp only [living, List.mem_filter, Bool.not_eq_true'] at he ⊢
  obtain ⟨hmem, hlive⟩ := he
  obtain ⟨e', he', ho⟩ := h.entries key e hmem
  exact ⟨e', ⟨he', ho.isDead_eq_false hlive⟩, ho.value⟩

theorem length_living_le (h : l'.Outlasts l) (hkeys : l.Distinct) (now : Instant) :
    (living l.entries now).length ≤ (living l'.entries now).length := by
  have hnodup : ((living l.entries now).map Prod.fst).Nodup :=
    hkeys.sublist (List.filter_sublist.map Prod.fst)
  have hsubset : (living l.entries now).map Prod.fst ⊆ (living l'.entries now).map Prod.fst := by
    intro key hkey
    obtain ⟨⟨_, e⟩, he, rfl⟩ := List.mem_map.mp hkey
    obtain ⟨e', he', -⟩ := h.exists_living now he
    exact List.mem_map.mpr ⟨_, he', rfl⟩
  simpa using (hnodup.subperm hsubset).length_le

end Outlasts
end Line

variable [CacheKey K]

namespace Store

/-- The same operation, but that the second writes for a life that is no shorter: its own, or that
of all writes without one. -/
inductive Op.NoLonger (short long : Duration) : Op K V → Op K V → Prop
  | insert (key : K) (value : V) (h : short ≤ long) :
      NoLonger short long (.insert key value) (.insert key value)
  | insertFor (key : K) (value : V) {life life' : Duration} (h : life ≤ life') :
      NoLonger short long (.insertFor key value life) (.insertFor key value life')
  | same (op : Op K V) (h : ∀ key, op.written? short key = none) : NoLonger short long op op

namespace Op.NoLonger

variable {short long : Duration} {op op' : Op K V} {key : K}

theorem written?_eq_some (h : op.NoLonger short long op') {value : V} {life : Duration}
    (hwrite : op.written? short key = some (value, life)) :
    ∃ life', op'.written? long key = some (value, life') ∧ life ≤ life' := by
  cases h with
  | insert k v hle | insertFor k v hle =>
    obtain ⟨rfl, hpair⟩ := Option.ite_none_right_eq_some.mp hwrite
    obtain ⟨rfl, rfl⟩ := Prod.mk.inj (Option.some.inj hpair)
    exact ⟨_, if_pos rfl, hle⟩
  | same _ hnone =>
    rw [hnone key] at hwrite
    cases hwrite

theorem written?_eq_none (h : op.NoLonger short long op') (hwrite : op.written? short key = none) :
    op'.written? long key = none := by
  cases h with
  | insert k v hle | insertFor k v hle =>
    exact if_neg fun hkey => by simp [written?, hkey] at hwrite
  | same _ hnone =>
    cases op with
    | insert k v =>
      have hk := hnone k
      simp [written?] at hk
    | _ => exact hwrite

theorem removes_eq (h : op.NoLonger short long op') : op'.removes key = op.removes key := by
  cases h <;> rfl

theorem eq_get_iff (h : op.NoLonger short long op') : op' = .get key ↔ op = .get key := by
  cases h <;> simp

theorem eq_sweep_iff (h : op.NoLonger short long op') : op' = .sweep ↔ op = .sweep := by
  cases h <;> simp

end Op.NoLonger
end Store

namespace Line.Outlasts

variable {l' l : Line K V}

theorem step (h : l'.Outlasts l) (hfits : l.Fits) (hkeys : l'.Distinct) {op op' : Store.Op K V}
    (hop : op.NoLonger l.rules.lifetime l'.rules.lifetime op') (now : Instant) :
    (l'.step now op').2.Outlasts (l.step now op).2 := by
  have hrules := l.rules_step now op
  have hrules' := l'.rules_step now op'
  refine ⟨by rw [hrules, hrules']; exact h.policy, by rw [hrules']; exact h.unbounded, ?_⟩
  intro key e he
  -- Only what the first list has left is of interest: how it came there leads to its counterpart.
  cases fate_of_mem hfits he with
  | written hwrite =>
    obtain ⟨life', hwrite', hle⟩ := hop.written?_eq_some hwrite
    exact ⟨_, mem_step_of_written h.unbounded hwrite', Entry.outlasts_write hle _ now⟩
  | @read e hread hfind hlive =>
    obtain ⟨e', he', ho⟩ := h.entries key e (mem_of_find? hfind)
    have hfind' : l'.find? key = some e' := (find?_eq_some_iff hkeys).mpr he'
    refine ⟨l'.rules.policy.read e' now, ?_, ho.read h.policy now⟩
    rw [hop.eq_get_iff.mpr hread]
    exact mem_get_self hfind' (ho.isDead_eq_false hlive)
  | kept hmem hwrite hremoves hread hsweep =>
    obtain ⟨e', he', ho⟩ := h.entries key e hmem
    refine ⟨e', mem_step h.unbounded he' (hop.written?_eq_none hwrite) ?_ ?_ ?_, ho⟩
    · rw [hop.removes_eq]
      exact hremoves
    · rw [ne_eq, hop.eq_get_iff]
      exact hread
    · rw [hop.eq_sweep_iff]
      exact fun hop => ho.isDead_eq_false (hsweep hop)

theorem get_eq_some (h : l'.Outlasts l) (hkeys : l'.Distinct) {key : K} {now : Instant} {value : V}
    (hget : (l.get key now).1 = some value) : (l'.get key now).1 = some value := by
  rw [get_eq_some_iff] at hget ⊢
  obtain ⟨e, hfind, hlive, rfl⟩ := hget
  obtain ⟨e', he', ho⟩ := h.entries key e (mem_of_find? hfind)
  exact ⟨e', (find?_eq_some_iff hkeys).mpr he', ho.isDead_eq_false hlive, ho.value⟩

theorem contains (h : l'.Outlasts l) (hkeys : l'.Distinct) {key : K} {now : Instant}
    (hcontains : l.contains key now = true) : l'.contains key now = true := by
  simp only [Line.contains, Option.any_eq_true, Bool.not_eq_true'] at hcontains ⊢
  obtain ⟨e, hfind, hlive⟩ := hcontains
  obtain ⟨e', he', ho⟩ := h.entries key e (mem_of_find? hfind)
  exact ⟨e', (find?_eq_some_iff hkeys).mpr he', ho.isDead_eq_false hlive⟩

theorem items_subset (h : l'.Outlasts l) (now : Instant) : l.items now ⊆ l'.items now := by
  intro item hitem
  rw [items, (Item.perm_listing _).mem_iff, List.mem_map] at hitem ⊢
  obtain ⟨⟨key, e⟩, he, rfl⟩ := hitem
  obtain ⟨e', he', hvalue⟩ := h.exists_living now he
  exact ⟨(key, e'), he', by rw [hvalue]⟩

end Line.Outlasts

namespace Store

def NoLonger (short long : Duration) : List (Instant × Op K V) → List (Instant × Op K V) → Prop :=
  List.Forall₂ fun a b => a.1 = b.1 ∧ a.2.NoLonger short long b.2

theorem Kept.outlasts_run {s s' : Store K V} {l l' : Line K V} (h : s.Kept l) (h' : s'.Kept l')
    (ho : l'.Outlasts l) {ops ops' : List (Instant × Op K V)}
    (hops : NoLonger l.rules.lifetime l'.rules.lifetime ops ops') :
    (l'.run ops').2.Outlasts (l.run ops).2 := by
  induction ops generalizing s s' l l' ops' with
  | nil =>
    cases hops
    exact ho
  | cons first rest ih =>
    obtain ⟨now, op⟩ := first
    cases hops with
    | @cons _ first' _ rest' hop hrest =>
      obtain ⟨now', op'⟩ := first'
      obtain ⟨rfl, hop⟩ := hop
      apply ih (kept_step h now op) (kept_step h' now op')
      · exact ho.step h.fits h'.listed.arranged.nodup_keys hop now
      · rw [Line.rules_step, Line.rules_step]
        exact hrest

/-- Longer lives never cost readers anything. At every step of two runs that differ in lives alone,
whatever a store shows, a store without a bound shows that gives longer lives. -/
theorem reads_of_longer_lives (capacity : Option Nat) (short long : Duration)
    (policy policy' : Policy) (ops ops' : List (Instant × Op K V))
    (hpolicy : policy.NoLonger policy') (hops : NoLonger short long ops ops') (i : Nat)
    (now : Instant) :
    let s := ((empty capacity short policy : Store K V).run (ops.take i)).2
    let s' := ((empty none long policy' : Store K V).run (ops'.take i)).2
    (∀ key value, (s.get key now).1 = some value → (s'.get key now).1 = some value) ∧
      (∀ key, s.contains key now = true → s'.contains key now = true) ∧
      s.items now ⊆ s'.items now ∧ s.liveSize now ≤ s'.liveSize now := by
  intro s s'
  let l : Line K V := { rules := ⟨capacity, short, policy⟩ }
  let l' : Line K V := { rules := ⟨none, long, policy'⟩ }
  have hempty : (empty capacity short policy : Store K V).Kept l :=
    kept_empty capacity short policy
  have hempty' : (empty none long policy' : Store K V).Kept l' := kept_empty none long policy'
  have hstart : l'.Outlasts l := Line.outlasts_empty capacity short long hpolicy
  have hs := (kept_run hempty (ops.take i)).listed
  have hs' := (kept_run hempty' (ops'.take i)).listed
  have hprefix : NoLonger short long (ops.take i) (ops'.take i) := List.forall₂_take i hops
  have ho := hempty.outlasts_run hempty' hstart hprefix
  have hkeys' := hs'.arranged.nodup_keys
  refine ⟨?_, ?_, ?_, ?_⟩
  · intro key value hget
    rw [(hs.get key now).1] at hget
    rw [(hs'.get key now).1]
    exact ho.get_eq_some hkeys' hget
  · intro key hcontains
    rw [hs.contains] at hcontains
    rw [hs'.contains]
    exact ho.contains hkeys' hcontains
  · rw [hs.items, hs'.items]
    exact ho.items_subset now
  · rw [hs.liveSize, hs'.liveSize]
    exact ho.length_living_le hs.arranged.nodup_keys now

/-- The longest lives end after all clocks. What the first store has lost the second still has, and
what was written anew both have. -/
theorem reads_of_longer_lives_four :
    let now : Instant := ⟨2_000_000_000, by decide⟩
    let ops (life : Duration) : List (Instant × Op Nat Nat) :=
      [(.origin, .insert 1 10), (.origin, .insertFor 2 20 life), (now, .get 1),
        (now, .insert 1 11)]
    let policy : Policy := .sliding (.ofSeconds 1)
    let policy' : Policy := .sliding .longest
    let s := ((empty none (.ofSeconds 1) policy : Store Nat Nat).run (ops (.ofSeconds 1))).2
    let s' := ((empty none .longest policy' : Store Nat Nat).run (ops (.ofSeconds 5))).2
    policy.NoLonger policy' ∧
      NoLonger (.ofSeconds 1) .longest (ops (.ofSeconds 1)) (ops (.ofSeconds 5)) ∧
      (s.get 1 now).1 = some 11 ∧ (s'.get 1 now).1 = some 11 ∧
      (s.get 2 now).1 = none ∧ (s'.get 2 now).1 = some 20 := by
  intro now ops policy policy' s s'
  have hpolicy : policy.NoLonger policy' := .sliding (by decide)
  have hops : NoLonger (.ofSeconds 1) .longest (ops (.ofSeconds 1)) (ops (.ofSeconds 5)) :=
    .cons ⟨rfl, .insert 1 10 (by decide)⟩ <| .cons ⟨rfl, .insertFor 2 20 (by decide)⟩ <|
      .cons ⟨rfl, .same (.get 1) fun _ => rfl⟩ <| .cons ⟨rfl, .insert 1 11 (by decide)⟩ .nil
  have hreads := reads_of_longer_lives none (.ofSeconds 1) .longest policy policy'
    (ops (.ofSeconds 1)) (ops (.ofSeconds 5)) hpolicy hops 4 now
  have hget : (s.get 1 now).1 = some 11 := by decide
  exact ⟨hpolicy, hops, hget, hreads.1 1 11 hget, by decide, by decide⟩

end Store
end TimedCache
