import TimedCache.Proofs.Store.Balance
import TimedCache.Proofs.Store.Retention

/-!
Clients that share a store but no keys. As long as the keys that are written leave room, no entry
goes because of another one, whatever the times; so each client is answered as if it were alone, and
what the store ends up with is what the clients would have, side by side.
-/
namespace TimedCache

/-- The third list has the elements of the other two, each of them in its own order. -/
inductive Interleaving {α : Type} : List α → List α → List α → Prop
  | nil : Interleaving [] [] []
  | left (x : α) {xs ys both : List α} (h : Interleaving xs ys both) :
      Interleaving (x :: xs) ys (x :: both)
  | right (y : α) {xs ys both : List α} (h : Interleaving xs ys both) :
      Interleaving xs (y :: ys) (y :: both)

namespace Interleaving

variable {α : Type} {xs ys both : List α} {x : α} {p : α → Bool}

theorem symm (h : Interleaving xs ys both) : Interleaving ys xs both := by
  induction h with
  | nil => exact .nil
  | left x _ ih => exact .right x ih
  | right y _ ih => exact .left y ih

theorem mem_iff (h : Interleaving xs ys both) : x ∈ both ↔ x ∈ xs ∨ x ∈ ys := by
  induction h with
  | nil => simp
  | left _ _ ih => simp [ih, or_assoc]
  | right _ _ ih => simp [ih, or_left_comm]

theorem filter_eq (h : Interleaving xs ys both) (hx : ∀ x ∈ xs, p x = true)
    (hy : ∀ y ∈ ys, p y = false) : both.filter p = xs := by
  induction h with
  | nil => rfl
  | left x _ ih =>
    rw [List.forall_mem_cons] at hx
    rw [List.filter_cons_of_pos hx.1, ih hx.2 hy]
  | right y _ ih =>
    rw [List.forall_mem_cons] at hy
    rw [List.filter_cons_of_neg (by simp [hy.1]), ih hx hy.2]

end Interleaving

namespace Counters

instance : Add Counters where
  add a b :=
    { hits := a.hits + b.hits
      misses := a.misses + b.misses
      evictions := a.evictions + b.evictions
      expirations := a.expirations + b.expirations
      sweeps := a.sweeps + b.sweeps
      entries := a.entries + b.entries }

theorem add_def (a b : Counters) : a + b =
    { hits := a.hits + b.hits
      misses := a.misses + b.misses
      evictions := a.evictions + b.evictions
      expirations := a.expirations + b.expirations
      sweeps := a.sweeps + b.sweeps
      entries := a.entries + b.entries } := rfl

theorem add_comm (a b : Counters) : a + b = b + a := by
  simp only [add_def, Nat.add_comm]

theorem hit_add (a b : Counters) : (a + b).hit = a.hit + b := by
  simp only [add_def, hit, Nat.add_right_comm]

theorem miss_add (a b : Counters) : (a + b).miss = a.miss + b := by
  simp only [add_def, miss, Nat.add_right_comm]

theorem expire_add (a b : Counters) (n : Nat) : (a + b).expire n = a.expire n + b := by
  simp only [add_def, expire, Nat.add_right_comm]

theorem hold_add_hold (a b : Counters) (m n : Nat) : a.hold m + b.hold n = (a + b).hold (m + n) :=
  rfl

end Counters

variable {K V : Type}

namespace Store

def Op.key? : Op K V → Option K
  | .insert key _ | .insertFor key _ _ | .get key | .contains key | .erase key => some key
  | .clear | .sweep | .items | .liveSize => none

def Op.writtenKey? : Op K V → Option K
  | .insert key _ | .insertFor key _ _ => some key
  | _ => none

theorem Op.key?_of_writtenKey? {op : Op K V} {key : K} (h : op.writtenKey? = some key) :
    op.key? = some key := by
  cases op with
  | insert | insertFor => exact h
  | _ => cases h

variable [CacheKey K]

/-- The keys that are written in a run, each of them once. -/
def writtenKeys (ops : List (Instant × Op K V)) : Finset K :=
  (ops.filterMap fun o => o.2.writtenKey?).toFinset

theorem mem_writtenKeys_iff {ops : List (Instant × Op K V)} {key : K} :
    key ∈ writtenKeys ops ↔ ∃ o ∈ ops, o.2.writtenKey? = some key := by
  rw [writtenKeys, List.mem_toFinset, List.mem_filterMap]

end Store

namespace Line

/-- The list has room for all of the keys, has no others, and has given up nothing. -/
structure Roomy (l : Line K V) (keys : Finset K) : Prop where
  distinct : l.Distinct
  mem : ∀ p ∈ l.entries, p.1 ∈ keys
  room : ∀ n ∈ l.rules.capacity, keys.card ≤ n
  evictions : l.tally.evictions = 0

variable {l l' l₁ l₂ : Line K V} {keys keys₁ keys₂ : Finset K} {key : K} {e : Entry V}
  {now : Instant} {op : Store.Op K V}

namespace Roomy

theorem shrink (h : l.Roomy keys) (hsub : l'.entries.Sublist l.entries)
    (hrules : l'.rules = l.rules) (hevictions : l'.tally.evictions = l.tally.evictions) :
    l'.Roomy keys where
  distinct := h.distinct.sublist (hsub.map _)
  mem p hp := h.mem p (hsub.subset hp)
  room := hrules ▸ h.room
  evictions := hevictions.trans h.evictions

theorem note (h : l.Roomy keys) {f : Counters → Counters}
    (hf : ∀ c, (f c).evictions = c.evictions) : (l.note f).Roomy keys :=
  h.shrink (List.Sublist.refl _) rfl (hf _)

variable [CacheKey K]

theorem find?_eq_none (h : l.Roomy keys) (hkey : key ∉ keys) : l.find? key = none :=
  find?_eq_none_of_forall fun p hp heq => hkey (heq ▸ h.mem p hp)

/-- A key that is not there finds room, as it is itself one of the keys that there is room for. -/
theorem isFull_eq_false (h : l.Roomy keys) (hkey : key ∈ keys) (hnone : l.find? key = none) :
    l.isFull = false := by
  apply Rules.isFull_eq_false_iff.mpr
  intro n hn
  -- Dead entries take room as well, but each of them has one of the keys, and none has this one.
  have hsub : (l.entries.map Prod.fst).toFinset ⊂ keys := by
    rw [Finset.ssubset_iff_of_subset]
    · exact ⟨key, hkey, by simpa using not_mem_keys_of_find?_eq_none hnone⟩
    · intro k hk
      obtain ⟨p, hp, rfl⟩ := List.mem_map.mp (List.mem_toFinset.mp hk)
      exact h.mem p hp
  have hlt := Finset.card_lt_card hsub
  rw [List.toFinset_card_of_nodup h.distinct, List.length_map] at hlt
  exact Nat.lt_of_lt_of_le hlt (h.room n hn)

theorem insertFor_eq (h : l.Roomy keys) (hkey : key ∈ keys) (value : V) (life : Duration) :
    l.insertFor key value life now =
      (if (l.find? key).isSome then .replaced else .added,
        l.place key (.write value life now)) := by
  have hzero : l.rules.capacity ≠ some 0 := by
    intro hzero
    have hcard := h.room 0 hzero
    rw [Nat.le_zero, Finset.card_eq_zero] at hcard
    simp [hcard] at hkey
  cases hfind : l.find? key with
  | none => simp [insertFor, hzero, hfind, makeRoom, h.isFull_eq_false hkey hfind]
  | some e => simp [insertFor, hzero, hfind]

theorem erase (h : l.Roomy keys) (key : K) : (l.erase key).Roomy keys :=
  h.shrink List.filter_sublist rfl rfl

theorem place (h : l.Roomy keys) (hkey : key ∈ keys) (e : Entry V) :
    (l.place key e).Roomy keys where
  distinct := by
    rw [Distinct, Line.place, List.map_append, keys_without]
    exact Listing.nodup_filter_append h.distinct key
  mem p hp := by
    rcases mem_place_iff.mp hp with ⟨hmem, -⟩ | rfl
    · exact h.mem p hmem
    · exact hkey
  room := h.room
  evictions := h.evictions

theorem get (h : l.Roomy keys) (key : K) (now : Instant) : (l.get key now).2.Roomy keys := by
  cases he : l.find? key with
  | none =>
    rw [get_of_none he]
    exact h.note fun _ => rfl
  | some e =>
    cases hdead : e.isDead now with
    | true =>
      rw [get_of_dead he hdead]
      exact (h.erase key).note (f := fun c => (c.expire 1).miss) fun _ => rfl
    | false =>
      rw [get_of_live he hdead]
      exact (h.place (h.mem _ (mem_of_find? he)) _).note fun _ => rfl

theorem step (h : l.Roomy keys) (hkeys : ∀ k ∈ op.writtenKey?, k ∈ keys) (now : Instant) :
    (l.step now op).2.Roomy keys := by
  cases op with
  | insert key value | insertFor key value life =>
    show (l.insertFor key value _ now).2.Roomy keys
    rw [h.insertFor_eq (hkeys key rfl)]
    exact h.place (hkeys key rfl) _
  | get key => exact h.get key now
  | erase key => exact h.erase key
  | clear => exact h.shrink (List.nil_sublist _) rfl rfl
  | sweep => exact h.shrink List.filter_sublist rfl rfl
  | contains | items | liveSize => exact h

end Roomy

/-- The list has what the other two have together, and has counted what they have counted. -/
structure Shared (l l₁ l₂ : Line K V) : Prop where
  lifetimes : l.rules.lifetime = l₁.rules.lifetime ∧ l.rules.lifetime = l₂.rules.lifetime
  policies : l.rules.policy = l₁.rules.policy ∧ l.rules.policy = l₂.rules.policy
  perm : l.entries.Perm (l₁.entries ++ l₂.entries)
  tally : l.tally = l₁.tally + l₂.tally

namespace Shared

theorem symm (h : l.Shared l₁ l₂) : l.Shared l₂ l₁ where
  lifetimes := h.lifetimes.symm
  policies := h.policies.symm
  perm := h.perm.trans List.perm_append_comm
  tally := h.tally.trans (Counters.add_comm _ _)

theorem note (h : l.Shared l₁ l₂) {f : Counters → Counters} (hf : ∀ a b, f (a + b) = f a + b) :
    (l.note f).Shared (l₁.note f) l₂ :=
  { h with tally := (congrArg f h.tally).trans (hf _ _) }

theorem counters (h : l.Shared l₁ l₂) : l.counters = l₁.counters + l₂.counters := by
  rw [Line.counters, h.tally, h.perm.length_eq, List.length_append, ← Counters.hold_add_hold]
  rfl

variable [CacheKey K]

theorem find?_eq (h : l.Shared l₁ l₂) (hkeys : l.Distinct) (hnone : l₂.find? key = none) :
    l.find? key = l₁.find? key := by
  cases hfind : l₁.find? key with
  | none =>
    apply find?_eq_none_of_forall
    intro p hp
    rcases List.mem_append.mp (h.perm.mem_iff.mp hp) with hp | hp
    · exact ne_of_find?_eq_none hfind hp
    · exact ne_of_find?_eq_none hnone hp
  | some e =>
    rw [find?_eq_some_iff hkeys, h.perm.mem_iff]
    exact List.mem_append_left _ (mem_of_find? hfind)

theorem none_or_none (h : l.Shared l₁ l₂) (hkeys : l.Distinct) (key : K) :
    l₁.find? key = none ∨ l₂.find? key = none := by
  rw [Distinct, (h.perm.map Prod.fst).nodup_iff, List.map_append, List.nodup_append] at hkeys
  cases hfind : l₂.find? key with
  | none => exact .inr rfl
  | some e =>
    left
    apply find?_eq_none_of_forall
    intro p hp
    exact hkeys.2.2 _ (List.mem_map_of_mem hp) key (List.mem_map_of_mem (mem_of_find? hfind))

theorem find?_eq_or (h : l.Shared l₁ l₂) (hkeys : l.Distinct) (key : K) :
    l.find? key = (l₁.find? key).or (l₂.find? key) := by
  rcases h.none_or_none hkeys key with hnone | hnone
  · rw [h.symm.find?_eq hkeys hnone, hnone, Option.none_or]
  · rw [h.find?_eq hkeys hnone, hnone, Option.or_none]

theorem without_perm (h : l.Shared l₁ l₂) (hnone : l₂.find? key = none) :
    (without l.entries key).Perm (without l₁.entries key ++ l₂.entries) := by
  have hfilter := h.perm.filter fun p => decide (p.1 ≠ key)
  rw [List.filter_append] at hfilter
  rw [← without_of_none hnone]
  exact hfilter

theorem erase (h : l.Shared l₁ l₂) (hnone : l₂.find? key = none) :
    (l.erase key).Shared (l₁.erase key) l₂ :=
  { h with perm := h.without_perm hnone }

theorem place (h : l.Shared l₁ l₂) (hnone : l₂.find? key = none) (e : Entry V) :
    (l.place key e).Shared (l₁.place key e) l₂ :=
  { h with
    perm := by
      show (without l.entries key ++ [(key, e)]).Perm
        (without l₁.entries key ++ [(key, e)] ++ l₂.entries)
      apply ((h.without_perm hnone).append_right _).trans
      rw [List.append_assoc, List.append_assoc]
      exact List.perm_append_comm.append_left _ }

theorem insertFor (h : l.Shared l₁ l₂) (hl : l.Roomy keys) (h₁ : l₁.Roomy keys₁)
    (hkey : key ∈ keys) (hkey₁ : key ∈ keys₁) (hnone : l₂.find? key = none) (value : V)
    (life : Duration) (now : Instant) :
    (l.insertFor key value life now).1 = (l₁.insertFor key value life now).1 ∧
      (l.insertFor key value life now).2.Shared (l₁.insertFor key value life now).2 l₂ := by
  rw [hl.insertFor_eq hkey, h₁.insertFor_eq hkey₁, h.find?_eq hl.distinct hnone]
  exact ⟨rfl, h.place hnone _⟩

theorem get (h : l.Shared l₁ l₂) (hkeys : l.Distinct) (hnone : l₂.find? key = none)
    (now : Instant) :
    (l.get key now).1 = (l₁.get key now).1 ∧ (l.get key now).2.Shared (l₁.get key now).2 l₂ := by
  have hfind := h.find?_eq hkeys hnone
  cases he : l₁.find? key with
  | none =>
    rw [get_of_none he, get_of_none (hfind.trans he)]
    exact ⟨rfl, h.note Counters.miss_add⟩
  | some e =>
    cases hdead : e.isDead now with
    | true =>
      rw [get_of_dead he hdead, get_of_dead (hfind.trans he) hdead]
      refine ⟨rfl, (h.erase hnone).note (f := fun c => (c.expire 1).miss) ?_⟩
      intro a b
      rw [Counters.expire_add, Counters.miss_add]
    | false =>
      rw [get_of_live he hdead, get_of_live (hfind.trans he) hdead, h.policies.1]
      exact ⟨rfl, (h.place hnone _).note Counters.hit_add⟩

/-- An operation on a key that only the first has leaves the second alone, and is answered as by the
first. -/
theorem step (h : l.Shared l₁ l₂) (hl : l.Roomy keys) (h₁ : l₁.Roomy keys₁)
    (hkeys : ∀ k ∈ op.writtenKey?, k ∈ keys ∧ k ∈ keys₁) (hkey : op.key? = some key)
    (hnone : l₂.find? key = none) (now : Instant) :
    (l.step now op).1 = (l₁.step now op).1 ∧
      (l.step now op).2.Shared (l₁.step now op).2 l₂ := by
  have hfind := h.find?_eq hl.distinct hnone
  cases op with
  | insert k value =>
    obtain rfl : k = key := Option.some.inj hkey
    obtain ⟨hk, hk₁⟩ := hkeys k rfl
    have hinsert := h.insertFor hl h₁ hk hk₁ hnone value l.rules.lifetime now
    show .admission (l.insertFor k value l.rules.lifetime now).1 =
        Store.Answer.admission (l₁.insertFor k value l₁.rules.lifetime now).1 ∧
      (l.insertFor k value l.rules.lifetime now).2.Shared
        (l₁.insertFor k value l₁.rules.lifetime now).2 l₂
    rw [← h.lifetimes.1]
    exact ⟨congrArg Store.Answer.admission hinsert.1, hinsert.2⟩
  | insertFor k value life =>
    obtain rfl : k = key := Option.some.inj hkey
    obtain ⟨hk, hk₁⟩ := hkeys k rfl
    have hinsert := h.insertFor hl h₁ hk hk₁ hnone value life now
    exact ⟨congrArg Store.Answer.admission hinsert.1, hinsert.2⟩
  | get k =>
    obtain rfl : k = key := Option.some.inj hkey
    have hget := h.get hl.distinct hnone now
    exact ⟨congrArg Store.Answer.value hget.1, hget.2⟩
  | contains k =>
    obtain rfl : k = key := Option.some.inj hkey
    refine ⟨?_, h⟩
    show Store.Answer.flag (l.contains k now) = .flag (l₁.contains k now)
    rw [contains, contains, hfind]
  | erase k =>
    obtain rfl : k = key := Option.some.inj hkey
    refine ⟨?_, h.erase hnone⟩
    show Store.Answer.flag (l.find? k).isSome = .flag (l₁.find? k).isSome
    rw [hfind]
  | clear | sweep | items | liveSize => cases hkey

end Shared

variable [CacheKey K]

/-- The operations have a key each, write no keys but their own, and leave the others alone. -/
def Apart (ops : List (Instant × Store.Op K V)) (own others : Finset K) : Prop :=
  ∀ o ∈ ops, (∀ k ∈ o.2.writtenKey?, k ∈ own) ∧ ∃ key, o.2.key? = some key ∧ key ∉ others

theorem Shared.next {rest : List (Instant × Store.Op K V)} (h : l.Shared l₁ l₂) (hl : l.Roomy keys)
    (h₁ : l₁.Roomy keys₁) (h₂ : l₂.Roomy keys₂) (hsub : keys₁ ⊆ keys)
    (hops : Apart ((now, op) :: rest) keys₁ keys₂) :
    l.record now op = l₁.record now op ∧ (l.step now op).2.Shared (l₁.step now op).2 l₂ ∧
      (l.step now op).2.Roomy keys ∧ (l₁.step now op).2.Roomy keys₁ ∧ Apart rest keys₁ keys₂ := by
  rw [Apart, List.forall_mem_cons] at hops
  obtain ⟨⟨hown, key, hkey, hother⟩, hrest⟩ := hops
  have hkeys : ∀ k ∈ op.writtenKey?, k ∈ keys := fun k hk => hsub (hown k hk)
  obtain ⟨hanswer, hstep⟩ := h.step hl h₁ (fun k hk => ⟨hkeys k hk, hown k hk⟩) hkey
    (h₂.find?_eq_none hother) now
  exact ⟨congrArg (Store.Record.mk now op) hanswer, hstep, hl.step hkeys now, h₁.step hown now,
    hrest⟩

theorem shared_run {left right both : List (Instant × Store.Op K V)}
    (hboth : Interleaving left right both) (h : l.Shared l₁ l₂) (hl : l.Roomy (keys₁ ∪ keys₂))
    (h₁ : l₁.Roomy keys₁) (h₂ : l₂.Roomy keys₂) (hleft : Apart left keys₁ keys₂)
    (hright : Apart right keys₂ keys₁) :
    Interleaving (Store.history left (l₁.run left).1) (Store.history right (l₂.run right).1)
        (Store.history both (l.run both).1) ∧
      (l.run both).2.Shared (l₁.run left).2 (l₂.run right).2 ∧
      (l.run both).2.Roomy (keys₁ ∪ keys₂) := by
  induction hboth generalizing l l₁ l₂ with
  | nil => exact ⟨.nil, h, hl⟩
  | left o _ ih =>
    obtain ⟨now, op⟩ := o
    obtain ⟨hrecord, hstep, hl', h₁', hrest⟩ :=
      h.next hl h₁ h₂ Finset.subset_union_left hleft
    obtain ⟨hhistory, hlast⟩ := ih hstep hl' h₁' h₂ hrest hright
    refine ⟨?_, hlast⟩
    show Interleaving (l₁.record now op :: _) _ (l.record now op :: _)
    rw [hrecord]
    exact hhistory.left _
  | right o _ ih =>
    obtain ⟨now, op⟩ := o
    obtain ⟨hrecord, hstep, hl', h₂', hrest⟩ :=
      h.symm.next hl h₂ h₁ Finset.subset_union_right hright
    obtain ⟨hhistory, hlast⟩ := ih hstep.symm hl' h₁ h₂' hleft hrest
    refine ⟨?_, hlast⟩
    show Interleaving _ (l₂.record now op :: _) (l.record now op :: _)
    rw [hrecord]
    exact hhistory.right _

end Line

namespace Store

variable {left right both : List (Instant × Op K V)}

theorem roomy_empty {capacity : Option Nat} {keys : Finset K}
    (hroom : ∀ n ∈ capacity, keys.card ≤ n) (lifetime : Duration) (policy : Policy) :
    Line.Roomy ({ rules := ⟨capacity, lifetime, policy⟩ } : Line K V) keys where
  distinct := List.nodup_nil
  mem _ hp := absurd hp List.not_mem_nil
  room := hroom
  evictions := rfl

variable [CacheKey K]

theorem writtenKeys_union (hboth : Interleaving left right both) :
    writtenKeys left ∪ writtenKeys right = writtenKeys both := by
  ext key
  simp only [Finset.mem_union, mem_writtenKeys_iff, hboth.mem_iff, or_and_right, exists_or]

theorem apart_of_keys (hkeyed : ∀ o ∈ left, o.2.key?.isSome = true)
    (hkeys : ∀ a ∈ left, ∀ b ∈ right, a.2.key? ≠ b.2.key?) :
    Line.Apart left (writtenKeys left) (writtenKeys right) := by
  intro o ho
  obtain ⟨key, hkey⟩ := Option.isSome_iff_exists.mp (hkeyed o ho)
  refine ⟨fun k hk => mem_writtenKeys_iff.mpr ⟨o, ho, hk⟩, key, hkey, ?_⟩
  intro hother
  obtain ⟨b, hb, hwritten⟩ := mem_writtenKeys_iff.mp hother
  exact hkeys o ho b hb (hkey.trans (Op.key?_of_writtenKey? hwritten).symm)

def recordsOf (ops : List (Instant × Op K V)) (records : List (Record K V)) : List (Record K V) :=
  records.filter fun r => r.op.key? ∈ ops.map fun o => o.2.key?

theorem recordsOf_eq {l₁ l₂ : Line K V} {records : List (Record K V)}
    (h : Interleaving (history left (l₁.run left).1) (history right (l₂.run right).1) records)
    (hkeys : ∀ a ∈ left, ∀ b ∈ right, a.2.key? ≠ b.2.key?) :
    recordsOf left records = history left (l₁.run left).1 := by
  apply h.filter_eq
  · intro r hr
    exact decide_eq_true (List.mem_map_of_mem (mem_of_mem_history hr))
  · intro r hr
    apply decide_eq_false
    intro hmem
    obtain ⟨a, ha, hkey⟩ := List.mem_map.mp hmem
    exact hkeys a ha _ (mem_of_mem_history hr) hkey

/-- Two clients that have no key in common may share a store in any order and at any times. If there
is room for all the keys that they write, each is answered as it would be alone, with whatever room
there would be for these keys then; the store ends up with the entries of both, none of them lost or
changed, and with the sums of the counters, and nothing is given up. -/
theorem clients_do_not_meet (capacity capacity₁ capacity₂ : Option Nat) (lifetime : Duration)
    (policy : Policy) (left right both : List (Instant × Op K V))
    (hboth : Interleaving left right both) (hkeyed : ∀ o ∈ both, o.2.key?.isSome = true)
    (hkeys : ∀ a ∈ left, ∀ b ∈ right, a.2.key? ≠ b.2.key?)
    (hroom : ∀ c ∈ [capacity, capacity₁, capacity₂], ∀ n ∈ c, (writtenKeys both).card ≤ n) :
    let shared := (empty capacity lifetime policy : Store K V).run both
    let one := (empty capacity₁ lifetime policy : Store K V).run left
    let other := (empty capacity₂ lifetime policy : Store K V).run right
    recordsOf left (history both shared.1) = history left one.1 ∧
      recordsOf right (history both shared.1) = history right other.1 ∧
      (∀ key : K, one.2.entries[key]? = none ∨ other.2.entries[key]? = none) ∧
      (∀ key : K, shared.2.entries[key]? = one.2.entries[key]?.or other.2.entries[key]?) ∧
      shared.2.counters = one.2.counters + other.2.counters ∧
      shared.2.counters.evictions = 0 := by
  intro shared one other
  let start (c : Option Nat) : Line K V := { rules := ⟨c, lifetime, policy⟩ }
  have hempty (c : Option Nat) : (empty c lifetime policy : Store K V).Listed (start c) :=
    listed_empty c lifetime policy
  obtain ⟨hanswers, h⟩ := listed_run (hempty capacity) both
  obtain ⟨hanswers₁, h₁⟩ := listed_run (hempty capacity₁) left
  obtain ⟨hanswers₂, h₂⟩ := listed_run (hempty capacity₂) right
  have hunion := writtenKeys_union hboth
  have hroomy : (start capacity).Roomy (writtenKeys left ∪ writtenKeys right) :=
    roomy_empty (hunion ▸ hroom capacity (by simp)) lifetime policy
  have hroomy₁ : (start capacity₁).Roomy (writtenKeys left) := by
    have hle : (writtenKeys left).card ≤ (writtenKeys both).card :=
      Finset.card_le_card (hunion ▸ Finset.subset_union_left)
    exact roomy_empty (fun n hn => hle.trans (hroom capacity₁ (by simp) n hn)) lifetime policy
  have hroomy₂ : (start capacity₂).Roomy (writtenKeys right) := by
    have hle : (writtenKeys right).card ≤ (writtenKeys both).card :=
      Finset.card_le_card (hunion ▸ Finset.subset_union_right)
    exact roomy_empty (fun n hn => hle.trans (hroom capacity₂ (by simp) n hn)) lifetime policy
  have hleft := apart_of_keys (fun o ho => hkeyed o (hboth.mem_iff.mpr (.inl ho))) hkeys
  have hkeys' : ∀ b ∈ right, ∀ a ∈ left, b.2.key? ≠ a.2.key? :=
    fun b hb a ha => (hkeys a ha b hb).symm
  have hright := apart_of_keys (fun o ho => hkeyed o (hboth.mem_iff.mpr (.inr ho))) hkeys'
  have hstart : (start capacity).Shared (start capacity₁) (start capacity₂) :=
    ⟨⟨rfl, rfl⟩, ⟨rfl, rfl⟩, List.Perm.nil, rfl⟩
  obtain ⟨hhistory, hshared, hlast⟩ :=
    Line.shared_run hboth hstart hroomy hroomy₁ hroomy₂ hleft hright
  rw [show shared.1 = _ from hanswers, show one.1 = _ from hanswers₁,
    show other.1 = _ from hanswers₂]
  refine ⟨recordsOf_eq hhistory hkeys, recordsOf_eq hhistory.symm hkeys', ?_, ?_, ?_, ?_⟩
  · intro key
    rw [← h₁.arranged.find?_eq, ← h₂.arranged.find?_eq]
    exact hshared.none_or_none hlast.distinct key
  · intro key
    rw [← h.arranged.find?_eq, ← h₁.arranged.find?_eq, ← h₂.arranged.find?_eq]
    exact hshared.find?_eq_or hlast.distinct key
  · rw [h.counters, h₁.counters, h₂.counters, hshared.counters]
  · rw [h.counters]
    exact hlast.evictions

/-- One client meets only the end of an entry and the other only its beginning, in a store that is
full in between. -/
theorem clients_do_not_meet_of_full :
    let late : Instant := ⟨9_000_000_000, by decide⟩
    let left : List (Instant × Op Nat Nat) :=
      [(late, .insertFor 1 10 (.ofSeconds 1)), (.origin, .get 1)]
    let right : List (Instant × Op Nat Nat) := [(.origin, .insert 2 20), (late, .get 2)]
    let both : List (Instant × Op Nat Nat) :=
      [(late, .insertFor 1 10 (.ofSeconds 1)), (.origin, .insert 2 20), (late, .get 2),
        (.origin, .get 1)]
    let shared := (empty (some 2) (.ofSeconds 5) .fixed : Store Nat Nat).run both
    let one := (empty none (.ofSeconds 5) .fixed : Store Nat Nat).run left
    let other := (empty (some 2) (.ofSeconds 5) .fixed : Store Nat Nat).run right
    Interleaving left right both ∧ (∀ o ∈ both, o.2.key?.isSome = true) ∧
      (∀ a ∈ left, ∀ b ∈ right, a.2.key? ≠ b.2.key?) ∧
      (∀ c ∈ [some 2, none, some 2], ∀ n ∈ c, (writtenKeys both).card ≤ n) ∧
      recordsOf left (history both shared.1) = history left one.1 ∧
      recordsOf right (history both shared.1) = history right other.1 ∧
      shared.2.counters = { hits := 1, misses := 1, expirations := 1, entries := 1 } := by
  intro late left right both shared one other
  have hboth : Interleaving left right both := .left _ (.right _ (.right _ (.left _ .nil)))
  have hkeyed : ∀ o ∈ both, o.2.key?.isSome = true := by decide
  have hkeys : ∀ a ∈ left, ∀ b ∈ right, a.2.key? ≠ b.2.key? := by decide
  have hroom : ∀ c ∈ [some 2, none, some 2], ∀ n ∈ c, (writtenKeys both).card ≤ n := by decide
  obtain ⟨hleft, hright, -, -, hcounters, -⟩ := clients_do_not_meet (some 2) none (some 2)
    (.ofSeconds 5) .fixed left right both hboth hkeyed hkeys hroom
  exact ⟨hboth, hkeyed, hkeys, hroom, hleft, hright, hcounters.trans (by decide)⟩

end Store
end TimedCache
