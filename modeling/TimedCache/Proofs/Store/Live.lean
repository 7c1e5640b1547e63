import TimedCache.Proofs.Store.Coherence

/-!
What readers can tell of a store. The live entries alone, in the order of their last uses, decide
every answer to a reader and every hit, miss and eviction, as long as time does not go back: dead
entries that a store still holds make no difference.
-/
namespace TimedCache

variable {K V : Type}

/-- What a reader can tell of an entry: not when it was used, but when it will be gone. -/
structure LiveItem (K V : Type) where
  key : K
  value : V
  deadline : Option Instant
deriving DecidableEq

namespace LiveItem

def isOver (i : LiveItem K V) (now : Instant) : Bool :=
  match i.deadline with
  | some deadline => deadline ≤ now
  | none => false

theorem isOver_mono {i : LiveItem K V} {t u : Instant} (h : t ≤ u) (hover : i.isOver t = true) :
    i.isOver u = true := by
  cases hd : i.deadline with
  | none => simp [isOver, hd] at hover
  | some deadline =>
    simp only [isOver, hd, decide_eq_true_eq] at hover ⊢
    exact Nat.le_trans hover h

/-- The item after a read at `now`, which gives it a new life if reads do. -/
def read (i : LiveItem K V) (policy : Policy) (now : Instant) : LiveItem K V :=
  match policy.window? with
  | some window => { i with deadline := now.add? window }
  | none => i

def toItem (i : LiveItem K V) : Item K V := ⟨i.key, i.value⟩

def ofPair (p : K × Entry V) : LiveItem K V := ⟨p.1, p.2.value, p.2.deadline⟩

@[simp] theorem key_ofPair (p : K × Entry V) : (ofPair p).key = p.1 := rfl

@[simp] theorem isOver_ofPair (p : K × Entry V) (now : Instant) :
    (ofPair p).isOver now = p.2.isDead now := rfl

@[simp] theorem key_read (i : LiveItem K V) (policy : Policy) (now : Instant) :
    (i.read policy now).key = i.key := by
  cases policy <;> rfl

theorem read_ofPair (p : K × Entry V) (policy : Policy) (now : Instant) :
    (ofPair p).read policy now = ofPair (p.1, policy.read p.2 now) := by
  cases policy <;> rfl

end LiveItem

namespace Store.Op

/-- Whether an operation is given the time at all. -/
def isTimed : Op K V → Bool
  | .erase _ | .clear => false
  | _ => true

def isRead : Op K V → Bool
  | .get _ | .contains _ | .items | .liveSize => true
  | _ => false

end Store.Op

/-- The live entries of a store, from the least to the most recently used. -/
structure Live (K V : Type) where
  rules : Rules
  line : List (LiveItem K V) := []
  hits : Nat := 0
  misses : Nat := 0
  evictions : Nat := 0

namespace Live

def drop (f : Live K V) (now : Instant) : Live K V :=
  { f with line := f.line.filter fun i => !i.isOver now }

def isFull (f : Live K V) : Bool := f.rules.isFull f.line.length

def evict (f : Live K V) : Live K V := { f with line := f.line.tail, evictions := f.evictions + 1 }

def append (f : Live K V) (i : LiveItem K V) : Live K V := { f with line := f.line ++ [i] }

def hit (f : Live K V) : Live K V := { f with hits := f.hits + 1 }

def miss (f : Live K V) : Live K V := { f with misses := f.misses + 1 }

@[simp] theorem rules_drop (f : Live K V) (now : Instant) : (f.drop now).rules = f.rules := rfl

@[simp] theorem drop_hit (f : Live K V) (now : Instant) : f.hit.drop now = (f.drop now).hit := rfl

@[simp] theorem drop_miss (f : Live K V) (now : Instant) : f.miss.drop now = (f.drop now).miss :=
  rfl

theorem drop_drop (f : Live K V) {t u : Instant} (h : t ≤ u) : (f.drop t).drop u = f.drop u := by
  have hline : ((f.line.filter fun i => !i.isOver t).filter fun i => !i.isOver u) =
      f.line.filter fun i => !i.isOver u := by
    rw [List.filter_filter]
    apply List.filter_congr
    intro i _
    cases hover : i.isOver t with
    | false => simp
    | true => simp [LiveItem.isOver_mono h hover]
  simp only [drop, hline]

theorem drop_self (f : Live K V) (t : Instant) : (f.drop t).drop t = f.drop t :=
  f.drop_drop (Nat.le_refl _)

theorem drop_append (f : Live K V) (i : LiveItem K V) (t : Instant) :
    (f.append i).drop t = ((f.drop t).append i).drop t := by
  simp [drop, append, List.filter_append]

theorem isFull_drop {f : Live K V} (h : f.isFull = false) (now : Instant) :
    (f.drop now).isFull = false := by
  have hroom := Rules.isFull_eq_false_iff.mp h
  apply Rules.isFull_eq_false_iff.mpr
  intro n hn
  exact Nat.lt_of_le_of_lt (List.length_filter_le _ _) (hroom n hn)

def Distinct (f : Live K V) : Prop := (f.line.map LiveItem.key).Nodup

theorem distinct_drop {f : Live K V} (h : f.Distinct) (now : Instant) : (f.drop now).Distinct :=
  h.sublist (List.filter_sublist.map _)

theorem distinct_evict {f : Live K V} (h : f.Distinct) : f.evict.Distinct :=
  h.sublist ((List.tail_sublist _).map _)

variable [CacheKey K]

def find? (f : Live K V) (key : K) : Option (LiveItem K V) := f.line.find? fun i => i.key = key

def erase (f : Live K V) (key : K) : Live K V :=
  { f with line := f.line.filter fun i => i.key ≠ key }

def insertFor (f : Live K V) (key : K) (value : V) (life : Duration) (now : Instant) : Live K V :=
  if f.rules.capacity = some 0 then { f with evictions := f.evictions + 1 }
  else
    let f := f.erase key
    (if f.isFull then f.evict else f).append ⟨key, value, now.add? life⟩

theorem insertFor_of_zero {f : Live K V} (hzero : f.rules.capacity = some 0) (key : K) (value : V)
    (life : Duration) (now : Instant) :
    f.insertFor key value life now = { f with evictions := f.evictions + 1 } :=
  if_pos hzero

theorem insertFor_of_room {f : Live K V} {key : K} (hzero : f.rules.capacity ≠ some 0)
    (hroom : (f.erase key).isFull = false) (value : V) (life : Duration) (now : Instant) :
    f.insertFor key value life now = (f.erase key).append ⟨key, value, now.add? life⟩ := by
  simp [insertFor, hzero, hroom]

theorem insertFor_of_full {f : Live K V} {key : K} (hzero : f.rules.capacity ≠ some 0)
    (hfull : (f.erase key).isFull = true) (value : V) (life : Duration) (now : Instant) :
    f.insertFor key value life now = (f.erase key).evict.append ⟨key, value, now.add? life⟩ := by
  simp [insertFor, hzero, hfull]

def get (f : Live K V) (key : K) (now : Instant) : Option V × Live K V :=
  match f.find? key with
  | some i => (some i.value, ((f.erase key).append (i.read f.rules.policy now)).hit)
  | none => (none, f.miss)

theorem get_of_some {f : Live K V} {key : K} {i : LiveItem K V} (h : f.find? key = some i)
    (now : Instant) :
    f.get key now = (some i.value, ((f.erase key).append (i.read f.rules.policy now)).hit) := by
  rw [get, h]

theorem get_of_none {f : Live K V} {key : K} (h : f.find? key = none) (now : Instant) :
    f.get key now = (none, f.miss) := by
  rw [get, h]

/-- The answer, if the operation is a read, and what is left. Removals have no time. -/
def step (f : Live K V) (now : Instant) :
    Store.Op K V → Option (Store.Answer K V) × Live K V
  | .insert key value => (none, (f.drop now).insertFor key value f.rules.lifetime now)
  | .insertFor key value life => (none, (f.drop now).insertFor key value life now)
  | .get key => ((f.drop now).get key now).map (fun found => some (.value found)) id
  | .contains key => (some (.flag ((f.drop now).find? key).isSome), f.drop now)
  | .erase key => (none, f.erase key)
  | .clear => (none, { f with line := [] })
  | .sweep => (none, f.drop now)
  | .items => (some (.items (Item.listing ((f.drop now).line.map LiveItem.toItem))), f.drop now)
  | .liveSize => (some (.count (f.drop now).line.length), f.drop now)

theorem find?_eq_none_iff {f : Live K V} {key : K} :
    f.find? key = none ↔ ∀ i ∈ f.line, i.key ≠ key := by
  simp [find?]

theorem find?_eq_some_iff {f : Live K V} (h : f.Distinct) {key : K} {i : LiveItem K V} :
    f.find? key = some i ↔ i ∈ f.line ∧ i.key = key := by
  constructor
  · intro hfind
    exact ⟨List.mem_of_find?_eq_some hfind, by simpa using List.find?_some hfind⟩
  · rintro ⟨hi, rfl⟩
    obtain ⟨j, hj⟩ : ∃ j, f.find? i.key = some j := by
      rw [← Option.isSome_iff_exists, find?, List.find?_isSome]
      exact ⟨i, hi, by simp⟩
    have hkey : j.key = i.key := by simpa using List.find?_some hj
    rw [hj, List.inj_on_of_nodup_map h (List.mem_of_find?_eq_some hj) hi hkey]

theorem erase_eq_self {f : Live K V} {key : K} (h : f.find? key = none) : f.erase key = f := by
  have hline : (f.line.filter fun i => i.key ≠ key) = f.line := by
    rw [List.filter_eq_self]
    intro i hi
    simpa using find?_eq_none_iff.mp h i hi
  simp only [erase, hline]

theorem isFull_erase {f : Live K V} (h : f.isFull = false) (key : K) :
    (f.erase key).isFull = false := by
  have hroom := Rules.isFull_eq_false_iff.mp h
  apply Rules.isFull_eq_false_iff.mpr
  intro n hn
  exact Nat.lt_of_le_of_lt (List.length_filter_le _ _) (hroom n hn)

theorem length_erase_lt {f : Live K V} {key : K} {i : LiveItem K V} (h : f.find? key = some i) :
    (f.erase key).line.length < f.line.length := by
  have hkey : i.key = key := by simpa using List.find?_some h
  rw [erase, List.length_filter_lt_length_iff_exists]
  exact ⟨i, List.mem_of_find?_eq_some h, by simpa using hkey⟩

theorem find?_erase (f : Live K V) (key : K) : (f.erase key).find? key = none := by
  simp [find?_eq_none_iff, erase]

theorem distinct_erase {f : Live K V} (h : f.Distinct) (key : K) : (f.erase key).Distinct :=
  h.sublist (List.filter_sublist.map _)

theorem distinct_append {f : Live K V} (h : f.Distinct) {i : LiveItem K V}
    (hnew : f.find? i.key = none) : (f.append i).Distinct := by
  rw [Distinct, append, List.map_append, List.nodup_append]
  refine ⟨h, List.nodup_singleton _, ?_⟩
  intro key hkey key' hkey' heq
  obtain ⟨j, hj, rfl⟩ := List.mem_map.mp hkey
  rw [List.map_singleton, List.mem_singleton] at hkey'
  exact find?_eq_none_iff.mp hnew j hj (heq.trans hkey')

theorem find?_drop_of_none {f : Live K V} {key : K} (h : f.find? key = none) (now : Instant) :
    (f.drop now).find? key = none := by
  rw [find?_eq_none_iff] at h ⊢
  exact fun i hi => h i (List.mem_of_mem_filter hi)

theorem find?_evict {f : Live K V} {key : K} (h : f.find? key = none) :
    f.evict.find? key = none := by
  rw [find?_eq_none_iff] at h ⊢
  exact fun i hi => h i (List.mem_of_mem_tail hi)

theorem distinct_insertFor {f : Live K V} (h : f.Distinct) (key : K) (value : V) (life : Duration)
    (now : Instant) : (f.insertFor key value life now).Distinct := by
  have herase := distinct_erase h key
  have hnew := f.find?_erase key
  by_cases hzero : f.rules.capacity = some 0
  · rw [insertFor_of_zero hzero]
    exact h
  · cases hfull : (f.erase key).isFull with
    | true =>
      rw [insertFor_of_full hzero hfull]
      exact distinct_append (distinct_evict herase) (find?_evict hnew)
    | false =>
      rw [insertFor_of_room hzero hfull]
      exact distinct_append herase hnew

theorem distinct_get {f : Live K V} (h : f.Distinct) (key : K) (now : Instant) :
    (f.get key now).2.Distinct := by
  cases hfind : f.find? key with
  | none =>
    rw [get_of_none hfind]
    exact h
  | some i =>
    have hkey := ((find?_eq_some_iff h).mp hfind).2
    rw [get_of_some hfind]
    apply distinct_append (distinct_erase h key)
    rw [LiveItem.key_read, hkey]
    exact f.find?_erase key

theorem distinct_step {f : Live K V} (h : f.Distinct) (now : Instant) (op : Store.Op K V) :
    (f.step now op).2.Distinct := by
  have hdrop := distinct_drop h now
  cases op with
  | insert key value => exact distinct_insertFor hdrop key value _ now
  | insertFor key value life => exact distinct_insertFor hdrop key value life now
  | get key => exact distinct_get hdrop key now
  | erase key => exact distinct_erase h key
  | clear => exact List.nodup_nil
  | _ => exact hdrop

theorem drop_erase (f : Live K V) (key : K) (t : Instant) :
    (f.erase key).drop t = (f.drop t).erase key := by
  simp [drop, erase, List.filter_filter, Bool.and_comm]

theorem find?_drop {f : Live K V} (h : f.Distinct) (key : K) (now : Instant) :
    (f.drop now).find? key = (f.find? key).filter fun i => !i.isOver now := by
  ext i
  rw [find?_eq_some_iff (distinct_drop h now), Option.filter_eq_some_iff, find?_eq_some_iff h]
  simp [drop]
  tauto

theorem step_drop (f : Live K V) (now : Instant) {op : Store.Op K V} (h : op.isTimed = true) :
    (f.drop now).step now op = f.step now op := by
  cases op with
  | erase | clear => cases h
  | _ => simp only [step, drop_self, rules_drop]

def after (f : Live K V) : List (Instant × Store.Op K V) → Live K V
  | [] => f
  | (now, op) :: rest => (f.step now op).2.after rest

theorem distinct_after {f : Live K V} (h : f.Distinct) (ops : List (Instant × Store.Op K V)) :
    (f.after ops).Distinct := by
  induction ops generalizing f with
  | nil => exact h
  | cons first rest ih => exact ih (distinct_step h first.1 first.2)

end Live
end TimedCache
