import TimedCache.Proofs.Recency
import TimedCache.Proofs.Uses

/-!
The order of uses against a ranking, which is no more than a list of keys without duplicates. After
any moves the two look the same, and what is popped until nothing is left comes in the order of the
last uses.
-/
namespace TimedCache

open Std (ExtTreeMap)

variable {K : Type}

namespace Recency

inductive Move (K : Type)
  | use (key : K)
  | erase (key : K)
  | pop
  | clear
deriving DecidableEq

def Move.used? : Move K → Option K
  | .use key => some key
  | _ => none

/-- All that there is to see after a move, and the key that it took out if it was a pop. -/
structure Glance (K : Type) where
  popped? : Option K
  size : Nat
  isEmpty : Bool
  oldest? : Option K
  contains : K → Bool

variable [CacheKey K]

def glance (r : Recency K) (popped? : Option K) : Glance K where
  popped?
  size := r.size
  isEmpty := r.isEmpty
  oldest? := r.oldest?
  contains := r.contains

def move (r : Recency K) : Move K → Option K × Recency K
  | .use key => (none, r.use key)
  | .erase key => (none, r.erase key)
  | .pop =>
    match r.popOldest? with
    | some (key, rest) => (some key, rest)
    | none => (none, r)
  | .clear => (none, r.clear)

def after (r : Recency K) (moves : List (Move K)) : Recency K :=
  moves.foldl (fun r m => (r.move m).2) r

def glances (r : Recency K) : List (Move K) → List (Glance K)
  | [] => []
  | m :: rest =>
    let (popped?, r) := r.move m
    r.glance popped? :: r.glances rest

end Recency

/-- Keys without duplicates, from the least to the most recently used. -/
structure Ranking (K : Type) where
  keys : List K
  nodup : keys.Nodup

namespace Ranking

def empty : Ranking K := ⟨[], List.nodup_nil⟩

def pop (q : Ranking K) : Option K × Ranking K :=
  (q.keys.head?, ⟨q.keys.tail, q.nodup.sublist (List.tail_sublist _)⟩)

@[simp] theorem pop_fst (q : Ranking K) : q.pop.1 = q.keys.head? := rfl

@[simp] theorem keys_pop (q : Ranking K) : q.pop.2.keys = q.keys.tail := rfl

variable [CacheKey K]

def use (q : Ranking K) (key : K) : Ranking K := ⟨_, Listing.nodup_filter_append q.nodup key⟩

def erase (q : Ranking K) (key : K) : Ranking K := ⟨q.keys.filter (· ≠ key), q.nodup.filter _⟩

@[simp] theorem keys_use (q : Ranking K) (key : K) :
    (q.use key).keys = q.keys.filter (· ≠ key) ++ [key] := rfl

@[simp] theorem keys_erase (q : Ranking K) (key : K) :
    (q.erase key).keys = q.keys.filter (· ≠ key) := rfl

def move (q : Ranking K) : Recency.Move K → Option K × Ranking K
  | .use key => (none, q.use key)
  | .erase key => (none, q.erase key)
  | .pop => q.pop
  | .clear => (none, empty)

def after (q : Ranking K) (moves : List (Recency.Move K)) : Ranking K :=
  moves.foldl (fun q m => (q.move m).2) q

def glance (q : Ranking K) (popped? : Option K) : Recency.Glance K where
  popped?
  size := q.keys.length
  isEmpty := q.keys.isEmpty
  oldest? := q.keys.head?
  contains key := key ∈ q.keys

def glances (q : Ranking K) : List (Recency.Move K) → List (Recency.Glance K)
  | [] => []
  | m :: rest =>
    let (popped?, q) := q.move m
    q.glance popped? :: q.glances rest

theorem inOrder_move {q : Ranking K} {past : List (Recency.Move K)}
    (h : Uses.InOrder Recency.Move.used? past q.keys) (m : Recency.Move K) :
    Uses.InOrder Recency.Move.used? (past ++ [m]) (q.move m).2.keys := by
  cases m with
  | use key =>
    have hothers : Uses.InOrder Recency.Move.used? past (q.keys.filter (· ≠ key)) :=
      h.sublist List.filter_sublist
    exact hothers.use rfl (by simp)
  | erase key => exact (h.sublist List.filter_sublist).concat fun _ _ hused => by cases hused
  | pop => exact (h.sublist (List.tail_sublist _)).concat fun _ _ hused => by cases hused
  | clear => exact Uses.inOrder_nil _ _

theorem inOrder_after {q : Ranking K} {past : List (Recency.Move K)}
    (h : Uses.InOrder Recency.Move.used? past q.keys) (moves : List (Recency.Move K)) :
    Uses.InOrder Recency.Move.used? (past ++ moves) (q.after moves).keys := by
  induction moves generalizing q past with
  | nil => simpa [after] using h
  | cons m rest ih =>
    have hrest := ih (inOrder_move h m)
    rw [List.append_assoc] at hrest
    exact hrest

end Ranking

namespace Recency

variable [CacheKey K]

structure Ranked (r : Recency K) (q : Ranking K) : Prop where
  coherent : r.Coherent
  keys : r.toList = q.keys

theorem ranked_empty : (empty : Recency K).Ranked Ranking.empty :=
  ⟨coherent_empty, toList_clear empty⟩

theorem popOldest?_eq_none {r : Recency K} (h : r.toList = []) : r.popOldest? = none := by
  rw [popOldest?, first?_eq_head?, List.map_eq_nil_iff.mp h]
  rfl

theorem toList_erase_first {r : Recency K} (h : r.Coherent) {key : K} {rest : List K}
    (hkeys : r.toList = key :: rest) : (r.erase key).toList = rest := by
  have hnodup := nodup_toList h
  rw [hkeys, List.nodup_cons] at hnodup
  rw [toList_erase h, hkeys]
  simpa using fun k hk => ne_of_mem_of_not_mem hk hnodup.1

theorem size_eq_length {r : Recency K} (h : r.Coherent) : r.size = r.toList.length := by
  have hperm : r.stamps.keys.Perm r.toList := by
    rw [List.perm_ext_iff_of_nodup r.stamps.nodup_keys (nodup_toList h)]
    intro key
    rw [ExtTreeMap.mem_keys, mem_toList_iff_mem_stamps h]
  rw [size, ← hperm.length_eq, ExtTreeMap.length_keys]

namespace Ranked

variable {r : Recency K} {q : Ranking K}

theorem glance (h : r.Ranked q) (popped? : Option K) : r.glance popped? = q.glance popped? := by
  have hsize : r.size = q.keys.length := by rw [size_eq_length h.coherent, h.keys]
  have hempty : r.isEmpty = q.keys.isEmpty := by
    rw [Bool.eq_iff_iff, List.isEmpty_iff_length_eq_zero, ← hsize, isEmpty,
      ExtTreeMap.isEmpty_eq_size_beq_zero]
    exact beq_iff_eq
  have holdest : r.oldest? = q.keys.head? := by rw [oldest?_eq_head?, h.keys]
  have hcontains : r.contains = fun key => decide (key ∈ q.keys) := by
    funext key
    rw [Bool.eq_iff_iff, decide_eq_true_iff, ← h.keys, mem_toList_iff_mem_stamps h.coherent]
    exact ExtTreeMap.contains_iff_mem
  rw [Recency.glance, Ranking.glance, hsize, hempty, holdest, hcontains]

theorem move (h : r.Ranked q) (m : Move K) :
    (r.move m).1 = (q.move m).1 ∧ (r.move m).2.Ranked (q.move m).2 := by
  obtain ⟨hcoherent, hkeys⟩ := h
  cases m with
  | use key =>
    refine ⟨rfl, coherent_use hcoherent key, ?_⟩
    show (r.use key).toList = (q.use key).keys
    rw [toList_use hcoherent, hkeys, Ranking.keys_use]
  | erase key =>
    refine ⟨rfl, coherent_erase hcoherent key, ?_⟩
    show (r.erase key).toList = (q.erase key).keys
    rw [toList_erase hcoherent, hkeys, Ranking.keys_erase]
  | pop =>
    cases hq : q.keys with
    | nil =>
      have hpop := popOldest?_eq_none (hkeys.trans hq)
      simp only [Recency.move, hpop, Ranking.move, Ranking.pop_fst, hq]
      exact ⟨rfl, hcoherent, by rw [hkeys, Ranking.keys_pop, hq]; rfl⟩
    | cons key rest =>
      have hpop := popOldest?_of_toList hcoherent (hkeys.trans hq)
      simp only [Recency.move, hpop, Ranking.move, Ranking.pop_fst, hq]
      refine ⟨rfl, coherent_erase hcoherent key, ?_⟩
      rw [toList_erase_first hcoherent (hkeys.trans hq), Ranking.keys_pop, hq]
      rfl
  | clear => exact ⟨rfl, coherent_clear r, toList_clear r⟩

theorem after (h : r.Ranked q) (moves : List (Move K)) :
    (r.after moves).Ranked (q.after moves) := by
  induction moves generalizing r q with
  | nil => exact h
  | cons m rest ih => exact ih (h.move m).2

theorem glances (h : r.Ranked q) (moves : List (Move K)) : r.glances moves = q.glances moves := by
  induction moves generalizing r q with
  | nil => rfl
  | cons m rest ih =>
    obtain ⟨hpopped, hranked⟩ := h.move m
    simp only [Recency.glances, Ranking.glances, hpopped, hranked.glance, ih hranked]

end Ranked

theorem drain_eq_toList {r : Recency K} (h : r.Coherent) :
    r.drain.1 = r.toList ∧ r.drain.2.Coherent ∧ r.drain.2.toList = [] := by
  generalize hkeys : r.toList = keys
  induction keys generalizing r with
  | nil =>
    have hpop := popOldest?_eq_none hkeys
    rw [drain]
    split
    · exact ⟨rfl, h, hkeys⟩
    · simp_all
  | cons key rest ih =>
    have hpop := popOldest?_of_toList h hkeys
    obtain ⟨hdrain, hlast⟩ := ih (coherent_erase h key) (toList_erase_first h hkeys)
    rw [drain]
    split
    · simp_all
    · rename_i key' rest' hpop'
      obtain ⟨rfl, rfl⟩ := Prod.mk.inj (Option.some.inj (hpop.symm.trans hpop'))
      exact ⟨congrArg (key :: ·) hdrain, hlast⟩

/-- An order of uses always looks like the ranking that has made the same moves. Its two maps stay
inverse to each other, so a use always finds the last stamp of its key; and popping until nothing is
left gives every key that is there, once, in the order of the last uses. -/
theorem glances_eq_ranking (moves : List (Move K)) :
    let r := (empty : Recency K).after moves
    let q := (Ranking.empty : Ranking K).after moves
    (empty : Recency K).glances moves = Ranking.empty.glances moves ∧ r.Coherent ∧
      (∀ key, r.restamp key = r.use key) ∧ r.drain.1 = q.keys ∧ r.drain.2.isEmpty = true ∧
      (∀ key, key ∈ r.drain.1 ↔ r.contains key = true) ∧ r.drain.1.Nodup ∧
      r.drain.1.Pairwise (Uses.Earlier Move.used? moves) := by
  intro r q
  have h : r.Ranked q := ranked_empty.after moves
  obtain ⟨hdrain, hlast, hnil⟩ := drain_eq_toList h.coherent
  rw [h.keys] at hdrain
  have hempty : r.drain.2.Ranked Ranking.empty := ⟨hlast, hnil⟩
  have hstart : Uses.InOrder Move.used? [] (Ranking.empty : Ranking K).keys :=
    Uses.inOrder_nil Move.used? []
  have horder := Ranking.inOrder_after hstart moves
  refine ⟨ranked_empty.glances moves, h.coherent, restamp_eq_use h.coherent, hdrain,
    congrArg Glance.isEmpty (hempty.glance none), ?_, hdrain ▸ q.nodup, hdrain ▸ horder.order⟩
  intro key
  have hcontains := congrFun (congrArg Glance.contains (h.glance none)) key
  have hmem : r.contains key = true ↔ key ∈ q.keys := by
    rw [show r.contains key = decide (key ∈ q.keys) from hcontains, decide_eq_true_iff]
  rw [hdrain, hmem]

end Recency
end TimedCache
