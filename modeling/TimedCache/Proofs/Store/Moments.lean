import TimedCache.Proofs.Store.History

/-!
Runs with the stores that they pass through. The answers to a run do not tell everything: whether a
write met its key, or a read a dead entry, shows only in the store that the operation met.
-/
namespace TimedCache.Store

variable {K V : Type} [CacheKey K]

/-- A record of an operation, with the store that it met. -/
structure Moment (K V : Type) [CacheKey K] extends Record K V where
  store : Store K V

def moment (s : Store K V) (now : Instant) (op : Op K V) : Moment K V :=
  { now, op, answer := (s.step now op).1, store := s }

@[simp] theorem now_moment (s : Store K V) (now : Instant) (op : Op K V) :
    (s.moment now op).now = now := rfl

@[simp] theorem op_moment (s : Store K V) (now : Instant) (op : Op K V) :
    (s.moment now op).op = op := rfl

@[simp] theorem answer_moment (s : Store K V) (now : Instant) (op : Op K V) :
    (s.moment now op).answer = (s.step now op).1 := rfl

@[simp] theorem store_moment (s : Store K V) (now : Instant) (op : Op K V) :
    (s.moment now op).store = s := rfl

def moments (s : Store K V) : List (Instant × Op K V) → List (Moment K V)
  | [] => []
  | (now, op) :: rest => s.moment now op :: (s.step now op).2.moments rest

@[simp] theorem moments_nil (s : Store K V) : s.moments [] = [] := rfl

@[simp] theorem moments_cons (s : Store K V) (now : Instant) (op : Op K V)
    (rest : List (Instant × Op K V)) :
    s.moments ((now, op) :: rest) = s.moment now op :: (s.step now op).2.moments rest := rfl

end TimedCache.Store
