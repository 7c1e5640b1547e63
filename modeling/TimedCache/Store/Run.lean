import TimedCache.Store

/-!
Runs of a store. Every operation meets the store at an instant of its own, and the instants of a
run may go back as well as forward.
-/
namespace TimedCache.Store

variable {K V : Type} [CacheKey K]

inductive Op (K V : Type)
  | insert (key : K) (value : V)
  | insertFor (key : K) (value : V) (life : Duration)
  | get (key : K)
  | contains (key : K)
  | erase (key : K)
  | clear
  | sweep
  | items
  | liveSize
deriving DecidableEq

inductive Answer (K V : Type)
  | admission (how : Admission)
  | value (found : Option V)
  | flag (b : Bool)
  | count (n : Nat)
  | items (items : List (Item K V))
deriving DecidableEq

def Answer.events : Answer K V → List Event
  | .admission how => how.events
  | _ => []

def step (s : Store K V) (now : Instant) : Op K V → Answer K V × Store K V
  | .insert key value => (s.insert key value now).map .admission id
  | .insertFor key value life => (s.insertFor key value life now).map .admission id
  | .get key => (s.get key now).map .value id
  | .contains key => (.flag (s.contains key now), s)
  | .erase key => (s.erase key).map .flag id
  | .clear => s.clear.map .count id
  | .sweep => (s.sweep now).map .count id
  | .items => (.items (s.items now), s)
  | .liveSize => (.count (s.liveSize now), s)

/-- The answers of a run, in order, and the store that it leaves. -/
def run (s : Store K V) : List (Instant × Op K V) → List (Answer K V) × Store K V
  | [] => ([], s)
  | (now, op) :: rest =>
    let (answer, s) := s.step now op
    let (answers, s) := s.run rest
    (answer :: answers, s)

@[simp] theorem run_nil (s : Store K V) : s.run [] = ([], s) := rfl

@[simp] theorem run_cons (s : Store K V) (now : Instant) (op : Op K V)
    (rest : List (Instant × Op K V)) :
    s.run ((now, op) :: rest) =
      ((s.step now op).1 :: ((s.step now op).2.run rest).1, ((s.step now op).2.run rest).2) := rfl

theorem run_append (s : Store K V) (before after : List (Instant × Op K V)) :
    s.run (before ++ after) =
      ((s.run before).1 ++ ((s.run before).2.run after).1, ((s.run before).2.run after).2) := by
  induction before generalizing s with
  | nil => rfl
  | cons first rest ih =>
    obtain ⟨now, op⟩ := first
    simp [ih]

end TimedCache.Store
