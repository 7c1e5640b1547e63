import TimedCache.Sweeping.Sweeper

/-!
A target that plays a script: its sweeps give the answers written there, and find nothing once the
script has ended. It remembers when it was swept.
-/
namespace TimedCache

structure Script where
  /-- The answers to come: a count, or none for "closed". -/
  answers : List (Option Nat) := []
  /-- The instants of the sweeps so far, the last one first. -/
  sweptAt : List Instant := []
deriving DecidableEq

namespace Script

def sweep (t : Instant) (s : Script) : Option Nat × Script :=
  (s.answers.headD (some 0), { answers := s.answers.tail, sweptAt := t :: s.sweptAt })

instance : Sweepable Script := ⟨sweep⟩

def sweeps (s : Script) : List Instant := s.sweptAt.reverse

end Script
end TimedCache
