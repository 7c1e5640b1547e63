import TimedCache.Failure
import TimedCache.Time.Unit

/-!
The settings of a cache. An adjustment overwrites one of them, so of several that concern the same
setting the last stands; settings are valid if their cache would sweep at all.
-/
namespace TimedCache

structure Settings where
  sweepEvery : Duration
  /-- The life of an entry that is written without one of its own. -/
  lifetime : Duration
  unit : TimeUnit
  /-- The greatest number of entries, or none for no bound. -/
  capacity : Option Nat := none
  /-- The life that a read gives to the entry it finds, or none if reads give none. -/
  readWindow : Option Duration := none
deriving DecidableEq

inductive Adjustment
  | capacity (n : Nat)
  | readWindow (window : Duration)
deriving DecidableEq

namespace Settings

/-- A sweep every second and lives of five minutes, whatever the unit of amounts. -/
instance : Inhabited Settings := ⟨⟨.ofSeconds 1, .ofSeconds 300, .seconds, none, none⟩⟩

def adjust (s : Settings) : Adjustment → Settings
  | .capacity n => { s with capacity := some n }
  | .readWindow window => { s with readWindow := some window }

def adjustAll (s : Settings) (adjustments : List Adjustment) : Settings :=
  adjustments.foldl adjust s

def validate (s : Settings) : Except SetupError Unit :=
  if s.sweepEvery = .zero then .error (.misconfigured .noSweeps) else .ok ()

def lifetimeCount (s : Settings) : Nat := s.unit.count s.lifetime

@[simp] theorem adjustAll_nil (s : Settings) : s.adjustAll [] = s := rfl

@[simp] theorem adjustAll_cons (s : Settings) (a : Adjustment) (as : List Adjustment) :
    s.adjustAll (a :: as) = (s.adjust a).adjustAll as := rfl

theorem adjustAll_append (s : Settings) (as bs : List Adjustment) :
    s.adjustAll (as ++ bs) = (s.adjustAll as).adjustAll bs := List.foldl_append

theorem validate_eq_ok_iff (s : Settings) : s.validate = .ok () ↔ s.sweepEvery ≠ .zero := by
  unfold validate
  split <;> simp_all

end Settings
end TimedCache
