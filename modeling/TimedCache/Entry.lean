import TimedCache.Time.Instant

/-!
Stored entries and the rules by which they die. An entry is dead from its deadline on, the deadline
itself included; a policy says whether a read sets a new deadline.
-/
namespace TimedCache

structure Entry (V : Type) where
  value : V
  /-- The last successful read, or the write if there was none. -/
  lastUse : Instant
  /-- None if the entry never dies. -/
  deadline : Option Instant
deriving DecidableEq

namespace Entry

variable {V : Type}

/-- An entry that lives for `life` from `now`; a life beyond the range of the clock has no end. -/
def write (value : V) (life : Duration) (now : Instant) : Entry V := ⟨value, now, now.add? life⟩

def isDead (e : Entry V) (now : Instant) : Bool :=
  match e.deadline with
  | some deadline => deadline ≤ now
  | none => false

/-- Records a use at `now`. With a window the deadline becomes `now` plus the window, whether that
is later than before or earlier. -/
def use (e : Entry V) (now : Instant) (window : Option Duration) : Entry V :=
  { e with
    lastUse := now
    deadline := match window with
      | some w => now.add? w
      | none => e.deadline }

/-- The life that is left, zero for a dead entry, or none if the entry never dies. -/
def lifeLeft? (e : Entry V) (now : Instant) : Option Duration := e.deadline.map (·.since now)

@[simp] theorem value_write (v : V) (life : Duration) (t : Instant) : (write v life t).value = v :=
  rfl

@[simp] theorem deadline_write (v : V) (life : Duration) (t : Instant) :
    (write v life t).deadline = t.add? life := rfl

@[simp] theorem lastUse_write (v : V) (life : Duration) (t : Instant) :
    (write v life t).lastUse = t := rfl

@[simp] theorem value_use (e : Entry V) (t : Instant) (w : Option Duration) :
    (e.use t w).value = e.value := rfl

@[simp] theorem lastUse_use (e : Entry V) (t : Instant) (w : Option Duration) :
    (e.use t w).lastUse = t := rfl

@[simp] theorem deadline_use_none (e : Entry V) (t : Instant) :
    (e.use t none).deadline = e.deadline := rfl

@[simp] theorem deadline_use_some (e : Entry V) (t : Instant) (w : Duration) :
    (e.use t (some w)).deadline = t.add? w := rfl

theorem isDead_iff {e : Entry V} {now : Instant} :
    e.isDead now = true ↔ ∃ deadline, e.deadline = some deadline ∧ deadline ≤ now := by
  unfold isDead
  split <;> simp_all

end Entry

/-- What a read does to the deadline of the entry that it finds. -/
inductive Policy
  /-- Nothing: the life that the write gave is all there is. -/
  | fixed
  /-- The entry gets a new life, as long as the window. -/
  | sliding (window : Duration)
deriving DecidableEq

namespace Policy

variable {V : Type}

def ofWindow : Option Duration → Policy
  | none => .fixed
  | some window => .sliding window

def window? : Policy → Option Duration
  | .fixed => none
  | .sliding window => some window

/-- Policies differ in what a read does, not in when an entry is dead. -/
def isDead (_ : Policy) (e : Entry V) (now : Instant) : Bool := e.isDead now

def read (p : Policy) (e : Entry V) (now : Instant) : Entry V := e.use now p.window?

@[simp] theorem window?_ofWindow (w : Option Duration) : (ofWindow w).window? = w := by
  cases w <;> rfl

@[simp] theorem ofWindow_window? (p : Policy) : ofWindow p.window? = p := by
  cases p <;> rfl

@[simp] theorem isDead_eq (p : Policy) (e : Entry V) (now : Instant) :
    p.isDead e now = e.isDead now := rfl

@[simp] theorem value_read (p : Policy) (e : Entry V) (now : Instant) :
    (p.read e now).value = e.value := rfl

end Policy
end TimedCache
