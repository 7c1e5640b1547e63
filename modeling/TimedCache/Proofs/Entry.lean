import TimedCache.Entry

/-!
Entries from their write on. Whatever touches an entry, and at whatever times, its deadline is the
end of the last life that it was given; and all that an entry tells of its end fits together, since
what is left of its life is the time until the instant from which on it is dead.
-/
namespace TimedCache

namespace Entry

variable {V : Type}

/-- What an entry tells of its end fits together. -/
structure Consistent (e : Entry V) : Prop where
  endless : ∀ now, e.lifeLeft? now = none ↔ ∀ t, e.isDead t = false
  spent : ∀ now, e.isDead now = true ↔ e.lifeLeft? now = some .zero
  /-- An entry that has some life left is dead from the end of it on, and not before. -/
  left : ∀ now life, e.lifeLeft? now = some life → .zero < life →
    ∃ last, now.add? life = some last ∧ ∀ t, e.isDead t = true ↔ last ≤ t
  onward : ∀ t u, t ≤ u → e.isDead t = true → e.isDead u = true

theorem lifeLeft?_of_none {e : Entry V} (h : e.deadline = none) (now : Instant) :
    e.lifeLeft? now = none := by
  rw [lifeLeft?, h, Option.map_none]

theorem lifeLeft?_of_some {e : Entry V} {deadline : Instant} (h : e.deadline = some deadline)
    (now : Instant) : e.lifeLeft? now = some (deadline.since now) := by
  rw [lifeLeft?, h, Option.map_some]

theorem isDead_of_none {e : Entry V} (h : e.deadline = none) (now : Instant) :
    e.isDead now = false := by
  rw [isDead, h]

theorem isDead_iff_of_some {e : Entry V} {deadline : Instant} (h : e.deadline = some deadline)
    {now : Instant} : e.isDead now = true ↔ deadline ≤ now := by
  simp [isDead_iff, h]

theorem isDead_mono {e : Entry V} {t u : Instant} (htu : t ≤ u) (h : e.isDead t = true) :
    e.isDead u = true := by
  rw [isDead_iff] at h ⊢
  obtain ⟨deadline, hdeadline, hle⟩ := h
  exact ⟨deadline, hdeadline, Nat.le_trans hle htu⟩

theorem consistent_of_none {e : Entry V} (h : e.deadline = none) : e.Consistent where
  endless now := by simp [lifeLeft?_of_none h, isDead_of_none h]
  spent now := by simp [lifeLeft?_of_none h, isDead_of_none h]
  left now life hlife := by simp [lifeLeft?_of_none h] at hlife
  onward _ _ := isDead_mono

theorem consistent_of_some {e : Entry V} {deadline : Instant} (h : e.deadline = some deadline) :
    e.Consistent where
  endless now := by
    have hdead : e.isDead deadline = true := (isDead_iff_of_some h).mpr (Nat.le_refl _)
    rw [lifeLeft?_of_some h]
    constructor
    · intro hnone
      cases hnone
    · intro hlive
      rw [hlive deadline] at hdead
      cases hdead
  spent now := by
    rw [isDead_iff_of_some h, lifeLeft?_of_some h, Option.some.injEq, Duration.ext_iff,
      Instant.le_iff, Instant.nanos_since, Duration.nanos_zero, Nat.sub_eq_zero_iff_le]
  left now life hlife hpos := by
    rw [lifeLeft?_of_some h, Option.some.injEq] at hlife
    subst hlife
    rw [Duration.lt_iff, Instant.nanos_since, Duration.nanos_zero] at hpos
    refine ⟨deadline, ?_, fun t => isDead_iff_of_some h⟩
    rw [Instant.add?_eq_some_iff, Instant.nanos_since]
    omega
  onward _ _ := isDead_mono

theorem consistent (e : Entry V) : e.Consistent := by
  cases h : e.deadline with
  | none => exact consistent_of_none h
  | some deadline => exact consistent_of_some h

/-- What touches an entry: a use, with a window or without one, or a read under some policy. -/
inductive Touch
  | use (now : Instant) (window : Option Duration)
  | read (policy : Policy) (now : Instant)
deriving DecidableEq

/-- The life that a touch gives, with the instant that it counts from, if it gives one. -/
def Touch.life? : Touch → Option (Instant × Duration)
  | use now window => window.map fun window => (now, window)
  | read policy now => policy.window?.map fun window => (now, window)

def touch (e : Entry V) : Touch → Entry V
  | .use now window => e.use now window
  | .read policy now => policy.read e now

def touchAll (e : Entry V) (touches : List Touch) : Entry V := touches.foldl touch e

/-- The last life that was given, by the write or by a touch after it. -/
def lastLife (written : Instant × Duration) (touches : List Touch) : Instant × Duration :=
  (touches.filterMap Touch.life?).getLastD written

theorem deadline_touch (e : Entry V) (t : Touch) :
    (e.touch t).deadline = match t.life? with
      | some life => life.1.add? life.2
      | none => e.deadline := by
  cases t with
  | use now window => cases window <;> rfl
  | read policy now => cases policy <;> rfl

theorem lastLife_cons (written : Instant × Duration) (t : Touch) (touches : List Touch) :
    lastLife written (t :: touches) = lastLife (t.life?.getD written) touches := by
  cases h : t.life? with
  | none => rw [lastLife, List.filterMap_cons_none h, Option.getD_none, lastLife]
  | some life =>
    rw [lastLife, List.filterMap_cons_some h, List.getLastD_cons, Option.getD_some, lastLife]

theorem deadline_touchAll {e : Entry V} {written : Instant × Duration}
    (h : e.deadline = written.1.add? written.2) (touches : List Touch) :
    (e.touchAll touches).deadline =
      (lastLife written touches).1.add? (lastLife written touches).2 := by
  induction touches generalizing e written with
  | nil => exact h
  | cons t rest ih =>
    rw [lastLife_cons]
    apply ih
    rw [deadline_touch]
    cases t.life? with
    | none => exact h
    | some life => rfl

/-- From its write on, whatever touches it and when, an entry has the end of the last life that it
was given for its deadline, and none exactly if that end is out of range; and what it tells of its
end fits together. One more life that ends in range sets an end even to an entry that had none. -/
theorem deadline_is_last_given (value : V) (life : Duration) (start : Instant)
    (touches : List Touch) :
    let e := (write value life start).touchAll touches
    let last := lastLife (start, life) touches
    e.Consistent ∧ e.deadline = last.1.add? last.2 ∧
      (e.deadline = none ↔ Instant.limit ≤ last.1.nanos + last.2.nanos) ∧
      ∀ (t : Touch) now window deadline, t.life? = some (now, window) →
        now.add? window = some deadline → ∀ u, (e.touch t).isDead u = true ↔ deadline ≤ u := by
  intro e last
  have hlast : e.deadline = last.1.add? last.2 :=
    deadline_touchAll (deadline_write value life start) touches
  refine ⟨e.consistent, hlast, ?_, ?_⟩
  · rw [hlast, Instant.add?_eq_none_iff]
  · intro t now window deadline hlife hdeadline u
    apply isDead_iff_of_some
    rw [deadline_touch, hlife]
    exact hdeadline

/-- The longest life never ends, and uses that give none leave it so, but a read gives one that ends
even where the read is the earliest of all. -/
theorem deadline_is_last_given_of_longest :
    let now : Instant := ⟨3_000_000_000, by decide⟩
    let deadline : Instant := ⟨8_000_000_000, by decide⟩
    let touches : List Touch := [.use ⟨9_000_000_000, by decide⟩ none, .read .fixed now]
    let e := (write 10 .longest ⟨7_000_000_000, by decide⟩).touchAll touches
    let read := e.touch (.read (.sliding (.ofSeconds 5)) now)
    (∀ t, e.isDead t = false) ∧ read.lifeLeft? ⟨4_000_000_000, by decide⟩ = some (.ofSeconds 4) ∧
      ∀ t, read.isDead t = true ↔ deadline ≤ t := by
  intro now deadline touches e read
  obtain ⟨hconsistent, -, hnone, hgiven⟩ :=
    deadline_is_last_given 10 .longest ⟨7_000_000_000, by decide⟩ touches
  have hendless : e.deadline = none := hnone.mpr (by decide)
  refine ⟨(hconsistent.endless now).mp (lifeLeft?_of_none hendless now), by decide, ?_⟩
  exact hgiven (.read (.sliding (.ofSeconds 5)) now) now (.ofSeconds 5) deadline rfl (by decide)

end Entry
end TimedCache
