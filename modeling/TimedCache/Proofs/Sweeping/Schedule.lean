import TimedCache.Proofs.Sweeping.Ticks
import TimedCache.Sweeping.Patrol
import TimedCache.Sweeping.Script

/-!
Patrols on schedule. While time passes, gradually or in jumps, all that a patrol does is to sweep
its target; it comes round once for each period that has passed at most, and exactly so if time
never jumps. To stop on the way makes no difference.
-/
namespace TimedCache

variable {σ : Type} [Sweepable σ]

theorem sweepAt_cons_of_open {target next : σ} {t : Instant} {removed : Nat}
    (h : Sweepable.sweep t target = (some removed, next)) (rest : List Instant) :
    sweepAt target (t :: rest) =
      (.swept removed :: (sweepAt next rest).1, (sweepAt next rest).2) := by
  rw [sweepAt, h]

theorem sweepAt_cons_of_closed {target next : σ} {t : Instant}
    (h : Sweepable.sweep t target = (none, next)) (rest : List Instant) :
    sweepAt target (t :: rest) = ([.sweeperStopped], false, next) := by
  rw [sweepAt, h]

theorem sweepAt_append_of_open {target last : σ} {before : List Instant} {events : List Event}
    (h : sweepAt target before = (events, true, last)) (after : List Instant) :
    sweepAt target (before ++ after) =
      (events ++ (sweepAt last after).1, (sweepAt last after).2) := by
  induction before generalizing target events with
  | nil =>
    obtain ⟨rfl, -, rfl⟩ := by simpa using h
    rfl
  | cons t rest ih =>
    rcases hsweep : Sweepable.sweep t target with ⟨_ | removed, next⟩
    · rw [sweepAt_cons_of_closed hsweep] at h
      simp at h
    · rcases hrest : sweepAt next rest with ⟨later, wasOpen, last'⟩
      rw [sweepAt_cons_of_open hsweep, hrest, Prod.mk.injEq, Prod.mk.injEq] at h
      obtain ⟨rfl, rfl, rfl⟩ := h
      rw [List.cons_append, sweepAt_cons_of_open hsweep, ih hrest]
      rfl

theorem sweepAt_append_of_closed {target last : σ} {before : List Instant} {events : List Event}
    (h : sweepAt target before = (events, false, last)) (after : List Instant) :
    sweepAt target (before ++ after) = (events, false, last) := by
  induction before generalizing target events with
  | nil => simp at h
  | cons t rest ih =>
    rcases hsweep : Sweepable.sweep t target with ⟨_ | removed, next⟩
    · rw [sweepAt_cons_of_closed hsweep] at h
      rw [List.cons_append, sweepAt_cons_of_closed hsweep]
      exact h
    · rcases hrest : sweepAt next rest with ⟨later, wasOpen, last'⟩
      rw [sweepAt_cons_of_open hsweep, hrest, Prod.mk.injEq, Prod.mk.injEq] at h
      obtain ⟨rfl, rfl, rfl⟩ := h
      rw [List.cons_append, sweepAt_cons_of_open hsweep, ih hrest]

/-- However often and whenever the target is swept, it is found open. -/
def StaysOpen (target : σ) : Prop := ∀ ticks, (sweepAt target ticks).2.1 = true

namespace StaysOpen

theorem exists_sweepAt {target : σ} (h : StaysOpen target) (ticks : List Instant) :
    ∃ events last, sweepAt target ticks = (events, true, last) := by
  have hopen := h ticks
  rcases hs : sweepAt target ticks with ⟨events, wasOpen, last⟩
  rw [hs] at hopen
  obtain rfl : wasOpen = true := hopen
  exact ⟨events, last, rfl⟩

theorem last {target last : σ} (h : StaysOpen target) {ticks : List Instant} {events : List Event}
    (hs : sweepAt target ticks = (events, true, last)) : StaysOpen last := by
  intro later
  have hopen := h (ticks ++ later)
  rwa [sweepAt_append_of_open hs] at hopen

end StaysOpen

theorem Script.staysOpen {s : Script} (h : ∀ answer ∈ s.answers, answer.isSome = true) :
    StaysOpen s := by
  intro ticks
  induction ticks generalizing s with
  | nil => rfl
  | cons t rest ih =>
    obtain ⟨removed, hremoved⟩ : ∃ removed, s.answers.headD (some 0) = some removed := by
      cases hanswers : s.answers with
      | nil => exact ⟨0, rfl⟩
      | cons answer later =>
        rw [hanswers] at h
        exact Option.isSome_iff_exists.mp (h answer List.mem_cons_self)
    have hsweep : Sweepable.sweep t s =
        (some removed, ({ answers := s.answers.tail, sweptAt := t :: s.sweptAt } : Script)) :=
      congrArg (·, _) hremoved
    rw [sweepAt_cons_of_open hsweep]
    exact ih fun answer hanswer => h answer (List.mem_of_mem_tail hanswer)

namespace Patrol

inductive Move
  | sleep (d : Duration)
  | jump (d : Duration)
deriving DecidableEq

namespace Move

def nanos : Move → Nat
  | .sleep d | .jump d => d.nanos

def isSleep : Move → Bool
  | .sleep _ => true
  | .jump _ => false

def total : List Move → Nat
  | [] => 0
  | m :: rest => m.nanos + total rest

@[simp] theorem total_cons (m : Move) (rest : List Move) :
    total (m :: rest) = m.nanos + total rest := rfl

end Move

def move (p : Patrol σ) : Move → Option (List Event × Patrol σ)
  | .sleep d => p.sleep d
  | .jump d => p.jump d

/-- Moves one after the other; none if time would pass the end of the timer's range. -/
def travel (p : Patrol σ) : List Move → Option (List Event × Patrol σ)
  | [] => some ([], p)
  | m :: rest => do
    let (events, p) ← p.move m
    let (later, p) ← p.travel rest
    return (events ++ later, p)

theorem move_eq (p : Patrol σ) (m : Move) :
    p.move m = (Instant.ofNanos? (p.now.nanos + m.nanos)).map fun stop =>
      p.pass (if m.isSleep then p.now else stop) stop := by
  cases m <;> rfl

section Pass

variable {p : Patrol σ} {k : Ticker} {start mid stop : Instant}

theorem pass_of_open (h : p.sweeper = some (.ticking k)) {events : List Event} {target : σ}
    (hs : sweepAt p.target (k.run start stop).1 = (events, true, target)) :
    p.pass start stop = (events, ⟨stop, some (.ticking (k.run start stop).2), target⟩) := by
  simp [pass, h, hs]

theorem pass_of_closed (h : p.sweeper = some (.ticking k)) {events : List Event} {target : σ}
    (hs : sweepAt p.target (k.run start stop).1 = (events, false, target)) :
    p.pass start stop = (events, ⟨stop, some .finished, target⟩) := by
  simp [pass, h, hs]

theorem pass_of_not_ticking (h : ∀ k, p.sweeper ≠ some (.ticking k)) :
    p.pass start stop = ([], { p with now := stop }) := by
  rcases hs : p.sweeper with _ | ⟨k⟩ | _ | _
  · simp only [pass, hs]
  · exact absurd hs (h k)
  · simp only [pass, hs]
  · simp only [pass, hs]

@[simp] theorem now_pass : (p.pass start stop).2.now = stop := by
  unfold pass
  split <;> rfl

theorem pass_append (hmid : start ≤ mid) (hstop : mid ≤ stop) :
    p.pass start stop = ((p.pass start mid).1 ++ ((p.pass start mid).2.pass mid stop).1,
      ((p.pass start mid).2.pass mid stop).2) := by
  by_cases hticking : ∃ k, p.sweeper = some (.ticking k)
  · obtain ⟨k, hk⟩ := hticking
    have hrun := Ticker.run_append (k := k) hmid hstop
    rcases hfirst : sweepAt p.target (k.run start mid).1 with ⟨events, _ | _, target⟩
    · have hall : sweepAt p.target (k.run start stop).1 = (events, false, target) := by
        rw [hrun]
        exact sweepAt_append_of_closed hfirst _
      have hended : ∀ k', (some .finished : Option Sweeper) ≠ some (.ticking k') := by simp
      rw [pass_of_closed hk hall, pass_of_closed hk hfirst, pass_of_not_ticking hended]
      simp
    · rcases hsecond : sweepAt target ((k.run start mid).2.run mid stop).1 with
        ⟨later, wasOpen, last⟩
      have hall : sweepAt p.target (k.run start stop).1 = (events ++ later, wasOpen, last) := by
        rw [hrun, sweepAt_append_of_open hfirst, hsecond]
      rw [pass_of_open hk hfirst]
      rcases wasOpen with _ | _
      · rw [pass_of_closed hk hall, pass_of_closed rfl hsecond]
      · rw [pass_of_open hk hall, pass_of_open rfl hsecond, hrun]
  · have hidle := not_exists.mp hticking
    have hidle' : ∀ k, ({ p with now := mid } : Patrol σ).sweeper ≠ some (.ticking k) := hidle
    rw [pass_of_not_ticking hidle, pass_of_not_ticking hidle, pass_of_not_ticking hidle']
    rfl

end Pass

theorem add?_add (t : Instant) (a b : Duration) :
    t.add? ⟨a.nanos + b.nanos⟩ = (t.add? a).bind fun mid => mid.add? b := by
  cases hmid : t.add? a with
  | none =>
    rw [Instant.add?_eq_none_iff] at hmid
    apply Instant.add?_eq_none_iff.mpr
    show Instant.limit ≤ t.nanos + (a.nanos + b.nanos)
    omega
  | some mid =>
    rw [Instant.add?_eq_some_iff] at hmid
    simp only [Instant.add?, Option.bind_some, hmid, Nat.add_assoc]

theorem sleep_add (p : Patrol σ) (a b : Duration) :
    p.sleep ⟨a.nanos + b.nanos⟩ = (p.sleep a).bind fun (events, q) =>
      (q.sleep b).map fun (later, r) => (events ++ later, r) := by
  unfold sleep
  rw [add?_add]
  cases hmid : p.now.add? a with
  | none => rfl
  | some mid =>
    simp only [Option.bind_some, Option.map_some, now_pass]
    cases hstop : mid.add? b with
    | none => rfl
    | some stop =>
      have hle : p.now ≤ mid := Instant.le_of_add?_eq_some hmid
      have hle' : mid ≤ stop := Instant.le_of_add?_eq_some hstop
      simp only [Option.map_some, pass_append hle hle']

theorem exists_pass_of_move {p p' : Patrol σ} {m : Move} {events : List Event}
    (h : p.move m = some (events, p')) :
    ∃ start stop, p.now ≤ start ∧ start ≤ stop ∧ (m.isSleep = true → start = p.now) ∧
      p.pass start stop = (events, p') := by
  rw [move_eq, Option.map_eq_some_iff] at h
  obtain ⟨stop, hstop, hpass⟩ := h
  rw [Instant.ofNanos?_eq_some_iff] at hstop
  have hle : p.now ≤ stop := by
    rw [Instant.le_iff]
    omega
  cases m with
  | sleep d => exact ⟨p.now, stop, Nat.le_refl p.now.nanos, hle, fun _ => rfl, hpass⟩
  | jump d => exact ⟨stop, stop, hle, Nat.le_refl stop.nanos, (by intro hs; cases hs), hpass⟩

/-- The sweeps by `t` of a sweeper that starts at the origin and is never late: the first after a
whole wait, and those after it a period apart. -/
def schedule (every : Duration) (t : Nat) : List Nat :=
  let period := min every Ticker.longestPeriod
  (List.range ((t + period.nanos - every.nanos) / period.nanos)).map fun i =>
    every.nanos + i * period.nanos

theorem schedule_of_le {every : Duration} (h : every ≤ Ticker.longestPeriod) (t : Nat) :
    schedule every t = (List.range (t / every.nanos)).map fun i => (i + 1) * every.nanos := by
  have hperiod : (min every Ticker.longestPeriod).nanos = every.nanos := Nat.min_eq_left h
  simp only [schedule, hperiod, Nat.add_sub_cancel, Nat.add_one_mul, Nat.add_comm]

/-- A patrol that came from the target by sweeps at `ticks` and goes on. If `steady`, then time
never jumped. -/
structure Paced (every : Duration) (target : σ) (steady : Prop) (ticks : List Instant)
    (events : List Event) (k : Ticker) (p : Patrol σ) : Prop where
  sweeper : p.sweeper = some (.ticking k)
  period : k.period = min every Ticker.longestPeriod
  swept : sweepAt target ticks = (events, true, p.target)
  ahead : p.now.nanos < k.deadline
  near : k.deadline ≤ p.now.nanos + every.nanos
  spent : every.nanos + ticks.length * k.period.nanos ≤ k.deadline
  recent : ticks ≠ [] → k.deadline ≤ p.now.nanos + k.period.nanos
  onTime : steady →
    ticks.map Instant.nanos =
        (List.range ticks.length).map (fun i => every.nanos + i * k.period.nanos) ∧
      k.deadline = every.nanos + ticks.length * k.period.nanos

namespace Paced

variable {every : Duration} {target : σ} {steady : Prop} {ticks : List Instant}
  {events : List Event} {k : Ticker} {p : Patrol σ}

theorem length_le (h : Paced every target steady ticks events k p) :
    ticks.length ≤ (p.now.nanos + k.period.nanos - every.nanos) / k.period.nanos := by
  rw [Nat.le_div_iff_mul_le k.period_pos]
  by_cases hticks : ticks = []
  · simp [hticks]
  · have hspent := h.spent
    have hrecent := h.recent hticks
    omega

theorem length_eq (h : Paced every target steady ticks events k p) (hsteady : steady) :
    ticks.length = (p.now.nanos + k.period.nanos - every.nanos) / k.period.nanos := by
  apply Nat.le_antisymm h.length_le
  have hdeadline := (h.onTime hsteady).2
  have hahead := h.ahead
  have hpos := k.period_pos
  apply Nat.le_of_lt_succ
  rw [Nat.div_lt_iff_lt_mul hpos, Nat.succ_mul]
  omega

theorem pass (h : Paced every target steady ticks events k p) (hopen : StaysOpen target)
    {start stop : Instant} (hnow : p.now ≤ start) (hstop : start ≤ stop) :
    Paced every target (steady ∧ start = p.now) (ticks ++ (k.run start stop).1)
      (events ++ (p.pass start stop).1) (k.run start stop).2 (p.pass start stop).2 := by
  obtain ⟨later, target', hs⟩ := (hopen.last h.swept).exists_sweepAt (k.run start stop).1
  rw [pass_of_open h.sweeper hs]
  have hnow' := Instant.le_iff.mp hnow
  have hstop' := Instant.le_iff.mp hstop
  have hperiod : k.period.nanos ≤ every.nanos := by
    rw [h.period]
    exact Nat.min_le_left _ _
  have hnear := h.near
  have hspent := h.spent
  have hadded := k.deadline_add_le_run start stop
  constructor
  · rfl
  · rw [Ticker.period_run, h.period]
  · rw [sweepAt_append_of_open h.swept, hs]
  · exact k.lt_deadline_run start stop
  · exact Ticker.deadline_run_le hstop hperiod (by omega)
  · rw [Ticker.period_run, List.length_append, Nat.add_mul]
    omega
  · intro hticks
    rw [Ticker.period_run]
    by_cases hnew : (k.run start stop).1 = []
    · have hold : ticks ≠ [] := by simpa [hnew] using hticks
      have hrecent := h.recent hold
      exact Ticker.deadline_run_le hstop (Nat.le_refl _) (by omega)
    · exact Ticker.deadline_run_le_of_tick hstop hnew
  · rintro ⟨hsteady, rfl⟩
    obtain ⟨hold, hdeadline⟩ := h.onTime hsteady
    obtain ⟨hnew, hlast⟩ := Ticker.run_of_never_late (Nat.le_of_lt h.ahead) stop
    rw [Ticker.period_run]
    constructor
    · rw [List.map_append, hold, hnew, List.length_append, List.range_add, List.map_append,
        List.map_map, hdeadline]
      simp only [Function.comp_def, Nat.add_mul, Nat.add_assoc]
    · rw [hlast, hdeadline, List.length_append, Nat.add_mul, Nat.add_assoc]

theorem move (h : Paced every target steady ticks events k p) (hopen : StaysOpen target)
    {m : Move} {later : List Event} {p' : Patrol σ} (hm : p.move m = some (later, p')) :
    ∃ ticks' k', Paced every target (steady ∧ m.isSleep = true) ticks' (events ++ later) k' p' := by
  obtain ⟨start, stop, hnow, hstop, hsleep, hpass⟩ := exists_pass_of_move hm
  have hpaced := h.pass hopen hnow hstop
  rw [hpass] at hpaced
  exact ⟨_, _, { hpaced with onTime := fun hs => hpaced.onTime ⟨hs.1, hsleep hs.2⟩ }⟩

theorem length_jump_le (h : Paced every target steady ticks events k p) (stop : Instant) :
    (k.run stop stop).1.length ≤ Ticker.tolerance.nanos / every.nanos + 1 := by
  refine Nat.le_trans (k.length_run_jump_le stop) (Nat.add_le_add_right ?_ 1)
  rw [h.period]
  by_cases hshort : every.nanos ≤ Ticker.longestPeriod.nanos
  · have hperiod : (min every Ticker.longestPeriod).nanos = every.nanos := Nat.min_eq_left hshort
    exact Nat.le_of_eq (congrArg _ hperiod)
  · have hzero : Ticker.tolerance.nanos / Ticker.longestPeriod.nanos = 0 := by decide
    rw [Duration.nanos_min, Nat.min_eq_right (Nat.le_of_not_le hshort), hzero]
    exact Nat.zero_le _

/-- A jump over the next sweep is followed by one, though not by one for each that was missed. -/
theorem exists_of_jump (h : Paced every target steady ticks events k p)
    (hopen : StaysOpen target) {d : Duration} {later : List Event} {p' : Patrol σ}
    (hjump : p.jump d = some (later, p')) :
    ∃ k' ticks', p'.sweeper = some (.ticking k') ∧
      sweepAt p.target ticks' = (later, true, p'.target) ∧
      (k.deadline ≤ p'.now.nanos → ticks' ≠ []) ∧
      ticks'.length ≤ Ticker.tolerance.nanos / every.nanos + 1 := by
  obtain ⟨stop, -, hpass⟩ := Option.map_eq_some_iff.mp hjump
  obtain ⟨found, target', hs⟩ := (hopen.last h.swept).exists_sweepAt (k.run stop stop).1
  rw [pass_of_open h.sweeper hs, Prod.mk.injEq] at hpass
  obtain ⟨rfl, rfl⟩ := hpass
  exact ⟨_, _, rfl, hs, Ticker.ticks_ne_nil, h.length_jump_le stop⟩

theorem length_le_schedule (h : Paced every target steady ticks events k p) :
    ticks.length ≤ (schedule every p.now.nanos).length := by
  have hlength := h.length_le
  rw [h.period] at hlength
  simpa [schedule] using hlength

theorem ticks_eq_schedule (h : Paced every target steady ticks events k p) (hsteady : steady) :
    ticks.map Instant.nanos = schedule every p.now.nanos := by
  rw [(h.onTime hsteady).1, h.length_eq hsteady, h.period]
  rfl

end Paced

theorem travel_of_paced {every : Duration} {target : σ} {steady : Prop} {ticks : List Instant}
    {events later : List Event} {k : Ticker} {p p' : Patrol σ}
    (h : Paced every target steady ticks events k p) (hopen : StaysOpen target)
    {moves : List Move} (hm : p.travel moves = some (later, p')) :
    ∃ ticks' k', Paced every target (steady ∧ ∀ m ∈ moves, m.isSleep = true) ticks'
      (events ++ later) k' p' := by
  induction moves generalizing events later p steady ticks k with
  | nil =>
    simp only [travel, Option.some.injEq, Prod.mk.injEq] at hm
    obtain ⟨rfl, rfl⟩ := hm
    rw [List.append_nil]
    exact ⟨ticks, k, { h with onTime := fun hs => h.onTime hs.1 }⟩
  | cons m rest ih =>
    simp only [travel, bind, Option.bind_eq_some_iff, pure, Option.some.injEq, Prod.exists,
      Prod.mk.injEq] at hm
    obtain ⟨first, q, hfirst, last, r, hlast, rfl, rfl⟩ := hm
    obtain ⟨ticks', k', hpaced⟩ := h.move hopen hfirst
    obtain ⟨ticks'', k'', hpaced'⟩ := ih hpaced hlast
    rw [← List.append_assoc]
    refine ⟨ticks'', k'', { hpaced' with onTime := fun hs => hpaced'.onTime ?_ }⟩
    have hsleeps := List.forall_mem_cons.mp hs.2
    exact ⟨⟨hs.1, hsleeps.1⟩, hsleeps.2⟩

theorem exists_travel (p : Patrol σ) (moves : List Move)
    (h : p.now.nanos + Move.total moves < Instant.limit) :
    ∃ events p', p.travel moves = some (events, p') ∧
      p'.now.nanos = p.now.nanos + Move.total moves := by
  induction moves generalizing p with
  | nil => exact ⟨[], p, rfl, rfl⟩
  | cons m rest ih =>
    rw [Move.total_cons] at h ⊢
    obtain ⟨stop, hstop⟩ : ∃ stop, Instant.ofNanos? (p.now.nanos + m.nanos) = some stop := by
      rw [Instant.ofNanos?, dif_pos (by omega)]
      exact ⟨_, rfl⟩
    have hmove : p.move m = some (p.pass (if m.isSleep then p.now else stop) stop) := by
      rw [move_eq, hstop]
      rfl
    rw [Instant.ofNanos?_eq_some_iff] at hstop
    obtain ⟨later, p', hrest, hnow⟩ :=
      ih (p.pass (if m.isSleep then p.now else stop) stop).2 (by rw [now_pass]; omega)
    refine ⟨(p.pass (if m.isSleep then p.now else stop) stop).1 ++ later, p', ?_, ?_⟩
    · simp [travel, hmove, hrest]
    · rw [hnow, now_pass]
      omega

theorem paced_start {every : Duration} (hpos : 0 < every.nanos)
    (hrange : every.nanos < Instant.limit) (target : σ) :
    ∃ k, Paced every target True [] [] k (start every target).2 := by
  have hfirst : Instant.origin.add? every = some ⟨every.nanos, hrange⟩ := by
    rw [Instant.add?_eq_some_iff]
    exact (Nat.zero_add _).symm
  have hstart : Sweeper.start every .origin = ([.sweeperStarting every], .ticking
      ⟨min every Ticker.longestPeriod, every.nanos, Nat.lt_min.mpr ⟨hpos, by decide⟩⟩) := by
    simp only [Sweeper.start, hpos, dite_true, Ticker.start?, hfirst, Option.map_some]
  refine ⟨⟨min every Ticker.longestPeriod, every.nanos, Nat.lt_min.mpr ⟨hpos, by decide⟩⟩, ?_⟩
  unfold start
  rw [hstart]
  exact {
    sweeper := rfl
    period := rfl
    swept := rfl
    ahead := hpos
    near := Nat.le_add_left _ _
    spent := by simp
    recent := fun h => absurd rfl h
    onTime := fun _ => by simp }

/-- A patrol of a target that stays open keeps to its schedule while time passes by any moves. The
next sweep is to come, at most a whole wait away, and there were no more sweeps than the schedule
has, and just those if time never jumped; for waits that are no longer than the longest period these
are the multiples of the wait. A stop on the way of a sleep makes no difference, and a jump over the
next sweep is followed by one, or by a few if they are a few milliseconds apart. -/
theorem travel_on_schedule (every : Duration) (target : σ) (moves : List Move)
    (hpos : 0 < every.nanos) (hrange : every.nanos < Instant.limit)
    (htime : Move.total moves < Instant.limit) (hopen : StaysOpen target) :
    ∃ events p k ticks, (start every target).2.travel moves = some (events, p) ∧
      p.now.nanos = Move.total moves ∧ p.sweeper = some (.ticking k) ∧
      sweepAt target ticks = (events, true, p.target) ∧
      p.now.nanos < k.deadline ∧ k.deadline ≤ p.now.nanos + every.nanos ∧
      ticks.length ≤ (schedule every p.now.nanos).length ∧
      ((∀ m ∈ moves, m.isSleep = true) →
        ticks.map Instant.nanos = schedule every p.now.nanos) ∧
      (every ≤ Ticker.longestPeriod → schedule every p.now.nanos =
        (List.range (p.now.nanos / every.nanos)).map fun i => (i + 1) * every.nanos) ∧
      (∀ a b : Duration, p.sleep ⟨a.nanos + b.nanos⟩ = (p.sleep a).bind fun (first, q) =>
        (q.sleep b).map fun (second, r) => (first ++ second, r)) ∧
      ∀ d later p', p.jump d = some (later, p') → ∃ k' ticks',
        p'.sweeper = some (.ticking k') ∧ sweepAt p.target ticks' = (later, true, p'.target) ∧
        (k.deadline ≤ p'.now.nanos → ticks' ≠ []) ∧
        ticks'.length ≤ Ticker.tolerance.nanos / every.nanos + 1 ∧
        (Ticker.tolerance < every → ticks'.length ≤ 1) := by
  obtain ⟨k₀, hstart⟩ := paced_start hpos hrange target
  have hnow₀ : (start every target).2.now.nanos = 0 := rfl
  obtain ⟨events, p, htravel, hnow⟩ := (start every target).2.exists_travel moves (by omega)
  rw [hnow₀, Nat.zero_add] at hnow
  obtain ⟨ticks, k, hpaced⟩ := travel_of_paced hstart hopen htravel
  refine ⟨events, p, k, ticks, htravel, hnow, hpaced.sweeper, hpaced.swept, hpaced.ahead,
    hpaced.near, hpaced.length_le_schedule,
    fun hsleeps => hpaced.ticks_eq_schedule ⟨trivial, hsleeps⟩,
    fun hshort => schedule_of_le hshort _, p.sleep_add, ?_⟩
  intro d later p' hjump
  obtain ⟨k', ticks', hsweeper, hswept, hover, hlength⟩ := hpaced.exists_of_jump hopen hjump
  refine ⟨k', ticks', hsweeper, hswept, hover, hlength, ?_⟩
  intro hlong
  rwa [Nat.div_eq_of_lt hlong] at hlength

/-- A sweeper that sleeps for three and a half waits, and then jumps over seven. -/
theorem travel_on_schedule_of_seconds :
    let every := Duration.ofSeconds 1
    let moves : List Move := [.sleep (.ofMillis 1_500), .sleep (.ofSeconds 2)]
    0 < every.nanos ∧ every.nanos < Instant.limit ∧ Move.total moves < Instant.limit ∧
      StaysOpen ({} : Script) ∧
      ∃ events p k ticks, (start every ({} : Script)).2.travel moves = some (events, p) ∧
        p.sweeper = some (.ticking k) ∧ sweepAt ({} : Script) ticks = (events, true, p.target) ∧
        ticks.map Instant.nanos = [1_000_000_000, 2_000_000_000, 3_000_000_000] ∧
        3_500_000_000 < k.deadline ∧ k.deadline ≤ 4_500_000_000 ∧
        ∃ later p', p.jump (.ofSeconds 7) = some (later, p') ∧ ∃ ticks',
          sweepAt p.target ticks' = (later, true, p'.target) ∧ ticks'.length ≤ 1 := by
  intro every moves
  have hopen : StaysOpen ({} : Script) := Script.staysOpen (List.forall_mem_nil _)
  obtain ⟨events, p, k, ticks, htravel, hnow, hsweeper, hswept, hahead, hnear, -, hticks, -, -,
      hlater⟩ :=
    travel_on_schedule every ({} : Script) moves (by decide) (by decide) (by decide) hopen
  have hjump : ((start every ({} : Script)).2.travel moves).map
      (fun x => (x.2.jump (.ofSeconds 7)).isSome) = some true := by
    decide +kernel
  rw [htravel, Option.map_some, Option.some.injEq] at hjump
  obtain ⟨⟨later, p'⟩, hlate⟩ := Option.isSome_iff_exists.mp hjump
  obtain ⟨-, ticks', -, hswept', -, -, hlength⟩ := hlater _ _ _ hlate
  have hsum : Move.total moves = 3_500_000_000 := by decide
  have hevery : every.nanos = 1_000_000_000 := by decide
  have hsleeps : ∀ m ∈ moves, m.isSleep = true := by decide
  rw [hnow, hsum] at hahead hnear hticks
  rw [hevery] at hnear
  exact ⟨by decide, by decide, by decide, hopen, events, p, k, ticks, htravel, hsweeper, hswept,
    (hticks hsleeps).trans (by decide), hahead, hnear, later, p', hlate, ticks', hswept',
    hlength (by decide)⟩

/-- The second sweep after a wait of a century comes with the longest period, not with the second
century. -/
theorem two_sweeps_in_one_century :
    let every := Duration.ofSeconds 3_153_600_000
    StaysOpen ({} : Script) ∧ ∃ events p, (start every ({} : Script)).2.travel
        [.jump (.ofSeconds 3_153_600_000), .jump (.ofSeconds 946_080_000)] = some (events, p) ∧
      p.isFinished? = some false ∧ ¬ p.target.sweeps.length ≤ p.now.nanos / every.nanos := by
  intro every
  have hopen : StaysOpen ({} : Script) := Script.staysOpen (List.forall_mem_nil _)
  have hvalues : ((start every ({} : Script)).2.travel
      [.jump (.ofSeconds 3_153_600_000), .jump (.ofSeconds 946_080_000)]).map
        (fun x => (x.2.isFinished?, x.2.target.sweeps.length, x.2.now.nanos)) =
      some (some false, 2, 4_099_680_000_000_000_000) := by
    decide +kernel
  obtain ⟨⟨events, p⟩, htravel, hp⟩ := Option.map_eq_some_iff.mp hvalues
  simp only [Prod.mk.injEq] at hp
  obtain ⟨hticking, hsweeps, hnow⟩ := hp
  refine ⟨hopen, events, p, htravel, hticking, ?_⟩
  rw [hsweeps, hnow]
  decide

end Patrol
end TimedCache
