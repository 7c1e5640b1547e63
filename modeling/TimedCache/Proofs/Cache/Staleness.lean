import TimedCache.Proofs.Cache.Closed
import TimedCache.Proofs.Store.Sweeps

/-!
How long the dead stay. While entries go by the timer, the next sweep is never further away than
the time between sweeps, and no entry is dead for longer than that when it comes: what is written
or read meanwhile does not die before now, and what a sweep leaves dies after the sweep.
-/
namespace TimedCache

variable {K V : Type}

def Entry.diedWithin (e : Entry V) (wait : Duration) (now : Instant) : Bool :=
  e.deadline.any fun deadline => deadline ≤ now && now.nanos < deadline.nanos + wait.nanos

theorem Entry.diedWithin_eq {e : Entry V} {wait : Duration} {now : Instant}
    (h : ∀ deadline ∈ e.deadline, now.nanos < deadline.nanos + wait.nanos) :
    e.diedWithin wait now = e.isDead now := by
  unfold diedWithin isDead
  cases hd : e.deadline with
  | none => rfl
  | some deadline => simp [h deadline hd]

variable [CacheKey K]

/-- A deadline in the list was there before the operation, or does not come before it. -/
theorem Line.deadline_of_mem_step {l : Line K V} (hfits : l.Fits) {now : Instant}
    {op : Store.Op K V} {key : K} {e : Entry V} (h : (key, e) ∈ (l.step now op).2.entries)
    {deadline : Instant} (hd : deadline ∈ e.deadline) :
    now ≤ deadline ∨ ∃ e', (key, e') ∈ l.entries ∧ deadline ∈ e'.deadline := by
  cases fate_of_mem hfits h with
  | written hwrite => exact .inl (Instant.le_of_add?_eq_some hd)
  | @read e hop hfind hlive =>
    cases hwindow : l.rules.policy.window? with
    | some window =>
      rw [Policy.read, hwindow] at hd
      exact .inl (Instant.le_of_add?_eq_some hd)
    | none =>
      rw [Policy.read, hwindow] at hd
      exact .inr ⟨e, mem_of_find? hfind, hd⟩
  | kept hmem => exact .inr ⟨e, hmem, hd⟩

namespace Store

/-- No entry of the store will have been dead for longer than `wait` when it is `due`. -/
def Recent (s : Store K V) (wait due : Nat) : Prop :=
  ∃ l, s.Kept l ∧ ∀ p ∈ l.entries, ∀ deadline ∈ p.2.deadline, due ≤ deadline.nanos + wait

variable {s : Store K V} {wait due : Nat} {now : Instant}

theorem recent_empty (capacity : Option Nat) (lifetime : Duration) (policy : Policy)
    (wait due : Nat) : (empty capacity lifetime policy : Store K V).Recent wait due :=
  ⟨_, kept_empty capacity lifetime policy, fun _ hp => absurd hp List.not_mem_nil⟩

theorem Recent.le (h : s.Recent wait due) {key : K} {e : Entry V} (he : s.entries[key]? = some e)
    {deadline : Instant} (hd : deadline ∈ e.deadline) : due ≤ deadline.nanos + wait := by
  obtain ⟨l, hl, hrecent⟩ := h
  exact hrecent (key, e) (hl.listed.arranged.mem_iff.mpr he) deadline hd

theorem Recent.step (h : s.Recent wait due) (hdue : due ≤ now.nanos + wait) (op : Op K V) :
    (s.step now op).2.Recent wait due := by
  obtain ⟨l, hl, hrecent⟩ := h
  refine ⟨(l.step now op).2, kept_step hl now op, ?_⟩
  rintro ⟨key, e⟩ hp deadline hd
  rcases Line.deadline_of_mem_step hl.fits hp hd with hnew | ⟨e', hold, hd'⟩
  · rw [Instant.le_iff] at hnew
    omega
  · exact hrecent (key, e') hold deadline hd'

/-- A sweep leaves nothing that is dead, so the next one may be a whole wait away. -/
theorem Recent.sweep (h : s.Recent wait due) {next : Nat} (hnext : next ≤ now.nanos + wait) :
    (s.sweep now).2.Recent wait next := by
  obtain ⟨l, hl, -⟩ := h
  refine ⟨(l.step now .sweep).2, kept_step hl now .sweep, ?_⟩
  intro p hp deadline hd
  have hlive := Entry.isDead_eq_false_iff.mp (Line.mem_buryDead_iff.mp hp).2 deadline hd
  rw [Instant.lt_iff] at hlive
  omega

end Store

theorem Contents.recent_sweepAt {c : Contents K V} {k : Ticker} {wait : Nat}
    (hopen : c.closed = false) (htimer : c.clock.source = .timer) (hperiod : k.period.nanos ≤ wait)
    (h : c.store.Recent wait k.deadline) (start stop : Instant) :
    ∃ events c', sweepAt c (k.run start stop).1 = (events, true, c') ∧ c'.closed = false ∧
      c'.store.Recent wait (k.run start stop).2.deadline := by
  induction k using Ticker.run.induct start stop generalizing c with
  | case1 k hdue =>
    rw [Ticker.run_of_not_due hdue]
    exact ⟨[], c, rfl, hopen, h⟩
  | case2 k first hdue hless ticks last hrun ih =>
    -- A late tick may put the next deadline off, but a sweep at the tick leaves nothing dead then.
    obtain ⟨hk, hfirst⟩ := Ticker.due?_eq_some hdue
    have hrearm : (k.rearm first).deadline ≤ first.nanos + k.period.nanos :=
      Ticker.deadline_rearm_le (by omega)
    have hnow : c.clock.now first = first := by
      rw [Clock.now, htimer]
    have hsweep := sweep_of_open hopen first
    rw [hnow] at hsweep
    have hrecent : (c.store.sweep first).2.Recent wait (k.rearm first).deadline :=
      h.sweep (by omega)
    obtain ⟨events, c', hswept, hopen', hlast⟩ :=
      ih (c := { c with store := (c.store.sweep first).2 }) hopen htimer hperiod hrecent
    rw [Ticker.run_of_due hdue, sweepAt_cons_of_open hsweep, hswept]
    exact ⟨_, c', rfl, hopen', hlast⟩

/-- The patrol of an open cache. The next sweep is to come, no further away than `wait`, and no
entry will have been dead for longer than that when it comes. -/
structure Guarded (wait : Nat) (k : Ticker) (p : Patrol (Contents K V)) : Prop where
  ticking : p.sweeper = some (.ticking k)
  opened : p.target.closed = false
  period : k.period.nanos ≤ wait
  ahead : p.now.nanos < k.deadline
  near : k.deadline ≤ p.now.nanos + wait
  recent : p.target.store.Recent wait k.deadline

theorem Guarded.pass {wait : Nat} {k : Ticker} {p : Patrol (Contents K V)} (h : Guarded wait k p)
    (htimer : p.target.clock.source = .timer) {start stop : Instant} (hstart : p.now ≤ start)
    (hstop : start ≤ stop) : Guarded wait (k.run start stop).2 (p.pass start stop).2 := by
  obtain ⟨events, c', hswept, hopen, hrecent⟩ :=
    Contents.recent_sweepAt h.opened htimer h.period h.recent start stop
  rw [Patrol.pass_of_open h.ticking hswept]
  have hnear := h.near
  rw [Instant.le_iff] at hstart
  have hstop' := Instant.le_iff.mp hstop
  exact {
    ticking := rfl
    opened := hopen
    period := by rw [Ticker.period_run]; exact h.period
    ahead := k.lt_deadline_run start stop
    near := Ticker.deadline_run_le hstop h.period (by omega)
    recent := hrecent }

namespace Cache

variable {c d : Cache K V} {request : Request K V} {wait : Nat}

theorem Leads.source_eq (h : c.Leads request d) :
    d.patrol.target.clock.source = c.patrol.target.clock.source := by
  cases h with
  | stays => rfl
  | operates op =>
    unfold operate
    split <;> rfl
  | advances hclock => exact Clock.source_advance hclock
  | passes hstart hstop =>
    exact congrArg Clock.source (Contents.swept_pass c.patrol hstop).2.clock
  | closes =>
    unfold close
    split <;> rfl

theorem now_of_timer (h : c.patrol.target.clock.source = .timer) : c.now = c.patrol.now := by
  rw [now, Clock.now, h]

theorem Leads.guarded (h : c.Leads request d) (htimer : c.patrol.target.clock.source = .timer)
    (hc : c.isClosed = false → ∃ k, Guarded wait k c.patrol) :
    d.isClosed = false → ∃ k, Guarded wait k d.patrol := by
  cases h with
  | stays => exact hc
  | operates op =>
    intro hopen
    rw [isClosed_operate] at hopen
    obtain ⟨k, hk⟩ := hc hopen
    have hdue : k.deadline ≤ c.now.nanos + wait := by
      rw [now_of_timer htimer]
      exact hk.near
    rw [operate, hopen]
    exact ⟨k, { hk with recent := hk.recent.step hdue op }⟩
  | advances hclock =>
    intro hopen
    obtain ⟨k, hk⟩ := hc hopen
    exact ⟨k, { hk with }⟩
  | passes hstart hstop =>
    intro hopen
    have hclosed := (Contents.swept_pass c.patrol hstop).2.closed
    obtain ⟨k, hk⟩ := hc (hclosed.symm.trans hopen)
    exact ⟨_, hk.pass htimer hstart hstop⟩
  | closes =>
    intro hopen
    cases hclosed : c.isClosed with
    | true => rw [close_of_closed hclosed, hclosed] at hopen; cases hopen
    | false => rw [close_of_open hclosed] at hopen; cases hopen

theorem source_after (c : Cache K V) (requests : List (Request K V)) :
    (c.after requests).patrol.target.clock.source = c.patrol.target.clock.source :=
  after_of_leads (P := fun d => d.patrol.target.clock.source = c.patrol.target.clock.source) rfl
    fun _ _ _ _ hleads hd => hleads.source_eq.trans hd

theorem guarded_after (htimer : c.patrol.target.clock.source = .timer)
    (hc : c.isClosed = false → ∃ k, Guarded wait k c.patrol) (requests : List (Request K V)) :
    (c.after requests).isClosed = false → ∃ k, Guarded wait k (c.after requests).patrol := by
  suffices h : (c.after requests).patrol.target.clock.source = .timer ∧
      ((c.after requests).isClosed = false → ∃ k, Guarded wait k (c.after requests).patrol) from h.2
  apply after_of_leads (P := fun d => d.patrol.target.clock.source = .timer ∧
    (d.isClosed = false → ∃ k, Guarded wait k d.patrol)) ⟨htimer, hc⟩
  rintro request - d d' hleads ⟨hd, hguarded⟩
  exact ⟨hleads.source_eq.trans hd, hleads.guarded hd hguarded⟩

theorem guarded_ofPlan {p : Plan V} (hpos : 0 < p.settings.sweepEvery.nanos)
    (hrange : p.settings.sweepEvery.nanos < Instant.limit) :
    ∃ k, Guarded p.settings.sweepEvery.nanos k (ofPlan p : Cache K V).patrol := by
  obtain ⟨k, hk⟩ := Patrol.paced_start hpos hrange (p.contents : Contents K V)
  refine ⟨k, hk.sweeper, ?_, ?_, hk.ahead, hk.near, ?_⟩
  · rfl
  · rw [hk.period]
    exact Nat.min_le_left _ _
  · exact Store.recent_empty _ _ _ _ _

theorem sweepEvery_pos_of_build {p : Plan V} {ambient : Bool} {events : List Event}
    (h : p.build ambient = .ok (events, c)) : 0 < p.settings.sweepEvery.nanos := by
  cases hvalid : p.settings.validate with
  | error e =>
    rw [Plan.build, hvalid] at h
    cases h
  | ok valid =>
    have hevery := p.settings.validate_eq_ok_iff.mp hvalid
    rw [Ne, Duration.ext_iff] at hevery
    exact Nat.pos_of_ne_zero hevery

/-- While entries go by the timer, none of them is still there when it has been dead for as long as
lies between two sweeps: all that there is beyond the live entries has died less than that ago. -/
theorem dead_for_less_than_sweepEvery (p : Plan V) {ambient : Bool} {c : Cache K V}
    {events : List Event} (hbuild : p.build ambient = .ok (events, c))
    (htimer : p.clock.source = .timer) (requests : List (Request K V)) :
    let d := c.after requests
    (∀ (key : K) (e : Entry V), d.store.entries[key]? = some e → ∀ deadline ∈ e.deadline,
        d.patrol.now.nanos < deadline.nanos + p.settings.sweepEvery.nanos) ∧
      d.counters.entries = d.liveSize + d.store.entries.toList.countP fun q =>
        q.2.diedWithin p.settings.sweepEvery d.patrol.now := by
  intro d
  have hc := eq_of_build hbuild
  have hopen : c.isClosed = false := hc ▸ isClosed_ofPlan p
  have hsource : c.patrol.target.clock.source = .timer := by
    rw [hc]
    exact htimer
  have hinert : d.isClosed = true → d.Inert :=
    inert_after (fun hclosed => by simp [hopen] at hclosed) requests
  have hstale : ∀ (key : K) (e : Entry V), d.store.entries[key]? = some e →
      ∀ deadline ∈ e.deadline,
        d.patrol.now.nanos < deadline.nanos + p.settings.sweepEvery.nanos := by
    intro key e he deadline hdeadline
    by_cases hrange : p.settings.sweepEvery.nanos < Instant.limit
    · cases hclosed : d.isClosed with
      | true => simp [(hinert hclosed).empty] at he
      | false =>
        have hstart : ∃ k, Guarded p.settings.sweepEvery.nanos k c.patrol := by
          rw [hc]
          exact guarded_ofPlan (sweepEvery_pos_of_build hbuild) hrange
        obtain ⟨k, hk⟩ := guarded_after hsource (fun _ => hstart) requests hclosed
        exact Nat.lt_of_lt_of_le hk.ahead (hk.recent.le he hdeadline)
    · -- The timer ends before the first sweep, and so before anything has been dead for long.
      have hnow := d.patrol.now.inRange
      omega
  refine ⟨hstale, ?_⟩
  cases hclosed : d.isClosed with
  | true =>
    have hempty := (hinert hclosed).empty
    rw [liveSize, hclosed, hempty, (hinert hclosed).counters]
    rfl
  | false =>
    have hnow : d.now = d.patrol.now := now_of_timer ((c.source_after requests).trans hsource)
    have hdied : (d.store.entries.toList.countP fun q =>
        q.2.diedWithin p.settings.sweepEvery d.patrol.now) =
        d.store.entries.toList.countP fun q => q.2.isDead d.patrol.now := by
      apply List.countP_congr
      rintro ⟨key, e⟩ hmem
      rw [Std.ExtTreeMap.mem_toList_iff_getElem?_eq_some] at hmem
      rw [Entry.diedWithin_eq (hstale key e hmem)]
    rw [hdied, liveSize, hclosed, hnow]
    exact d.store.size_eq_liveSize_add d.patrol.now

/-- The sweep in between has taken the first entry; the second has died since then. -/
theorem dead_for_less_than_sweepEvery_of_short_life :
    let p : Plan Nat :=
      { settings := ⟨.ofSeconds 1, .ofMillis 300, .seconds, none, none⟩, emptyValue := 0 }
    let requests : List (Request Nat Nat) :=
      [.put 1 10, .sleep (.ofMillis 1_500), .put 2 20, .sleep (.ofMillis 400)]
    ∃ events c, p.build true = .ok (events, c) ∧ p.clock.source = .timer ∧
      (c.after requests).liveSize = 0 ∧ (c.after requests).counters.entries = 1 ∧
      ((c.after requests).store.entries.toList.countP fun q =>
        q.2.diedWithin (.ofSeconds 1) (c.after requests).patrol.now) = 1 := by
  intro p requests
  obtain ⟨events, hbuild⟩ : ∃ events, p.build true = .ok (events, (ofPlan p : Cache Nat Nat)) :=
    build_eq_ok (by decide) rfl
  have hlive : ((ofPlan p).after requests).liveSize = 0 := by decide +kernel
  have hentries : ((ofPlan p).after requests).counters.entries = 1 := by decide +kernel
  obtain ⟨-, hcount⟩ := dead_for_less_than_sweepEvery p hbuild rfl requests
  rw [hlive, hentries, Nat.zero_add] at hcount
  exact ⟨events, _, hbuild, rfl, hlive, hentries, hcount.symm⟩

end Cache
end TimedCache
