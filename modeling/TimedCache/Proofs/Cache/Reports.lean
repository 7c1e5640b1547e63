import TimedCache.Proofs.Cache.Closed
import TimedCache.Proofs.Store.Reports

/-!
What a cache reports of its work, held against its counters. Every eviction and every sweep of the
sweeper is reported when it is counted, a sweep out of turn is only counted, and the end of the
cache is reported at most once.
-/
namespace TimedCache

variable {K V : Type} [CacheKey K]

theorem Contents.sweepAt_of_open {c : Contents K V} {l : Line K V} (hopen : c.closed = false)
    (h : c.store.Kept l) (ts : List Instant) :
    sweepAt c ts = ((c.store.removals (ts.map c.clock.now)).map .swept, true,
      { c with store := c.store.sweepEach (ts.map c.clock.now) }) := by
  induction ts generalizing c l with
  | nil => rfl
  | cons t rest ih =>
    have hnext := Store.kept_step h (c.clock.now t) .sweep
    have hsweep := sweep_of_open hopen t
    rw [Store.sweep_fst h] at hsweep
    rw [sweepAt_cons_of_open hsweep,
      ih (c := { c with store := (c.store.sweep (c.clock.now t)).2 }) hopen hnext]
    rfl

theorem Patrol.pass_of_target {p : Patrol (Contents K V)} {l : Line K V}
    (hopen : p.target.closed = false) (h : p.target.store.Kept l) (start stop : Instant) :
    let ts := (p.ticks start stop).map p.target.clock.now
    (p.pass start stop).1 = (p.target.store.removals ts).map .swept ∧
      (p.pass start stop).2.target.store = p.target.store.sweepEach ts ∧
      (p.pass start stop).2.target.closed = false := by
  by_cases hticking : ∃ k, p.sweeper = some (.ticking k)
  · obtain ⟨k, hk⟩ := hticking
    have hticks : p.ticks start stop = (k.run start stop).1 := by rw [ticks, hk]
    rw [hticks, pass_of_open hk (Contents.sweepAt_of_open hopen h _)]
    exact ⟨rfl, rfl, hopen⟩
  · have hidle := not_exists.mp hticking
    have hticks : p.ticks start stop = [] := by
      unfold ticks
      split
      · rename_i k hk
        exact absurd hk (hidle k)
      · rfl
    rw [hticks, pass_of_not_ticking hidle]
    exact ⟨rfl, rfl, hopen⟩

namespace Cache

/-- How many entries each sweep of the sweeper takes out while a request is carried out. -/
def removals (c : Cache K V) (request : Request K V) : List Nat :=
  c.store.removals ((c.ticks request).map c.patrol.target.clock.now)

/-- The sweeps that a request asks for, which a closed cache does not carry out. -/
def asked (c : Cache K V) (request : Request K V) : Nat :=
  if request.isSweep && !c.isClosed then 1 else 0

/-- A cache that holds `capacity` entries at most, and has nothing left that could change once it
is closed. -/
structure Sound (capacity : Option Nat) (c : Cache K V) : Prop where
  kept : ∃ l, c.store.Kept l ∧ l.rules.capacity = capacity
  closed : c.isClosed = true → c.Inert

/-- What the request reports agrees with what it does to the counters. -/
structure Reported (capacity : Option Nat) (c : Cache K V) (request : Request K V)
    (events : List Event) (d : Cache K V) : Prop where
  evictions : Evictions capacity events c.counters d.counters
  swept : events.filter Event.isSweep = (c.removals request).map .swept
  leaves : c.ticks request ≠ [] →
    d.store = c.store.sweepEach ((c.ticks request).map c.patrol.target.clock.now)
  sweeps : d.counters.sweeps = c.counters.sweeps + events.countP Event.isSweep + c.asked request
  ends : c.isClosed.toNat + events.countP Event.isClose = d.isClosed.toNat
  released : ∀ n, .closed n ∈ events → n = c.counters.entries

variable {capacity : Option Nat} {c d : Cache K V} {request : Request K V} {events : List Event}

theorem reported_of_silent (hstore : d.store = c.store) (hclosed : d.isClosed = c.isClosed)
    (hticks : c.ticks request = []) (hasked : c.asked request = 0) :
    Reported capacity c request [] d where
  evictions := evictions_of_none (by simp) (by rw [counters, hstore]; rfl)
  swept := by
    rw [removals, hticks]
    rfl
  leaves hne := absurd hticks hne
  sweeps := by
    rw [counters, hstore, hasked]
    rfl
  ends := by rw [hclosed]; rfl
  released n hn := absurd hn List.not_mem_nil

theorem asked_of_closed (h : c.isClosed = true) (request : Request K V) : c.asked request = 0 := by
  simp [asked, h]

theorem asked_of_not_sweep (h : request.isSweep = false) (c : Cache K V) : c.asked request = 0 := by
  simp [asked, h]

theorem isEviction_of_mem_reports {op : Store.Op K V} {e : Event} (he : e ∈ c.reports op) :
    e.isEviction = true := by
  unfold reports at he
  split at he
  · cases he
  · exact Store.isEviction_of_mem_events he

theorem store_operate (h : c.isClosed = false) (op : Store.Op K V) :
    (c.operate op).store = (c.store.step c.now op).2 := by
  rw [operate, h]
  rfl

theorem reported_operate (h : c.Sound capacity) (op : Store.Op K V)
    (hsweep : request.isSweep = true ↔ op = .sweep) (hticks : c.ticks request = []) :
    Reported capacity c request (c.reports op) (c.operate op) := by
  cases hclosed : c.isClosed with
  | true =>
    have hreports : c.reports op = [] := if_pos hclosed
    have hsame : c.operate op = c := if_pos hclosed
    rw [hreports, hsame]
    exact reported_of_silent rfl rfl hticks (asked_of_closed hclosed request)
  | false =>
    obtain ⟨l, hkept, rfl⟩ := h.kept
    have hreports : c.reports op = (c.store.step c.now op).1.events := if_neg (by simp [hclosed])
    have hstore := store_operate hclosed op
    have hswept : (c.reports op).filter Event.isSweep = [] := by
      rw [List.filter_eq_nil_iff]
      intro e he
      simp [Event.isSweep_of_isEviction (isEviction_of_mem_reports he)]
    have hcloses : (c.reports op).filter Event.isClose = [] := by
      rw [List.filter_eq_nil_iff]
      intro e he
      simp [Event.isClose_of_isEviction (isEviction_of_mem_reports he)]
    have hasked : c.asked request = if op.isSweep then 1 else 0 := by
      rw [asked, hclosed, Bool.not_false, Bool.and_true]
      cases op <;> simp_all
    constructor
    · rw [counters, counters, hstore, hreports]
      exact Store.evictions_step hkept c.now op
    · rw [hswept, removals, hticks]
      rfl
    · exact fun hne => absurd hticks hne
    · rw [counters, counters, hstore, Store.sweeps_step hkept, List.countP_eq_length_filter, hswept,
        hasked]
      rfl
    · rw [c.isClosed_operate op, List.countP_eq_length_filter, hcloses]
      rfl
    · intro n hn
      have hmem : Event.closed n ∈ (c.reports op).filter Event.isClose :=
        List.mem_filter.mpr ⟨hn, Event.isClose_iff.mpr ⟨n, rfl⟩⟩
      rw [hcloses] at hmem
      cases hmem

theorem reported_pass (h : c.Sound capacity) (hsweep : request.isSweep = false)
    {start stop : Instant} (hticks : c.ticks request = c.patrol.ticks start stop) :
    Reported capacity c request (c.patrol.pass start stop).1
      { c with patrol := (c.patrol.pass start stop).2 } := by
  have hasked := asked_of_not_sweep hsweep c
  cases hclosed : c.isClosed with
  | true =>
    -- A closed cache has let go of its sweeper, and no tick comes.
    have hnone : c.patrol.sweeper = none := (h.closed hclosed).sweeper
    have hidle : c.patrol.ticks start stop = [] := by rw [Patrol.ticks, hnone]
    rw [Patrol.pass_of_not_ticking (by simp [hnone])]
    exact reported_of_silent rfl rfl (hticks.trans hidle) hasked
  | false =>
    obtain ⟨l, hkept, -⟩ := h.kept
    obtain ⟨l', hkept', -, hevictions, hsweeps⟩ :=
      Store.kept_sweepEach hkept ((c.ticks request).map c.patrol.target.clock.now)
    rw [← hkept.listed.counters, ← hkept'.listed.counters] at hevictions hsweeps
    obtain ⟨hevents, hstore, hopen⟩ : (c.patrol.pass start stop).1 =
          (c.removals request).map .swept ∧
        (c.patrol.pass start stop).2.target.store =
          c.store.sweepEach ((c.ticks request).map c.patrol.target.clock.now) ∧
        (c.patrol.pass start stop).2.target.closed = false := by
      rw [removals, hticks]
      exact Patrol.pass_of_target hclosed hkept start stop
    have hswept : (c.patrol.pass start stop).1.filter Event.isSweep =
        (c.removals request).map .swept := by
      rw [List.filter_eq_self.mpr]
      · exact hevents
      · simp [hevents, Event.isSweep_swept]
    have hcloses : (c.patrol.pass start stop).1.filter Event.isClose = [] := by
      rw [hevents, List.filter_eq_nil_iff]
      simp [Event.isClose_iff]
    constructor
    · apply evictions_of_none
      · rw [hevents]
        simp [Event.isEviction_iff, ← Bool.not_eq_true]
      · rw [counters, counters, store, hstore]
        exact hevictions
    · exact hswept
    · exact fun _ => hstore
    · rw [counters, counters, store, hstore, hsweeps, hasked, List.countP_eq_length_filter, hswept,
        List.length_map]
      rfl
    · rw [List.countP_eq_length_filter, hcloses, hclosed, isClosed, hopen]
      rfl
    · intro n hn
      rw [hevents] at hn
      simp at hn

theorem reported_close (c : Cache K V) (capacity : Option Nat) :
    Reported capacity c .close c.close.1 c.close.2 := by
  cases hclosed : c.isClosed with
  | true =>
    rw [close_of_closed hclosed]
    exact reported_of_silent rfl rfl rfl rfl
  | false =>
    have hevents : c.close.1 = [.closed c.counters.entries] := by
      rw [close, hclosed]
      rfl
    rw [close_of_open hclosed, hevents]
    constructor
    · exact evictions_of_none (by simp [Event.isEviction_iff, ← Bool.not_eq_true]) rfl
    · rw [List.filter_eq_nil_iff.mpr (by simp [Event.isSweep_iff])]
      rfl
    · exact fun hne => absurd rfl hne
    · rw [List.countP_eq_zero.mpr (by simp [Event.isSweep_iff])]
      rfl
    · rw [hclosed, List.countP_singleton, if_pos (Event.isClose_iff.mpr ⟨_, rfl⟩)]
      rfl
    · simp

theorem reported_step (h : c.Sound capacity) (request : Request K V) :
    Reported capacity c request (c.step request).events (c.step request).cache := by
  have hyields := c.yields_step request
  generalize (c.step request).events = events at hyields ⊢
  generalize (c.step request).cache = d at hyields ⊢
  cases hyields with
  | stays hsweep hticks => exact reported_of_silent rfl rfl hticks (asked_of_not_sweep hsweep c)
  | operates op hsweep hticks => exact reported_operate h op hsweep hticks
  | advances hclock => exact reported_of_silent rfl rfl rfl rfl
  | passes hsweep hstart hstop hticks => exact reported_pass h hsweep hticks
  | closes => exact c.reported_close capacity

theorem sound_ofPlan (p : Plan V) : (ofPlan p : Cache K V).Sound p.settings.capacity where
  kept := ⟨_, Store.kept_empty _ _ _, rfl⟩
  closed hclosed := by simp [isClosed_ofPlan] at hclosed

theorem Leads.sound (h : c.Leads request d) (hc : c.Sound capacity) : d.Sound capacity where
  kept := by
    obtain ⟨l, hkept, hcapacity⟩ := hc.kept
    have hstep (op : Store.Op K V) : ∃ l', (c.store.step c.now op).2.Kept l' ∧
        l'.rules.capacity = capacity :=
      ⟨_, Store.kept_step hkept c.now op, (congrArg _ (l.rules_step c.now op)).trans hcapacity⟩
    cases hclosed : c.isClosed with
    | true =>
      rw [((hc.closed hclosed).leads h).2]
      exact hc.kept
    | false =>
      cases h with
      | stays | advances => exact hc.kept
      | operates op =>
        rw [store_operate hclosed]
        exact hstep op
      | @passes _ start stop =>
        obtain ⟨-, hstore, -⟩ := Patrol.pass_of_target hclosed hkept start stop
        obtain ⟨l', hkept', hrules, -, -⟩ := Store.kept_sweepEach hkept
          ((c.patrol.ticks start stop).map c.patrol.target.clock.now)
        rw [store, hstore]
        exact ⟨l', hkept', (congrArg _ hrules).trans hcapacity⟩
      | closes =>
        rw [close_of_open hclosed]
        exact hstep .clear
  closed := h.inert hc.closed

theorem Sound.after (h : c.Sound capacity) (requests : List (Request K V)) :
    (c.after requests).Sound capacity :=
  after_of_leads h fun _ _ _ _ hleads hc => hleads.sound hc

/-- The sweeps that a run asks for while the cache is open. -/
def askedBy (c : Cache K V) : List (Request K V) → Nat
  | [] => 0
  | request :: rest => c.asked request + (c.step request).cache.askedBy rest

def log (c : Cache K V) (requests : List (Request K V)) : List Event :=
  (c.run requests).flatMap Outcome.events

@[simp] theorem log_cons (c : Cache K V) (request : Request K V) (rest : List (Request K V)) :
    c.log (request :: rest) = (c.step request).events ++ (c.step request).cache.log rest :=
  List.flatMap_cons

theorem sweeps_after (h : c.Sound capacity) (requests : List (Request K V)) :
    (c.after requests).counters.sweeps =
      c.counters.sweeps + (c.log requests).countP Event.isSweep + c.askedBy requests := by
  induction requests generalizing c with
  | nil => rfl
  | cons request rest ih =>
    have hstep := (reported_step h request).sweeps
    have hrest := ih ((c.leads_step request).sound h)
    rw [after_cons, hrest, log_cons, List.countP_append, askedBy]
    omega

theorem ends_after (h : c.Sound capacity) (requests : List (Request K V)) :
    c.isClosed.toNat + (c.log requests).countP Event.isClose =
      (c.after requests).isClosed.toNat := by
  induction requests generalizing c with
  | nil => rfl
  | cons request rest ih =>
    have hstep := (reported_step h request).ends
    have hrest := ih ((c.leads_step request).sound h)
    rw [after_cons, ← hrest, log_cons, List.countP_append, ← hstep]
    omega

theorem counters_ofPlan (p : Plan V) : (ofPlan p : Cache K V).counters = {} := rfl

theorem kinds_firstEvents (p : Plan V) :
    (firstEvents p).countP Event.isSweep = 0 ∧ (firstEvents p).countP Event.isClose = 0 := by
  unfold firstEvents Sweeper.start
  constructor
  · rw [List.countP_eq_zero]
    split
    · split <;> simp [Event.isSweep_iff]
    · simp [Event.isSweep_iff]
  · rw [List.countP_eq_zero]
    split
    · split <;> simp [Event.isClose_iff]
    · simp [Event.isClose_iff]

/-- What the log of a cache tells is what its counters tell. Every eviction has its event, and the
bound says how many entries are left; every sweep of the sweeper has a line that gives what it
removed, so the sweeps without one are those that were asked for; and the end of the cache is told
at most once, with the number of entries that the cache had then. -/
theorem log_agrees_with_counters (p : Plan V) {ambient : Bool} {c : Cache K V}
    {events : List Event} (hbuild : p.build ambient = .ok (events, c))
    (before : List (Request K V)) (request : Request K V) :
    let d := c.after before
    let o := d.step request
    let past := events ++ c.log before
    o.cache.counters.evictions = d.counters.evictions + o.events.countP Event.isEviction ∧
      (∀ e ∈ o.events, e.message = "Evicted least recently used entry" →
        ∃ n, p.settings.capacity = some (n + 1) ∧ e.fields = [("size", toString n)]) ∧
      (∀ e ∈ o.events, e.message = "Cache has zero capacity, dropping write" →
        p.settings.capacity = some 0) ∧
      (o.events.filter Event.isSweep).map Event.line =
        (d.removals request).map Event.sweepLine ∧
      (d.ticks request ≠ [] →
        o.cache.store = d.store.sweepEach ((d.ticks request).map d.patrol.target.clock.now)) ∧
      d.counters.sweeps = past.countP Event.isSweep + c.askedBy before ∧
      (past ++ o.events).countP Event.isClose ≤ 1 ∧
      ∀ e ∈ o.events, e.isClose = true → e.fields = [("released", toString d.counters.entries)] := by
  intro d o past
  obtain ⟨rfl, rfl⟩ := pair_eq_of_build hbuild
  obtain ⟨hnosweep, hnoclose⟩ := kinds_firstEvents p
  have hsound := sound_ofPlan (K := K) p
  have hd : d.Sound p.settings.capacity := hsound.after before
  have hstep := reported_step hd request
  have hevictions := hstep.evictions
  refine ⟨hevictions.counted, ?_, ?_, ?_, hstep.leaves, ?_, ?_, ?_⟩
  · intro e he hmessage
    obtain ⟨left, rfl⟩ := Event.message_eq_evicted_iff.mp hmessage
    exact ⟨left, hevictions.evicted left he, rfl⟩
  · intro e he hmessage
    obtain rfl := Event.message_eq_writeDropped_iff.mp hmessage
    exact hevictions.dropped he
  · rw [hstep.swept, List.map_map]
    exact List.map_congr_left fun n _ => Event.line_swept n
  · have hsweeps := sweeps_after hsound before
    rw [counters_ofPlan] at hsweeps
    rw [List.countP_append, hnosweep]
    exact hsweeps
  · have hpast : (ofPlan p : Cache K V).isClosed.toNat + _ = d.isClosed.toNat :=
      ends_after hsound before
    have hnow : d.isClosed.toNat + o.events.countP Event.isClose = o.cache.isClosed.toNat :=
      hstep.ends
    have hlast := Bool.toNat_le o.cache.isClosed
    rw [List.countP_append, List.countP_append, hnoclose]
    omega
  · intro e he hclose
    obtain ⟨n, rfl⟩ := Event.isClose_iff.mp hclose
    rw [← hstep.released n he]
    rfl

/-- An entry that is swept out of turn to no avail is dead by the last of three sweeps, or is given
up for another one before. -/
theorem log_agrees_with_counters_of_one_entry :
    let p : Plan Nat :=
      { settings := ⟨.ofSeconds 1, .ofSeconds 3, .seconds, some 1, none⟩, emptyValue := 0 }
    let before : List (Request Nat Nat) := [.put 1 10, .sweepNow]
    ∃ events c, p.build true = .ok (events, c) ∧
      (((c.after before).step (.sleep (.ofSeconds 3))).events.filter Event.isSweep).map Event.line =
        ["DEBUG Sweep: no expired entries found", "DEBUG Sweep: no expired entries found",
          "INFO Sweep: removed 1 expired entries"] ∧
      (c.after before).counters.sweeps = (events ++ c.log before).countP Event.isSweep + 1 ∧
      ((c.after before).step (.put 2 20)).cache.counters.evictions =
        (c.after before).counters.evictions + 1 := by
  intro p before
  obtain ⟨events, hbuild⟩ : ∃ events, p.build true = .ok (events, (ofPlan p : Cache Nat Nat)) :=
    build_eq_ok (by decide) rfl
  obtain ⟨-, -, -, hlines, -, hsweeps, -⟩ :=
    log_agrees_with_counters p hbuild before (.sleep (.ofSeconds 3))
  obtain ⟨hevictions, -⟩ := log_agrees_with_counters p hbuild before (.put 2 20)
  have hremovals : ((ofPlan p).after before).removals (.sleep (.ofSeconds 3)) = [0, 0, 1] := by
    decide +kernel
  have hasked : (ofPlan p : Cache Nat Nat).askedBy before = 1 := by decide +kernel
  let l : Line Nat Nat := { rules := ⟨some 1, .ofSeconds 3, .fixed⟩ }
  let ops : List (Instant × Store.Op Nat Nat) :=
    [(.origin, .insertFor 1 10 (.ofSeconds 3)), (.origin, .sweep)]
  have hlisted : ((ofPlan p).after before).store.Listed (l.run ops).2 :=
    (Store.listed_run (Store.listed_empty (some 1) (.ofSeconds 3) .fixed) ops).2
  have hgiven : ((l.run ops).2.step .origin (.insertFor 2 20 (.ofSeconds 3))).1 =
      .admission (.evicted 0) := by
    decide
  have hreports : (((ofPlan p).after before).step (.put 2 20)).events = [.evicted 0] := by
    have hopen : ((ofPlan p).after before).isClosed = false := rfl
    have hnow : ((ofPlan p).after before).now = .origin := rfl
    have hlife : ((ofPlan p).after before).settings.lifetime = .ofSeconds 3 := rfl
    generalize (ofPlan p).after before = d at hlisted hopen hnow hlife ⊢
    have hevents : (d.step (.put 2 20)).events = d.reports (.insertFor 2 20 d.settings.lifetime) :=
      d.putFor_fst 2 20 d.settings.lifetime
    rw [hevents, reports, hopen, hnow, hlife, (Store.listed_step hlisted _ _).1, hgiven]
    rfl
  rw [hremovals] at hlines
  rw [hasked] at hsweeps
  rw [hreports] at hevictions
  exact ⟨events, _, hbuild, hlines.trans (by decide +kernel), hsweeps, hevictions⟩

end Cache
end TimedCache
