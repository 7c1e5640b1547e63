import TimedCache.Cache.Plan
import TimedCache.Cache.Run
import TimedCache.Proofs.Store.Readers
import TimedCache.Proofs.Sweeping.Ticks

/-!
Sweeps as readers see them: not at all. Sweeps in a cache come when its ticker says so, and out of
turn on request. None of them comes later than the time it is, so it takes only what is dead by
now, and what a store shows to readers stays as it is.
-/
namespace TimedCache

namespace Clock

theorem now_mono (c : Clock) {t u : Instant} (h : t ≤ u) : c.now t ≤ c.now u := by
  unfold now
  cases c.source with
  | timer => exact h
  | manual => exact Nat.le_refl _

theorem now_advance {c c' : Clock} {d : Duration} (h : c.advance d = .ok c') (t : Instant) :
    c.now t ≤ c'.now t := by
  unfold advance Instant.advance at h
  cases hu : c.reading.add? d with
  | none => simp [hu, Except.map] at h
  | some u =>
    simp only [hu, Except.map, Except.ok.injEq] at h
    rw [Instant.add?_eq_some_iff] at hu
    rw [← h, Instant.le_iff, now, now]
    cases c.source with
    | timer => exact Nat.le_refl _
    | manual =>
      show c.reading.nanos ≤ u.nanos
      omega

end Clock

variable {K V : Type} [CacheKey K]

namespace Contents

theorem sweep_of_closed {c : Contents K V} (h : c.closed = true) (t : Instant) :
    c.sweep t = (none, c) :=
  if_pos h

theorem sweep_of_open {c : Contents K V} (h : c.closed = false) (t : Instant) :
    c.sweep t = (some (c.store.sweep (c.clock.now t)).1,
      { c with store := (c.store.sweep (c.clock.now t)).2 }) := by
  rw [sweep, h]
  rfl

/-- The second is what sweeps until `u` may have left of the first. -/
structure Swept (c c' : Contents K V) (u : Instant) : Prop where
  closed : c'.closed = c.closed
  clock : c'.clock = c.clock
  shows : ∀ f, c.store.Shows f u → c'.store.Shows f u

theorem swept_refl (c : Contents K V) (u : Instant) : c.Swept c u := ⟨rfl, rfl, fun _ h => h⟩

theorem Swept.trans {c c' c'' : Contents K V} {u : Instant} (h : c.Swept c' u)
    (h' : c'.Swept c'' u) : c.Swept c'' u :=
  ⟨h'.closed.trans h.closed, h'.clock.trans h.clock, fun f hf => h'.shows f (h.shows f hf)⟩

theorem swept_sweep (c : Contents K V) {t u : Instant} (h : c.clock.now t ≤ u) :
    c.Swept (c.sweep t).2 u := by
  cases hclosed : c.closed with
  | true =>
    rw [sweep_of_closed hclosed]
    exact c.swept_refl u
  | false =>
    rw [sweep_of_open hclosed]
    exact ⟨rfl, rfl, fun _ hf => hf.sweep h⟩

theorem swept_sweepAt (c : Contents K V) {ticks : List Instant} {u : Instant}
    (h : ∀ t ∈ ticks, c.clock.now t ≤ u) : c.Swept (sweepAt c ticks).2.2 u := by
  induction ticks generalizing c with
  | nil => exact c.swept_refl u
  | cons t rest ih =>
    have hfirst := c.swept_sweep (h t List.mem_cons_self)
    have hsweep : Sweepable.sweep t c = c.sweep t := rfl
    cases hclosed : c.closed with
    | true =>
      rw [sweepAt, hsweep, sweep_of_closed hclosed]
      exact c.swept_refl u
    | false =>
      rw [sweep_of_open hclosed] at hfirst
      rw [sweepAt, hsweep, sweep_of_open hclosed]
      apply hfirst.trans
      apply ih
      intro t' ht'
      exact h t' (List.mem_cons_of_mem _ ht')

theorem swept_pass (p : Patrol (Contents K V)) {start stop : Instant} (h : start ≤ stop) :
    (p.pass start stop).2.now = stop ∧
      p.target.Swept (p.pass start stop).2.target (p.target.clock.now stop) := by
  unfold Patrol.pass
  split
  · rename_i ticker _
    refine ⟨rfl, ?_⟩
    apply swept_sweepAt
    intro t ht
    exact Clock.now_mono _ (Ticker.tick_le h ht)
  · exact ⟨rfl, p.target.swept_refl _⟩

end Contents

namespace Cache

/-- The cache after an operation on its store, which a closed cache does not carry out. -/
def operate (c : Cache K V) (op : Store.Op K V) : Cache K V :=
  if c.isClosed then c else c.withStore (c.store.step c.now op).2

theorem putFor_snd (c : Cache K V) (key : K) (value : V) (life : Duration) :
    (c.putFor key value life).2 = c.operate (.insertFor key value life) := by
  unfold putFor operate
  split <;> rfl

theorem get_snd (c : Cache K V) (key : K) : (c.get key).2 = c.operate (.get key) := by
  unfold get operate
  split <;> rfl

/-- Readers cannot tell the caches apart, now or later. Only the sweeps that each has seen and will
see may differ. -/
structure Alike (c d : Cache K V) : Prop where
  lifetime : c.settings.lifetime = d.settings.lifetime
  unit : c.settings.unit = d.settings.unit
  emptyValue : c.emptyValue = d.emptyValue
  closed : c.isClosed = d.isClosed
  clock : c.patrol.target.clock = d.patrol.target.clock
  timer : c.patrol.now = d.patrol.now
  shows : ∃ f, c.store.Shows f c.now ∧ d.store.Shows f c.now

namespace Alike

variable {c d : Cache K V}

theorem now (h : c.Alike d) : c.now = d.now := by
  rw [Cache.now, h.clock, h.timer]
  rfl

theorem symm (h : c.Alike d) : d.Alike c where
  lifetime := h.lifetime.symm
  unit := h.unit.symm
  emptyValue := h.emptyValue.symm
  closed := h.closed.symm
  clock := h.clock.symm
  timer := h.timer.symm
  shows := by
    obtain ⟨f, hc, hd⟩ := h.shows
    exact ⟨f, h.now ▸ hd, h.now ▸ hc⟩

theorem self (h : c.Alike d) : c.Alike c where
  lifetime := rfl
  unit := rfl
  emptyValue := rfl
  closed := rfl
  clock := rfl
  timer := rfl
  shows := by
    obtain ⟨f, hc, -⟩ := h.shows
    exact ⟨f, hc, hc⟩

theorem answer (h : c.Alike d) (op : Store.Op K V) (hread : op.isRead = true) :
    (c.store.step c.now op).1 = (d.store.step d.now op).1 := by
  obtain ⟨f, hc, hd⟩ := h.shows
  have hanswer := (hc.answer op fun _ => Nat.le_refl _).trans
    (hd.answer op fun _ => Nat.le_refl _).symm
  rw [if_pos hread, if_pos hread] at hanswer
  rw [← h.now]
  exact Option.some.inj hanswer

theorem operate (h : c.Alike d) (op : Store.Op K V) : (c.operate op).Alike (d.operate op) := by
  unfold Cache.operate
  rw [← h.closed]
  cases hclosed : c.isClosed with
  | true => exact h
  | false =>
    obtain ⟨f, hc, hd⟩ := h.shows
    have hself : c.now ≤ c.now := Nat.le_refl _
    have hc' : (c.store.step c.now op).2.Shows (f.step c.now op).2 c.now :=
      hc.step hself fun _ => ⟨hself, hself⟩
    have hd' : (d.store.step c.now op).2.Shows (f.step c.now op).2 c.now :=
      hd.step hself fun _ => ⟨hself, hself⟩
    rw [← h.now]
    exact { h with shows := ⟨_, hc', hd'⟩ }

theorem get (h : c.Alike d) (key : K) :
    (c.get key).1 = (d.get key).1 ∧ (c.get key).2.Alike (d.get key).2 := by
  refine ⟨?_, ?_⟩
  · unfold Cache.get
    rw [← h.closed]
    cases c.isClosed with
    | true => rfl
    | false => exact Store.Answer.value.inj (h.answer (.get key) rfl)
  · rw [get_snd, get_snd]
    exact h.operate (.get key)

theorem getOrEmpty (h : c.Alike d) (key : K) :
    (c.getOrEmpty key).1 = (d.getOrEmpty key).1 ∧
      (c.getOrEmpty key).2.Alike (d.getOrEmpty key).2 := by
  obtain ⟨hfound, halike⟩ := h.get key
  unfold Cache.getOrEmpty
  generalize c.get key = x at hfound halike ⊢
  generalize d.get key = y at hfound halike ⊢
  obtain ⟨found, c'⟩ := x
  obtain ⟨found', d'⟩ := y
  cases hfound
  cases found with
  | none => exact ⟨congrArg (·, false) halike.emptyValue, halike⟩
  | some value => exact ⟨rfl, halike⟩

theorem contains (h : c.Alike d) (key : K) : c.contains key = d.contains key := by
  have hanswer := Store.Answer.flag.inj (h.answer (.contains key) rfl)
  simp only [Cache.contains, h.closed, hanswer]

theorem items (h : c.Alike d) : c.items = d.items := by
  have hanswer := Store.Answer.items.inj (h.answer .items rfl)
  simp only [Cache.items, h.closed, hanswer]

theorem liveSize (h : c.Alike d) : c.liveSize = d.liveSize := by
  have hanswer := Store.Answer.count.inj (h.answer .liveSize rfl)
  simp only [Cache.liveSize, h.closed, hanswer]

theorem close (h : c.Alike d) : c.close.2.Alike d.close.2 := by
  have hclear := h.operate .clear
  unfold Cache.operate at hclear
  unfold Cache.close
  rw [← h.closed] at hclear ⊢
  cases hclosed : c.isClosed with
  | true => exact h
  | false =>
    rw [hclosed] at hclear
    exact { hclear with closed := rfl }

theorem pass (h : c.Alike d) {start stop : Instant} (hstart : start ≤ stop)
    (hstop : c.patrol.now ≤ stop) :
    ({ c with patrol := (c.patrol.pass start stop).2 } : Cache K V).Alike
      { d with patrol := (d.patrol.pass start stop).2 } := by
  obtain ⟨hcnow, hc⟩ := Contents.swept_pass c.patrol hstart
  obtain ⟨hdnow, hd⟩ := Contents.swept_pass d.patrol hstart
  obtain ⟨f, hfc, hfd⟩ := h.shows
  have hlater : c.now ≤ c.patrol.target.clock.now stop := c.patrol.target.clock.now_mono hstop
  exact {
    h with
    closed := hc.closed.trans (h.closed.trans hd.closed.symm)
    clock := hc.clock.trans (h.clock.trans hd.clock.symm)
    timer := hcnow.trans hdnow.symm
    shows := by
      have hnow : Cache.now { c with patrol := (c.patrol.pass start stop).2 } =
          c.patrol.target.clock.now stop := by
        rw [Cache.now, hc.clock, hcnow]
      rw [hnow]
      have hd' := hd.shows f
      rw [← h.clock] at hd'
      exact ⟨f, hc.shows f (hfc.later hlater), hd' (hfd.later hlater)⟩ }

theorem sweepNow (h : c.Alike d) : c.sweepNow.2.Alike d := by
  have hnow : c.patrol.target.clock.now c.patrol.now ≤ c.now := Nat.le_refl _
  have hc := c.patrol.target.swept_sweep hnow
  obtain ⟨f, hfc, hfd⟩ := h.shows
  have hnow' : c.sweepNow.2.now = c.now := congrArg (·.now c.patrol.now) hc.clock
  exact {
    h with
    closed := hc.closed.trans h.closed
    clock := hc.clock.trans h.clock
    shows := by
      rw [hnow']
      exact ⟨f, hc.shows f hfc, hfd⟩ }

end Alike
end Cache

/-- The counts that do not depend on sweeps. -/
def Counters.seen (c : Counters) : Counters :=
  { hits := c.hits, misses := c.misses, evictions := c.evictions }

namespace Cache

def Reply.seen : Reply K V → Reply K V
  | .counters c => .counters c.seen
  | reply => reply

def Request.isSweep : Request K V → Bool
  | .sweepNow => true
  | _ => false

/-- What readers see of a request: the reply to it, and the state of the cache after it. -/
structure Seen (K V : Type) where
  reply : Reply K V
  closed : Bool
  counters : Counters
deriving DecidableEq

def Outcome.seen (o : Outcome K V) : Seen K V where
  reply := o.reply.seen
  closed := o.cache.isClosed
  counters := o.cache.counters.seen

/-- What readers see of a run. The sweeps out of turn are left out. -/
def seen (c : Cache K V) (requests : List (Request K V)) : List (Seen K V) :=
  ((requests.zip (c.run requests)).filter fun o => !o.1.isSweep).map fun o => o.2.seen

theorem seen_cons (c : Cache K V) {request : Request K V} (h : request.isSweep = false)
    (rest : List (Request K V)) :
    c.seen (request :: rest) = (c.step request).seen :: (c.step request).cache.seen rest := by
  simp [seen, h]

theorem seen_cons_sweepNow (c : Cache K V) (rest : List (Request K V)) :
    c.seen (.sweepNow :: rest) = c.sweepNow.2.seen rest := by
  have h : (Request.sweepNow : Request K V).isSweep = true := rfl
  simp [seen, h, step]

structure Outcome.Alike (o o' : Outcome K V) : Prop where
  reply : o.reply.seen = o'.reply.seen
  cache : o.cache.Alike o'.cache

namespace Alike

variable {c d : Cache K V}

theorem counters (h : c.Alike d) : c.counters.seen = d.counters.seen := by
  obtain ⟨f, hc, hd⟩ := h.shows
  simp only [Counters.seen, Cache.counters, hc.hits, hc.misses, hc.evictions, hd.hits, hd.misses,
    hd.evictions]

theorem advance (h : c.Alike d) (t : Duration) :
    (c.step (.advance t)).Alike (d.step (.advance t)) := by
  show (Outcome.ofMove c ((c.advance t).map fun cache => ([], cache))).Alike
    (Outcome.ofMove d ((d.advance t).map fun cache => ([], cache)))
  unfold Cache.advance
  rw [← h.clock]
  cases hclock : c.patrol.target.clock.advance t with
  | error f => exact ⟨rfl, h⟩
  | ok clock =>
    obtain ⟨f, hfc, hfd⟩ := h.shows
    have hlater : c.now ≤ clock.now c.patrol.now := Clock.now_advance hclock c.patrol.now
    refine ⟨rfl, ?_⟩
    exact { h with clock := rfl, shows := ⟨f, hfc.later hlater, hfd.later hlater⟩ }

theorem moved (h : c.Alike d) (t : Duration) (start : Instant → Instant)
    (hstart : ∀ stop, c.patrol.now ≤ stop → start stop ≤ stop) :
    (Outcome.ofMove c (c.moved ((c.patrol.now.add? t).map fun stop =>
      c.patrol.pass (start stop) stop))).Alike
    (Outcome.ofMove d (d.moved ((d.patrol.now.add? t).map fun stop =>
      d.patrol.pass (start stop) stop))) := by
  rw [← h.timer]
  cases hstop : c.patrol.now.add? t with
  | none => exact ⟨rfl, h⟩
  | some stop =>
    have hle : c.patrol.now ≤ stop := Instant.le_of_add?_eq_some hstop
    exact ⟨rfl, h.pass (hstart stop hle) hle⟩

theorem step (h : c.Alike d) {request : Request K V} (hrequest : request.isSweep = false) :
    (c.step request).Alike (d.step request) := by
  cases request with
  | put key value =>
    refine ⟨rfl, ?_⟩
    show (c.putFor key value c.settings.lifetime).2.Alike (d.putFor key value d.settings.lifetime).2
    rw [putFor_snd, putFor_snd, h.lifetime]
    exact h.operate _
  | putFor key value life =>
    refine ⟨rfl, ?_⟩
    show (c.putFor key value life).2.Alike (d.putFor key value life).2
    rw [putFor_snd, putFor_snd]
    exact h.operate _
  | putForAmount key value amount =>
    refine ⟨rfl, ?_⟩
    show (c.putFor key value (c.settings.unit.spanOrZero amount)).2.Alike
      (d.putFor key value (d.settings.unit.spanOrZero amount)).2
    rw [putFor_snd, putFor_snd, h.unit]
    exact h.operate _
  | get key => exact ⟨congrArg Reply.value (h.get key).1, (h.get key).2⟩
  | getOrEmpty key =>
    obtain ⟨hreply, halike⟩ := h.getOrEmpty key
    exact ⟨congrArg (fun r : V × Bool => Reply.valueOrEmpty r.1 r.2) hreply, halike⟩
  | contains key => exact ⟨congrArg Reply.flag (h.contains key), h⟩
  | erase key => exact ⟨rfl, h.operate (.erase key)⟩
  | clear => exact ⟨rfl, h.operate .clear⟩
  | items => exact ⟨congrArg Reply.items h.items, h⟩
  | liveSize => exact ⟨congrArg Reply.number h.liveSize, h⟩
  | sweepNow => cases hrequest
  | counters => exact ⟨congrArg Reply.counters h.counters, h⟩
  | close => exact ⟨rfl, h.close⟩
  | advance t => exact h.advance t
  | sleep t =>
    have hmoved := h.moved t (fun _ => c.patrol.now) fun _ hle => hle
    show (Outcome.ofMove c (c.sleep t)).Alike (Outcome.ofMove d (d.sleep t))
    unfold Cache.sleep Patrol.sleep
    rw [← h.timer] at hmoved ⊢
    exact hmoved
  | jump t => exact h.moved t id fun stop _ => Nat.le_refl stop.nanos

theorem seen_eq (h : c.Alike d) (requests : List (Request K V)) :
    c.seen requests = d.seen (requests.filter fun r => !r.isSweep) := by
  induction requests generalizing c d with
  | nil => rfl
  | cons request rest ih =>
    cases hrequest : request.isSweep with
    | true =>
      rw [List.filter_cons_of_neg (by simp [hrequest])]
      cases request with
      | sweepNow =>
        rw [seen_cons_sweepNow]
        exact ih h.sweepNow
      | _ => cases hrequest
    | false =>
      have hstep := h.step hrequest
      have hseen : (c.step request).seen = (d.step request).seen := by
        simp only [Outcome.seen, hstep.reply, hstep.cache.closed, hstep.cache.counters]
      rw [List.filter_cons_of_pos (by simp [hrequest]), seen_cons c hrequest, seen_cons d hrequest,
        hseen, ih hstep.cache]

end Alike

def ofPlan (p : Plan V) : Cache K V where
  settings := p.settings
  emptyValue := p.emptyValue
  patrol := (Patrol.start p.settings.sweepEvery p.contents).2

def firstEvents (p : Plan V) : List Event :=
  .created p.settings :: (Sweeper.start p.settings.sweepEvery .origin).1

theorem build_eq {p : Plan V} {ambient : Bool} (hevery : p.settings.sweepEvery ≠ .zero)
    (hruntime : (p.hosted || ambient) = true) :
    p.build ambient = .ok (firstEvents p, (ofPlan p : Cache K V)) := by
  have hvalid := p.settings.validate_eq_ok_iff.mpr hevery
  rw [Plan.build, hvalid, hruntime]
  rfl

theorem build_eq_ok {p : Plan V} {ambient : Bool} (hevery : p.settings.sweepEvery ≠ .zero)
    (hruntime : (p.hosted || ambient) = true) :
    ∃ events, p.build ambient = .ok (events, (ofPlan p : Cache K V)) :=
  ⟨firstEvents p, build_eq hevery hruntime⟩

theorem pair_eq_of_build {p : Plan V} {ambient : Bool} {c : Cache K V} {events : List Event}
    (h : p.build ambient = .ok (events, c)) : events = firstEvents p ∧ c = ofPlan p := by
  cases hvalid : p.settings.validate with
  | error e =>
    rw [Plan.build, hvalid] at h
    cases h
  | ok valid =>
    cases hruntime : p.hosted || ambient with
    | false =>
      rw [Plan.build, hvalid, hruntime] at h
      cases h
    | true =>
      have hevery := p.settings.validate_eq_ok_iff.mp hvalid
      rw [build_eq hevery hruntime, Except.ok.injEq, Prod.mk.injEq] at h
      exact ⟨h.1.symm, h.2.symm⟩

theorem eq_of_build {p : Plan V} {ambient : Bool} {c : Cache K V} {events : List Event}
    (h : p.build ambient = .ok (events, c)) : c = ofPlan p := (pair_eq_of_build h).2

theorem alike_ofPlan (p : Plan V) (every : Duration) :
    (ofPlan p : Cache K V).Alike (ofPlan { p with settings.sweepEvery := every }) where
  lifetime := rfl
  unit := rfl
  emptyValue := rfl
  closed := rfl
  clock := rfl
  timer := rfl
  shows := by
    have hshows := Store.shows_empty (K := K) (V := V) p.settings.capacity p.settings.lifetime
      (.ofWindow p.settings.readWindow) (p.clock.now .origin)
    exact ⟨_, hshows, hshows⟩

/-- When sweeps come, and whether more are asked for, is nothing that readers can tell. -/
theorem seen_eq_of_other_sweeps (p : Plan V) (every : Duration) {ambient ambient' : Bool}
    {c d : Cache K V} {events events' : List Event} (hc : p.build ambient = .ok (events, c))
    (hd : ({ p with settings.sweepEvery := every } : Plan V).build ambient' = .ok (events', d))
    {requests requests' : List (Request K V)}
    (h : requests.filter (fun r => !r.isSweep) = requests'.filter fun r => !r.isSweep) :
    c.seen requests = d.seen requests' := by
  have halike := alike_ofPlan (K := K) p every
  rw [← eq_of_build hc, ← eq_of_build hd] at halike
  rw [halike.seen_eq requests, h, ← halike.symm.self.seen_eq requests']

/-- A write meets a full store with or without its dead entry. -/
theorem seen_eq_of_other_sweeps_of_full :
    let p : Plan Nat :=
      { settings := ⟨.ofSeconds 1, .ofSeconds 3, .seconds, some 1, none⟩, emptyValue := 0 }
    let requests : List (Request Nat Nat) :=
      [.put 1 10, .sleep (.ofSeconds 4), .put 2 20, .get 2]
    let requests' : List (Request Nat Nat) :=
      [.put 1 10, .sleep (.ofSeconds 4), .put 2 20, .sweepNow, .get 2]
    ∃ events events' c d, p.build true = .ok (events, c) ∧
      ({ p with settings.sweepEvery := .ofSeconds 60 } : Plan Nat).build true = .ok (events', d) ∧
      c.seen requests = d.seen requests' := by
  intro p requests requests'
  obtain ⟨events, hc⟩ : ∃ events, p.build true = .ok (events, (ofPlan p : Cache Nat Nat)) :=
    build_eq_ok (by decide) rfl
  obtain ⟨events', hd⟩ :
      ∃ events', ({ p with settings.sweepEvery := .ofSeconds 60 } : Plan Nat).build true =
        .ok (events', (ofPlan { p with settings.sweepEvery := .ofSeconds 60 } : Cache Nat Nat)) :=
    build_eq_ok (by decide) rfl
  exact ⟨events, events', _, _, hc, hd, seen_eq_of_other_sweeps p (.ofSeconds 60) hc hd rfl⟩

end Cache
end TimedCache
