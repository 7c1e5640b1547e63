import TimedCache.Proofs.Cache.Sweeps

/-!
What requests do to a cache. Whatever is asked of a cache, at most one of four things happens: an
operation on the store of an open cache, a move of the manual clock, time that passes on the timer,
or the end of the cache; and only a request to close a cache closes it.
-/
namespace TimedCache

def Patrol.ticks {σ : Type} (p : Patrol σ) (start stop : Instant) : List Instant :=
  match p.sweeper with
  | some (.ticking ticker) => (ticker.run start stop).1
  | _ => []

namespace Cache

variable {K V : Type} [CacheKey K]

/-- The second cache is what the request may have made of the first. -/
inductive Leads (c : Cache K V) : Request K V → Cache K V → Prop
  | stays {request : Request K V} : Leads c request c
  | operates {request : Request K V} (op : Store.Op K V) : Leads c request (c.operate op)
  | advances {request : Request K V} {d : Duration} {clock : Clock}
      (hclock : c.patrol.target.clock.advance d = .ok clock) :
      Leads c request (c.withContents { c.patrol.target with clock })
  | passes {request : Request K V} {start stop : Instant} (hstart : c.patrol.now ≤ start)
      (hstop : start ≤ stop) : Leads c request { c with patrol := (c.patrol.pass start stop).2 }
  | closes : Leads c .close c.close.2

theorem getOrEmpty_snd (c : Cache K V) (key : K) : (c.getOrEmpty key).2 = c.operate (.get key) := by
  rw [← get_snd]
  unfold getOrEmpty
  split <;> simp_all

theorem sweepNow_snd (c : Cache K V) : c.sweepNow.2 = c.operate .sweep := by
  unfold operate
  cases hclosed : c.isClosed with
  | true =>
    show c.withContents (c.patrol.target.sweep c.patrol.now).2 = c
    rw [Contents.sweep_of_closed hclosed]
    rfl
  | false =>
    show c.withContents (c.patrol.target.sweep c.patrol.now).2 = _
    rw [Contents.sweep_of_open hclosed]
    rfl

/-- What the store reports of an operation, which a closed cache does not carry out. -/
def reports (c : Cache K V) (op : Store.Op K V) : List Event :=
  if c.isClosed then [] else (c.store.step c.now op).1.events

def ticks (c : Cache K V) : Request K V → List Instant
  | .sleep d => (c.patrol.now.add? d).elim [] fun stop => c.patrol.ticks c.patrol.now stop
  | .jump d => (c.patrol.now.add? d).elim [] fun stop => c.patrol.ticks stop stop
  | _ => []

/-- The request may report the events and make the second cache of the first. -/
inductive Yields (c : Cache K V) : Request K V → List Event → Cache K V → Prop
  | stays {request : Request K V} (hsweep : request.isSweep = false)
      (hticks : c.ticks request = []) : Yields c request [] c
  | operates {request : Request K V} (op : Store.Op K V)
      (hsweep : request.isSweep = true ↔ op = .sweep) (hticks : c.ticks request = []) :
      Yields c request (c.reports op) (c.operate op)
  | advances {d : Duration} {clock : Clock}
      (hclock : c.patrol.target.clock.advance d = .ok clock) :
      Yields c (.advance d) [] (c.withContents { c.patrol.target with clock })
  | passes {request : Request K V} {start stop : Instant} (hsweep : request.isSweep = false)
      (hstart : c.patrol.now ≤ start) (hstop : start ≤ stop)
      (hticks : c.ticks request = c.patrol.ticks start stop) :
      Yields c request (c.patrol.pass start stop).1
        { c with patrol := (c.patrol.pass start stop).2 }
  | closes : Yields c .close c.close.1 c.close.2

theorem Yields.leads {c d : Cache K V} {request : Request K V} {events : List Event}
    (h : c.Yields request events d) : c.Leads request d := by
  cases h with
  | stays => exact .stays
  | operates op => exact .operates op
  | advances hclock => exact .advances hclock
  | passes hsweep hstart hstop => exact .passes hstart hstop
  | closes => exact .closes

theorem putFor_fst (c : Cache K V) (key : K) (value : V) (life : Duration) :
    (c.putFor key value life).1 = c.reports (.insertFor key value life) := by
  unfold putFor reports
  split <;> rfl

theorem yields_putFor (c : Cache K V) {request : Request K V} (hsweep : request.isSweep = false)
    (hticks : c.ticks request = []) (key : K) (value : V) (life : Duration) :
    c.Yields request (c.putFor key value life).1 (c.putFor key value life).2 := by
  rw [putFor_fst, putFor_snd]
  exact .operates _ (by simp [hsweep]) hticks

theorem yields_operate (c : Cache K V) {request : Request K V} (op : Store.Op K V)
    (hsweep : request.isSweep = true ↔ op = .sweep) (hticks : c.ticks request = [])
    (hsilent : (c.store.step c.now op).1.events = []) :
    c.Yields request [] (c.operate op) := by
  have hreports : c.reports op = [] := by
    unfold reports
    rw [hsilent, ite_self]
  rw [← hreports]
  exact .operates op hsweep hticks

theorem yields_ofMove (c : Cache K V) {request : Request K V} (hsweep : request.isSweep = false)
    (d : Duration) {start : Instant → Instant} (hstart : ∀ stop, c.patrol.now ≤ stop →
      c.patrol.now ≤ start stop ∧ start stop ≤ stop)
    (hticks : c.ticks request = (c.patrol.now.add? d).elim [] fun stop =>
      c.patrol.ticks (start stop) stop) :
    let o := Outcome.ofMove c (c.moved ((c.patrol.now.add? d).map fun stop =>
      c.patrol.pass (start stop) stop))
    c.Yields request o.events o.cache := by
  cases hstop : c.patrol.now.add? d with
  | none =>
    rw [hstop] at hticks
    exact .stays hsweep hticks
  | some stop =>
    have hle : c.patrol.now ≤ stop := Instant.le_of_add?_eq_some hstop
    rw [hstop] at hticks
    exact .passes hsweep (hstart stop hle).1 (hstart stop hle).2 hticks

theorem yields_step (c : Cache K V) (request : Request K V) :
    c.Yields request (c.step request).events (c.step request).cache := by
  have hself (t : Instant) : t ≤ t := Nat.le_refl t.nanos
  cases request with
  | put key value => exact c.yields_putFor rfl rfl key value c.settings.lifetime
  | putFor key value life => exact c.yields_putFor rfl rfl key value life
  | putForAmount key value amount =>
    exact c.yields_putFor rfl rfl key value (c.settings.unit.spanOrZero amount)
  | get key =>
    show c.Yields _ [] (c.get key).2
    rw [get_snd]
    exact c.yields_operate (.get key) (by simp [Request.isSweep]) rfl rfl
  | getOrEmpty key =>
    show c.Yields _ [] (c.getOrEmpty key).2
    rw [getOrEmpty_snd]
    exact c.yields_operate (.get key) (by simp [Request.isSweep]) rfl rfl
  | erase key => exact c.yields_operate (.erase key) (by simp [Request.isSweep]) rfl rfl
  | clear => exact c.yields_operate .clear (by simp [Request.isSweep]) rfl rfl
  | sweepNow =>
    show c.Yields _ [] c.sweepNow.2
    rw [sweepNow_snd]
    exact c.yields_operate .sweep (by simp [Request.isSweep]) rfl rfl
  | contains | items | liveSize | counters => exact .stays rfl rfl
  | close => exact .closes
  | advance d =>
    show c.Yields (.advance d)
      (Outcome.ofMove c ((c.advance d).map fun cache => ([], cache))).events
      (Outcome.ofMove c ((c.advance d).map fun cache => ([], cache))).cache
    unfold Cache.advance
    cases hclock : c.patrol.target.clock.advance d with
    | error f => exact .stays rfl rfl
    | ok clock => exact .advances hclock
  | sleep d => exact c.yields_ofMove rfl d (fun stop hle => ⟨hself _, hle⟩) rfl
  | jump d => exact c.yields_ofMove rfl d (fun stop hle => ⟨hle, hself stop⟩) rfl

theorem leads_step (c : Cache K V) (request : Request K V) :
    c.Leads request (c.step request).cache := (c.yields_step request).leads

/-- What holds at first, and after every step if it held before, holds after a run. -/
theorem after_of_leads {P : Cache K V → Prop} {c : Cache K V} {requests : List (Request K V)}
    (hfirst : P c)
    (hstep : ∀ request ∈ requests, ∀ {c d : Cache K V}, c.Leads request d → P c → P d) :
    P (c.after requests) := by
  induction requests generalizing c with
  | nil => exact hfirst
  | cons request rest ih =>
    apply ih
    · exact hstep request List.mem_cons_self (c.leads_step request) hfirst
    · intro request' hrequest'
      exact hstep request' (List.mem_cons_of_mem _ hrequest')

end Cache
end TimedCache
