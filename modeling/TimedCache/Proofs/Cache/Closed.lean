import TimedCache.Proofs.Cache.Steps
import TimedCache.Proofs.Sweeping.Schedule

/-!
Closed caches. Only a request to close a cache closes it, and that is for good: the entries and the
sweeper are gone, and whatever is asked of the cache and however much time passes, nothing comes
back and nothing is counted.
-/
namespace TimedCache.Cache

variable {K V : Type} [CacheKey K]

/-- The cache is closed, and has nothing left that could change. -/
structure Inert (c : Cache K V) : Prop where
  closed : c.isClosed = true
  sweeper : c.patrol.sweeper = none
  empty : c.store.entries = ∅

theorem isClosed_operate (c : Cache K V) (op : Store.Op K V) :
    (c.operate op).isClosed = c.isClosed := by
  unfold operate
  split <;> rfl

variable {c d : Cache K V} {request : Request K V}

theorem Leads.isClosed_eq_or (h : c.Leads request d) :
    d.isClosed = c.isClosed ∨ request = .close ∧ d = c.close.2 := by
  cases h with
  | stays | advances => exact .inl rfl
  | operates op => exact .inl (c.isClosed_operate op)
  | passes hstart hstop => exact .inl (Contents.swept_pass c.patrol hstop).2.closed
  | closes => exact .inr ⟨rfl, rfl⟩

theorem Leads.emptyValue_eq (h : c.Leads request d) : d.emptyValue = c.emptyValue := by
  cases h with
  | stays | advances | passes => rfl
  | operates op =>
    unfold operate
    split <;> rfl
  | closes =>
    unfold close
    split <;> rfl

theorem isClosed_after {requests : List (Request K V)} (h : .close ∉ requests) :
    (c.after requests).isClosed = c.isClosed := by
  apply after_of_leads (P := fun d => d.isClosed = c.isClosed) rfl
  intro request hrequest d d' hleads hd
  rcases hleads.isClosed_eq_or with hsame | ⟨rfl, -⟩
  · exact hsame.trans hd
  · exact absurd hrequest h

theorem emptyValue_after (c : Cache K V) (requests : List (Request K V)) :
    (c.after requests).emptyValue = c.emptyValue :=
  after_of_leads (P := fun d => d.emptyValue = c.emptyValue) rfl fun _ _ _ _ hleads hd =>
    hleads.emptyValue_eq.trans hd

theorem close_of_closed (h : c.isClosed = true) : c.close = ([], c) := if_pos h

theorem close_of_open (h : c.isClosed = false) :
    c.close.2 = { c with patrol := {
      c.patrol with
      sweeper := none
      target := { c.patrol.target with store := c.store.clear.2, closed := true } } } := by
  unfold close
  rw [h]
  rfl

theorem inert_close (h : c.isClosed = true → c.Inert) : c.close.2.Inert := by
  cases hclosed : c.isClosed with
  | true =>
    rw [close_of_closed hclosed]
    exact h hclosed
  | false =>
    rw [close_of_open hclosed]
    exact ⟨rfl, rfl, rfl⟩

theorem Inert.counters (h : c.Inert) : c.counters = { c.store.tally with entries := 0 } := by
  have hsize : c.store.size = 0 := by simp [Store.size, h.empty]
  rw [Cache.counters, Store.counters, hsize]
  rfl

theorem tally_close (c : Cache K V) :
    { c.close.2.store.tally with entries := 0 } = { c.counters with entries := 0 } := by
  cases hclosed : c.isClosed with
  | true =>
    rw [close_of_closed hclosed]
    rfl
  | false =>
    rw [close_of_open hclosed]
    rfl

/-- Nothing that is asked of a closed cache changes what it holds or has counted. -/
theorem Inert.leads (hc : c.Inert) (h : c.Leads request d) : d.Inert ∧ d.store = c.store := by
  cases h with
  | stays => exact ⟨hc, rfl⟩
  | operates op =>
    rw [operate, hc.closed]
    exact ⟨hc, rfl⟩
  | advances hclock => exact ⟨⟨hc.closed, hc.sweeper, hc.empty⟩, rfl⟩
  | passes hstart hstop =>
    rw [Patrol.pass_of_not_ticking (by simp [hc.sweeper])]
    exact ⟨⟨hc.closed, hc.sweeper, hc.empty⟩, rfl⟩
  | closes =>
    rw [close_of_closed hc.closed]
    exact ⟨hc, rfl⟩

theorem Inert.after (h : c.Inert) (requests : List (Request K V)) :
    (c.after requests).Inert ∧ (c.after requests).store = c.store := by
  apply after_of_leads (P := fun d => d.Inert ∧ d.store = c.store) ⟨h, rfl⟩
  rintro request - d d' hleads ⟨hd, hstore⟩
  exact ⟨(hd.leads hleads).1, (hd.leads hleads).2.trans hstore⟩

theorem Leads.inert (h : c.Leads request d) (hc : c.isClosed = true → c.Inert)
    (hd : d.isClosed = true) : d.Inert := by
  rcases h.isClosed_eq_or with hsame | ⟨-, rfl⟩
  · exact ((hc (hsame.symm.trans hd)).leads h).1
  · exact inert_close hc

theorem inert_after (h : c.isClosed = true → c.Inert) (requests : List (Request K V)) :
    (c.after requests).isClosed = true → (c.after requests).Inert :=
  after_of_leads (P := fun d => d.isClosed = true → d.Inert) h fun _ _ _ _ hleads hd =>
    hleads.inert hd

theorem isClosed_ofPlan (p : Plan V) : (ofPlan p : Cache K V).isClosed = false := rfl

/-- The end of a cache is final. Nothing but a request to close it ends it, a second time that does
nothing, and after it every read finds nothing, every sweep removes nothing, and the counters stand
still, whatever else is asked and however much time passes. -/
theorem closed_for_good (p : Plan V) {ambient : Bool} {c : Cache K V} {events : List Event}
    (hbuild : p.build ambient = .ok (events, c)) (before after : List (Request K V)) :
    let last := c.after before
    let d := last.close.2.after after
    (.close ∉ before → last.isClosed = false) ∧
      last.close.2.close = ([], last.close.2) ∧
      d.isClosed = true ∧
      d.counters = { last.counters with entries := 0 } ∧
      (∀ key, d.get key = (none, d) ∧ d.getOrEmpty key = ((p.emptyValue, false), d) ∧
        d.contains key = false) ∧
      d.items = [] ∧ d.liveSize = 0 ∧ d.sweepNow = (0, d) := by
  intro last d
  have hc := eq_of_build hbuild
  have hopen : c.isClosed = false := hc ▸ isClosed_ofPlan p
  have hsound := inert_after (c := c) (fun hclosed => by simp [hopen] at hclosed) before
  have hlast : last.close.2.Inert := inert_close hsound
  obtain ⟨hd, hstore⟩ := hlast.after after
  have hget (key : K) : d.get key = (none, d) := if_pos hd.closed
  have hempty : d.emptyValue = p.emptyValue := by
    have hclose : last.close.2.emptyValue = last.emptyValue := (Leads.closes).emptyValue_eq
    rw [emptyValue_after, hclose, emptyValue_after, hc]
    rfl
  refine ⟨?_, close_of_closed hlast.closed, hd.closed, ?_, ?_, if_pos hd.closed, if_pos hd.closed,
    ?_⟩
  · intro hbefore
    rw [isClosed_after hbefore, hopen]
  · rw [hd.counters, hstore, tally_close]
  · intro key
    refine ⟨hget key, ?_, ?_⟩
    · rw [getOrEmpty, hget]
      exact congrArg (fun v => ((v, false), d)) hempty
    · rw [contains, hd.closed]
      rfl
  · have hsweep : d.patrol.target.sweep d.patrol.now = (none, d.patrol.target) :=
      Contents.sweep_of_closed hd.closed _
    rw [sweepNow, hsweep]
    rfl

/-- A cache that has counted a hit and a miss shows just that for ever. -/
theorem closed_for_good_of_reads :
    let p : Plan Nat :=
      { settings := ⟨.ofSeconds 1, .ofSeconds 3, .seconds, some 2, none⟩, emptyValue := 0 }
    let before : List (Request Nat Nat) := [.put 1 10, .get 1, .get 2]
    let after : List (Request Nat Nat) :=
      [.put 2 20, .get 2, .jump (.ofSeconds 10), .close, .sweepNow]
    ∃ events c, p.build true = .ok (events, c) ∧ (c.after before).isClosed = false ∧
      ((c.after before).close.2.after after).counters = { hits := 1, misses := 1 } ∧
      ((c.after before).close.2.after after).getOrEmpty 1 =
        ((0, false), (c.after before).close.2.after after) := by
  intro p before after
  obtain ⟨events, hbuild⟩ : ∃ events, p.build true = .ok (events, (ofPlan p : Cache Nat Nat)) :=
    build_eq_ok (by decide) rfl
  obtain ⟨hopen, -, -, hcounters, hget, -⟩ := closed_for_good p hbuild before after
  have hlast : ((ofPlan p).after before).counters = { hits := 1, misses := 1, entries := 1 } := by
    decide
  rw [hlast] at hcounters
  exact ⟨events, _, hbuild, hopen (by decide), hcounters, (hget 1).2.1⟩

end TimedCache.Cache
