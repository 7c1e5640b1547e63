import TimedCache.Proofs.Entry
import TimedCache.Proofs.Store.Lifetimes
import TimedCache.Proofs.Store.Reads

/-!
Stores where reads give new lives. A read sets the deadline to the end of the window, and so moves
it forward, unless it is the first read after a write that gave more life than that. As long as no
read that a run has more than another cuts a life short, a store without a bound loses no hit by
such reads.
-/
namespace TimedCache

variable {K V : Type}

/-- The first deadline comes before the second, where one that does not exist never comes. -/
def Instant.Sooner : Option Instant → Option Instant → Prop
  | some t, some u => t < u
  | some _, none => True
  | none, _ => False

namespace Instant

instance : (t u : Option Instant) → Decidable (Sooner t u)
  | some t, some u => inferInstanceAs (Decidable (t < u))
  | some _, none => inferInstanceAs (Decidable True)
  | none, _ => inferInstanceAs (Decidable False)

theorem not_sooner_iff {d' d : Option Instant} :
    ¬ Sooner d' d ↔ ∀ later ∈ d', ∃ sooner ∈ d, sooner ≤ later := by
  cases d' <;> cases d <;> simp [Sooner, lt_iff, le_iff]

theorem not_sooner_add? {t u : Instant} {d d' : Duration} (htu : t ≤ u) (hd : d ≤ d') :
    ¬ Sooner (u.add? d') (t.add? d) :=
  not_sooner_iff.mpr (exists_add?_le htu hd)

end Instant

open Instant (Sooner not_sooner_iff not_sooner_add?)

namespace Entry

theorem Outlasts.refl (e : Entry V) : e.Outlasts e :=
  ⟨rfl, fun deadline h => ⟨deadline, h, Nat.le_refl _⟩⟩

theorem Outlasts.trans {e₁ e₂ e₃ : Entry V} (h : e₁.Outlasts e₂) (h' : e₂.Outlasts e₃) :
    e₁.Outlasts e₃ where
  value := h.value.trans h'.value
  deadline := by
    intro later hlater
    obtain ⟨sooner, hsooner, hle⟩ := h.deadline later hlater
    obtain ⟨soonest, hsoonest, hle'⟩ := h'.deadline sooner hsooner
    exact ⟨soonest, hsoonest, Nat.le_trans hle' hle⟩

theorem Outlasts.read_self {e' e : Entry V} (h : e'.Outlasts e) (policy : Policy) (now : Instant) :
    (policy.read e' now).Outlasts (policy.read e now) := by
  cases policy with
  | fixed => exact h.read .fixed now
  | sliding window => exact h.read (.sliding (Nat.le_refl _)) now

theorem isDead_eq_false_of_le {e : Entry V} {t u : Instant} (htu : t ≤ u)
    (h : e.isDead u = false) : e.isDead t = false := by
  rw [← Bool.not_eq_true] at h ⊢
  exact fun hdead => h (isDead_mono htu hdead)

end Entry

variable [CacheKey K]

namespace Store

/-- A read of the key at `now` is a hit, and leaves the entry with a sooner deadline than it had. -/
def Shortens (s : Store K V) (key : K) (now : Instant) : Prop :=
  ∃ e e', s.live? key now = some e ∧ (s.get key now).2.entries[key]? = some e' ∧
    Sooner e'.deadline e.deadline

variable {s : Store K V} {key : K} {now : Instant} {capacity : Option Nat}
  {lifetime window : Duration}

theorem shortens_iff {e : Entry V} (h : s.live? key now = some e) :
    s.Shortens key now ↔ Sooner (s.policy.read e now).deadline e.deadline := by
  have hread : (s.get key now).2.entries[key]? = some (s.policy.read e now) := by
    rw [(s.reads_get key now).entry, h, Option.map_some]
  simp [Shortens, h, hread]

/-- Where reads give new lives, a read makes the deadline sooner only if no hit came before it. -/
theorem sooner_deadlineAfter_iff {since : List (Record K V)} (first : Option Instant)
    (h : ∀ r ∈ since, r.isHit key = true → r.now ≤ now) :
    Sooner (now.add? window) (deadlineAfter (.sliding window) key first since) ↔
      (∀ r ∈ since, r.isHit key = false) ∧ Sooner (now.add? window) first := by
  cases hlast : (since.filter (·.isHit key)).getLast? with
  | none =>
    have hnone : ∀ r ∈ since, r.isHit key = false := by
      simpa [List.getLast?_eq_none_iff, List.filter_eq_nil_iff] using hlast
    have hfirst : deadlineAfter (.sliding window) key first since = first := by
      simp only [deadlineAfter, Policy.window?, hlast]
    rw [hfirst]
    exact ⟨fun hsooner => ⟨hnone, hsooner⟩, And.right⟩
  | some hit =>
    obtain ⟨hmem, hhit⟩ := List.mem_filter.mp (List.mem_of_getLast? hlast)
    have hdeadline : deadlineAfter (.sliding window) key first since = hit.now.add? window := by
      simp only [deadlineAfter, Policy.window?, hlast]
    rw [hdeadline]
    constructor
    · intro hsooner
      exact absurd hsooner (not_sooner_add? (h hit hmem hhit) (Nat.le_refl _))
    · rintro ⟨hnone, -⟩
      rw [hnone hit hmem] at hhit
      cases hhit

variable {policy : Policy} {ops : List (Instant × Op K V)}

/-- By the history this is the latest write of the key, nothing has taken the key out on purpose
since then, and there is what is recorded since. -/
structure LatestWrite (lifetime : Duration) (past : List (Record K V)) (key : K)
    (write : Record K V) (value : V) (life : Duration) (since : List (Record K V)) : Prop where
  split : ∃ before, past = before ++ write :: since
  written : write.op.written? lifetime key = some (value, life)
  kept : ∀ r ∈ since, r.op.written? lifetime key = none ∧ r.op.removes key = false

theorem Op.isTimed_of_written {op : Op K V} {value : V} {life : Duration}
    (h : op.written? lifetime key = some (value, life)) : op.isTimed = true := by
  cases op <;> first | rfl | cases h

theorem hit_shortens_iff {value : V} (hchron : Chronological (ops ++ [(now, .get key)]))
    (hget : (((empty capacity lifetime (.sliding window) : Store K V).run ops).2.get key now).1 =
      some value) :
    ∃ write life since,
      LatestWrite lifetime
        (history ops ((empty capacity lifetime (.sliding window) : Store K V).run ops).1) key write
        value life since ∧
      (((empty capacity lifetime (.sliding window) : Store K V).run ops).2.Shortens key now ↔
        (∀ r ∈ since, r.isHit key = false) ∧
          Sooner (now.add? window) (write.now.add? life)) ∧
      (((empty capacity lifetime (.sliding window) : Store K V).run ops).2.Shortens key now →
        window < life) := by
  obtain ⟨-, huntil⟩ := chronological_concat rfl hchron
  rw [(reads_get _ key now).found] at hget
  obtain ⟨e, hlive, rfl⟩ := Option.map_eq_some_iff.mp hget
  obtain ⟨hpolicy, before, write, since, life, hpast, hwritten, hkept, hdeadline⟩ :=
    grounds_of_stored (live?_eq_some_iff.mp hlive).1
  have hmem : ∀ r ∈ write :: since, (r.now, r.op) ∈ ops := by
    intro r hr
    apply mem_of_mem_history
    rw [hpast]
    exact List.mem_append_right before hr
  have hwrite : write.now ≤ now :=
    huntil _ (hmem write List.mem_cons_self) (Op.isTimed_of_written hwritten)
  have hsince : ∀ r ∈ since, r.isHit key = true → r.now ≤ now := by
    intro r hr hhit
    refine huntil _ (hmem r (List.mem_cons_of_mem _ hr)) ?_
    rw [show r.op = .get key from (Record.isHit_iff.mp hhit).1]
    rfl
  have hshortens := shortens_iff hlive
  rw [hpolicy, hdeadline] at hshortens
  have hiff := hshortens.trans (sooner_deadlineAfter_iff (write.now.add? life) hsince)
  refine ⟨write, life, since, ⟨⟨before, hpast⟩, hwritten, hkept⟩, hiff, ?_⟩
  intro hs
  obtain ⟨-, hsooner⟩ := hiff.mp hs
  exact Nat.lt_of_not_le fun hle => not_sooner_add? hwrite hle hsooner

omit [CacheKey K] in
theorem Chronological.sublist {ops ops' : List (Instant × Op K V)} (h : Chronological ops')
    (hsub : ops.Sublist ops') : Chronological ops :=
  List.Pairwise.sublist (hsub.filter _) h

/-- A turn of two runs, one of which makes more reads: both act, or it is one of those reads. -/
inductive Turn (K V : Type)
  | both (now : Instant) (op : Op K V)
  | more (now : Instant) (key : K)

def Turn.act : Turn K V → Instant × Op K V
  | .both now op => (now, op)
  | .more now key => (now, .get key)

def Turn.act? : Turn K V → Option (Instant × Op K V)
  | .both now op => some (now, op)
  | .more _ _ => none

/-- None of the reads that are made in addition, by this store, shortens a life. -/
def Spares (s : Store K V) (turns : List (Turn K V)) : Prop :=
  ∀ before t k after, turns = before ++ .more t k :: after →
    ¬ (s.run (before.map Turn.act)).2.Shortens k t

theorem Spares.head {turns : List (Turn K V)} {t : Instant} {k : K}
    (h : s.Spares (.more t k :: turns)) : ¬ s.Shortens k t := h [] t k turns rfl

theorem Spares.tail {turns : List (Turn K V)} {turn : Turn K V} (h : s.Spares (turn :: turns)) :
    (s.step turn.act.1 turn.act.2).2.Spares turns := by
  intro before t k after hturns
  exact h (turn :: before) t k after (congrArg (turn :: ·) hturns)

end Store

namespace Line

/-- For each entry of the second list that is live at `t` the first one has an entry that outlasts
it, and never loses one to a bound. -/
structure Covers (l' l : Line K V) (t : Instant) : Prop where
  rules : l'.rules = l.rules
  unbounded : l'.rules.capacity = none
  entries : ∀ key e, (key, e) ∈ l.entries → e.isDead t = false →
    ∃ e', (key, e') ∈ l'.entries ∧ e'.Outlasts e

namespace Covers

variable {l' l : Line K V} {t u now : Instant} {key : K}

omit [CacheKey K] in
theorem later (h : l'.Covers l t) (htu : t ≤ u) : l'.Covers l u where
  rules := h.rules
  unbounded := h.unbounded
  entries key e he hlive := h.entries key e he (Entry.isDead_eq_false_of_le htu hlive)

theorem step (h : l'.Covers l t) (hfits : l.Fits) (hkeys : l'.Distinct) {op : Store.Op K V}
    (hnow : op.isTimed = true → t ≤ now) :
    (l'.step now op).2.Covers (l.step now op).2 (op.time t now) where
  rules := by rw [rules_step, rules_step, h.rules]
  unbounded := by rw [rules_step, h.unbounded]
  entries := by
    intro key e he hlast
    -- What is there after the operation was written or read by it, or there and live before.
    cases fate_of_mem hfits he with
    | written hwrite =>
      rw [← h.rules] at hwrite
      exact ⟨_, mem_step_of_written h.unbounded hwrite, .refl _⟩
    | @read e hread hfind hlive =>
      subst hread
      have hbefore := Entry.isDead_eq_false_of_le (hnow rfl) hlive
      obtain ⟨e', he', ho⟩ := h.entries key e (mem_of_find? hfind) hbefore
      have hfind' : l'.find? key = some e' := (find?_eq_some_iff hkeys).mpr he'
      refine ⟨_, mem_get_self hfind' (ho.isDead_eq_false hlive), ?_⟩
      rw [h.rules]
      exact ho.read_self l.rules.policy now
    | kept hmem hwrite hremoves hread hsweep =>
      have hbefore := Entry.isDead_eq_false_of_le (Store.Op.le_time hnow) hlast
      obtain ⟨e', he', ho⟩ := h.entries key e hmem hbefore
      rw [← h.rules] at hwrite
      refine ⟨e', mem_step h.unbounded he' hwrite hremoves hread ?_, ho⟩
      exact fun hop => ho.isDead_eq_false (hsweep hop)

theorem more (h : l'.Covers l t) (hkeys : l'.Distinct) (htnow : t ≤ now)
    (hspares : ∀ e, l'.find? key = some e → e.isDead now = false →
      ¬ Sooner (l'.rules.policy.read e now).deadline e.deadline) :
    (l'.get key now).2.Covers l now where
  rules := by rw [rules_get, h.rules]
  unbounded := by rw [rules_get, h.unbounded]
  entries := by
    intro k e he hlive
    obtain ⟨e', he', ho⟩ := h.entries k e he (Entry.isDead_eq_false_of_le htnow hlive)
    by_cases hkey : k = key
    · subst hkey
      have hfind' : l'.find? k = some e' := (find?_eq_some_iff hkeys).mpr he'
      have hlive' := ho.isDead_eq_false hlive
      have hread : (l'.rules.policy.read e' now).Outlasts e' :=
        ⟨rfl, not_sooner_iff.mp (hspares e' hfind' hlive')⟩
      exact ⟨_, mem_get_self hfind' hlive', hread.trans ho⟩
    · exact ⟨e', mem_get_of_ne he' hkey, ho⟩

theorem get_eq_some (h : l'.Covers l now) (hkeys : l'.Distinct) {value : V}
    (hget : (l.get key now).1 = some value) : (l'.get key now).1 = some value := by
  rw [get_eq_some_iff] at hget ⊢
  obtain ⟨e, hfind, hlive, rfl⟩ := hget
  obtain ⟨e', he', ho⟩ := h.entries key e (mem_of_find? hfind) hlive
  exact ⟨e', (find?_eq_some_iff hkeys).mpr he', ho.isDead_eq_false hlive, ho.value⟩

end Covers
end Line

namespace Store

theorem Kept.covers_run {s s' : Store K V} {l l' : Line K V} {t u : Instant} (h : s.Kept l)
    (h' : s'.Kept l') (hc : l'.Covers l t) {turns : List (Turn K V)}
    (hsince : Since t (turns.map Turn.act)) (hchron : Chronological (turns.map Turn.act))
    (htu : t ≤ u) (huntil : Until u (turns.map Turn.act)) (hspares : s'.Spares turns) :
    (l'.run (turns.map Turn.act)).2.Covers (l.run (turns.filterMap Turn.act?)).2 u := by
  induction turns generalizing s s' l l' t with
  | nil => exact hc.later htu
  | cons turn rest ih =>
    have hkeys : l'.Distinct := h'.listed.arranged.nodup_keys
    have hnow := hsince turn.act List.mem_cons_self
    have hlast := huntil turn.act List.mem_cons_self
    have hrest : Since (turn.act.2.time t turn.act.1) (rest.map Turn.act) :=
      since_cons hsince hchron
    have hchron' : Chronological (rest.map Turn.act) := (chronological_cons.mp hchron).2
    have huntil' : Until u (rest.map Turn.act) := fun o ho => huntil o (List.mem_cons_of_mem _ ho)
    cases turn with
    | both now op =>
      exact ih (kept_step h now op) (kept_step h' now op) (hc.step h.fits hkeys hnow) hrest hchron'
        (Op.time_le htu hlast) huntil' hspares.tail
    | more now key =>
      refine ih h (kept_step h' now (.get key)) (hc.more hkeys (hnow rfl) ?_) hrest hchron'
        (Op.time_le htu hlast) huntil' hspares.tail
      intro e hfind hlive
      have hpolicy : s'.policy = l'.rules.policy := congrArg Rules.policy h'.listed.rules
      rw [h'.listed.arranged.find?_eq] at hfind
      rw [← hpolicy, ← shortens_iff (live?_eq_some_iff.mpr ⟨hfind, hlive⟩)]
      exact hspares.head

theorem spares_of_short_lives {capacity : Option Nat} {lifetime window : Duration}
    {turns : List (Turn K V)} (hchron : Chronological (turns.map Turn.act))
    (hshort : ∀ o ∈ turns.map Turn.act, ∀ k value life,
      o.2.written? lifetime k = some (value, life) → life ≤ window) :
    (empty capacity lifetime (.sliding window) : Store K V).Spares turns := by
  rintro before t k after rfl hshortens
  have hpart : (before ++ [Turn.more t k]).Sublist (before ++ Turn.more t k :: after) :=
    (List.Sublist.refl before).append (List.singleton_sublist.mpr List.mem_cons_self)
  have hbefore : Chronological (before.map Turn.act ++ [(t, .get k)]) := by
    simpa [Turn.act] using hchron.sublist (hpart.map Turn.act)
  obtain ⟨e, e', hlive, hread, hsooner⟩ := hshortens
  have hget : (((empty capacity lifetime (.sliding window) : Store K V).run
      (before.map Turn.act)).2.get k t).1 = some e.value := by
    rw [(reads_get _ k t).found, hlive, Option.map_some]
  obtain ⟨write, life, since, hlatest, -, hlt⟩ := hit_shortens_iff hbefore hget
  obtain ⟨first, hpast⟩ := hlatest.split
  have hmem : (write.now, write.op) ∈ before.map Turn.act := by
    apply mem_of_mem_history
    rw [hpast]
    exact List.mem_append_right first List.mem_cons_self
  have hmem' : (write.now, write.op) ∈ (before ++ Turn.more t k :: after).map Turn.act := by
    rw [List.map_append]
    exact List.mem_append_left _ hmem
  have hle := hshort _ hmem' k e.value life hlatest.written
  exact absurd (hlt ⟨e, e', hlive, hread, hsooner⟩) (Nat.not_lt_of_le hle)

/-- Where reads give new lives, a hit shortens a life exactly if it is the first one since the
latest write of its key and the window ends before the life that the write gave; so the write gave
more life than the window. Without a bound, no hit is lost by more reads, as long as none of these
shortens a life, and so least of all where no write gives more life than the window. -/
theorem shortened_only_after_write (lifetime window : Duration) :
    (∀ (capacity : Option Nat) (ops : List (Instant × Op K V)) key now value,
      let s := ((empty capacity lifetime (.sliding window) : Store K V).run ops).2
      let answers := ((empty capacity lifetime (.sliding window) : Store K V).run ops).1
      Chronological (ops ++ [(now, .get key)]) → (s.get key now).1 = some value →
        ∃ write life since, LatestWrite lifetime (history ops answers) key write value life since ∧
          (s.Shortens key now ↔ (∀ r ∈ since, r.isHit key = false) ∧
            Sooner (now.add? window) (write.now.add? life)) ∧
          (s.Shortens key now → window < life)) ∧
      ∀ (turns : List (Turn K V)) key now value,
        let s : Store K V := empty none lifetime (.sliding window)
        Chronological (turns.map Turn.act ++ [(now, .get key)]) →
          (s.Spares turns ∨ ∀ o ∈ turns.map Turn.act, ∀ k v life,
            o.2.written? lifetime k = some (v, life) → life ≤ window) →
          ((s.run (turns.filterMap Turn.act?)).2.get key now).1 = some value →
          ((s.run (turns.map Turn.act)).2.get key now).1 = some value := by
  constructor
  · intro capacity ops key now value s answers hchron hget
    exact hit_shortens_iff hchron hget
  · intro turns key now value s hchron hmore hget
    obtain ⟨hturns, huntil⟩ := chronological_concat rfl hchron
    have hspares : s.Spares turns := hmore.elim id (spares_of_short_lives hturns)
    let l : Line K V := { rules := ⟨none, lifetime, .sliding window⟩ }
    have hempty : s.Kept l := kept_empty none lifetime (.sliding window)
    have hstart : l.Covers l .origin := ⟨rfl, rfl, fun key e he _ => ⟨e, he, .refl e⟩⟩
    have hcovers := hempty.covers_run hempty hstart (since_origin _) hturns
      (Nat.zero_le now.nanos) huntil hspares
    have hfewer := (kept_run hempty (turns.filterMap Turn.act?)).listed
    have hmore := (kept_run hempty (turns.map Turn.act)).listed
    rw [(hfewer.get key now).1] at hget
    rw [(hmore.get key now).1]
    exact hcovers.get_eq_some hmore.arranged.nodup_keys hget

/-- The first read of a key cuts its life of ten seconds short, though another key was read before.
A life of three seconds is no longer than the window, and reads cut nothing off. -/
theorem shortened_only_after_write_of_first_read :
    let second : Instant := ⟨1_000_000_000, by decide⟩
    let third : Instant := ⟨2_000_000_000, by decide⟩
    let window : Duration := .ofSeconds 4
    let ops : List (Instant × Op Nat Nat) :=
      [(.origin, .insert 1 10), (second, .insert 2 20), (second, .get 2)]
    let bounded := (empty (some 2) (.ofSeconds 10) (.sliding window) : Store Nat Nat).run ops
    let turns : List (Turn Nat Nat) :=
      [.both .origin (.insertFor 1 10 (.ofSeconds 3)), .more second 1, .more second 2]
    let s : Store Nat Nat := empty none (.ofSeconds 10) (.sliding window)
    bounded.2.Shortens 1 third ∧
      (∃ write life since,
        LatestWrite (.ofSeconds 10) (history ops bounded.1) 1 write 10 life since ∧
        (∀ r ∈ since, r.isHit 1 = false) ∧ window < life) ∧
      ((s.run (turns.filterMap Turn.act?)).2.get 1 third).1 = some 10 ∧
      ((s.run (turns.map Turn.act)).2.get 1 third).1 = some 10 := by
  intro second third window ops bounded turns s
  obtain ⟨hread, hmore⟩ :=
    shortened_only_after_write (K := Nat) (V := Nat) (.ofSeconds 10) window
  obtain ⟨write, life, since, hlatest, hiff, hlonger⟩ :=
    hread (some 2) ops 1 third 10 (by decide) (by decide)
  have hshortens : bounded.2.Shortens 1 third :=
    ⟨⟨10, .origin, some ⟨10_000_000_000, by decide⟩⟩,
      ⟨10, third, some ⟨6_000_000_000, by decide⟩⟩, by decide, by decide, by decide⟩
  have hget : ((s.run (turns.filterMap Turn.act?)).2.get 1 third).1 = some 10 := by decide
  have hshort : ∀ o ∈ turns.map Turn.act, ∀ k v life,
      o.2.written? (.ofSeconds 10) k = some (v, life) → life ≤ window := by
    simp only [turns, List.map_cons, List.map_nil, List.forall_mem_cons, Turn.act]
    refine ⟨?_, nofun, nofun, nofun⟩
    intro k v life hwritten
    simp only [Op.written?] at hwritten
    split at hwritten
    · cases hwritten
      decide
    · cases hwritten
  exact ⟨hshortens, ⟨write, life, since, hlatest, (hiff.mp hshortens).1, hlonger hshortens⟩, hget,
    hmore turns 1 third 10 (by decide) (.inr hshort) hget⟩

/-- A read right after the write leaves one second of a life of ten; without it the key is still
there after five. -/
theorem life_cut_short_by_read :
    let later : Instant := ⟨5_000_000_000, by decide⟩
    let turns : List (Turn Nat Nat) := [.both .origin (.insert 1 10), .more .origin 1]
    let s : Store Nat Nat := empty none (.ofSeconds 10) (.sliding (.ofSeconds 1))
    let written := (s.run [(.origin, .insert 1 10)]).2
    Chronological (turns.map Turn.act ++ [(later, .get 1)]) ∧
      (written.get 1 .origin).1 = some 10 ∧ written.Shortens 1 .origin ∧
      ((s.run (turns.filterMap Turn.act?)).2.get 1 later).1 = some 10 ∧
      ((s.run (turns.map Turn.act)).2.get 1 later).1 = none := by
  intro later turns s written
  have hshortens : written.Shortens 1 .origin :=
    ⟨⟨10, .origin, some ⟨10_000_000_000, by decide⟩⟩,
      ⟨10, .origin, some ⟨1_000_000_000, by decide⟩⟩, by decide, by decide, by decide⟩
  exact ⟨by decide, by decide, hshortens, by decide, by decide⟩

end Store
end TimedCache
