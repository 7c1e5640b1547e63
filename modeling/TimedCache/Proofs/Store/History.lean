import Mathlib.Data.List.Induction
import TimedCache.Proofs.Store.Fate

/-!
Stores and their histories. An entry is what the latest write of its key made it, with the deadline
that the write gave it or, where reads give new lives, the last hit after it; so every hit has its
grounds in the history. Without a bound, and as long as time does not go back, grounds in the
history are all that a hit takes.
-/
namespace TimedCache

variable {K V : Type} [CacheKey K]

namespace Store

structure Record (K V : Type) where
  now : Instant
  op : Op K V
  answer : Answer K V

def Record.isHit (r : Record K V) (key : K) : Bool :=
  match r.op, r.answer with
  | .get k, .value (some _) => k = key
  | _, _ => false

theorem Record.isHit_iff {r : Record K V} {key : K} :
    r.isHit key = true ↔ r.op = .get key ∧ ∃ value, r.answer = .value (some value) := by
  obtain ⟨now, op, answer⟩ := r
  unfold isHit
  split
  · simp_all
  · rename_i hneither
    simp only [Bool.false_eq_true, false_iff]
    rintro ⟨hop, value, hanswer⟩
    exact hneither key value hop hanswer

def history (ops : List (Instant × Op K V)) (answers : List (Answer K V)) : List (Record K V) :=
  List.zipWith (fun o answer => ⟨o.1, o.2, answer⟩) ops answers

omit [CacheKey K] in
theorem mem_of_mem_history {ops : List (Instant × Op K V)} {answers : List (Answer K V)}
    {r : Record K V} (h : r ∈ history ops answers) : (r.now, r.op) ∈ ops := by
  rw [history, ← List.map_uncurry_zip_eq_zipWith] at h
  obtain ⟨⟨o, answer⟩, hzip, rfl⟩ := List.mem_map.mp h
  exact (List.of_mem_zip hzip).1

/-- The deadline under a policy of what was given the deadline `first`, after all that is recorded
since then: where reads give new lives, the last hit decides. -/
def deadlineAfter (policy : Policy) (key : K) (first : Option Instant)
    (since : List (Record K V)) : Option Instant :=
  match policy.window?, (since.filter (·.isHit key)).getLast? with
  | some window, some hit => hit.now.add? window
  | _, _ => first

/-- By the history the key has this value, and has it until the deadline: so the latest write of the
key left it, and nothing has taken the key out on purpose since. -/
def Grounds (lifetime : Duration) (policy : Policy) (history : List (Record K V)) (key : K)
    (value : V) (deadline : Option Instant) : Prop :=
  ∃ before write since life, history = before ++ write :: since ∧
    write.op.written? lifetime key = some (value, life) ∧
    (∀ r ∈ since, r.op.written? lifetime key = none ∧ r.op.removes key = false) ∧
    deadline = deadlineAfter policy key (write.now.add? life) since

def Record.deadline (r : Record K V) (policy : Policy) (key : K) (deadline : Option Instant) :
    Option Instant :=
  match policy.window? with
  | some window => if r.isHit key then r.now.add? window else deadline
  | none => deadline

theorem Record.deadline_of_not_hit {r : Record K V} {key : K} (h : r.isHit key = false)
    (policy : Policy) (deadline : Option Instant) : r.deadline policy key deadline = deadline := by
  unfold Record.deadline
  cases policy.window? with
  | none => rfl
  | some window => simp [h]

theorem Record.deadline_of_hit {r : Record K V} {key : K} (h : r.isHit key = true)
    (policy : Policy) (e : Entry V) :
    r.deadline policy key e.deadline = (policy.read e r.now).deadline := by
  unfold Record.deadline Policy.read
  cases policy.window? with
  | none => rfl
  | some window => simp [h]

theorem deadlineAfter_append (policy : Policy) (key : K) (first : Option Instant)
    (since : List (Record K V)) (r : Record K V) :
    deadlineAfter policy key first (since ++ [r]) =
      r.deadline policy key (deadlineAfter policy key first since) := by
  unfold deadlineAfter Record.deadline
  cases policy.window? with
  | none => rfl
  | some window =>
    rw [List.filter_append, List.filter_singleton]
    cases hhit : r.isHit key with
    | true => simp
    | false => simp

theorem grounds_append_iff {lifetime : Duration} {policy : Policy} {history : List (Record K V)}
    {r : Record K V} {key : K} {value : V} {deadline : Option Instant} :
    Grounds lifetime policy (history ++ [r]) key value deadline ↔
      (∃ life, r.op.written? lifetime key = some (value, life) ∧ deadline = r.now.add? life) ∨
        (r.op.written? lifetime key = none ∧ r.op.removes key = false ∧
          ∃ d, Grounds lifetime policy history key value d ∧
            deadline = r.deadline policy key d) := by
  constructor
  · rintro ⟨before, write, since, life, hhistory, hwrite, hsince, rfl⟩
    rcases List.eq_nil_or_concat since with rfl | ⟨rest, last, rfl⟩
    · obtain ⟨rfl, hr⟩ := List.append_inj' hhistory rfl
      obtain rfl := List.singleton_inj.mp hr
      exact .inl ⟨life, hwrite, by simp [deadlineAfter]⟩
    · rw [List.concat_eq_append, ← List.cons_append, ← List.append_assoc] at hhistory
      obtain ⟨rfl, hr⟩ := List.append_inj' hhistory rfl
      obtain rfl := List.singleton_inj.mp hr
      rw [List.concat_eq_append] at hsince ⊢
      have hlast := hsince r (by simp)
      refine .inr ⟨hlast.1, hlast.2, _, ⟨before, write, rest, life, rfl, hwrite, ?_, rfl⟩,
        deadlineAfter_append policy key _ rest r⟩
      intro r' hr'
      exact hsince r' (by simp [hr'])
  · rintro (⟨life, hwrite, rfl⟩ | ⟨hwrite, hremoves, d, hgrounds, rfl⟩)
    · exact ⟨history, r, [], life, rfl, hwrite, by simp, by simp [deadlineAfter]⟩
    · obtain ⟨before, write, since, life, rfl, hfirst, hsince, rfl⟩ := hgrounds
      refine ⟨before, write, since ++ [r], life, by simp, hfirst, ?_,
        (deadlineAfter_append policy key _ since r).symm⟩
      intro r' hr'
      rcases List.mem_append.mp hr' with hr' | hr'
      · exact hsince r' hr'
      · rw [List.mem_singleton.mp hr']
        exact ⟨hwrite, hremoves⟩

theorem grounds_unique {lifetime : Duration} {policy : Policy} {history : List (Record K V)}
    {key : K} {value value' : V} {deadline deadline' : Option Instant}
    (h : Grounds lifetime policy history key value deadline)
    (h' : Grounds lifetime policy history key value' deadline') :
    value = value' ∧ deadline = deadline' := by
  induction history using List.reverseRecOn generalizing deadline deadline' with
  | nil =>
    obtain ⟨before, write, since, life, hhistory, -⟩ := h
    simp at hhistory
  | append_singleton rest r ih =>
    rw [grounds_append_iff] at h h'
    rcases h with ⟨life, hwrite, rfl⟩ | ⟨hwrite, -, d, hd, rfl⟩ <;>
      rcases h' with ⟨life', hwrite', rfl⟩ | ⟨hwrite', -, d', hd', rfl⟩
    · simp_all
    · simp_all
    · simp_all
    · obtain ⟨rfl, rfl⟩ := ih hd hd'
      exact ⟨rfl, rfl⟩

end Store

namespace Line

variable {l : Line K V} {past : List (Store.Record K V)} {t u : Instant}

def record (l : Line K V) (now : Instant) (op : Store.Op K V) : Store.Record K V :=
  ⟨now, op, (l.step now op).1⟩

theorem isHit_record_iff {key : K} {now : Instant} {op : Store.Op K V} :
    (l.record now op).isHit key = true ↔
      op = .get key ∧ ∃ e, l.find? key = some e ∧ e.isDead now = false := by
  rw [Store.Record.isHit_iff]
  apply and_congr_right
  rintro (rfl : op = .get key)
  have hanswer (value : V) : (l.record now (.get key)).answer = .value (some value) ↔
      (l.get key now).1 = some value := by simp [record, step]
  simp only [hanswer, get_eq_some_iff]
  constructor
  · rintro ⟨value, e, hfind, hlive, -⟩
    exact ⟨e, hfind, hlive⟩
  · rintro ⟨e, hfind, hlive⟩
    exact ⟨e.value, e, hfind, hlive, rfl⟩

/-- Every entry of the list has its grounds in the history. -/
def Grounded (l : Line K V) (past : List (Store.Record K V)) : Prop :=
  ∀ key e, (key, e) ∈ l.entries →
    Store.Grounds l.rules.lifetime l.rules.policy past key e.value e.deadline

theorem grounded_step (h : l.Grounded past) (hfits : l.Fits) (now : Instant) (op : Store.Op K V) :
    (l.step now op).2.Grounded (past ++ [l.record now op]) := by
  intro key e he
  rw [rules_step, Store.grounds_append_iff]
  cases fate_of_mem hfits he with
  | written hwrite => exact .inl ⟨_, hwrite, rfl⟩
  | @read e hop hfind hlive =>
    have hhit := isHit_record_iff.mpr ⟨hop, e, hfind, hlive⟩
    refine .inr ⟨by rw [record, hop]; rfl, by rw [record, hop]; rfl, e.deadline, ?_, ?_⟩
    · exact h key e (mem_of_find? hfind)
    · exact (Store.Record.deadline_of_hit hhit _ e).symm
  | kept hmem hwrite hremoves hread =>
    have hmiss : (l.record now op).isHit key = false := by
      rw [← Bool.not_eq_true, isHit_record_iff]
      exact fun hhit => hread hhit.1
    refine .inr ⟨hwrite, hremoves, e.deadline, h key e hmem, ?_⟩
    exact (Store.Record.deadline_of_not_hit hmiss _ _).symm

theorem grounded_run (h : l.Grounded past) (hfits : l.Fits) (ops : List (Instant × Store.Op K V)) :
    (l.run ops).2.Grounded (past ++ Store.history ops (l.run ops).1) := by
  induction ops generalizing l past with
  | nil => simpa [Store.history] using h
  | cons first rest ih =>
    obtain ⟨now, op⟩ := first
    have hrest := ih (grounded_step h hfits now op) (fits_step hfits now op)
    rw [List.append_assoc] at hrest
    exact hrest

/-- What the history gives grounds for is in the list, if it is not over at `t`. -/
def Complete (l : Line K V) (past : List (Store.Record K V)) (t : Instant) : Prop :=
  ∀ key value deadline, Store.Grounds l.rules.lifetime l.rules.policy past key value deadline →
    (∀ d ∈ deadline, t < d) → ∃ e, (key, e) ∈ l.entries ∧ e.value = value ∧ e.deadline = deadline

theorem Complete.later (h : l.Complete past t) (htu : t ≤ u) : l.Complete past u := by
  intro key value deadline hgrounds hlive
  exact h key value deadline hgrounds fun d hd => Nat.lt_of_le_of_lt htu (hlive d hd)

theorem complete_step (h : l.Complete past t) (hgrounded : l.Grounded past)
    (hcapacity : l.rules.capacity = none) (hkeys : l.Distinct) {now : Instant}
    {op : Store.Op K V} (hnow : op.isTimed = true → t ≤ now) :
    (l.step now op).2.Complete (past ++ [l.record now op]) (op.time t now) := by
  intro key value deadline hgrounds hlive
  rw [rules_step, Store.grounds_append_iff] at hgrounds
  rcases hgrounds with ⟨life, hwrite, rfl⟩ | ⟨hwrite, hremoves, d, hgrounds, rfl⟩
  · exact ⟨_, mem_step_of_written hcapacity hwrite, rfl, rfl⟩
  · cases hhit : (l.record now op).isHit key with
    | true =>
      obtain ⟨rfl, e, hfind, he⟩ := isHit_record_iff.mp hhit
      obtain ⟨rfl, rfl⟩ := Store.grounds_unique (hgrounded key e (mem_of_find? hfind)) hgrounds
      exact ⟨l.rules.policy.read e now, mem_get_self hfind he, rfl,
        (Store.Record.deadline_of_hit hhit _ e).symm⟩
    | false =>
      -- The deadline is the old one, and still to come at the later time, so the entry was there.
      rw [Store.Record.deadline_of_not_hit hhit] at hlive ⊢
      have htime := Store.Op.le_time hnow
      obtain ⟨e, hmem, rfl, rfl⟩ := h key value d hgrounds fun u hu =>
        Nat.lt_of_le_of_lt htime (hlive u hu)
      refine ⟨e, mem_step hcapacity hmem hwrite hremoves ?_ ?_, rfl, rfl⟩
      · -- A read of an entry that is not over would have been a hit.
        rintro rfl
        have he : e.isDead now = false := Entry.isDead_eq_false_iff.mpr hlive
        have hread := isHit_record_iff.mpr ⟨rfl, e, (find?_eq_some_iff hkeys).mpr hmem, he⟩
        rw [hhit] at hread
        cases hread
      · rintro rfl
        exact Entry.isDead_eq_false_iff.mpr hlive

theorem complete_run {s : Store K V} (hs : s.Kept l) (h : l.Complete past t)
    (hgrounded : l.Grounded past) (hcapacity : l.rules.capacity = none)
    {ops : List (Instant × Store.Op K V)} (hsince : Store.Since t ops)
    (hchron : Store.Chronological ops) (htu : t ≤ u) (huntil : Store.Until u ops) :
    (l.run ops).2.Complete (past ++ Store.history ops (l.run ops).1) u := by
  induction ops generalizing s l past t with
  | nil => simpa [Store.history] using h.later htu
  | cons first rest ih =>
    obtain ⟨now, op⟩ := first
    have hnow := hsince (now, op) List.mem_cons_self
    have hstep := complete_step h hgrounded hcapacity hs.listed.arranged.nodup_keys hnow
    have hrest := ih (Store.kept_step hs now op) hstep (grounded_step hgrounded hs.fits now op)
      ((congrArg Rules.capacity (l.rules_step now op)).trans hcapacity)
      (Store.since_cons hsince hchron) (Store.chronological_cons.mp hchron).2
      (Store.Op.time_le htu (huntil (now, op) List.mem_cons_self))
      fun o ho => huntil o (List.mem_cons_of_mem _ ho)
    rw [List.append_assoc] at hrest
    exact hrest

end Line

namespace Store

/-- What is stored has its grounds in the history, and the policy is that of the first day. -/
theorem grounds_of_stored {capacity : Option Nat} {lifetime : Duration} {policy : Policy}
    {ops : List (Instant × Op K V)} {key : K} {e : Entry V}
    (h : ((empty capacity lifetime policy : Store K V).run ops).2.entries[key]? = some e) :
    ((empty capacity lifetime policy : Store K V).run ops).2.policy = policy ∧
      Grounds lifetime policy
        (history ops ((empty capacity lifetime policy : Store K V).run ops).1) key e.value
        e.deadline := by
  let l : Line K V := { rules := ⟨capacity, lifetime, policy⟩ }
  have hempty : (empty capacity lifetime policy : Store K V).Kept l :=
    kept_empty capacity lifetime policy
  have hlast := (kept_run hempty ops).listed
  have hrules : (l.run ops).2.rules = ⟨capacity, lifetime, policy⟩ := l.rules_run ops
  have hstart : l.Grounded [] := fun _ _ he => absurd he List.not_mem_nil
  have hgrounds := Line.grounded_run hstart hempty.fits ops key e (hlast.arranged.mem_iff.mpr h)
  rw [hrules, ← (listed_run hempty.listed ops).1] at hgrounds
  exact ⟨congrArg Rules.policy (hlast.rules.trans hrules), hgrounds⟩

/-- A hit has its grounds in the history, whatever the times: it finds what the latest write of the
key wrote, nothing has taken the key out on purpose since, and the deadline is still to come. If
there is no bound and time does not go back, then such grounds make a read a hit, whatever sweeps
and other reads there were. -/
theorem hits_have_grounds (capacity : Option Nat) (lifetime : Duration) (policy : Policy)
    (ops : List (Instant × Op K V)) (key : K) (value : V) (now : Instant) :
    let answers := ((empty capacity lifetime policy : Store K V).run ops).1
    let s := ((empty capacity lifetime policy : Store K V).run ops).2
    let due := ∃ deadline,
      Grounds lifetime policy (history ops answers) key value deadline ∧ ∀ d ∈ deadline, now < d
    ((s.get key now).1 = some value → due) ∧
      (capacity = none → Chronological (ops ++ [(now, .get key)]) → due →
        (s.get key now).1 = some value) := by
  intro answers s due
  let l : Line K V := { rules := ⟨capacity, lifetime, policy⟩ }
  have hkept : (empty capacity lifetime policy : Store K V).Kept l :=
    kept_empty capacity lifetime policy
  have hanswers : (l.run ops).1 = answers := (listed_run hkept.listed ops).1.symm
  have hlast : s.Kept (l.run ops).2 := kept_run hkept ops
  have hrules : (l.run ops).2.rules = ⟨capacity, lifetime, policy⟩ := l.rules_run ops
  have hkeys : (l.run ops).2.Distinct := hlast.listed.arranged.nodup_keys
  have hstart : l.Grounded [] := fun key e he => absurd he List.not_mem_nil
  have hgrounded := Line.grounded_run hstart hkept.fits ops
  have hget := (hlast.listed.get key now).1
  rw [hget, Line.get_eq_some_iff]
  constructor
  · rintro ⟨e, hfind, hlive, rfl⟩
    have hgrounds := hgrounded key e (Line.mem_of_find? hfind)
    rw [hrules, hanswers] at hgrounds
    exact ⟨e.deadline, hgrounds, Entry.isDead_eq_false_iff.mp hlive⟩
  · rintro hcapacity hchron ⟨deadline, hgrounds, hlive⟩
    obtain ⟨hops, huntil⟩ := chronological_concat rfl hchron
    have hnone : l.Complete [] .origin := by
      rintro key value deadline ⟨before, write, since, life, hnil, -⟩
      simp at hnil
    have hcomplete := Line.complete_run hkept hnone hstart hcapacity (since_origin ops) hops
      (Nat.zero_le now.nanos) huntil
    rw [← hanswers] at hgrounds
    obtain ⟨e, hmem, rfl, rfl⟩ :=
      hcomplete key value deadline (by rw [hrules]; exact hgrounds) hlive
    exact ⟨e, (Line.find?_eq_some_iff hkeys).mpr hmem, Entry.isDead_eq_false_iff.mpr hlive, rfl⟩

/-- A read in time gives an entry more than the life that it was written with. -/
theorem hits_have_grounds_of_read :
    let ops : List (Instant × Op Nat Nat) :=
      [(.origin, .insertFor 1 10 (.ofSeconds 5)), (.origin, .insert 2 20),
        (⟨4_000_000_000, by decide⟩, .get 1), (⟨6_000_000_000, by decide⟩, .sweep)]
    let now : Instant := ⟨8_000_000_000, by decide⟩
    let answers := ((empty none (.ofSeconds 1) (.sliding (.ofSeconds 5)) : Store Nat Nat).run ops).1
    let s := ((empty none (.ofSeconds 1) (.sliding (.ofSeconds 5)) : Store Nat Nat).run ops).2
    Chronological (ops ++ [(now, .get 1)]) ∧ (s.get 1 now).1 = some 10 ∧
      ∃ deadline, Grounds (.ofSeconds 1) (.sliding (.ofSeconds 5)) (history ops answers) 1 10
        deadline ∧ ∀ d ∈ deadline, now < d := by
  intro ops now answers s
  have hchron : Chronological (ops ++ [(now, .get 1)]) := by decide
  have h := hits_have_grounds none (.ofSeconds 1) (.sliding (.ofSeconds 5)) ops 1 10 now
  have hdue := h.1 (by decide)
  exact ⟨hchron, h.2 rfl hchron hdue, hdue⟩

end Store
end TimedCache
