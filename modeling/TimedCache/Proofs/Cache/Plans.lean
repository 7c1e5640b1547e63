import TimedCache.Proofs.Cache.Sweeps

/-!
Plans and the ways in which adjustments come to them. They may be made to the settings before there
is a plan, be given to the plan one by one or many at a time, or be handed over with the order for a
cache; it is always the last word on a setting that stands, and no adjustment decides whether a
cache can be built.
-/
namespace TimedCache

variable {K V : Type}

namespace Adjustment

def capacity? : Adjustment → Option Nat
  | capacity n => some n
  | readWindow _ => none

def readWindow? : Adjustment → Option Duration
  | capacity _ => none
  | readWindow window => some window

/-- The last word of a kind, or `first` if there is none. -/
def lastWord {α : Type} (word? : Adjustment → Option α) (as : List Adjustment) (first : Option α) :
    Option α :=
  (as.filterMap word?).getLast?.or first

theorem lastWord_cons {α : Type} (word? : Adjustment → Option α) (a : Adjustment)
    (as : List Adjustment) (first : Option α) :
    lastWord word? (a :: as) first = lastWord word? as ((word? a).or first) := by
  cases ha : word? a with
  | none => rw [lastWord, List.filterMap_cons_none ha, Option.none_or, lastWord]
  | some word =>
    rw [lastWord, List.filterMap_cons_some ha, List.getLast?_cons, Option.some_or, lastWord]
    cases (as.filterMap word?).getLast? <;> rfl

/-- The same words, in the same order, concern each of the settings. -/
structure SameWords (as bs : List Adjustment) : Prop where
  capacity : as.filterMap capacity? = bs.filterMap capacity?
  readWindow : as.filterMap readWindow? = bs.filterMap readWindow?

end Adjustment

namespace Settings

/-- The settings with the last word on each that can be adjusted. -/
def settle (s : Settings) (as : List Adjustment) : Settings :=
  { s with
    capacity := Adjustment.lastWord Adjustment.capacity? as s.capacity
    readWindow := Adjustment.lastWord Adjustment.readWindow? as s.readWindow }

theorem settle_cons (s : Settings) (a : Adjustment) (as : List Adjustment) :
    s.settle (a :: as) = (s.adjust a).settle as := by
  rw [settle, settle, Adjustment.lastWord_cons, Adjustment.lastWord_cons]
  cases a <;> rfl

theorem adjustAll_eq_settle (s : Settings) (as : List Adjustment) :
    s.adjustAll as = s.settle as := by
  induction as generalizing s with
  | nil => rfl
  | cons a as ih => rw [adjustAll_cons, ih, settle_cons]

theorem settle_congr (s : Settings) {as bs : List Adjustment} (h : Adjustment.SameWords as bs) :
    s.settle as = s.settle bs := by
  rw [settle, settle, Adjustment.lastWord, Adjustment.lastWord, h.capacity, h.readWindow]
  rfl

theorem foldl_adjustAll (s : Settings) (parts : List (List Adjustment)) :
    parts.foldl adjustAll s = s.adjustAll parts.flatten := by
  induction parts generalizing s with
  | nil => rfl
  | cons as parts ih => rw [List.foldl_cons, ih, List.flatten_cons, adjustAll_append]

end Settings

namespace Plan

def Instruction.adjustments : Instruction V → List Adjustment
  | .adjust a => [a]
  | .adjustAll as => as
  | .capacity n => [.capacity n]
  | .readWindow window => [.readWindow window]
  | .emptyValue _ => []

theorem settings_take (p : Plan V) (i : Instruction V) :
    (p.take i).settings = p.settings.adjustAll i.adjustments := by
  cases i <;> rfl

theorem takeAll_eq (p : Plan V) (is : List (Instruction V)) :
    p.takeAll is =
      { p with
        settings := p.settings.adjustAll (is.flatMap Instruction.adjustments)
        emptyValue := (p.takeAll is).emptyValue } := by
  induction is generalizing p with
  | nil => rfl
  | cons i is ih =>
    rw [List.flatMap_cons, Settings.adjustAll_append, ← settings_take]
    exact (ih (p.take i)).trans (by cases i <;> rfl)

/-- A way to bring adjustments to a plan. -/
structure Delivery (V : Type) where
  /-- The adjustments that are made to the settings before there is a plan, many at a time. -/
  before : List (List Adjustment)
  instructions : List (Instruction V)

def Delivery.adjustments (d : Delivery V) : List Adjustment :=
  d.before.flatten ++ d.instructions.flatMap Instruction.adjustments

def deliver (p : Plan V) (d : Delivery V) : Plan V :=
  takeAll { p with settings := d.before.foldl Settings.adjustAll p.settings } d.instructions

theorem deliver_eq (p : Plan V) (d : Delivery V) :
    p.deliver d =
      { p with
        settings := p.settings.settle d.adjustments
        emptyValue := (p.deliver d).emptyValue } := by
  have hsettings : (d.before.foldl Settings.adjustAll p.settings).adjustAll
      (d.instructions.flatMap Instruction.adjustments) = p.settings.settle d.adjustments := by
    rw [Settings.foldl_adjustAll, ← Settings.adjustAll_append, Settings.adjustAll_eq_settle,
      Delivery.adjustments]
  rw [← hsettings]
  exact takeAll_eq _ d.instructions

theorem settings_deliver (p : Plan V) (d : Delivery V) :
    (p.deliver d).settings = p.settings.settle d.adjustments :=
  congrArg settings (deliver_eq p d)

/-- What stands in the way of a cache, if anything does. -/
def check (p : Plan V) (ambient : Bool) : Except SetupError Unit := do
  p.settings.validate
  unless p.hosted || ambient do throw .noRuntime

theorem check_deliver (p : Plan V) (d : Delivery V) (ambient : Bool) :
    (p.deliver d).check ambient = p.check ambient := by
  rw [deliver_eq]
  rfl

variable [CacheKey K]

theorem build_eq_map_check (p : Plan V) (ambient : Bool) :
    p.build ambient =
      (p.check ambient).map fun _ => (Cache.firstEvents p, (Cache.ofPlan p : Cache K V)) := by
  rw [build, check]
  cases p.settings.validate with
  | error e => rfl
  | ok valid => cases p.hosted || ambient <;> rfl

/-- Nothing but the check decides whether there is a cache, and which error there is if there is
none. -/
theorem outcome_build (p : Plan V) (ambient : Bool) :
    (p.build ambient : Except SetupError (List Event × Cache K V)).map (fun _ => ()) =
      p.check ambient := by
  rw [build_eq_map_check]
  cases p.check ambient <;> rfl

end Plan

namespace Cache

variable [CacheKey K]

/-- The cache has these settings, and its store does what they say. -/
structure GoesBy (c : Cache K V) (s : Settings) : Prop where
  settings : c.settings = s
  rules : c.store.rules = ⟨s.capacity, s.lifetime, .ofWindow s.readWindow⟩

theorem goesBy_of_build {p : Plan V} {ambient : Bool} {events : List Event} {c : Cache K V}
    (h : p.build ambient = .ok (events, c)) : c.GoesBy p.settings := by
  rw [eq_of_build h]
  exact ⟨rfl, (Store.listed_empty p.settings.capacity p.settings.lifetime
    (.ofWindow p.settings.readWindow)).rules⟩

variable [Inhabited V] {sweepEvery lifetime : Duration} {unit : TimeUnit} {as : List Adjustment}
  {ambient : Bool}

theorem create_eq (sweepEvery lifetime : Duration) (unit : TimeUnit) (as : List Adjustment)
    (ambient : Bool) :
    (create sweepEvery lifetime unit as ambient : Except Fault (List Event × Cache K V)) =
      ((Plan.ofSettings (Settings.settle { sweepEvery, lifetime, unit } as)).build
        ambient).mapError .notCreated := by
  rw [← Settings.adjustAll_eq_settle]
  rfl

theorem goesBy_of_create {events : List Event} {c : Cache K V}
    (h : create sweepEvery lifetime unit as ambient = .ok (events, c)) :
    c.GoesBy (Settings.settle { sweepEvery, lifetime, unit } as) := by
  rw [create_eq] at h
  generalize Settings.settle { sweepEvery, lifetime, unit } as = s at h ⊢
  cases hbuild : (Plan.ofSettings s).build (K := K) (V := V) ambient with
  | error e =>
    rw [hbuild] at h
    cases h
  | ok built =>
    rw [hbuild] at h
    cases h
    exact goesBy_of_build hbuild

theorem outcome_create :
    (create sweepEvery lifetime unit as ambient : Except Fault (List Event × Cache K V)).map
        (fun _ => ()) =
      ((Plan.ofSettings { sweepEvery, lifetime, unit } : Plan V).check ambient).mapError
        .notCreated := by
  let fresh : Settings := { sweepEvery, lifetime, unit }
  let plan : Plan V := .ofSettings (fresh.settle as)
  have hcheck : plan.check ambient = (Plan.ofSettings fresh : Plan V).check ambient := rfl
  rw [create_eq, ← hcheck, ← plan.outcome_build (K := K)]
  cases plan.build (K := K) ambient <;> rfl

end Cache

namespace Plan

variable [CacheKey K]

/-- However adjustments are delivered, the last word on a setting stands, and the other settings are
those of the start; what keeps a cache from being built is there without them. -/
theorem last_words_stand [Inhabited V] (start : Plan V) (ambient : Bool) :
    (∀ d : Delivery V,
      let last := start.settings.settle d.adjustments
      let built : Except SetupError (List Event × Cache K V) := (start.deliver d).build ambient
      start.deliver d =
          { start with settings := last, emptyValue := (start.deliver d).emptyValue } ∧
        (∀ events c, built = .ok (events, c) → c.GoesBy last) ∧
        built.map (fun _ => ()) = start.check ambient) ∧
      (∀ d d' : Delivery V, Adjustment.SameWords d.adjustments d'.adjustments →
        (start.deliver d).settings = (start.deliver d').settings) ∧
      ∀ sweepEvery lifetime unit (as : List Adjustment),
        let fresh : Settings := { sweepEvery, lifetime, unit }
        let made (as : List Adjustment) : Except Fault (List Event × Cache K V) :=
          Cache.create sweepEvery lifetime unit as ambient
        (∀ events c, made as = .ok (events, c) → c.GoesBy (fresh.settle as)) ∧
          (made as).map (fun _ => ()) =
            ((ofSettings fresh : Plan V).check ambient).mapError .notCreated ∧
          ∀ bs, Adjustment.SameWords as bs → made as = made bs := by
  refine ⟨?_, ?_, ?_⟩
  · intro d last built
    refine ⟨deliver_eq start d, ?_, ?_⟩
    · intro events c hbuilt
      have hgoesBy : c.GoesBy (start.deliver d).settings := Cache.goesBy_of_build hbuilt
      rw [settings_deliver] at hgoesBy
      exact hgoesBy
    · exact (outcome_build _ ambient).trans (check_deliver start d ambient)
  · intro d d' h
    rw [settings_deliver, settings_deliver, start.settings.settle_congr h]
  · intro sweepEvery lifetime unit as fresh made
    refine ⟨fun events c => Cache.goesBy_of_create, Cache.outcome_create, ?_⟩
    intro bs h
    have hsettle : fresh.settle as = fresh.settle bs := fresh.settle_congr h
    show Cache.create sweepEvery lifetime unit as ambient =
      Cache.create sweepEvery lifetime unit bs ambient
    rw [Cache.create_eq, Cache.create_eq, hsettle]

/-- The same words in another order, some to the settings and the rest to the plan, or all of them
to the plan. -/
theorem last_words_stand_of_two_ways :
    let start : Plan Nat :=
      { settings := ⟨.ofSeconds 1, .ofSeconds 300, .millis, some 4, none⟩, emptyValue := 0 }
    let d : Delivery Nat :=
      { before := [[.capacity 10], [], [.readWindow (.ofSeconds 5), .capacity 9]]
        instructions := [.emptyValue 7, .capacity 3, .adjustAll [.readWindow .zero],
          .adjust (.capacity 0)] }
    let d' : Delivery Nat :=
      { before := []
        instructions := [.adjustAll [.readWindow (.ofSeconds 5), .capacity 10, .capacity 9],
          .readWindow .zero, .adjustAll [.capacity 3, .capacity 0]] }
    Adjustment.SameWords d.adjustments d'.adjustments ∧
      (start.deliver d).settings = (start.deliver d').settings ∧
      start.deliver d =
        { start with
          settings := ⟨.ofSeconds 1, .ofSeconds 300, .millis, some 0, some .zero⟩
          emptyValue := 7 } ∧
      ∃ events, ∃ c : Cache Nat Nat, (start.deliver d).build true = .ok (events, c) ∧
        c.GoesBy (start.deliver d).settings := by
  intro start d d'
  obtain ⟨hways, hsame, -⟩ := last_words_stand (K := Nat) start true
  obtain ⟨hsettings, hgoesBy, -⟩ := hways d
  have hwords : Adjustment.SameWords d.adjustments d'.adjustments := ⟨rfl, rfl⟩
  obtain ⟨events, hbuild⟩ : ∃ events, (start.deliver d).build true =
      .ok (events, (Cache.ofPlan (start.deliver d) : Cache Nat Nat)) :=
    Cache.build_eq_ok (by decide) rfl
  refine ⟨hwords, hsame d d' hwords, by decide, events, _, hbuild, ?_⟩
  rw [hsettings]
  exact hgoesBy events _ hbuild

end Plan
end TimedCache
