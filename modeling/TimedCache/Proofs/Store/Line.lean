import TimedCache.Proofs.Listing
import TimedCache.Store.Run

/-!
A store as one list. The list has the entries, dead ones included, from the least to the most
recently used: a write or a read of a live entry moves it to the back, and a store that is full of
live entries gives up the one in front.
-/
namespace TimedCache

variable {K V : Type}

namespace Item

variable [CacheKey K]

def listing (items : List (Item K V)) : List (Item K V) :=
  items.mergeSort fun a b => (compare a.key b.key).isLE

theorem perm_listing (items : List (Item K V)) : (listing items).Perm items :=
  List.mergeSort_perm _ _

theorem listing_eq {items sorted : List (Item K V)} (hperm : items.Perm sorted)
    (hsorted : sorted.Pairwise fun a b => compare a.key b.key = .lt) : listing items = sorted := by
  have hkeys : (sorted.map key).Nodup := by
    rw [List.Nodup, List.pairwise_map]
    apply hsorted.imp
    intro a b hlt hkey
    simp [hkey] at hlt
  have hlisting : (listing items).Pairwise fun a b => (compare a.key b.key).isLE := by
    apply List.pairwise_mergeSort
    · intro a b c
      exact Std.TransOrd.isLE_trans
    · intro a b
      cases hab : compare a.key b.key with
      | gt => simp [Std.OrientedCmp.lt_of_gt hab]
      | _ => rfl
  refine (hperm.symm.trans (perm_listing items).symm).symm.eq_of_pairwise ?_ hlisting
    (hsorted.imp fun hlt => by simp [hlt])
  intro a b ha hb hab hba
  have hkey := Std.LawfulEqOrd.eq_of_compare (Std.OrientedCmp.isLE_antisymm hab hba)
  have ha' := hperm.mem_iff.mp ((perm_listing items).mem_iff.mp ha)
  exact List.inj_on_of_nodup_map hkeys ha' hb hkey

end Item

/-- What a store goes by from its first day to its last. -/
structure Rules where
  capacity : Option Nat
  lifetime : Duration
  policy : Policy
deriving DecidableEq

namespace Rules

def isFull (r : Rules) (size : Nat) : Bool :=
  match r.capacity with
  | some n => n ≤ size
  | none => false

theorem isFull_iff {r : Rules} {size : Nat} :
    r.isFull size = true ↔ ∃ n, r.capacity = some n ∧ n ≤ size := by
  cases h : r.capacity <;> simp [isFull, h]

theorem isFull_eq_false_iff {r : Rules} {size : Nat} :
    r.isFull size = false ↔ ∀ n ∈ r.capacity, size < n := by
  cases h : r.capacity <;> simp [isFull, h]

end Rules

structure Line (K V : Type) where
  rules : Rules
  entries : List (K × Entry V) := []
  /-- All counts but the number of entries, which the list tells. -/
  tally : Counters := {}

namespace Line

def living (entries : List (K × Entry V)) (now : Instant) : List (K × Entry V) :=
  entries.filter fun p => !p.2.isDead now

def counters (l : Line K V) : Counters := l.tally.hold l.entries.length

def isFull (l : Line K V) : Bool := l.rules.isFull l.entries.length

theorem exists_first {l : Line K V} (hzero : l.rules.capacity ≠ some 0) (hfull : l.isFull = true) :
    ∃ p rest, l.entries = p :: rest := by
  obtain ⟨n, hn, hle⟩ := Rules.isFull_iff.mp hfull
  apply List.exists_cons_of_length_pos
  have hne : n ≠ 0 := fun h => hzero (h ▸ hn)
  omega

def note (l : Line K V) (f : Counters → Counters) : Line K V := { l with tally := f l.tally }

def buryDead (l : Line K V) (now : Instant) : Nat × Line K V :=
  let n := l.entries.countP fun p => p.2.isDead now
  (n, { l with entries := living l.entries now }.note (·.expire n))

def evict (l : Line K V) : Line K V := { l with entries := l.entries.tail }.note (·.evict)

/-- Makes room for a new key: dead entries go first, and only if there are none a live one. -/
def makeRoom (l : Line K V) (now : Instant) : Admission × Line K V :=
  if l.isFull then
    let (n, l) := l.buryDead now
    if l.isFull then (.evicted l.evict.entries.length, l.evict) else (.reclaimed n, l)
  else (.added, l)

variable [CacheKey K]

def without (entries : List (K × Entry V)) (key : K) : List (K × Entry V) :=
  entries.filter fun p => p.1 ≠ key

theorem keys_without (entries : List (K × Entry V)) (key : K) :
    (without entries key).map Prod.fst = (entries.map Prod.fst).filter (· ≠ key) := by
  rw [without, List.filter_map]
  rfl

theorem without_eq_self {entries : List (K × Entry V)} {key : K}
    (h : key ∉ entries.map Prod.fst) : without entries key = entries := by
  rw [without, List.filter_eq_self]
  intro p hp
  have hne : p.1 ≠ key := fun hkey => h (hkey ▸ List.mem_map_of_mem hp)
  simpa using hne

theorem without_first {p : K × Entry V} {rest : List (K × Entry V)}
    (h : ((p :: rest).map Prod.fst).Nodup) : without (p :: rest) p.1 = rest := by
  rw [List.map_cons, List.nodup_cons] at h
  rw [without, List.filter_cons_of_neg (by simp)]
  exact without_eq_self h.1

def find? (l : Line K V) (key : K) : Option (Entry V) :=
  (l.entries.find? fun p => p.1 = key).map Prod.snd

def place (l : Line K V) (key : K) (e : Entry V) : Line K V :=
  { l with entries := without l.entries key ++ [(key, e)] }

def erase (l : Line K V) (key : K) : Line K V := { l with entries := without l.entries key }

def insertFor (l : Line K V) (key : K) (value : V) (life : Duration) (now : Instant) :
    Admission × Line K V :=
  if l.rules.capacity = some 0 then (.dropped, l.note (·.evict))
  else
    let (admission, l) := if (l.find? key).isSome then (.replaced, l) else l.makeRoom now
    (admission, l.place key (.write value life now))

def get (l : Line K V) (key : K) (now : Instant) : Option V × Line K V :=
  match l.find? key with
  | none => (none, l.note (·.miss))
  | some e =>
    if e.isDead now then (none, (l.erase key).note fun c => (c.expire 1).miss)
    else (some e.value, (l.place key (l.rules.policy.read e now)).note (·.hit))

theorem get_of_none {l : Line K V} {key : K} (h : l.find? key = none) (now : Instant) :
    l.get key now = (none, l.note (·.miss)) := by
  rw [get, h]

theorem get_of_dead {l : Line K V} {key : K} {e : Entry V} {now : Instant}
    (h : l.find? key = some e) (hdead : e.isDead now = true) :
    l.get key now = (none, (l.erase key).note fun c => (c.expire 1).miss) := by
  rw [get, h]
  exact if_pos hdead

theorem get_of_live {l : Line K V} {key : K} {e : Entry V} {now : Instant}
    (h : l.find? key = some e) (hdead : e.isDead now = false) :
    l.get key now = (some e.value, (l.place key (l.rules.policy.read e now)).note (·.hit)) := by
  rw [get, h]
  exact if_neg (by simp [hdead])

def contains (l : Line K V) (key : K) (now : Instant) : Bool :=
  (l.find? key).any fun e => !e.isDead now

def items (l : Line K V) (now : Instant) : List (Item K V) :=
  Item.listing ((living l.entries now).map fun p => ⟨p.1, p.2.value⟩)

def step (l : Line K V) (now : Instant) : Store.Op K V → Store.Answer K V × Line K V
  | .insert key value => (l.insertFor key value l.rules.lifetime now).map .admission id
  | .insertFor key value life => (l.insertFor key value life now).map .admission id
  | .get key => (l.get key now).map .value id
  | .contains key => (.flag (l.contains key now), l)
  | .erase key => (.flag (l.find? key).isSome, l.erase key)
  | .clear => (.count l.entries.length, { l with entries := [] })
  | .sweep => (l.buryDead now).map .count (·.note (·.sweep))
  | .items => (.items (l.items now), l)
  | .liveSize => (.count (living l.entries now).length, l)

def run (l : Line K V) : List (Instant × Store.Op K V) → List (Store.Answer K V) × Line K V
  | [] => ([], l)
  | (now, op) :: rest =>
    let (answer, l) := l.step now op
    let (answers, l) := l.run rest
    (answer :: answers, l)

@[simp] theorem run_nil (l : Line K V) : l.run [] = ([], l) := rfl

@[simp] theorem run_cons (l : Line K V) (now : Instant) (op : Store.Op K V)
    (rest : List (Instant × Store.Op K V)) :
    l.run ((now, op) :: rest) =
      ((l.step now op).1 :: ((l.step now op).2.run rest).1, ((l.step now op).2.run rest).2) := rfl

/-- The five ways of a write, each with what leads to it and what it leaves. -/
inductive Admitted (l : Line K V) (key : K) (e : Entry V) (now : Instant) :
    Admission → Line K V → Prop
  | dropped (hzero : l.rules.capacity = some 0) : Admitted l key e now .dropped (l.note (·.evict))
  | replaced (hzero : l.rules.capacity ≠ some 0) (hkey : (l.find? key).isSome = true) :
      Admitted l key e now .replaced (l.place key e)
  | added (hzero : l.rules.capacity ≠ some 0) (hkey : l.find? key = none)
      (hroom : l.isFull = false) : Admitted l key e now .added (l.place key e)
  | reclaimed (hzero : l.rules.capacity ≠ some 0) (hkey : l.find? key = none)
      (hfull : l.isFull = true) (hroom : (l.buryDead now).2.isFull = false) :
      Admitted l key e now (.reclaimed (l.buryDead now).1) ((l.buryDead now).2.place key e)
  | evicted (hzero : l.rules.capacity ≠ some 0) (hkey : l.find? key = none)
      (hfull : l.isFull = true) (hstill : (l.buryDead now).2.isFull = true) :
      Admitted l key e now (.evicted (l.buryDead now).2.evict.entries.length)
        ((l.buryDead now).2.evict.place key e)

theorem admitted_insertFor (l : Line K V) (key : K) (value : V) (life : Duration) (now : Instant) :
    l.Admitted key (.write value life now) now (l.insertFor key value life now).1
      (l.insertFor key value life now).2 := by
  unfold insertFor
  by_cases hzero : l.rules.capacity = some 0
  · simp only [hzero, if_true]
    exact .dropped hzero
  · simp only [hzero, if_false]
    by_cases hkey : (l.find? key).isSome = true
    · simp only [hkey, if_true]
      exact .replaced hzero hkey
    · have hnone : l.find? key = none := by simpa using hkey
      simp only [hnone, Option.isSome_none, Bool.false_eq_true, if_false, makeRoom]
      cases hfull : l.isFull with
      | false => exact .added hzero hnone hfull
      | true =>
        cases hstill : (l.buryDead now).2.isFull with
        | false => simpa [hstill] using Admitted.reclaimed hzero hnone hfull hstill
        | true => simpa [hstill] using Admitted.evicted hzero hnone hfull hstill

theorem rules_insertFor (l : Line K V) (key : K) (value : V) (life : Duration) (now : Instant) :
    (l.insertFor key value life now).2.rules = l.rules := by
  have h := admitted_insertFor l key value life now
  generalize l.insertFor key value life now = written at h ⊢
  obtain ⟨admission, l'⟩ := written
  cases h <;> rfl

theorem rules_get (l : Line K V) (key : K) (now : Instant) :
    (l.get key now).2.rules = l.rules := by
  cases he : l.find? key with
  | none => rw [get_of_none he]; rfl
  | some e =>
    cases hdead : e.isDead now with
    | true => rw [get_of_dead he hdead]; rfl
    | false => rw [get_of_live he hdead]; rfl

theorem evictions_get (l : Line K V) (key : K) (now : Instant) :
    (l.get key now).2.tally.evictions = l.tally.evictions := by
  cases he : l.find? key with
  | none => rw [get_of_none he]; rfl
  | some e =>
    cases hdead : e.isDead now with
    | true => rw [get_of_dead he hdead]; rfl
    | false => rw [get_of_live he hdead]; rfl

theorem rules_step (l : Line K V) (now : Instant) (op : Store.Op K V) :
    (l.step now op).2.rules = l.rules := by
  cases op with
  | insert key value => exact rules_insertFor l key value _ now
  | insertFor key value life => exact rules_insertFor l key value life now
  | get key => exact rules_get l key now
  | _ => rfl

theorem rules_run (l : Line K V) (ops : List (Instant × Store.Op K V)) :
    (l.run ops).2.rules = l.rules := by
  induction ops generalizing l with
  | nil => rfl
  | cons first rest ih => exact (ih _).trans (rules_step l first.1 first.2)

/-- There is no more than the rules allow. -/
def Fits (l : Line K V) : Prop := ∀ n ∈ l.rules.capacity, l.entries.length ≤ n

theorem length_without_le (entries : List (K × Entry V)) (key : K) :
    (without entries key).length ≤ entries.length := List.length_filter_le _ _

theorem length_without_lt {l : Line K V} {key : K} (hkey : (l.find? key).isSome = true) :
    (without l.entries key).length < l.entries.length := by
  rw [find?, Option.isSome_map, List.find?_isSome] at hkey
  obtain ⟨p, hp, hpk⟩ := hkey
  rw [without, List.length_filter_lt_length_iff_exists]
  exact ⟨p, hp, by simpa using hpk⟩

theorem fits_place {l : Line K V} {key : K} (e : Entry V)
    (h : ∀ n ∈ l.rules.capacity, (without l.entries key).length < n) : (l.place key e).Fits := by
  intro n hn
  have hlt := h n hn
  simp only [place, List.length_append, List.length_singleton]
  omega

theorem fits_insertFor {l : Line K V} (h : l.Fits) (key : K) (value : V) (life : Duration)
    (now : Instant) : (l.insertFor key value life now).2.Fits := by
  have ha := admitted_insertFor l key value life now
  generalize l.insertFor key value life now = written at ha ⊢
  obtain ⟨admission, l'⟩ := written
  cases ha with
  | dropped hzero => exact h
  | replaced hzero hkey =>
    apply fits_place
    intro n hn
    exact Nat.lt_of_lt_of_le (length_without_lt hkey) (h n hn)
  | added hzero hkey hroom =>
    apply fits_place
    intro n hn
    exact Nat.lt_of_le_of_lt (length_without_le _ key) (Rules.isFull_eq_false_iff.mp hroom n hn)
  | reclaimed hzero hkey hfull hroom =>
    apply fits_place
    intro n hn
    exact Nat.lt_of_le_of_lt (length_without_le _ key) (Rules.isFull_eq_false_iff.mp hroom n hn)
  | evicted hzero hkey hfull hstill =>
    apply fits_place
    intro n hn
    have hzero' : (l.buryDead now).2.rules.capacity ≠ some 0 := hzero
    obtain ⟨p, rest, hentries⟩ := exists_first hzero' hstill
    have hliving : (living l.entries now).length ≤ l.entries.length := List.length_filter_le _ _
    have hlength : (living l.entries now).length = rest.length + 1 := congrArg List.length hentries
    have htail : (l.buryDead now).2.evict.entries = rest := congrArg List.tail hentries
    rw [htail]
    have hrest := length_without_le rest key
    have hfits := h n hn
    omega

theorem fits_get {l : Line K V} (h : l.Fits) (key : K) (now : Instant) :
    (l.get key now).2.Fits := by
  cases he : l.find? key with
  | none =>
    rw [get_of_none he]
    exact h
  | some e =>
    cases hdead : e.isDead now with
    | true =>
      rw [get_of_dead he hdead]
      exact fun n hn => Nat.le_trans (length_without_le l.entries key) (h n hn)
    | false =>
      rw [get_of_live he hdead]
      have hkey : (l.find? key).isSome = true := by simp [he]
      exact fits_place _ fun n hn => Nat.lt_of_lt_of_le (length_without_lt hkey) (h n hn)

theorem fits_step {l : Line K V} (h : l.Fits) (now : Instant) (op : Store.Op K V) :
    (l.step now op).2.Fits := by
  cases op with
  | insert key value => exact fits_insertFor h key value _ now
  | insertFor key value life => exact fits_insertFor h key value life now
  | get key => exact fits_get h key now
  | erase key => exact fun n hn => Nat.le_trans (length_without_le l.entries key) (h n hn)
  | clear => exact fun n _ => Nat.zero_le n
  | sweep => exact fun n hn => Nat.le_trans (List.length_filter_le _ l.entries) (h n hn)
  | _ => exact h

end Line
end TimedCache
