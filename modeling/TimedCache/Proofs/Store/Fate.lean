import TimedCache.Proofs.Store.Readers

/-!
Where the entries of a list come from, and where they go. An entry that is there after an operation
was written or read by it, or was there before; and without a bound an entry that is neither over
nor meant to go is still there.
-/
namespace TimedCache

variable {K V : Type}

theorem Entry.isDead_eq_false_iff {e : Entry V} {now : Instant} :
    e.isDead now = false ↔ ∀ deadline ∈ e.deadline, now < deadline := by
  rw [← Bool.not_eq_true, Entry.isDead_iff]
  simp [Instant.le_iff, Instant.lt_iff]

theorem Line.mem_buryDead_iff {l : Line K V} {now : Instant} {p : K × Entry V} :
    p ∈ (l.buryDead now).2.entries ↔ p ∈ l.entries ∧ p.2.isDead now = false := by
  simp [Line.buryDead, Line.living, Line.note]

variable [CacheKey K]

namespace Store.Op

/-- What an operation writes under a key, with its life, if it writes under that key. -/
def written? (op : Op K V) (lifetime : Duration) (key : K) : Option (V × Duration) :=
  match op with
  | .insert k value => if k = key then some (value, lifetime) else none
  | .insertFor k value life => if k = key then some (value, life) else none
  | _ => none

/-- Whether an operation is there to take the key out. -/
def removes (op : Op K V) (key : K) : Bool :=
  match op with
  | .erase k => k = key
  | .clear => true
  | _ => false

end Store.Op

namespace Line

variable {l : Line K V} {key : K} {now : Instant} {p : K × Entry V}

theorem mem_of_find? {e : Entry V} (h : l.find? key = some e) : (key, e) ∈ l.entries := by
  obtain ⟨q, hq, rfl⟩ := Option.map_eq_some_iff.mp h
  have hkey : q.1 = key := by simpa using List.find?_some hq
  exact hkey ▸ List.mem_of_find?_eq_some hq

theorem ne_of_find?_eq_none (h : l.find? key = none) (hp : p ∈ l.entries) : p.1 ≠ key := by
  have hfind := List.find?_eq_none.mp (Option.map_eq_none_iff.mp h) p hp
  simpa using hfind

theorem not_mem_keys_of_find?_eq_none (h : l.find? key = none) :
    key ∉ l.entries.map Prod.fst := by
  intro hkey
  obtain ⟨p, hp, rfl⟩ := List.mem_map.mp hkey
  exact ne_of_find?_eq_none h hp rfl

theorem find?_eq_some_iff (h : l.Distinct) {e : Entry V} :
    l.find? key = some e ↔ (key, e) ∈ l.entries := by
  refine ⟨mem_of_find?, ?_⟩
  intro hmem
  cases hfind : l.find? key with
  | none => exact absurd rfl (ne_of_find?_eq_none hfind hmem)
  | some e' =>
    have hpair := List.inj_on_of_nodup_map h (mem_of_find? hfind) hmem rfl
    rw [(Prod.mk.inj hpair).2]

theorem mem_place_iff {e : Entry V} :
    p ∈ (l.place key e).entries ↔ (p ∈ l.entries ∧ p.1 ≠ key) ∨ p = (key, e) := by
  simp [place, without]

theorem mem_erase_iff : p ∈ (l.erase key).entries ↔ p ∈ l.entries ∧ p.1 ≠ key := by
  simp [erase, without]

theorem get_eq_some_iff {value : V} :
    (l.get key now).1 = some value ↔
      ∃ e, l.find? key = some e ∧ e.isDead now = false ∧ e.value = value := by
  cases hfind : l.find? key with
  | none => simp [get_of_none hfind]
  | some e =>
    cases hdead : e.isDead now with
    | true => simp [get_of_dead hfind hdead, hdead]
    | false => simp [get_of_live hfind hdead, hdead]

theorem mem_of_mem_insertFor {value : V} {life : Duration} (hfits : l.Fits)
    (h : p ∈ (l.insertFor key value life now).2.entries) :
    (p ∈ l.entries ∧ p.1 ≠ key) ∨ p = (key, .write value life now) := by
  have ha := admitted_insertFor l key value life now
  generalize l.insertFor key value life now = written at ha h
  obtain ⟨admission, l'⟩ := written
  cases ha with
  | dropped hzero =>
    -- A list without room has no entries, so the write that was dropped left nothing.
    have hnil : l.entries = [] := List.eq_nil_of_length_eq_zero (Nat.le_zero.mp (hfits 0 hzero))
    exact absurd (hnil ▸ h : p ∈ []) List.not_mem_nil
  | replaced | added => exact mem_place_iff.mp h
  | reclaimed hzero hkey hfull hroom =>
    apply (mem_place_iff.mp h).imp_left
    exact fun hp => ⟨(mem_buryDead_iff.mp hp.1).1, hp.2⟩
  | evicted hzero hkey hfull hstill =>
    apply (mem_place_iff.mp h).imp_left
    exact fun hp => ⟨(mem_buryDead_iff.mp (List.mem_of_mem_tail hp.1)).1, hp.2⟩

theorem mem_of_mem_get (h : p ∈ (l.get key now).2.entries) :
    (p ∈ l.entries ∧ p.1 ≠ key) ∨ ∃ e, l.find? key = some e ∧ e.isDead now = false ∧
      p = (key, l.rules.policy.read e now) := by
  cases hfind : l.find? key with
  | none =>
    rw [get_of_none hfind] at h
    exact .inl ⟨h, ne_of_find?_eq_none hfind h⟩
  | some e =>
    cases hdead : e.isDead now with
    | true =>
      rw [get_of_dead hfind hdead] at h
      exact .inl (mem_erase_iff.mp h)
    | false =>
      rw [get_of_live hfind hdead] at h
      exact (mem_place_iff.mp h).imp_right fun hp => ⟨e, rfl, hdead, hp⟩

/-- What an operation has made of an entry that is there after it. -/
inductive Fate (l : Line K V) (now : Instant) (op : Store.Op K V) (key : K) : Entry V → Prop
  | written {value : V} {life : Duration}
      (hwrite : op.written? l.rules.lifetime key = some (value, life)) :
      Fate l now op key (.write value life now)
  | read {e : Entry V} (hop : op = .get key) (hfind : l.find? key = some e)
      (hlive : e.isDead now = false) : Fate l now op key (l.rules.policy.read e now)
  | kept {e : Entry V} (hmem : (key, e) ∈ l.entries)
      (hwrite : op.written? l.rules.lifetime key = none) (hremoves : op.removes key = false)
      (hread : op ≠ .get key) (hsweep : op = .sweep → e.isDead now = false) : Fate l now op key e

theorem fate_of_mem (hfits : l.Fits) {op : Store.Op K V} {e : Entry V}
    (h : (key, e) ∈ (l.step now op).2.entries) : l.Fate now op key e := by
  cases op with
  | insert k value | insertFor k value life =>
    rcases mem_of_mem_insertFor hfits h with ⟨hmem, hne⟩ | heq
    · exact .kept hmem (if_neg (Ne.symm hne)) rfl (by simp) (by simp)
    · obtain ⟨rfl, rfl⟩ := Prod.mk.inj heq
      exact .written (if_pos rfl)
  | get k =>
    rcases mem_of_mem_get h with ⟨hmem, hne⟩ | ⟨e, hfind, hlive, heq⟩
    · exact .kept hmem rfl rfl (by simpa using Ne.symm hne) (by simp)
    · obtain ⟨rfl, rfl⟩ := Prod.mk.inj heq
      exact .read rfl hfind hlive
  | erase k =>
    obtain ⟨hmem, hne⟩ := mem_erase_iff.mp h
    exact .kept hmem rfl (decide_eq_false (Ne.symm hne)) (by simp) (by simp)
  | clear => exact absurd h List.not_mem_nil
  | sweep =>
    obtain ⟨hmem, hlive⟩ := mem_buryDead_iff.mp h
    exact .kept hmem rfl rfl (by simp) fun _ => hlive
  | contains | items | liveSize => exact .kept h rfl rfl (by simp) (by simp)

theorem insertFor_of_unbounded (hcapacity : l.rules.capacity = none) (value : V) (life : Duration) :
    (l.insertFor key value life now).2 = l.place key (.write value life now) := by
  have hroom : l.isFull = false := Rules.isFull_eq_false_iff.mpr (by simp [hcapacity])
  have ha := admitted_insertFor l key value life now
  generalize l.insertFor key value life now = written at ha ⊢
  obtain ⟨admission, l'⟩ := written
  cases ha with
  | dropped hzero => simp [hcapacity] at hzero
  | replaced | added => rfl
  | reclaimed hzero hkey hfull | evicted hzero hkey hfull => simp [hroom] at hfull

theorem mem_insertFor_of_ne (hcapacity : l.rules.capacity = none) (h : p ∈ l.entries)
    (hne : p.1 ≠ key) (value : V) (life : Duration) :
    p ∈ (l.insertFor key value life now).2.entries := by
  rw [insertFor_of_unbounded hcapacity]
  exact mem_place_iff.mpr (.inl ⟨h, hne⟩)

theorem mem_insertFor_self (hcapacity : l.rules.capacity = none) (value : V) (life : Duration) :
    (key, .write value life now) ∈ (l.insertFor key value life now).2.entries := by
  rw [insertFor_of_unbounded hcapacity]
  exact mem_place_iff.mpr (.inr rfl)

theorem mem_get_self {e : Entry V} (hfind : l.find? key = some e) (hlive : e.isDead now = false) :
    (key, l.rules.policy.read e now) ∈ (l.get key now).2.entries := by
  rw [get_of_live hfind hlive]
  exact mem_place_iff.mpr (.inr rfl)

theorem mem_get_of_ne (h : p ∈ l.entries) (hne : p.1 ≠ key) : p ∈ (l.get key now).2.entries := by
  cases hfind : l.find? key with
  | none =>
    rw [get_of_none hfind]
    exact h
  | some e =>
    cases hdead : e.isDead now with
    | true =>
      rw [get_of_dead hfind hdead]
      exact mem_erase_iff.mpr ⟨h, hne⟩
    | false =>
      rw [get_of_live hfind hdead]
      exact mem_place_iff.mpr (.inl ⟨h, hne⟩)

theorem mem_step (hcapacity : l.rules.capacity = none) {op : Store.Op K V} {e : Entry V}
    (h : (key, e) ∈ l.entries) (hwrite : op.written? l.rules.lifetime key = none)
    (hremoves : op.removes key = false) (hread : op ≠ .get key)
    (hsweep : op = .sweep → e.isDead now = false) : (key, e) ∈ (l.step now op).2.entries := by
  cases op with
  | insert k value | insertFor k value life =>
    have hne : key ≠ k := by simpa [Store.Op.written?, eq_comm] using hwrite
    exact mem_insertFor_of_ne hcapacity h hne value _
  | get k => exact mem_get_of_ne h (by simpa [eq_comm] using hread)
  | erase k =>
    have hne : key ≠ k := by simpa [Store.Op.removes, eq_comm] using hremoves
    exact mem_erase_iff.mpr ⟨h, hne⟩
  | clear => simp [Store.Op.removes] at hremoves
  | sweep => exact mem_buryDead_iff.mpr ⟨h, hsweep rfl⟩
  | contains | items | liveSize => exact h

theorem mem_step_of_written (hcapacity : l.rules.capacity = none) {op : Store.Op K V} {value : V}
    {life : Duration} (h : op.written? l.rules.lifetime key = some (value, life)) :
    (key, .write value life now) ∈ (l.step now op).2.entries := by
  cases op with
  | insert k v | insertFor k v d =>
    obtain ⟨rfl, hpair⟩ := Option.ite_none_right_eq_some.mp h
    obtain ⟨rfl, rfl⟩ := Prod.mk.inj (Option.some.inj hpair)
    exact mem_insertFor_self hcapacity v _
  | _ => cases h

end Line
end TimedCache
