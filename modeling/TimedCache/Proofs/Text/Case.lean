import Mathlib.Data.List.Forall2
import TimedCache.Proofs.Text.Numeral

/-!
Texts that differ in case at most. Only the letters of ASCII have two cases, and two texts are the
same but for case just if they are the same in lower case; white space and numerals have no case.
-/
namespace TimedCache.Text

/-- The same character, or a letter of ASCII in its two cases. -/
def SameLetter (c d : Char) : Prop :=
  c = d ∨ c.isAlpha = true ∧ d.isAlpha = true ∧
    (c.toNat = d.toNat + 32 ∨ d.toNat = c.toNat + 32)

/-- The texts are the same, character by character, but for the case of letters. -/
def SameButCase (cs ds : List Char) : Prop := List.Forall₂ SameLetter cs ds

variable {c d : Char} {cs ds : List Char}

theorem isUpper_iff : c.isUpper = true ↔ 65 ≤ c.toNat ∧ c.toNat ≤ 90 := by
  show decide (c.val ≥ 'A'.val ∧ c.val ≤ 'Z'.val) = true ↔ _
  rw [decide_eq_true_iff, ge_iff_le, UInt32.le_iff_toNat_le, UInt32.le_iff_toNat_le]
  rfl

theorem isLower_iff : c.isLower = true ↔ 97 ≤ c.toNat ∧ c.toNat ≤ 122 := by
  show (decide (c.val ≥ 'a'.val) && decide (c.val ≤ 'z'.val)) = true ↔ _
  rw [Bool.and_eq_true, decide_eq_true_iff, decide_eq_true_iff, ge_iff_le, UInt32.le_iff_toNat_le,
    UInt32.le_iff_toNat_le]
  rfl

theorem isAlpha_iff :
    c.isAlpha = true ↔ 65 ≤ c.toNat ∧ c.toNat ≤ 90 ∨ 97 ≤ c.toNat ∧ c.toNat ≤ 122 := by
  show (c.isUpper || c.isLower) = true ↔ _
  rw [Bool.or_eq_true, isUpper_iff, isLower_iff]

theorem Numeral.Unsigned.not_isAlpha {n : Nat} (h : Numeral.Unsigned cs n) :
    ∀ c ∈ cs, c.isAlpha = false := by
  have hdigit {ds : List Char} (hds : Numeral.Digits ds n) : ∀ c ∈ ds, c.isAlpha = false := by
    intro c hc
    obtain ⟨hlow, hhigh⟩ : 48 ≤ c.toNat ∧ c.toNat ≤ 57 :=
      Char.isDigit_iff_toNat.mp (hds.isDigit c hc)
    rw [← Bool.not_eq_true, isAlpha_iff]
    omega
  cases h with
  | plain hcs => exact hdigit hcs
  | plus hcs => exact List.forall_mem_cons.mpr ⟨by decide, hdigit hcs⟩

theorem toNat_toLower (c : Char) :
    c.toLower.toNat = if 65 ≤ c.toNat ∧ c.toNat ≤ 90 then c.toNat + 32 else c.toNat := by
  have hrange : (c.val ≥ 'A'.val ∧ c.val ≤ 'Z'.val) ↔ 65 ≤ c.toNat ∧ c.toNat ≤ 90 :=
    decide_eq_true_iff.symm.trans isUpper_iff
  by_cases h : 65 ≤ c.toNat ∧ c.toNat ≤ 90
  · have hlower : c.toLower.val = c.val + 32 := congrArg Char.val (dif_pos (hrange.mpr h))
    have hsum : c.val.toNat + 32 < 2 ^ 32 :=
      Nat.lt_of_le_of_lt (Nat.add_le_add_right h.2 32) (by decide)
    rw [if_pos h, ← Char.toNat_val, hlower, UInt32.toNat_add]
    exact Nat.mod_eq_of_lt hsum
  · have hlower : c.toLower = c := dif_neg (mt hrange.mp h)
    rw [if_neg h, hlower]

theorem sameLetter_iff : SameLetter c d ↔ c.toLower = d.toLower := by
  rw [SameLetter, isAlpha_iff, isAlpha_iff, ← Char.toNat_inj, ← Char.toNat_inj, toNat_toLower,
    toNat_toLower]
  split <;> split <;> omega

theorem SameLetter.eq (h : SameLetter c d) (hc : c.isAlpha = false) : c = d := by
  rcases h with rfl | ⟨hletter, -⟩
  · rfl
  · rw [hc] at hletter
    cases hletter

theorem isBlank_toLower (c : Char) : isBlank c.toLower = isBlank c := by
  by_cases h : 65 ≤ c.toNat ∧ c.toNat ≤ 90
  · have hlower := toNat_toLower c
    rw [if_pos h] at hlower
    rw [Numeral.not_isBlank_of_graphic (by omega) (by omega),
      Numeral.not_isBlank_of_graphic (by omega) (by omega)]
  · have hlower := toNat_toLower c
    rw [if_neg h, Char.toNat_inj] at hlower
    rw [hlower]

theorem sameButCase_iff : SameButCase cs ds ↔ cs.map Char.toLower = ds.map Char.toLower := by
  have hsame : SameLetter = fun c d => c.toLower = d.toLower :=
    funext fun c => funext fun d => propext sameLetter_iff
  rw [← List.forall₂_eq_eq_eq, List.forall₂_map_left_iff, List.forall₂_map_right_iff, SameButCase,
    hsame]

theorem SameButCase.eq (h : SameButCase cs ds) (hcs : ∀ c ∈ cs, c.isAlpha = false) : cs = ds := by
  induction h with
  | nil => rfl
  | cons hletter hrest ih =>
    rw [List.forall_mem_cons] at hcs
    rw [hletter.eq hcs.1, ih hcs.2]

theorem trim_map_toLower (cs : List Char) :
    trim (cs.map Char.toLower) = (trim cs).map Char.toLower := by
  have hblank : isBlank ∘ Char.toLower = isBlank := funext isBlank_toLower
  simp only [trim, List.dropWhile_map, ← List.map_reverse, hblank]

theorem SameButCase.trim (h : SameButCase cs ds) : SameButCase (trim cs) (trim ds) := by
  rw [sameButCase_iff] at h ⊢
  rw [← trim_map_toLower, ← trim_map_toLower, h]

end TimedCache.Text
