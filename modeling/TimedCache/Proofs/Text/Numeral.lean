import Mathlib.Data.List.DropRight
import TimedCache.Text.Quoted

/-!
Which texts are numerals. A grammar says it apart from any reader: digits one after the other, of
which each makes the number before it ten times as great, and a sign before them or none. The
readers accept just what the grammar derives, and give its number; and to remove white space leaves
what stands between two stretches of it.
-/
namespace TimedCache.Text

def Blank (cs : List Char) : Prop := ∀ c ∈ cs, isBlank c = true

instance (cs : List Char) : Decidable (Blank cs) :=
  decidable_of_iff (cs.all isBlank = true) List.all_eq_true

/-- The text has white space at neither end. -/
structure Bare (cs : List Char) : Prop where
  head : ∀ c ∈ cs.head?, isBlank c = false
  last : ∀ c ∈ cs.getLast?, isBlank c = false

variable {before cs after text : List Char}

theorem Bare.of_forall (h : ∀ c ∈ cs, isBlank c = false) : Bare cs where
  head c hc := h c (List.mem_of_mem_head? hc)
  last c hc := h c (List.mem_of_mem_getLast? hc)

theorem dropWhile_isBlank (hbefore : Blank before) (h : ∀ c ∈ cs.head?, isBlank c = false) :
    (before ++ cs).dropWhile isBlank = cs := by
  rw [List.dropWhile_append_of_pos hbefore]
  cases cs with
  | nil => rfl
  | cons c cs => exact List.dropWhile_cons_of_neg (by simp [h c rfl])

theorem trim_eq_rdropWhile (cs : List Char) :
    trim cs = (cs.dropWhile isBlank).rdropWhile isBlank := rfl

theorem trim_append (hbefore : Blank before) (hcs : Bare cs) (hafter : Blank after) :
    trim (before ++ cs ++ after) = cs := by
  cases cs with
  | nil =>
    have hblank : Blank (before ++ after) := List.forall_mem_append.mpr ⟨hbefore, hafter⟩
    have hnone : (before ++ after).dropWhile isBlank = [] := List.dropWhile_eq_nil_iff.mpr hblank
    rw [List.append_nil, trim_eq_rdropWhile, hnone]
    rfl
  | cons c cs =>
    have hfront : (before ++ (c :: cs ++ after)).dropWhile isBlank = c :: cs ++ after :=
      dropWhile_isBlank hbefore hcs.head
    have hback : (after.reverse ++ (c :: cs).reverse).dropWhile isBlank = (c :: cs).reverse := by
      apply dropWhile_isBlank
      · exact fun c hc => hafter c (List.mem_reverse.mp hc)
      · rw [List.head?_reverse]
        exact hcs.last
    rw [List.append_assoc, trim, hfront, List.reverse_append, hback, List.reverse_reverse]

theorem bare_trim (cs : List Char) : Bare (trim cs) where
  head c hc := by
    obtain ⟨after, hafter⟩ : trim cs <+: cs.dropWhile isBlank := List.rdropWhile_prefix isBlank _
    have hfirst := List.head?_dropWhile_not isBlank cs
    rw [← hafter, List.head?_append, Option.mem_def.mp hc] at hfirst
    exact hfirst
  last c hc := by
    have hlast := List.head?_dropWhile_not isBlank (cs.dropWhile isBlank).reverse
    rw [trim, List.getLast?_reverse] at hc
    rw [Option.mem_def.mp hc] at hlast
    exact hlast

/-- To remove white space leaves what stands between two stretches of it. -/
theorem trim_eq_iff : trim text = cs ↔
    Bare cs ∧ ∃ before after, Blank before ∧ Blank after ∧ text = before ++ cs ++ after := by
  constructor
  · rintro rfl
    refine ⟨bare_trim text, text.takeWhile isBlank, (text.dropWhile isBlank).rtakeWhile isBlank,
      fun c hc => List.mem_takeWhile_imp hc, fun c hc => List.mem_rtakeWhile_imp hc, ?_⟩
    rw [List.append_assoc, trim_eq_rdropWhile, List.rdropWhile_append_rtakeWhile,
      List.takeWhile_append_dropWhile]
  · rintro ⟨hcs, before, after, hbefore, hafter, rfl⟩
    exact trim_append hbefore hcs hafter

theorem trim_of_bare (h : Bare cs) : trim cs = cs :=
  trim_eq_iff.mpr ⟨h, [], [], List.forall_mem_nil _, List.forall_mem_nil _, by simp⟩

theorem trim_of_blank_around (hbefore : Blank before) (hafter : Blank after) :
    trim (before ++ cs ++ after) = trim cs := by
  obtain ⟨hbare, before', after', hbefore', hafter', hcs⟩ := trim_eq_iff.mp (rfl : trim cs = _)
  refine trim_eq_iff.mpr ⟨hbare, before ++ before', after' ++ after,
    List.forall_mem_append.mpr ⟨hbefore, hbefore'⟩,
    List.forall_mem_append.mpr ⟨hafter', hafter⟩, ?_⟩
  conv_lhs => rw [hcs]
  simp only [List.append_assoc]

end TimedCache.Text

namespace TimedCache.Text.Numeral

variable {cs : List Char} {c : Char} {n : Nat}

/-- The digits of a number, with any zeros before them. -/
inductive Digits : List Char → Nat → Prop
  | one {d : Nat} (hd : d < 10) : Digits [d.digitChar] d
  | more {cs : List Char} {n d : Nat} (hcs : Digits cs n) (hd : d < 10) :
    Digits (cs ++ [d.digitChar]) (10 * n + d)

inductive Unsigned : List Char → Nat → Prop
  | plain {cs : List Char} {n : Nat} (hcs : Digits cs n) : Unsigned cs n
  | plus {cs : List Char} {n : Nat} (hcs : Digits cs n) : Unsigned ('+' :: cs) n

inductive Signed : List Char → Int → Prop
  | plain {cs : List Char} {n : Nat} (hcs : Digits cs n) : Signed cs n
  | plus {cs : List Char} {n : Nat} (hcs : Digits cs n) : Signed ('+' :: cs) n
  | minus {cs : List Char} {n : Nat} (hcs : Digits cs n) : Signed ('-' :: cs) (-n)

theorem Digits.ne_nil (h : Digits cs n) : cs ≠ [] := by
  cases h <;> simp

theorem Digits.isDigit (h : Digits cs n) : ∀ c ∈ cs, c.isDigit = true := by
  induction h with
  | one hd => simp [hd]
  | more hcs hd ih =>
    refine List.forall_mem_append.mpr ⟨ih, ?_⟩
    simp [hd]

theorem exists_digitChar (h : c.isDigit = true) :
    ∃ d < 10, c = d.digitChar ∧ c.toNat - '0'.toNat = d := by
  obtain ⟨hlow, hhigh⟩ : 48 ≤ c.toNat ∧ c.toNat ≤ 57 := Char.isDigit_iff_toNat.mp h
  have hd : c.toNat - 48 < 10 := by omega
  refine ⟨c.toNat - 48, hd, Char.toNat_inj.mp ?_, rfl⟩
  rw [Nat.toNat_digitChar_of_lt_ten hd]
  omega

theorem ofDigits_concat (cs : List Char) (c : Char) :
    ofDigits (cs ++ [c]) = 10 * ofDigits cs + (c.toNat - '0'.toNat) := by
  simp [ofDigits]

theorem isDigits_iff : isDigits cs = true ↔ cs ≠ [] ∧ ∀ c ∈ cs, c.isDigit = true := by
  simp [isDigits]

theorem Digits.ofDigits_eq (h : Digits cs n) : ofDigits cs = n := by
  induction h with
  | one hd => simp [ofDigits, Nat.toNat_digitChar_sub_48_of_lt_ten hd]
  | more hcs hd ih =>
    rw [ofDigits_concat, ih]
    simp [Nat.toNat_digitChar_sub_48_of_lt_ten hd]

theorem digits_ofDigits (hne : cs ≠ []) (h : ∀ c ∈ cs, c.isDigit = true) :
    Digits cs (ofDigits cs) := by
  -- By the last digit, since each digit counts on top of all those before it.
  induction cs using List.reverseRecOn with
  | nil => exact absurd rfl hne
  | append_singleton cs c ih =>
    obtain ⟨d, hd, rfl, hvalue⟩ := exists_digitChar (h c (by simp))
    rw [ofDigits_concat, hvalue]
    rcases eq_or_ne cs [] with rfl | hcs
    · simpa [ofDigits] using Digits.one hd
    · exact .more (ih hcs fun c hc => h c (by simp [hc])) hd

theorem digits?_eq_some_iff : digits? cs = some n ↔ Digits cs n := by
  constructor
  · intro h
    obtain ⟨hdigits, hvalue⟩ := Option.ite_none_right_eq_some.mp h
    obtain ⟨hne, hall⟩ := isDigits_iff.mp hdigits
    rw [← Option.some.inj hvalue]
    exact digits_ofDigits hne hall
  · intro h
    rw [digits?, if_pos (isDigits_iff.mpr ⟨h.ne_nil, h.isDigit⟩), h.ofDigits_eq]

theorem Digits.exists_cons (h : Digits cs n) : ∃ c rest, cs = c :: rest ∧ c ≠ '+' ∧ c ≠ '-' := by
  cases cs with
  | nil => exact absurd rfl h.ne_nil
  | cons c rest =>
    have hdigit : c.isDigit = true := h.isDigit c List.mem_cons_self
    refine ⟨c, rest, rfl, ?_, ?_⟩
    · rintro rfl
      exact absurd hdigit (by decide)
    · rintro rfl
      exact absurd hdigit (by decide)

theorem unsigned?_eq_some_iff : unsigned? cs = some n ↔ Unsigned cs n := by
  constructor
  · intro h
    unfold unsigned? at h
    split at h
    · exact .plus (digits?_eq_some_iff.mp h)
    · exact .plain (digits?_eq_some_iff.mp h)
  · rintro (h | h)
    · obtain ⟨c, rest, rfl, hplus, -⟩ := h.exists_cons
      simp [unsigned?, hplus, digits?_eq_some_iff.mpr h]
    · exact digits?_eq_some_iff.mpr h

/-- The reader accepts the numerals of the grammar, each for its number. -/
theorem signed?_eq_some_iff {n : Int} : signed? cs = some n ↔ Signed cs n := by
  constructor
  · intro h
    unfold signed? at h
    split at h
    · obtain ⟨m, hm, rfl⟩ := Option.map_eq_some_iff.mp h
      obtain ⟨k, hk, hcast⟩ := Option.bind_eq_some_iff.mp hm
      rw [← Option.some.inj hcast]
      exact .minus (digits?_eq_some_iff.mp hk)
    · obtain ⟨k, hk, rfl⟩ := Option.map_eq_some_iff.mp h
      cases unsigned?_eq_some_iff.mp hk with
      | plain hk => exact .plain hk
      | plus hk => exact .plus hk
  · rintro (h | h | h)
    · obtain ⟨c, rest, rfl, -, hminus⟩ := h.exists_cons
      simp [signed?, hminus, unsigned?_eq_some_iff.mpr (.plain h)]
    · simp [signed?, unsigned?_eq_some_iff.mpr (.plus h)]
    · simp [signed?, digits?_eq_some_iff.mpr h]

theorem not_isBlank_of_graphic (hlo : 0x21 ≤ c.toNat) (hhi : c.toNat < 0x7f) :
    isBlank c = false :=
  not_inRanges (by decide) hlo hhi

theorem Digits.not_isBlank (h : Digits cs n) : ∀ c ∈ cs, isBlank c = false := by
  intro c hc
  obtain ⟨hlow, hhigh⟩ : 48 ≤ c.toNat ∧ c.toNat ≤ 57 := Char.isDigit_iff_toNat.mp (h.isDigit c hc)
  exact not_isBlank_of_graphic (by omega) (by omega)

theorem Digits.bare (h : Digits cs n) : Bare cs := .of_forall h.not_isBlank

theorem Signed.bare {n : Int} (h : Signed cs n) : Bare cs := by
  apply Bare.of_forall
  cases h with
  | plain h => exact h.not_isBlank
  | plus h | minus h => exact List.forall_mem_cons.mpr ⟨by decide, h.not_isBlank⟩

theorem decimal_concat {d : Nat} (hn : 0 < n) (hd : d < 10) :
    decimal (10 * n + d) = decimal n ++ [d.digitChar] := by
  rw [decimal, ← Nat.toDigits_append_toDigits (by decide) hn hd, Nat.toDigits_of_lt_base hd]
  rfl

theorem digits_decimal (n : Nat) : Digits (decimal n) n := by
  induction n using Nat.strongRecOn with
  | ind n ih =>
    rcases Nat.lt_or_ge n 10 with hn | hn
    · rw [decimal, Nat.toDigits_of_lt_base hn]
      exact .one hn
    · have hsplit : 10 * (n / 10) + n % 10 = n := Nat.div_add_mod n 10
      have hdigit : n % 10 < 10 := Nat.mod_lt n (by decide)
      have hmore := Digits.more (ih (n / 10) (by omega)) hdigit
      rw [← decimal_concat (by omega) hdigit, hsplit] at hmore
      exact hmore

theorem Digits.zero_cons (h : Digits cs n) : Digits ('0' :: cs) n := by
  induction h with
  | one hd =>
    have hmore := Digits.more (.one (by decide : 0 < 10)) hd
    rw [Nat.mul_zero, Nat.zero_add] at hmore
    exact hmore
  | more hcs hd ih => exact .more ih hd

/-- The numerals for a number are the shortest one, and that with any number of zeros before it. -/
theorem digits_iff : Digits cs n ↔ ∃ zeros, cs = List.replicate zeros '0' ++ decimal n := by
  constructor
  · intro h
    induction h with
    | one hd => exact ⟨0, (Nat.toDigits_of_lt_base hd).symm⟩
    | @more cs n d hcs hd ih =>
      obtain ⟨zeros, rfl⟩ := ih
      rcases Nat.eq_zero_or_pos n with rfl | hn
      · -- The digits so far are all zeros, and the shortest numeral has none of them.
        refine ⟨zeros + 1, ?_⟩
        rw [Nat.mul_zero, Nat.zero_add, decimal, decimal, Nat.toDigits_of_lt_base hd,
          List.replicate_succ']
        rfl
      · exact ⟨zeros, by rw [decimal_concat hn hd, List.append_assoc]⟩
  · rintro ⟨zeros, rfl⟩
    induction zeros with
    | zero => exact digits_decimal n
    | succ zeros ih => exact ih.zero_cons

end TimedCache.Text.Numeral
