import TimedCache.Proofs.Text.Case
import TimedCache.Time.Unit.Reading

/-!
Which texts stand for units. A grammar says it: a unit goes by its code, in a numeral with any
number of zeros in front, and by its words, in any case. The reader finds the unit of a text, or
else says what it took the text for: a number that is no code, or just the text.
-/
namespace TimedCache.TimeUnit

open Text (Blank SameButCase trim)
open Text.Numeral (Digits Unsigned decimal)

variable {u v : TimeUnit} {cs ds : List Char} {s : String} {word : String} {n : Nat}

/-- The text stands for the unit. -/
inductive Names : List Char → TimeUnit → Prop
  | code {cs : List Char} {u : TimeUnit} (h : Unsigned cs u.code) : Names cs u
  | word {cs : List Char} {u : TimeUnit} {word : String} (hword : word ∈ u.words)
      (h : SameButCase cs word.toList) : Names cs u

/-- What is told of a text that stands for no unit: the number that it gives, if that fits a byte,
and the text itself if it gives none or a greater one. -/
inductive Strange : List Char → List Char → Prop
  | code {cs : List Char} {n : Nat} (h : Unsigned cs n) (hlow : 4 ≤ n) (hhigh : n ≤ 255) :
      Strange cs (decimal n)
  | other {cs : List Char} (hcode : ∀ n, Unsigned cs n → 255 < n) (hname : ∀ u, ¬ Names cs u) :
      Strange cs cs

theorem code_lt (u : TimeUnit) : u.code < 4 := by cases u <;> decide

theorem exists_code (h : n < 4) : ∃ u : TimeUnit, u.code = n := by
  have hall : ∀ n < 4, ∃ u ∈ all, u.code = n := by decide
  obtain ⟨u, -, hu⟩ := hall n h
  exact ⟨u, hu⟩

theorem ofCode_of_ge (h : 4 ≤ n) :
    ofCode n = .error (.unknownUnit (String.ofList (decimal n))) := by
  have hnone : ofCode? n = none := by
    apply List.find?_eq_none.mpr
    intro u _ hu
    have hlt := u.code_lt
    rw [eq_of_beq hu] at hlt
    exact absurd hlt (Nat.not_lt.mpr h)
  rw [ofCode, hnone]

theorem codeNumeral?_of_unsigned (h : Unsigned cs n) (hn : n ≤ 255) : codeNumeral? cs = some n := by
  rw [codeNumeral?, Text.Numeral.unsigned?_eq_some_iff.mpr h, Option.filter_some]
  exact if_pos (decide_eq_true (Nat.lt_succ_of_le hn))

theorem codeNumeral?_of_none (h : ∀ n, Unsigned cs n → 255 < n) : codeNumeral? cs = none := by
  apply Option.filter_eq_none_iff.mpr
  intro n hn
  have hlt := h n (Text.Numeral.unsigned?_eq_some_iff.mp hn)
  simpa using Nat.succ_le_of_lt hlt

theorem eq_of_mem_words (hu : word ∈ u.words) (hv : word ∈ v.words) : u = v := by
  have hall : ∀ u ∈ all, ∀ v ∈ all, ∀ word ∈ u.words, word ∈ v.words → u = v := by decide +kernel
  exact hall u u.mem_all v v.mem_all word hu hv

theorem map_toLower_of_mem_words (h : word ∈ u.words) :
    word.toList.map Char.toLower = word.toList := by
  have hall : u.words.all fun w => w.toList.map Char.toLower = w.toList := by
    cases u <;> decide +kernel
  simpa using List.all_eq_true.mp hall word h

theorem not_unsigned_of_mem_words (hword : word ∈ u.words) (h : SameButCase cs word.toList) :
    ¬ Unsigned cs n := by
  have hall : u.words.all fun w => w.toList.any Char.isAlpha := by cases u <;> decide +kernel
  intro hcs
  have hletter := List.all_eq_true.mp hall word hword
  rw [← h.eq hcs.not_isAlpha] at hletter
  obtain ⟨c, hc, halpha⟩ := List.any_eq_true.mp hletter
  rw [hcs.not_isAlpha c hc] at halpha
  cases halpha

theorem ofWord?_eq_some_iff :
    ofWord? cs = some u ↔ ∃ word ∈ u.words, SameButCase cs word.toList := by
  have hsame {u : TimeUnit} {word : String} (hword : word ∈ u.words) :
      (word.toList == cs.map Char.toLower) = true ↔ SameButCase cs word.toList := by
    rw [beq_iff_eq, Text.sameButCase_iff, map_toLower_of_mem_words hword, eq_comm]
  have hfound {u : TimeUnit} (h : ofWord? cs = some u) :
      (u.words.any fun word => word.toList == cs.map Char.toLower) = true := by
    have hfirst := List.find?_some h
    exact hfirst
  constructor
  · intro h
    obtain ⟨word, hword, heq⟩ := List.any_eq_true.mp (hfound h)
    exact ⟨word, hword, (hsame hword).mp heq⟩
  · rintro ⟨word, hword, h⟩
    have hu : (u.words.any fun word => word.toList == cs.map Char.toLower) = true :=
      List.any_eq_true.mpr ⟨word, hword, (hsame hword).mpr h⟩
    cases hfind : ofWord? cs with
    | none => exact absurd hu (List.find?_eq_none.mp hfind u u.mem_all)
    | some v =>
      obtain ⟨word', hword', heq⟩ := List.any_eq_true.mp (hfound hfind)
      have hlists : word'.toList = word.toList := by
        rw [eq_of_beq heq, Text.sameButCase_iff.mp h, map_toLower_of_mem_words hword]
      rw [eq_of_mem_words hword (String.toList_injective hlists ▸ hword')]

theorem names_or_strange (cs : List Char) : (∃ u, Names cs u) ∨ ∃ told, Strange cs told := by
  by_cases hnames : ∃ u, Names cs u
  · exact .inl hnames
  · by_cases hcode : ∃ n, Unsigned cs n ∧ n ≤ 255
    · obtain ⟨n, hn, hhigh⟩ := hcode
      rcases Nat.lt_or_ge n 4 with hlt | hlow
      · obtain ⟨u, rfl⟩ := exists_code hlt
        exact .inl ⟨u, .code hn⟩
      · exact .inr ⟨_, .code hn hlow hhigh⟩
    · refine .inr ⟨cs, .other ?_ (not_exists.mp hnames)⟩
      exact fun n hn => Nat.lt_of_not_le fun hle => hcode ⟨n, hn, hle⟩

theorem parse_of_code (h : codeNumeral? (trim s.toList) = some n) : parse s = ofCode n := by
  rw [parse, h]

theorem parse_of_no_code (h : codeNumeral? (trim s.toList) = none) :
    parse s = (ofWord? (trim s.toList)).elim
      (.error (.unknownUnit (String.ofList (trim s.toList)))) .ok := by
  rw [parse, h]
  cases ofWord? (trim s.toList) <;> rfl

theorem parse_of_names (h : Names (trim s.toList) u) : parse s = .ok u := by
  cases h with
  | code h =>
    have hle : u.code ≤ 255 := Nat.le_trans (Nat.le_of_lt u.code_lt) (by decide)
    rw [parse_of_code (codeNumeral?_of_unsigned h hle), ofCode_code]
  | word hword h =>
    have hnone := codeNumeral?_of_none fun n hn => absurd hn (not_unsigned_of_mem_words hword h)
    rw [parse_of_no_code hnone, ofWord?_eq_some_iff.mpr ⟨_, hword, h⟩]
    rfl

theorem parse_of_strange {told : List Char} (h : Strange (trim s.toList) told) :
    parse s = .error (.unknownUnit (String.ofList told)) := by
  generalize hcs : trim s.toList = cs at h
  cases h with
  | code h hlow hhigh =>
    subst hcs
    rw [parse_of_code (codeNumeral?_of_unsigned h hhigh), ofCode_of_ge hlow]
  | other hcode hname =>
    subst hcs
    have hnone : ofWord? (trim s.toList) = none := by
      apply Option.eq_none_iff_forall_ne_some.mpr
      intro u hu
      obtain ⟨word, hword, h⟩ := ofWord?_eq_some_iff.mp hu
      exact hname u (.word hword h)
    rw [parse_of_no_code (codeNumeral?_of_none hcode), hnone]
    rfl

theorem parse_eq_ok_iff : parse s = .ok u ↔ Names (trim s.toList) u := by
  refine ⟨fun h => ?_, parse_of_names⟩
  rcases names_or_strange (trim s.toList) with ⟨v, hv⟩ | ⟨told, htold⟩
  · rw [Except.ok.inj (h.symm.trans (parse_of_names hv))]
    exact hv
  · cases h.symm.trans (parse_of_strange htold)

theorem parse_eq_error_iff {e : SetupError} : parse s = .error e ↔
    ∃ told, Strange (trim s.toList) told ∧ e = .unknownUnit (String.ofList told) := by
  constructor
  · intro h
    rcases names_or_strange (trim s.toList) with ⟨v, hv⟩ | ⟨told, htold⟩
    · cases h.symm.trans (parse_of_names hv)
    · exact ⟨told, htold, Except.error.inj (h.symm.trans (parse_of_strange htold))⟩
  · rintro ⟨told, htold, rfl⟩
    exact parse_of_strange htold

theorem parse_congr {t : String} (h : trim t.toList = trim s.toList) : parse t = parse s := by
  unfold parse
  rw [h]

theorem Names.recased (h : Names cs u) (hsame : SameButCase cs ds) : Names ds u := by
  cases h with
  | code h =>
    rw [← hsame.eq h.not_isAlpha]
    exact .code h
  | word hword h =>
    rw [Text.sameButCase_iff] at h hsame
    exact .word hword (Text.sameButCase_iff.mpr (hsame.symm.trans h))

theorem parse_label (u : TimeUnit) : parse u.label = .ok u := by cases u <;> decide +kernel

theorem parse_code (u : TimeUnit) (zeros : Nat) :
    parse (String.ofList (List.replicate zeros '0' ++ decimal u.code)) = .ok u := by
  have hdigits : Digits (List.replicate zeros '0' ++ decimal u.code) u.code :=
    Text.Numeral.digits_iff.mpr ⟨zeros, rfl⟩
  apply parse_of_names
  rw [String.toList_ofList, Text.trim_of_bare hdigits.bare]
  exact .code (.plain hdigits)

/-- The reader finds a unit just in the texts that stand for one, less the white space around them,
and tells of all others what they are. -/
theorem parse_iff_names :
    (∀ s u, parse s = .ok u ↔ Names (trim s.toList) u) ∧
      (∀ s e, parse s = .error e ↔
        ∃ told, Strange (trim s.toList) told ∧ e = .unknownUnit (String.ofList told)) ∧
      (∀ (s : String) before after, Blank before → Blank after →
        parse (String.ofList (before ++ s.toList ++ after)) = parse s) ∧
      (∀ s t u, SameButCase s.toList t.toList → parse s = .ok u → parse t = .ok u) ∧
      ∀ u : TimeUnit, parse u.label = .ok u ∧ ∀ zeros,
        parse (String.ofList (List.replicate zeros '0' ++ decimal u.code)) = .ok u := by
  refine ⟨fun s u => parse_eq_ok_iff, fun s e => parse_eq_error_iff, ?_, ?_,
    fun u => ⟨u.parse_label, u.parse_code⟩⟩
  · intro s before after hbefore hafter
    apply parse_congr
    rw [String.toList_ofList, Text.trim_of_blank_around hbefore hafter]
  · intro s t u hsame h
    rw [parse_eq_ok_iff] at h ⊢
    exact h.recased hsame.trim

/-- A name in mixed case with a space that is none of ASCII, and a code that no unit has. -/
theorem parse_iff_names_of_mills :
    SameButCase "mills".toList "MiLLs".toList ∧ Blank ['\u00a0', '\n'] ∧
      parse (String.ofList (['\u00a0', '\n'] ++ "MiLLs".toList ++ ['\n'])) = .ok .millis ∧
      Strange (trim "+007".toList) ['7'] ∧ parse "+007" = .error (.unknownUnit "7") := by
  obtain ⟨-, herror, hblank, hcase, -⟩ := parse_iff_names
  have hsame : SameButCase "mills".toList "MiLLs".toList :=
    Text.sameButCase_iff.mpr (by decide +kernel)
  have hbefore : Blank ['\u00a0', '\n'] := by decide
  have hafter : Blank ['\n'] := by decide
  have hmills : parse "mills" = .ok .millis := by decide +kernel
  have hseven : Unsigned (trim "+007".toList) 7 :=
    Text.Numeral.unsigned?_eq_some_iff.mp (by decide +kernel)
  have hstrange : Strange (trim "+007".toList) ['7'] := .code hseven (by decide) (by decide)
  refine ⟨hsame, hbefore, ?_, hstrange, (herror _ _).mpr ⟨_, hstrange, by decide +kernel⟩⟩
  rw [hblank "MiLLs" _ _ hbefore hafter]
  exact hcase "mills" "MiLLs" .millis hsame hmills

end TimedCache.TimeUnit
