/-!
White space at the ends of a text. `isBlank` is the Unicode property `White_Space`, which core's
`Char.isWhitespace` covers only within ASCII, and `trim` removes it from both ends.
-/
namespace TimedCache.Text

/-- The characters with the Unicode property `White_Space`, as closed ranges of code points. -/
def blankRanges : List (Nat × Nat) :=
  [(0x9, 0xd), (0x20, 0x20), (0x85, 0x85), (0xa0, 0xa0), (0x1680, 0x1680), (0x2000, 0x200a),
    (0x2028, 0x2029), (0x202f, 0x202f), (0x205f, 0x205f), (0x3000, 0x3000)]

def inRanges (ranges : List (Nat × Nat)) (c : Char) : Bool :=
  ranges.any fun range => range.1 ≤ c.toNat && c.toNat ≤ range.2

theorem not_inRanges {ranges : List (Nat × Nat)} {lo hi : Nat} {c : Char}
    (h : ranges.all (fun r => r.2 < lo || hi ≤ r.1) = true) (hlo : lo ≤ c.toNat)
    (hhi : c.toNat < hi) : inRanges ranges c = false := by
  simp only [inRanges, List.any_eq_false, Bool.and_eq_true, decide_eq_true_eq]
  simp only [List.all_eq_true, Bool.or_eq_true, decide_eq_true_eq] at h
  intro r hr
  have := h r hr
  omega

def isBlank (c : Char) : Bool := inRanges blankRanges c

def trim (cs : List Char) : List Char :=
  ((cs.dropWhile isBlank).reverse.dropWhile isBlank).reverse

end TimedCache.Text
