/-!
# Blank characters

The characters with the Unicode property White_Space, and the removal of the blanks at the two
ends of a text.  Texts are lists of characters here and in every other module; strings appear
only where a value enters or leaves the library.
-/

namespace SearchQuery.Text

/-- The code points with the property White_Space, as ranges with both ends included. -/
def blankRanges : List (Nat × Nat) :=
  [(0x0009, 0x000D), (0x0020, 0x0020), (0x0085, 0x0085), (0x00A0, 0x00A0), (0x1680, 0x1680),
    (0x2000, 0x200A), (0x2028, 0x2029), (0x202F, 0x202F), (0x205F, 0x205F), (0x3000, 0x3000)]

/-- Whether a character is blank. -/
def isBlank (c : Char) : Bool :=
  blankRanges.any fun range => range.1 ≤ c.toNat && c.toNat ≤ range.2

/-- The text without the blanks it begins with. -/
def trimStart (text : List Char) : List Char :=
  text.dropWhile isBlank

/-- The text without the blanks it ends with. -/
def trimEnd (text : List Char) : List Char :=
  (text.reverse.dropWhile isBlank).reverse

/-- The text without the blanks at its two ends. -/
def trim (text : List Char) : List Char :=
  trimEnd (trimStart text)

/-! ## The table -/

/-- The property has 25 code points. -/
theorem blankRanges_count :
    blankRanges.foldl (fun count range => count + (range.2 + 1 - range.1)) 0 = 25 := by decide

/-- The table is in ascending order, and its ranges are disjoint. -/
theorem blankRanges_ascending :
    blankRanges.Pairwise fun r s => r.2 < s.1 := by decide

/-- Every ASCII space character is blank. -/
theorem isBlank_of_isWhitespace {c : Char} (h : c.isWhitespace = true) : isBlank c = true := by
  simp only [Char.isWhitespace, Bool.or_eq_true, decide_eq_true_eq] at h
  rcases h with ((rfl | rfl) | rfl) | rfl <;> decide

/-! ## Trimming -/

@[simp] theorem trimStart_nil : trimStart [] = [] := rfl

@[simp] theorem trimEnd_nil : trimEnd [] = [] := rfl

theorem trimStart_cons_of_isBlank {c : Char} (h : isBlank c = true) (text : List Char) :
    trimStart (c :: text) = trimStart text := by simp [trimStart, h]

theorem trimStart_cons_of_not_isBlank {c : Char} (h : isBlank c = false) (text : List Char) :
    trimStart (c :: text) = c :: text := by simp [trimStart, h]

theorem trimEnd_concat_of_not_isBlank {c : Char} (h : isBlank c = false) (text : List Char) :
    trimEnd (text ++ [c]) = text ++ [c] := by simp [trimEnd, h]

end SearchQuery.Text
