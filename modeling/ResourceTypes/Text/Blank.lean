/-! # Blank characters and trimming

The blank characters are those with the Unicode property White_Space. Trimming takes
blank characters off one end or both ends of a text and changes nothing in between. -/

namespace ResourceTypes.Text

/-- The code of `c` lies in one of the closed ranges. -/
def inRanges (ranges : List (Nat × Nat)) (c : Char) : Bool :=
  ranges.any fun r => Nat.ble r.1 c.toNat && Nat.ble c.toNat r.2

/-- The code ranges of the property White_Space. -/
def blankRanges : List (Nat × Nat) :=
  [(0x09, 0x0D), (0x20, 0x20), (0x85, 0x85), (0xA0, 0xA0), (0x1680, 0x1680), (0x2000, 0x200A),
   (0x2028, 0x2029), (0x202F, 0x202F), (0x205F, 0x205F), (0x3000, 0x3000)]

/-- Blank characters have the property White_Space. -/
def isBlank (c : Char) : Bool := inRanges blankRanges c

/-- The text without its leading blank characters. -/
def trimStart (s : List Char) : List Char := s.dropWhile isBlank

/-- The text without its trailing blank characters. -/
def trimEnd (s : List Char) : List Char := (s.reverse.dropWhile isBlank).reverse

/-- The text without blank characters at either end. -/
def trim (s : List Char) : List Char := trimEnd (trimStart s)

/-- A text of blank characters only. -/
def blank (s : List Char) : Bool := s.all isBlank

/-! ### Small laws -/

@[simp] theorem trim_nil : trim [] = [] := rfl

theorem trimStart_eq_nil_iff {s : List Char} : trimStart s = [] ↔ blank s = true := by
  induction s with
  | nil => simp [trimStart, blank]
  | cons c s ih =>
    simp only [trimStart, blank, List.dropWhile_cons, List.all_cons] at ih ⊢
    cases h : isBlank c <;> simp [ih]

end ResourceTypes.Text
