/-!
# Blank characters

The characters with the Unicode property `White_Space`, and the trimming that
goes with them. Whitespace control of tags, blank lines of regions and the
trimming of output all use this one class.
-/

namespace QueryMachine.Text

/-- The ranges of the Unicode property `White_Space`, in order. -/
def blankRanges : List (Nat × Nat) :=
  [(0x09, 0x0D), (0x20, 0x20), (0x85, 0x85), (0xA0, 0xA0), (0x1680, 0x1680),
   (0x2000, 0x200A), (0x2028, 0x2029), (0x202F, 0x202F), (0x205F, 0x205F),
   (0x3000, 0x3000)]

/-- Whether a character is whitespace. -/
def isBlank (c : Char) : Bool :=
  blankRanges.any fun (lo, hi) => lo ≤ c.toNat && c.toNat ≤ hi

/-- The text without the blanks at its end. -/
def trimEnd (cs : List Char) : List Char :=
  (cs.reverse.dropWhile isBlank).reverse

/-- The text without the blanks at its start. -/
def trimStart (cs : List Char) : List Char :=
  cs.dropWhile isBlank

/-- The text without the blanks around it. -/
def trim (cs : List Char) : List Char :=
  trimEnd (trimStart cs)

/-- Whether a text has no character but blanks. -/
def isAllBlank (cs : List Char) : Bool :=
  cs.all isBlank

/-- A string without the blanks around it. -/
def trimString (s : String) : String :=
  String.ofList (trim s.toList)

end QueryMachine.Text
