/-!
# Character classes as tables of code point ranges

A class of non-ASCII characters is a list of inclusive ranges. ASCII characters are always
decided by a short rule of their own, so a table starts at U+0080.
-/

namespace SqlAtlas.Text

set_option autoImplicit false

/-- Whether the code point of `c` lies in one of the inclusive ranges. -/
def inRanges (table : List (Nat × Nat)) (c : Char) : Bool :=
  table.any fun r => decide (r.1 ≤ c.toNat) && decide (c.toNat ≤ r.2)

theorem inRanges_eq_true_iff (table : List (Nat × Nat)) (c : Char) :
    inRanges table c = true ↔ ∃ r ∈ table, r.1 ≤ c.toNat ∧ c.toNat ≤ r.2 := by
  simp [inRanges]

def isAscii (c : Char) : Bool := decide (c.toNat < 0x80)

def isAsciiLetter (c : Char) : Bool := c.isAlpha

def isAsciiAlphanumeric (c : Char) : Bool := c.isAlphanum

end SqlAtlas.Text
