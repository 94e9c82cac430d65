import SqlAtlas.Cache.Key

/-!
# Occurrence of a text in another

Texts are compared byte by byte, and for ASCII letters the case is disregarded. A text is sought in the
windows of its own length. Windows of no length do not exist, so a search for an empty text has no answer.
-/

namespace SqlAtlas.Text

set_option autoImplicit false

def occursIn (needle : List Char) : List Char → Bool
  | [] => needle.isEmpty
  | c :: cs => needle.isPrefixOf (c :: cs) || occursIn needle cs

namespace Byte

def lower (b : UInt8) : UInt8 :=
  if 'A'.toUInt8 ≤ b ∧ b ≤ 'Z'.toUInt8 then b + ('a'.toUInt8 - 'A'.toUInt8) else b

/-- Whether two runs of bytes are the same, whatever the case of ASCII letters. -/
def same (as bs : List UInt8) : Bool := as.map lower == bs.map lower

/-- The runs of `width` bytes, from the front on. -/
def windows (width : Nat) : List UInt8 → List (List UInt8)
  | [] => []
  | b :: bs =>
    if width ≤ (b :: bs).length then (b :: bs).take width :: windows width bs else []

end Byte

/-- Whether a text occurs in another, whatever the case of ASCII letters. -/
def occursFolded? (needle cs : List Char) : Option Bool :=
  let sought := utf8Bytes needle
  let bytes := utf8Bytes cs
  if bytes.length < sought.length then some false
  else if sought.length = 0 then none
  else some ((Byte.windows sought.length bytes).any fun window => Byte.same window sought)

def endsFolded (ending cs : List Char) : Bool :=
  let last := utf8Bytes ending
  let bytes := utf8Bytes cs
  decide (last.length ≤ bytes.length) && Byte.same (bytes.drop (bytes.length - last.length)) last

end SqlAtlas.Text
