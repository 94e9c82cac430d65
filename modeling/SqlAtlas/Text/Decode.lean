/-!
# Text of a file

A file that is strict UTF-8 is taken as that. Any other file is read by the mark at its front as
UTF-16, or else byte by byte with the Western code page 1252, which knows every byte. A file with a
mark that its contents do not bear out cannot be read. One byte order mark at the front of the text
is left out.
-/

namespace SqlAtlas.Text

set_option autoImplicit false

def continuation? (b : UInt8) : Option Nat :=
  if b &&& 0xC0 = 0x80 then some (b &&& 0x3F).toNat else none

/-- The character of a code point that is at least `least` and no surrogate. -/
def scalar? (least n : Nat) : Option Char :=
  if least ≤ n ∧ n < 0x110000 ∧ ¬(0xD800 ≤ n ∧ n < 0xE000) then some (Char.ofNat n) else none

/-- The text whose strict UTF-8 form the bytes are. -/
def decodeUtf8 : List UInt8 → Option (List Char)
  | [] => some []
  | a :: rest =>
    if a < 0x80 then (decodeUtf8 rest).map (Char.ofNat a.toNat :: ·)
    else
      match rest with
      | [] => none
      | b :: rest =>
        match continuation? b with
        | none => none
        | some b =>
          if a < 0xE0 then
            if a < 0xC0 then none
            else
              match scalar? 0x80 ((a.toNat - 0xC0) * 64 + b) with
              | none => none
              | some c => (decodeUtf8 rest).map (c :: ·)
          else
            match rest with
            | [] => none
            | c :: rest =>
              match continuation? c with
              | none => none
              | some c =>
                if a < 0xF0 then
                  match scalar? 0x800 (((a.toNat - 0xE0) * 64 + b) * 64 + c) with
                  | none => none
                  | some c => (decodeUtf8 rest).map (c :: ·)
                else
                  match rest with
                  | [] => none
                  | d :: rest =>
                    match continuation? d with
                    | none => none
                    | some d =>
                      match scalar? 0x10000 ((((a.toNat - 0xF0) * 64 + b) * 64 + c) * 64 + d) with
                      | none => none
                      | some c => (decodeUtf8 rest).map (c :: ·)

/-- Pairs of bytes as units of 16 bits; a byte too many is no unit. -/
def units (unit : UInt8 → UInt8 → Nat) : List UInt8 → Option (List Nat)
  | [] => some []
  | [_] => none
  | a :: b :: rest => (units unit rest).map (unit a b :: ·)

def lowFirst (a b : UInt8) : Nat := a.toNat + 256 * b.toNat

def highFirst (a b : UInt8) : Nat := lowFirst b a

/-- The text of UTF-16 units; every surrogate must be half of a pair. -/
def decodeUtf16 : List Nat → Option (List Char)
  | [] => some []
  | u :: rest =>
    if u < 0xD800 ∨ 0xE000 ≤ u then (decodeUtf16 rest).map (Char.ofNat u :: ·)
    else if 0xDC00 ≤ u then none
    else
      match rest with
      | [] => none
      | v :: rest =>
        if 0xDC00 ≤ v ∧ v < 0xE000 then
          (decodeUtf16 rest).map
            (Char.ofNat (0x10000 + (u - 0xD800) * 0x400 + (v - 0xDC00)) :: ·)
        else none

def westernMiddle : List Nat := [
  0x20AC, 0x0081, 0x201A, 0x0192, 0x201E, 0x2026, 0x2020, 0x2021,
  0x02C6, 0x2030, 0x0160, 0x2039, 0x0152, 0x008D, 0x017D, 0x008F,
  0x0090, 0x2018, 0x2019, 0x201C, 0x201D, 0x2022, 0x2013, 0x2014,
  0x02DC, 0x2122, 0x0161, 0x203A, 0x0153, 0x009D, 0x017E, 0x0178]

def westernChar (b : UInt8) : Char :=
  let n := b.toNat
  Char.ofNat (if 128 ≤ n ∧ n < 160 then westernMiddle.getD (n - 128) n else n)

def decodeMarked : List UInt8 → Option (List Char)
  | 0xEF :: 0xBB :: 0xBF :: rest => decodeUtf8 rest
  | 0xFF :: 0xFE :: rest => (units lowFirst rest).bind decodeUtf16
  | 0xFE :: 0xFF :: rest => (units highFirst rest).bind decodeUtf16
  | bytes => some (bytes.map westernChar)

def dropMark : List Char → List Char
  | '\uFEFF' :: cs => cs
  | cs => cs

def decodeFile (bytes : List UInt8) : Option (List Char) :=
  ((decodeUtf8 bytes).orElse fun _ => decodeMarked bytes).map dropMark

end SqlAtlas.Text
