import SqlAtlas.Dialect
import SqlAtlas.Digest

/-!
# Keys of statements

A statement under a dialect is known by a digest. The digested bytes are the name of the dialect, a
zero and the text, so that no two statements share them: no name of a dialect holds a zero.
-/

namespace SqlAtlas

set_option autoImplicit false

def utf8Bytes (cs : List Char) : List UInt8 := cs.flatMap String.utf8EncodeChar

def statementBytes (d : Dialect) (cs : List Char) : List UInt8 :=
  utf8Bytes d.tag.toList ++ 0 :: utf8Bytes cs

def statementKey (d : Dialect) (cs : List Char) : String :=
  String.ofList (Digest.hex (Digest.sha256 (statementBytes d cs)))

end SqlAtlas
