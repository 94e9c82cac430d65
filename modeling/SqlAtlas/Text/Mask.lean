import SqlAtlas.Text.Region

/-!
# Blanking comments and literals

Masked text has a space for every byte that was blanked, so a byte offset found in it is a byte
offset of the text it came from. Line feeds and carriage returns stay.
-/

namespace SqlAtlas.Text

set_option autoImplicit false

/-- A character blanked byte for byte; line ends stay. -/
def blanked (c : Char) : List Char :=
  if c == '\n' || c == '\r' then [c] else List.replicate c.utf8Size ' '

def mask (hidden : Role → Bool) (cs : List Char) : List Char :=
  (roles cs).flatMap fun p => if hidden p.2 then blanked p.1 else [p.1]

def maskComments (cs : List Char) : List Char :=
  mask (· == .comment) cs

/-- The text without its comments and without the insides of its string literals. -/
def maskCommentsAndLiterals (cs : List Char) : List Char :=
  mask (fun r => r == .comment || r == .literal) cs

end SqlAtlas.Text
