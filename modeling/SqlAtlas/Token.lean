import SqlAtlas.Dialect
import SqlAtlas.Text.Slice

/-!
# Tokens

A text is a sequence of tokens with blanks and comments between them. Every scanning step says how
many characters it uses after the first one, so a scan always moves on.
-/

namespace SqlAtlas

set_option autoImplicit false

open Text

inductive Token where
  /-- A word; `quote` is the opening delimiter of a delimited one. -/
  | word (value : List Char) (quote : Option Char)
  | number (digits : List Char)
  /-- A plain string literal. -/
  | string (value : List Char)
  /-- A literal whose backslash escapes are read. -/
  | escaped
  /-- Any other literal: national, binary or dollar-quoted. -/
  | literal
  | placeholder
  | openParen
  | closeParen
  | comma
  | semicolon
  | period
  /-- An operator, or a character that starts nothing else. -/
  | operator (spelling : List Char)
deriving DecidableEq, Repr, Inhabited

structure Lexeme where
  token : Token
  span : Span
deriving DecidableEq, Repr, Inhabited

namespace Token

def identifier? : Token → Option (List Char)
  | .word value _ => some value
  | _ => none

def bareWord? : Token → Option (List Char)
  | .word value none => some value
  | _ => none

/-- Whether a token is the given word, which is in upper case, and not delimited. -/
def isKeyword (keyword : String) (t : Token) : Bool :=
  t.bareWord?.any fun w => asciiUpper w == keyword.toList

/-- Whether a token is a variable; names that start with two signs are the server's own. -/
def isVariable (t : Token) : Bool :=
  t.bareWord?.any fun w => w.head? == some '@' && (w.drop 1).head? != some '@'

end Token

namespace Scan

inductive Front where
  /-- A token made of the first character and `more` others. -/
  | token (t : Token) (more : Nat)
  /-- A blank or a comment made of the first character and `more` others. -/
  | skip (more : Nat)
  /-- A comment or a literal that never ends. -/
  | unclosed
deriving DecidableEq, Repr

/-- The inside of a literal that `close` ends, doubled closers standing for one, and the number of
characters up to its end. With `escapes`, a backslash takes the next character with it. -/
def quotedBody (close : Char) (escapes : Bool) : List Char → Option (List Char × Nat)
  | [] => none
  | c :: cs =>
    if c == close then
      match cs with
      | d :: ds =>
        if d == close then (quotedBody close escapes ds).map fun r => (close :: r.1, r.2 + 2)
        else some ([], 1)
      | [] => some ([], 1)
    else if c == '\\' && escapes then
      match cs with
      | d :: ds => (quotedBody close escapes ds).map fun r => (d :: r.1, r.2 + 2)
      | [] => none
    else (quotedBody close escapes cs).map fun r => (c :: r.1, r.2 + 1)

def digitValue? (c : Char) : Option Nat :=
  if c.isDigit then some (c.toNat - '0'.toNat)
  else if 'a' ≤ c && c ≤ 'f' then some (c.toNat - 'a'.toNat + 10)
  else if 'A' ≤ c && c ≤ 'F' then some (c.toNat - 'A'.toNat + 10)
  else none

def isHexDigit (c : Char) : Bool := (digitValue? c).isSome

def isOctalDigit (c : Char) : Bool := (digitValue? c).any (· < 8)

def numeral (base : Nat) (digits : List Char) : Nat :=
  digits.foldl (fun n c => n * base + (digitValue? c).getD 0) 0

/-- Whether a code point may be written as an escape: a character other than the null one. -/
def isWritable (n : Nat) : Bool := n != 0 && n.isValidChar

/-- The number of characters of an escape of exactly `count` hexadecimal digits. -/
def fixedEscape (count : Nat) (cs : List Char) : Option Nat :=
  let digits := cs.take count
  let bare := if digits.head? == some '+' then digits.drop 1 else digits
  if digits.length == count && !bare.isEmpty && bare.all isHexDigit &&
      isWritable (numeral 16 bare) then some count
  else none

/-- The number of characters, after the first, of an escape that starts with `c`; nothing if the
escape stands for no character. -/
def escapeLength? (c : Char) (cs : List Char) : Option Nat :=
  if c == 'u' then fixedEscape 4 cs
  else if c == 'U' then fixedEscape 8 cs
  else if c == 'x' then
    let digits := (cs.take 2).takeWhile isHexDigit
    let value := numeral 16 digits
    if digits.isEmpty || (value ≠ 0 && value ≤ 127) then some digits.length else none
  else if isOctalDigit c then
    let digits := (cs.take 2).takeWhile isOctalDigit
    let value := numeral 8 (c :: digits) % 256
    if value ≠ 0 && value ≤ 127 then some digits.length else none
  else if c.toNat == 0 then none
  else some 0

def escapedBody (cs : List Char) : Option Nat :=
  match cs with
  | [] => none
  | ['\''] => some 1
  | ['\\'] => none
  | c :: d :: ds =>
    if c == '\'' then
      if d == '\'' then (escapedBody ds).map (· + 2) else some 1
    else if c == '\\' then
      match escapeLength? d ds with
      | some n => (escapedBody (ds.drop n)).map (· + (n + 2))
      | none => none
    else (escapedBody (d :: ds)).map (· + 1)
  | [_] => none
termination_by cs.length
decreasing_by all_goals simp only [List.length_cons, List.length_drop]; omega

/-- The number of characters, after the backslash, of an escape in a literal of code points: a
backslash, or four hexadecimal digits, or a plus sign and six. -/
def codePointLength? (cs : List Char) : Option Nat :=
  let read (count : Nat) (digits : List Char) : Bool :=
    digits.length == count && digits.all isHexDigit && (numeral 16 digits).isValidChar
  match cs with
  | '\\' :: _ => some 1
  | '+' :: rest => if read 6 (rest.take 6) then some 7 else none
  | _ => if read 4 (cs.take 4) then some 4 else none

def codePointBody (cs : List Char) : Option Nat :=
  match cs with
  | [] => none
  | c :: rest =>
    if c == '\'' then
      if rest.head? == some '\'' then (codePointBody (rest.drop 1)).map (· + 2) else some 1
    else if c == '\\' then
      match codePointLength? rest with
      | some n => (codePointBody (rest.drop n)).map (· + (n + 1))
      | none => none
    else (codePointBody rest).map (· + 1)
termination_by cs.length
decreasing_by all_goals simp only [List.length_cons, List.length_drop]; omega

def through (mark : List Char) : List Char → Option Nat
  | [] => if mark.isEmpty then some 0 else none
  | c :: cs =>
    if mark.isPrefixOf (c :: cs) then some mark.length
    else (through mark cs).map (· + 1)

def commentBody (nested : Bool) (outer : Nat) : List Char → Option Nat
  | [] => none
  | c :: cs =>
    match cs with
    | d :: ds =>
      if c == '/' && d == '*' && nested then (commentBody nested (outer + 1) ds).map (· + 2)
      else if c == '*' && d == '/' then
        match outer with
        | 0 => some 2
        | n + 1 => (commentBody nested n ds).map (· + 2)
      else (commentBody nested outer (d :: ds)).map (· + 1)
    | [] => none

/-- The operators of more than one character, longer ones before their own beginnings. -/
def longOperators : List String :=
  ["->>", "->", "|/", "||/", "||", "=>", "==", "!=", "!!", "!~~*", "!~~", "!~*", "!~",
   "<=>", "<=", "<>", "<<", "<@", ">=", ">>", "::", ":=", "&&", "^@", "~~*", "~~", "~*",
   "#>>", "#>", "#-", "@>", "@?"]

def operatorAt (d : Dialect) (c : Char) (cs : List Char) : Front :=
  let known := if d = .generic then longOperators ++ ["//"] else longOperators
  match known.find? fun o => o.toList.isPrefixOf (c :: cs) with
  | some o => .token (.operator o.toList) (o.length - 1)
  | none => .token (.operator [c]) 0

/-- A word that starts with `c` and holds `sure` more characters before its regular parts. -/
def wordFrom (d : Dialect) (c : Char) (sure : Nat) (cs : List Char) : Front :=
  let parts := (cs.drop sure).takeWhile d.isIdentifierPart
  .token (.word (c :: cs.take sure ++ parts) none) (sure + parts.length)

def literalFrom (t : List Char → Token) (mark : Nat) (body : Option (List Char × Nat)) : Front :=
  match body with
  | some (value, n) => .token (t value) (mark - 1 + n)
  | none => .unclosed

def exponent (cs : List Char) : List Char :=
  match cs with
  | e :: rest =>
    if e == 'e' || e == 'E' then
      let sign := (rest.take 1).filter fun s => s == '+' || s == '-'
      let digits := (rest.drop sign.length).takeWhile Char.isDigit
      if digits.isEmpty then [] else e :: sign ++ digits
    else []
  | [] => []

def numberAt (cs : List Char) : Front :=
  let whole := cs.takeWhile Char.isDigit
  let afterWhole := cs.drop whole.length
  if whole == ['0'] && afterWhole.head? == some 'x' then
    .token .literal (whole.length + ((afterWhole.drop 1).takeWhile isHexDigit).length)
  else
    let point := (afterWhole.take 1).filter (· == '.')
    let fraction := (afterWhole.drop point.length).takeWhile Char.isDigit
    let body := whole ++ point ++ fraction
    if body == ['.'] then .token .period 0
    else
      let rest := cs.drop body.length
      let power := exponent rest
      let long := ((rest.drop power.length).take 1).filter (· == 'L')
      .token (.number (body ++ power)) (body.length + power.length + long.length - 1)

def dollarAt (cs : List Char) : Front :=
  if cs.head? == some '$' then
    match through ['$', '$'] (cs.drop 1) with
    | some n => .token .literal (n + 1)
    | none => .unclosed
  else
    let tag := cs.takeWhile fun c => isAlphanumeric c || c == '_'
    if (cs.drop tag.length).head? == some '$' then
      match through ('$' :: tag ++ ['$']) (cs.drop (tag.length + 1)) with
      | some n => .token .literal (tag.length + 1 + n)
      | none => .unclosed
    else .token .placeholder tag.length

/-- A number sign: an operator or a word that takes the next character whatever it is. -/
def numberSignAt (d : Dialect) (cs : List Char) : Front :=
  match cs.head? with
  | some c =>
    if c == '-' || c == '>' then operatorAt d '#' cs
    else if c == ' ' || !d.isIdentifierStart '#' then .token (.operator ['#']) 0
    else wordFrom d '#' 1 cs
  | none => .token (.operator ['#']) 0

/-- An at sign: an operator or a word that takes the next character whatever it is. -/
def atSignAt (d : Dialect) (cs : List Char) : Front :=
  match cs with
  | [] => .token (.operator ['@']) 0
  | c :: rest =>
    if c == '>' || c == '?' then operatorAt d '@' cs
    else if c == '@' then
      if rest.isEmpty || rest.head? == some ' ' || !d.isIdentifierStart '@' then
        .token (.operator ['@', '@']) 1
      else wordFrom d '@' 2 cs
    else if c == ' ' || c == '\'' || c == '"' || c == '\x60' || !d.isIdentifierStart '@' then
      .token (.operator ['@']) 0
    else wordFrom d '@' 1 cs

def closing (quote : Char) : Char := if quote == '[' then ']' else quote

def nestsComments : Dialect → Bool
  | .generic => true
  | _ => false

/-- The letters that turn a following literal into one of another kind, with whether a backslash
escapes in it. -/
def literalLetter? (d : Dialect) (c : Char) : Option Bool :=
  if c == 'n' || c == 'N' || c == 'x' || c == 'X' then some true
  else if d = .generic && (c == 'b' || c == 'B' || c == 'r' || c == 'R') then some false
  else none

def front (d : Dialect) (c : Char) (cs : List Char) : Front :=
  let next := cs.head?
  if c == ' ' || c == '\t' || c == '\n' || c == '\r' then .skip 0
  else if next == some '\'' && (c == 'e' || c == 'E') then
    match escapedBody (cs.drop 1) with
    | some n => .token .escaped (1 + n)
    | none => .unclosed
  else if next == some '\'' && (literalLetter? d c).isSome then
    literalFrom (fun _ => .literal) 2 (quotedBody '\'' ((literalLetter? d c).getD false) (cs.drop 1))
  else if next == some '"' && literalLetter? d c == some false then
    literalFrom (fun _ => .literal) 2 (quotedBody '"' false (cs.drop 1))
  else if d = .generic && (c == 'u' || c == 'U') && ['&', '\''].isPrefixOf cs then
    match codePointBody (cs.drop 2) with
    | some n => .token .literal (2 + n)
    | none => .unclosed
  else if c == '\'' then literalFrom .string 1 (quotedBody '\'' false cs)
  else if d.isDelimitedStart c then
    literalFrom (fun value => .word value (some c)) 1 (quotedBody (closing c) false cs)
  else if c.isDigit || c == '.' then numberAt (c :: cs)
  else if c == '(' then .token .openParen 0
  else if c == ')' then .token .closeParen 0
  else if c == ',' then .token .comma 0
  else if c == ';' then .token .semicolon 0
  else if c == '-' && next == some '-' then .skip (cs.takeWhile (· != '\n')).length
  else if c == '/' && next == some '*' then
    match commentBody (nestsComments d) 0 (cs.drop 1) with
    | some n => .skip (1 + n)
    | none => .unclosed
  else if c == '#' then numberSignAt d cs
  else if c == '@' then atSignAt d cs
  else if c == '?' then .token .placeholder (cs.takeWhile isNumber).length
  else if d.isIdentifierStart c then wordFrom d c 0 cs
  else if c == '$' then dollarAt cs
  else if isBlank c then .skip 0
  else operatorAt d c cs

/-- The tokens of a text that starts at byte `offset`; nothing if a comment or a literal never
ends. -/
def lexemesFrom (d : Dialect) (offset : Nat) : List Char → Option (List Lexeme)
  | [] => some []
  | c :: cs =>
    match front d c cs with
    | .unclosed => none
    | .skip more => lexemesFrom d (offset + size (c :: cs.take more)) (cs.drop more)
    | .token t more =>
      let stop := offset + size (c :: cs.take more)
      (lexemesFrom d stop (cs.drop more)).map (⟨t, ⟨offset, stop⟩⟩ :: ·)
termination_by cs => cs.length
decreasing_by all_goals simp only [List.length_cons, List.length_drop]; omega

end Scan

def lexemes? (d : Dialect) (offset : Nat) (cs : List Char) : Option (List Lexeme) :=
  Scan.lexemesFrom d offset cs

end SqlAtlas
