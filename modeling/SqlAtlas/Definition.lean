import SqlAtlas.Keyword
import SqlAtlas.Pattern
import SqlAtlas.Symbol
import SqlAtlas.Text.Block
import SqlAtlas.Text.Mask

/-!
# Definitions

The tables, views, procedures, functions and table types that a text creates. Definitions are found
by their headers in masked text; no grammar is needed, so what is malformed still gives what can be
read of it.
-/

namespace SqlAtlas

namespace Definition

set_option autoImplicit false

open Text Pattern

structure Header where
  kindWord : List Char
  /-- The place of the name. -/
  name : Span
deriving DecidableEq, Repr

def kindWords : List String := ["PROCEDURE", "PROC", "FUNCTION", "VIEW", "TABLE", "TYPE"]

/-- The length of an optional `OR ALTER` with the blanks after it. -/
def orAlter (cs : List Char) : Nat :=
  optionally (chain? [keyword? "OR", someBlanks?, keyword? "ALTER", someBlanks?]) cs

/-- The length of the kind word at the front, blanks following it. -/
def kindWord? (cs : List Char) : Option Nat :=
  kindWords.findSome? fun w => (keyword? w cs).filter fun n => (someBlanks? (cs.drop n)).isSome

/-- The header at the front of a text: the kind word, where the name starts and how long it is. -/
def header? (prev : Option Char) (cs : List Char) : Option ((List Char × Nat × Nat) × Nat) := do
  if isWordAt prev then none
  let a ← chain? [keyword? "CREATE", someBlanks?] cs
  let k := a + orAlter (cs.drop a)
  let n ← kindWord? (cs.drop k)
  let s ← someBlanks? (cs.drop (k + n))
  let start := k + n + s
  let m ← dottedName? true 2 (cs.drop start)
  return (((cs.drop k).take n, start, m), start + m - 1)

/-- The headers of a masked text, each with the byte offset where it starts. -/
def headers (masked : List Char) : List (Found Header) :=
  (findAll header? 0 masked).map fun f =>
    let (kind, start, count) := f.value
    ⟨f.offset, ⟨kind, spanAfter f.offset (dropBytes f.offset masked) start count⟩⟩

def isLineBlank (c : Char) : Bool := c == ' ' || c == '\t'

/-- Whether a line is a batch separator: `GO`, perhaps with a count, and nothing else. -/
def isBatchLine (line : List Char) : Bool :=
  let cs := line.dropWhile isLineBlank
  match word? "GO".toList cs with
  | none => false
  | some n =>
    let rest := cs.drop n
    let afterBlanks := rest.dropWhile isLineBlank
    let digits := afterBlanks.takeWhile isDigit
    let tail :=
      if rest.length == afterBlanks.length || digits.isEmpty then rest
      else afterBlanks.drop digits.length
    let final := tail.dropWhile isLineBlank
    final.isEmpty || final == ['\r']

/-- The byte offsets where the text of a definition ends: headers and batch separators. -/
def boundaries (masked : List Char) : List Nat :=
  (headers masked).map (·.offset) ++
    ((lines masked).filter fun l => isBatchLine l.chars).map (·.start)

/-- The least boundary after byte `start`, or the end of the text. -/
def statementEnd (masked : List Char) (bounds : List Nat) (start : Nat) : Nat :=
  ((bounds.filter fun b => decide (start < b)).min?).getD (size masked)

def skipBlanks (masked : List Char) (start : Nat) : Nat :=
  start + ((dropBytes start masked).takeWhile isAsciiBlank).length

/-- The rows of the parenthesised block at byte `start`, if there is one. A block that is never
closed runs to the end of the text. -/
def blockRows? (masked : List Char) (start : Nat) : Option (List Span) :=
  if charAt? masked start == some '(' then
    let stop := (matchingParen? masked start).getD (size masked)
    some (splitTopLevel masked ⟨start + 1, stop⟩)
  else none

def column? (cs : List Char) (name : Span) (dataType : Option (List Char)) : Option ColumnDef := do
  let raw := slice cs name
  let inner ← (partSpans raw).getLast?
  let written := slice raw inner
  let key := Name.ofChars written
  if key.isEmpty then none
  else some ⟨key, written, dataType,
    extent cs ⟨name.start + inner.start, name.start + inner.stop⟩⟩

/-- The type after the name of a column: the next run of characters up to a blank, a comma or a
parenthesis. -/
def typeAfter? (rest : List Char) : Option (List Char) :=
  let token := (rest.drop (blanks rest)).takeWhile fun c =>
    !isBlank c && c != ',' && c != '(' && c != ')'
  let written := unwrapIdentifier token
  if written.isEmpty || asciiLower written == ['a', 's'] then none else some written

def leading? (masked : List Char) (row : Span) : Option Span :=
  (identifier? false (slice masked row)).map fun n => spanAfter row.start (slice masked row) 0 n

/-- The column that a row of a table declares; constraints declare none. -/
def rowColumn? (masked cs : List Char) (row : Span) : Option ColumnDef := do
  let name ← leading? masked row
  let word := slice masked name
  if !isDelimited word && Keyword.isConstraintWord word then none
  else column? cs name (typeAfter? (slice masked ⟨name.stop, row.stop⟩))

/-- The columns in order, each name only at its first place. -/
def distinctColumns (columns : List ColumnDef) : List ColumnDef :=
  (columns.foldl (fun (acc : List ColumnDef) c =>
    if acc.any (·.name = c.name) then acc else c :: acc) []).reverse

def tableColumns (masked cs : List Char) (start : Nat) : List ColumnDef :=
  match blockRows? masked (skipBlanks masked start) with
  | none => []
  | some rows => distinctColumns (rows.filterMap (rowColumn? masked cs))

/-- The length of a row amount: digits, or anything in parentheses. -/
def rowAmount? (cs : List Char) : Option Nat :=
  match cs with
  | '(' :: rest =>
    let inside := (rest.takeWhile (· != ')')).length
    (char? ')' (rest.drop inside)).map (1 + inside + ·)
  | _ =>
    match (cs.takeWhile isDigit).length with
    | 0 => none
    | n + 1 => some (n + 1)

def quantifier? (cs : List Char) : Option Nat :=
  chain? [blanks?, fun cs => wholeKeyword? "DISTINCT" cs <|> wholeKeyword? "ALL" cs] cs

def rowLimit? (cs : List Char) : Option Nat :=
  chain? [blanks?, keyword? "TOP", blanks?, rowAmount?,
    optional? (chain? [someBlanks?, keyword? "PERCENT"]),
    optional? (chain? [someBlanks?, keyword? "WITH", someBlanks?, keyword? "TIES"])] cs

/-- The length of the quantifier and the row limit before a select list. -/
def selectOptions (cs : List Char) : Nat :=
  optionally (chain? [optional? quantifier?, optional? rowLimit?, blanks?]) cs

/-- An identifier that an assignment follows: the form `alias = expression`. -/
def assignedName? (item : List Char) : Option (Nat × Nat) := do
  let n ← identifier? false item
  let k := n + blanks (item.drop n)
  if (item.drop k).head? == some '=' && (item.drop (k + 1)).head? != some '=' then some (0, n)
  else none

/-- An identifier after `AS` at the end of an item. -/
def namedAlias? (prev : Option Char) (skip : Nat) : List Char → Option (Nat × Nat)
  | [] => none
  | c :: cs =>
    let here : Option (Nat × Nat) := do
      if isWordAt prev then none
      let a ← chain? [keyword? "AS", someBlanks?] (c :: cs)
      let n ← identifier? true ((c :: cs).drop a)
      if ((c :: cs).drop (a + n)).all isBlank then some (skip + a, n) else none
    here <|> namedAlias? (some c) (skip + 1) cs

def trailingName? (skip : Nat) : List Char → Option (Nat × Nat)
  | [] => none
  | c :: cs =>
    match identifier? false (c :: cs) with
    | some n =>
      if ((c :: cs).drop n).all isBlank then some (skip, n) else trailingName? (skip + 1) cs
    | none => trailingName? (skip + 1) cs

def outputName? (masked : List Char) (item : Span) : Option Span := do
  let chars := slice masked item
  let (skip, count) ← assignedName? chars <|> namedAlias? none 0 chars <|> trailingName? 0 chars
  let word := (chars.drop skip).take count
  if (!isDelimited word && Keyword.isReserved word) || word.head? == some '@' then none
  else some (spanAfter item.start chars skip count)

def selectList? (masked : List Char) (body : Span) : Option Span := do
  let a ← findTopLevelWord? masked body "AS".toList
  let s ← findTopLevelWord? masked ⟨a + 2, body.stop⟩ "SELECT".toList
  let start := s + 6
  return ⟨start, (findTopLevelWord? masked ⟨start, body.stop⟩ "FROM".toList).getD body.stop⟩

def selectItems (masked : List Char) (list : Span) : List Span :=
  match splitTopLevel masked list with
  | first :: rest =>
    let chars := slice masked first
    ⟨first.start + size (chars.take (selectOptions chars)), first.stop⟩ :: rest
  | [] => []

/-- The columns of a view: its column list if it has one, else the names of its select list. -/
def viewColumns (masked cs : List Char) (body : Span) : List ColumnDef :=
  match blockRows? masked (skipBlanks masked body.start) with
  | some rows =>
    distinctColumns (rows.filterMap fun row => do column? cs (← leading? masked row) none)
  | none =>
    match selectList? masked body with
    | some list =>
      distinctColumns ((selectItems masked list).filterMap fun item => do
        column? cs (← outputName? masked item) none)
    | none => []

def asTable? (cs : List Char) : Option Nat :=
  chain? [blanks?, keyword? "AS", someBlanks?, wholeKeyword? "TABLE"] cs

/-- The kind of a definition and its columns. A type that is no table type is none. -/
def contents? (masked cs : List Char) (kind : List Char) (body : Span) :
    Option (SymbolKind × List ColumnDef) :=
  if Keyword.oneOf ["PROCEDURE", "PROC"] kind then some (.procedure, [])
  else if Keyword.isWord "FUNCTION" kind then some (.function, [])
  else if Keyword.isWord "TABLE" kind then some (.table, tableColumns masked cs body.start)
  else if Keyword.isWord "VIEW" kind then some (.view, viewColumns masked cs body)
  else
    let rest := dropBytes body.start masked
    (asTable? rest).map fun n =>
      (.tableType, tableColumns masked cs (body.start + size (rest.take n)))

/-- The definition with a given header. Temporary tables and nameless objects are none. -/
def symbol? (uri : String) (masked cs : List Char) (bounds : List Nat) (h : Found Header) :
    Option SymbolDef := do
  let span := h.value.name
  let raw := slice cs span
  let name := Name.ofChars raw
  if name.isEmpty || name.chars.head? == some '#' then none
  else
    let (kind, columns) ← contents? masked cs h.value.kindWord
      ⟨span.stop, statementEnd masked bounds h.offset⟩
    let inner := (((partSpans raw).getLast?).map fun s =>
      (⟨span.start + s.start, span.start + s.stop⟩ : Span)).getD span
    return ⟨name, displayName raw, uri, extent cs inner, kind, columns⟩

end Definition

def definitions (uri : String) (cs : List Char) : List SymbolDef :=
  let masked := Text.maskCommentsAndLiterals cs
  let bounds := Definition.boundaries masked
  (Definition.headers masked).filterMap (Definition.symbol? uri masked cs bounds)

end SqlAtlas
