import SqlAtlas.Keyword
import SqlAtlas.Pattern
import SqlAtlas.Reference
import SqlAtlas.Scope.File
import SqlAtlas.Text.Mask

/-!
# Usages in a line

Every line of the masked text is read four times: for tables after the words that introduce them,
for routines, for qualified columns and for bare columns. Each reading claims the ranges it has
dealt with, and later readings leave those alone.
-/

namespace SqlAtlas.Usage

set_option autoImplicit false

open Text Pattern

inductive Emission where
  | reference (r : Reference)
  | ambiguity (a : Ambiguity)
deriving DecidableEq, Repr

structure Source where
  uri : String
  chars : List Char
  /-- The text without comments and literals. -/
  masked : List Char
  scopes : FileScopes

/-- The emissions of a reading and the ranges it claims. -/
structure Reading where
  emissions : List Emission := []
  claimed : List Span := []

namespace Source

def ofText (uri : String) (cs : List Char) (scopes : FileScopes) : Source :=
  ⟨uri, cs, maskCommentsAndLiterals cs, scopes⟩

def emit (s : Source) (name : Name) (kind : ReferenceKind) (here : Span) : Emission :=
  .reference ⟨name, s.uri, extent s.chars here, kind⟩

/-- The next character that is neither a space nor a tab. -/
def next? (s : Source) (offset : Nat) : Option Char :=
  ((dropBytes offset s.masked).dropWhile fun c => c == ' ' || c == '\t').head?

def previous? (s : Source) (offset : Nat) : Option Char :=
  ((takeBytes offset s.masked).reverse.dropWhile fun c => c == ' ' || c == '\t').head?

end Source

def isBareKeyword (raw : List Char) : Bool := !isDelimited raw && Keyword.isReserved raw

def lastPart? (raw : List Char) (start : Nat) : Option Span :=
  ((partSpans raw).getLast?.filter fun s => !s.isEmpty).map fun s =>
    ⟨start + s.start, start + s.stop⟩

def tableWords : List String := ["FROM", "JOIN", "UPDATE", "INTO", "USING", "DELETE"]

def tableWord? (prev : Option Char) (cs : List Char) : Option (Nat × Nat) :=
  if isWordAt prev then none
  else (tableWords.findSome? fun w => wholeKeyword? w cs).map fun n => (n, n - 1)

def tableNames (s : Source) (line : Span) : List Span :=
  (findAll tableWord? line.start (slice s.masked line)).filterMap fun f => do
    let after := f.offset + size ((dropBytes f.offset s.masked).take f.value)
    let rest := slice s.masked ⟨after, line.stop⟩
    let b ← someBlanks? rest
    let n ← dottedName? false 3 (rest.drop b)
    let name := spanAfter after rest b n
    if isBareKeyword (slice s.chars name) then none else some name

/-- Whether a name stands for no table of its own: an alias of another table or a subquery. -/
def isRebound (s : Source) (name : Name) (offset : Nat) : Bool :=
  match s.scopes.scopeAt? offset with
  | none => false
  | some scope =>
    match scope.aliases.get? name.chars with
    | some .subquery => true
    | some (.table t) => t.unqualified != name.unqualified
    | none => false

/-- The reference of an introduced table; calls, local tables and aliases are none. -/
def tableEmission? (s : Source) (here : Span) : Option Emission :=
  if s.next? here.stop == some '(' then none
  else
    let raw := slice s.chars here
    let name := Name.ofChars raw
    if name.isLocal || isRebound s name here.start then none
    else (lastPart? raw here.start).map fun p => s.emit name .table p

def tables (s : Source) (line : Span) : Reading :=
  let names := tableNames s line
  ⟨names.filterMap (tableEmission? s), names⟩

/-- The length of a variable that takes the result of a call, with the sign after it. -/
def resultVariable? (cs : List Char) : Option Nat :=
  chain? [char? '@', fun cs => match (cs.takeWhile (continuesIdentifier true)).length with
    | 0 => none
    | n + 1 => some (n + 1), blanks?, char? '=', blanks?] cs

/-- The name of a called routine: where it starts and how long it is. -/
def call? (prev : Option Char) (cs : List Char) : Option ((Nat × Nat) × Nat) := do
  if isWordAt prev then none
  let a ← chain? [keyword? "EXEC", optional? (keyword? "UTE"), someBlanks?] cs
  let rest := cs.drop a
  let viaVariable : Option (Nat × Nat) := do
    let v ← resultVariable? rest
    let n ← dottedName? true 2 (rest.drop v)
    return (a + v, n)
  let (start, n) ← viaVariable <|> (dottedName? true 2 rest).map fun n => (a, n)
  return ((start, n), start + n - 1)

def callNames (s : Source) (line : Span) : List Span :=
  (findAll call? line.start (slice s.masked line)).map fun f =>
    spanAfter f.offset (dropBytes f.offset s.masked) f.value.1 f.value.2

/-- The reference of a called routine; variables and keywords are none. -/
def callEmission? (s : Source) (here : Span) : Option Emission :=
  let raw := slice s.chars here
  if raw.head? == some '@' || isBareKeyword raw then none
  else (lastPart? raw here.start).map fun p => s.emit (Name.ofChars raw) .routine p

def calls (s : Source) (line : Span) : Reading :=
  let names := callNames s line
  ⟨names.filterMap (callEmission? s), names⟩

def overlaps (claimed : List Span) (r : Span) : Bool :=
  claimed.any fun c => decide (c.start < r.stop) && decide (r.start < c.stop)

def qualifiedName? (cs : List Char) : Option (Nat × Nat) := do
  let n ← identifier? false cs
  match dotParts false 3 (cs.drop n) with
  | 0 => none
  | m + 1 => return (n + (m + 1), n + m)

/-- Claims the qualified names of a line that no range meets and that no name runs into. -/
def claimQualified (s : Source) (claimed : List Span) : List (Found Nat) → List Span
  | [] => []
  | f :: rest =>
    let r := spanAfter f.offset (dropBytes f.offset s.masked) 0 f.value
    if overlaps claimed r ||
        (charBefore? s.masked r.start).any (fun c => isNamePart c || c == '.') then
      claimQualified s claimed rest
    else r :: claimQualified s (r :: claimed) rest

/-- The table that a qualifier stands for at byte `offset`. A qualifier of two parts that is no
alias is the table's own name. -/
def qualifierTable? (s : Source) (key : Name) (parts : Nat) (offset : Nat) : Option Name :=
  let here := (s.scopes.scopeAt? offset).bind (·.aliases.get? key.chars)
  match here <|> s.scopes.aliases.get? key.chars with
  | some (.table t) => some t
  | some .subquery => none
  | none => if parts == 3 then some key else none

/-- The reference of a qualified column; calls and columns of local tables are none. -/
def qualifiedEmission? (s : Source) (here : Span) : Option Emission := do
  if s.next? here.stop == some '(' then none
  let raw := slice s.chars here
  let spans := partSpans raw
  let (qualifier, last) ← match spans with
    | [q, c] => some (slice raw q, c)
    | [q, t, c] => some (slice raw q ++ '.' :: slice raw t, c)
    | _ => none
  if isLocalSpelling qualifier then none
  let table ← qualifierTable? s (Name.ofChars qualifier) spans.length here.start
  if table.isLocal then none
  let column := Name.ofChars (slice raw last)
  return s.emit (.qualified table column) .column ⟨here.start + last.start, here.start + last.stop⟩

def qualified (s : Source) (claimed : List Span) (line : Span) : Reading :=
  let found := findAll (fun _ cs => qualifiedName? cs) line.start (slice s.masked line)
  let names := claimQualified s claimed found
  ⟨names.filterMap (qualifiedEmission? s), names⟩

/-- Whether a text, given from its end, ends with the whole word `word`. -/
def endsWith (word : String) (reversed : List Char) : Bool :=
  match word? word.toList.reverse reversed with
  | some n => !isWordAt (reversed.drop n).head?
  | none => false

/-- Whether the text before a word, given from its end, puts it after `AS`. -/
def followsAs (reversed : List Char) : Bool := endsWith "AS" (reversed.dropWhile isBlank)

/-- Whether the text before a word, given from its end, puts it where a type may stand. -/
def followsTypeContext (reversed : List Char) : Bool :=
  let cs := reversed.dropWhile isBlank
  let run := cs.takeWhile Text.isWord
  let conversion := (cs.drop 1).dropWhile isBlank
  (!run.isEmpty && (cs.drop run.length).head? == some '@') ||
    endsWith "RETURNS" cs || endsWith "PRIMARY" cs || endsWith "FOREIGN" cs ||
    (cs.head? == some '(' && (endsWith "CONVERT" conversion || endsWith "TRY_CONVERT" conversion))

/-- Whether a word of a line may name a column where it stands. -/
def mayBeColumn (s : Source) (claimed : List Span) (line here : Span) : Bool :=
  let word := slice s.masked here
  let before := (slice s.masked ⟨line.start, here.start⟩).reverse
  let first := word.head?
  !(first == some '@' || first == some '#' || first == some '$') &&
  !isBareKeyword word &&
  !overlaps claimed here &&
  !(charBefore? s.masked here.start).any (fun c => c == '.' || c == '@' || c == '#' || c == '$') &&
  !(s.previous? here.start == some '.') &&
  !(s.next? here.stop).any (fun c => c == '.' || c == '(' || c == '\'') &&
  !followsAs before &&
  !(!isDelimited word && (Keyword.isTypeWord word || Keyword.isWord "KEY" word) &&
    followsTypeContext before)

def owners (catalog : Catalog) (scope : StatementScope) (column : Name) : List Name :=
  scope.candidates.filter fun t =>
    if t.isLocal then scope.locals.hasColumn t column else catalog t column

/-- The references of a bare column to the tables that have it, and an ambiguity if there is more
than one of them. -/
def bareEmissions (s : Source) (catalog : Catalog) (here : Span) : List Emission :=
  match s.scopes.scopeAt? here.start with
  | none => []
  | some scope =>
    let raw := slice s.chars here
    let column := Name.ofChars raw
    if column.isEmpty || scope.aliases.isExplicit column.chars then []
    else
      let all := owners catalog scope column
      let global := all.filter fun t => !t.isLocal
      let inner := ((partSpans raw).getLast?.map fun p =>
        (⟨here.start + p.start, here.start + p.stop⟩ : Span)).getD here
      global.map (fun t => s.emit (.qualified t column) .column inner) ++
        if decide (1 < all.length) && !global.isEmpty then
          [.ambiguity ⟨extent s.chars inner, column, global, scope.candidates, scope.aliases,
            slice s.chars scope.span⟩]
        else []

def bare (s : Source) (catalog : Catalog) (claimed : List Span) (line : Span) : List Emission :=
  let found := findAll (fun _ cs => (identifier? false cs).map fun n => (n, n - 1)) line.start
    (slice s.masked line)
  let words := found.map fun f => spanAfter f.offset (dropBytes f.offset s.masked) 0 f.value
  (words.filter (mayBeColumn s claimed line)).flatMap (bareEmissions s catalog)

def lineEmissions (s : Source) (catalog : Catalog) (line : Span) : List Emission :=
  let t := tables s line
  let c := calls s line
  let q := qualified s (t.claimed ++ c.claimed) line
  t.emissions ++ c.emissions ++ q.emissions ++
    bare s catalog (t.claimed ++ c.claimed ++ q.claimed) line

def parameterEmissions (s : Source) (r : Routine) : List Emission :=
  (r.parameters ++ r.usages).map fun v => s.emit v.name .parameter v.span

/-- All emissions of a file: those of its lines, then the parameters of its routines. -/
def emissions (s : Source) (catalog : Catalog) : List Emission :=
  (lines s.chars).flatMap (fun l => lineEmissions s catalog l.span) ++
    s.scopes.routines.flatMap (parameterEmissions s)

end SqlAtlas.Usage
