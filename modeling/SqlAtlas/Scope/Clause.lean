import SqlAtlas.Alias
import SqlAtlas.Keyword
import SqlAtlas.NameSet
import SqlAtlas.Token

/-!
# Table clauses of a statement

A statement is read as a list of tokens. Every recogniser says how many tokens it uses. The clauses
that name row sources give bindings, and folding the bindings gives the statement's aliases and its
candidate tables.
-/

namespace SqlAtlas.Clause

set_option autoImplicit false

/-- The number of tokens up to the parenthesis that closes `depth` open ones, or all of them. -/
def balancedFrom (depth : Nat) : List Token → Nat
  | [] => 0
  | .openParen :: rest => balancedFrom (depth + 1) rest + 1
  | .closeParen :: rest => if depth ≤ 1 then 1 else balancedFrom (depth - 1) rest + 1
  | _ :: rest => balancedFrom depth rest + 1

/-- The number of tokens of the parenthesised block at the front, if there is one. -/
def balanced : List Token → Nat
  | .openParen :: rest => balancedFrom 1 rest + 1
  | _ => 0

def frontIs (keyword : String) (toks : List Token) : Bool :=
  toks.head?.any (·.isKeyword keyword)

def optionalWord (keyword : String) (toks : List Token) : Nat :=
  if frontIs keyword toks then 1 else 0

/-- The rest of a dotted name, and the number of its tokens. Repeated dots count as one. -/
def nameRest (dotted : Bool) : List Token → List Char × Nat
  | .period :: rest =>
    let r := nameRest true rest
    (r.1, r.2 + 1)
  | .word value _ :: rest =>
    if dotted then
      let r := nameRest false rest
      ('.' :: value ++ r.1, r.2 + 1)
    else ([], 0)
  | _ => ([], 0)

/-- A possibly qualified name; a bare keyword is none. -/
def objectName : List Token → Option (List Char × Nat)
  | .word value quote :: rest =>
    if quote.isNone && Keyword.isReserved value then none
    else
      let r := nameRest false rest
      some (value ++ r.1, r.2 + 1)
  | _ => none

def isAliasWord : Token → Bool
  | .word _ (some _) => true
  | .word value none =>
    value.head? != some '@' && !Keyword.stopsAlias value && !Keyword.startsStatement value
  | _ => false

def tableAlias (toks : List Token) : Option (List Char × Nat) :=
  let n := optionalWord "AS" toks
  match (toks.drop n).head? with
  | some t => if isAliasWord t then t.identifier?.map fun v => (v, n + 1) else none
  | none => none

def aliasOf (toks : List Token) : Option (List Char) := (tableAlias toks).map (·.1)

def aliasLength (toks : List Token) : Nat := ((tableAlias toks).map (·.2)).getD 0

def hints (toks : List Token) : Nat :=
  if frontIs "WITH" toks && (toks.drop 1).head? == some .openParen then
    balanced (toks.drop 1) + 1
  else 0

def rowLimit (toks : List Token) : Nat :=
  if frontIs "TOP" toks then
    let rest := toks.drop 1
    let n := if rest.head? == some .openParen then balanced rest else 1
    n + 1 + optionalWord "PERCENT" (rest.drop n)
  else 0

inductive Binding where
  /-- A row source that is a table. -/
  | table (raw : List Char) (label : Option (List Char))
  /-- A row source that is no table. -/
  | subquery (label : List Char)
  /-- The target of a change, which may be an alias bound anywhere in the statement. -/
  | target (raw : List Char)
deriving DecidableEq, Repr

abbrev Read := List Binding × Nat

/-- The binding of an optional alias of a row source that is no table. -/
def subqueryBinding (toks : List Token) : Read :=
  ((aliasOf toks).toList.map .subquery, aliasLength toks)

/-- One row source. A parenthesised one is left alone, so that its inside is read like the rest of
the statement and its alias found behind its closing parenthesis. -/
def tableFactor (ctes : List (List Char)) (toks : List Token) : Read :=
  match objectName toks with
  | none => ([], 0)
  | some (raw, n) =>
    let rest := toks.drop n
    if rest.head? == some .openParen then
      let m := balanced rest
      let r := subqueryBinding (rest.drop m)
      (r.1, n + m + r.2)
    else if ctes.contains (Text.lower raw) then
      let r := subqueryBinding rest
      (r.1, n + r.2)
    else
      let h := hints rest
      let after := rest.drop h
      let a := aliasLength after
      ([.table raw (aliasOf after)], n + h + a + hints (after.drop a))

def tableFactors (ctes : List (List Char)) (toks : List Token) : Read :=
  let r := tableFactor ctes toks
  match h : toks.drop r.2 with
  | .comma :: rest =>
    let more := tableFactors ctes rest
    (r.1 ++ more.1, r.2 + 1 + more.2)
  | _ => r
termination_by toks.length
decreasing_by
  have hl := congrArg List.length h
  simp only [List.length_drop, List.length_cons] at hl
  omega

def target (word : Option String) (bind : List Char → Binding) (toks : List Token) : Read :=
  let n := rowLimit toks
  let m := n + (word.map fun w => optionalWord w (toks.drop n)).getD 0
  match objectName (toks.drop m) with
  | some (raw, k) => ([bind raw], m + k)
  | none => ([], m)

def mergeTarget (toks : List Token) : Read :=
  let n := rowLimit toks
  let m := n + optionalWord "INTO" (toks.drop n)
  match objectName (toks.drop m) with
  | some (raw, k) =>
    let h := hints (toks.drop (m + k))
    let after := toks.drop (m + k + h)
    ([.table raw (aliasOf after)], m + k + h + aliasLength after)
  | none => ([], m)

/-- The clause that the token `t` opens in front of `rest`, its own token not counted. -/
def clauseAt (ctes : List (List Char)) (t : Token) (rest : List Token) : Read :=
  if t.isKeyword "FROM" then tableFactors ctes rest
  else if t.isKeyword "JOIN" || t.isKeyword "APPLY" then tableFactor ctes rest
  else if t.isKeyword "UPDATE" && rest.head? != some .openParen then
    target none .target rest
  else if t.isKeyword "INSERT" then target (some "INTO") (.table · none) rest
  else if t.isKeyword "DELETE" then
    let n := rowLimit rest
    if frontIs "FROM" (rest.drop n) then ([], n) else target none .target rest
  else if t.isKeyword "MERGE" then mergeTarget rest
  else if t.isKeyword "USING" then tableFactor ctes rest
  else if t == .closeParen then subqueryBinding rest
  else if t.isKeyword "INTO" then ([], ((objectName rest).map (·.2)).getD 0)
  else ([], 0)

def bindings (ctes : List (List Char)) : List Token → List Binding
  | [] => []
  | t :: rest =>
    let r := clauseAt ctes t rest
    r.1 ++ bindings ctes (rest.drop r.2)
termination_by toks => toks.length
decreasing_by simp only [List.length_cons, List.length_drop]; omega

def cteNames (toks : List Token) : List (List Char) :=
  match toks with
  | [] => []
  | t :: rest =>
    match t.identifier? with
    | none => []
    | some name =>
      let rest := rest.drop (balanced rest)
      if frontIs "AS" rest && (rest.drop 1).head? == some .openParen then
        match (rest.drop 1).drop (balanced (rest.drop 1)) with
        | .comma :: _ => name :: cteNames (rest.drop (balanced (rest.drop 1) + 2))
        | _ => [name]
      else []
termination_by toks.length
decreasing_by simp only [List.length_cons, List.length_drop]; omega

structure Sources where
  aliases : AliasMap := {}
  candidates : NameSet := []
deriving DecidableEq, Repr

namespace Sources

/-- Adds a table under its alias and under its own name. -/
def addTable (s : Sources) (raw : List Char) (label : Option (List Char)) : Sources :=
  let table := Name.ofChars raw
  if table.isEmpty then s
  else
    let named := match label with
      | some a => s.aliases.bindTable a table
      | none => s.aliases
    ⟨named.bindTable table.unqualified table, NameSet.insert table s.candidates⟩

/-- Takes a binding in; targets wait for the end of the statement. -/
def bind (s : Sources) : Binding → Sources
  | .table raw label => s.addTable raw label
  | .subquery label => { s with aliases := s.aliases.bindSubquery label }
  | .target _ => s

/-- Resolves the target of a change: an alias stands for its table, anything else for itself. -/
def bindTarget (s : Sources) : Binding → Sources
  | .target raw =>
    match s.aliases.get? raw with
    | some (.table t) => { s with candidates := NameSet.insert t s.candidates }
    | some .subquery => s
    | none => s.addTable raw none
  | _ => s

end Sources

def sources (toks : List Token) : Sources :=
  let ctes := if frontIs "WITH" toks then cteNames (toks.drop 1) else []
  let named : Sources := { aliases := ctes.foldl AliasMap.bindSubquery {} }
  let found := bindings (ctes.map Text.lower) toks
  found.foldl Sources.bindTarget (found.foldl Sources.bind named)

end SqlAtlas.Clause
