import SqlAtlas.Proofs.Checked.Access
import SqlAtlas.Scope.Clause

/-!
# Table clauses, checked

Table clauses are read by looking ahead, which cannot fail, except that a parenthesised block is
skipped with a count of its open parentheses. The count is taken down only inside the block, where it
is at least one.
-/

namespace SqlAtlas.Checked

set_option autoImplicit false

open Clause

/-- The number of tokens up to the parenthesis that closes `depth` open ones, or all of them. -/
def balancedFrom (depth : Nat) : List Token → Except Fault Nat
  | [] => return 0
  | .openParen :: rest => do
    let n ← balancedFrom (depth + 1) rest
    return n + 1
  | .closeParen :: rest => do
    let outer ← sub depth 1
    if outer = 0 then return 1
    else
      let n ← balancedFrom outer rest
      return n + 1
  | _ :: rest => do
    let n ← balancedFrom depth rest
    return n + 1

def balanced : List Token → Except Fault Nat
  | .openParen :: rest => balancedFrom 0 (.openParen :: rest)
  | _ => return 0

def hints (toks : List Token) : Except Fault Nat :=
  if frontIs "WITH" toks && (toks.drop 1).head? == some .openParen then do
    let n ← balanced (toks.drop 1)
    return n + 1
  else return 0

def rowAmount (toks : List Token) : Except Fault Nat :=
  if toks.head? == some .openParen then balanced toks else return 1

def rowLimit (toks : List Token) : Except Fault Nat :=
  if frontIs "TOP" toks then do
    let n ← rowAmount (toks.drop 1)
    return n + 1 + optionalWord "PERCENT" ((toks.drop 1).drop n)
  else return 0

def tableFactor (ctes : List (List Char)) (toks : List Token) : Except Fault Read :=
  match objectName toks with
  | none => return ([], 0)
  | some (raw, n) =>
    let rest := toks.drop n
    if rest.head? == some .openParen then do
      let m ← balanced rest
      let r := subqueryBinding (rest.drop m)
      return (r.1, n + m + r.2)
    else if ctes.contains (Text.lower raw) then
      let r := subqueryBinding rest
      return (r.1, n + r.2)
    else do
      let h ← hints rest
      let after := rest.drop h
      let a := aliasLength after
      let trailing ← hints (after.drop a)
      return ([.table raw (aliasOf after)], n + h + a + trailing)

def tableFactors (ctes : List (List Char)) (toks : List Token) : Except Fault Read := do
  let r ← tableFactor ctes toks
  match h : toks.drop r.2 with
  | .comma :: rest =>
    let more ← tableFactors ctes rest
    return (r.1 ++ more.1, r.2 + 1 + more.2)
  | _ => return r
termination_by toks.length
decreasing_by
  have hl := congrArg List.length h
  simp only [List.length_drop, List.length_cons] at hl
  omega

def target (word : Option String) (bind : List Char → Binding) (toks : List Token) :
    Except Fault Read := do
  let n ← rowLimit toks
  let m := n + (word.map fun w => optionalWord w (toks.drop n)).getD 0
  match objectName (toks.drop m) with
  | some (raw, k) => return ([bind raw], m + k)
  | none => return ([], m)

def mergeTarget (toks : List Token) : Except Fault Read := do
  let n ← rowLimit toks
  let m := n + optionalWord "INTO" (toks.drop n)
  match objectName (toks.drop m) with
  | some (raw, k) =>
    let h ← hints (toks.drop (m + k))
    let after := toks.drop (m + k + h)
    return ([.table raw (aliasOf after)], m + k + h + aliasLength after)
  | none => return ([], m)

def clauseAt (ctes : List (List Char)) (t : Token) (rest : List Token) : Except Fault Read :=
  if t.isKeyword "FROM" then tableFactors ctes rest
  else if t.isKeyword "JOIN" || t.isKeyword "APPLY" then tableFactor ctes rest
  else if t.isKeyword "UPDATE" && rest.head? != some .openParen then
    target none .target rest
  else if t.isKeyword "INSERT" then target (some "INTO") (.table · none) rest
  else if t.isKeyword "DELETE" then do
    let n ← rowLimit rest
    if frontIs "FROM" (rest.drop n) then return ([], n) else target none .target rest
  else if t.isKeyword "MERGE" then mergeTarget rest
  else if t.isKeyword "USING" then tableFactor ctes rest
  else if t == .closeParen then return subqueryBinding rest
  else if t.isKeyword "INTO" then return ([], ((objectName rest).map (·.2)).getD 0)
  else return ([], 0)

def bindings (ctes : List (List Char)) : List Token → Except Fault (List Binding)
  | [] => return []
  | t :: rest => do
    let r ← clauseAt ctes t rest
    let more ← bindings ctes (rest.drop r.2)
    return r.1 ++ more
termination_by toks => toks.length
decreasing_by simp only [List.length_cons, List.length_drop]; omega

def cteNames (toks : List Token) : Except Fault (List (List Char)) :=
  match toks with
  | [] => return []
  | t :: rest =>
    match t.identifier? with
    | none => return []
    | some name => do
      let columns ← balanced rest
      let rest := rest.drop columns
      if frontIs "AS" rest && (rest.drop 1).head? == some .openParen then
        let body ← balanced (rest.drop 1)
        match (rest.drop 1).drop body with
        | .comma :: _ =>
          let more ← cteNames (rest.drop (body + 2))
          return name :: more
        | _ => return [name]
      else return []
termination_by toks.length
decreasing_by simp only [List.length_cons, List.length_drop]; omega

def leadingCtes (toks : List Token) : Except Fault (List (List Char)) :=
  if frontIs "WITH" toks then cteNames (toks.drop 1) else return []

def sources (toks : List Token) : Except Fault Sources := do
  let ctes ← leadingCtes toks
  let named : Sources := { aliases := ctes.foldl AliasMap.bindSubquery {} }
  let found ← bindings (ctes.map Text.lower) toks
  return found.foldl Sources.bindTarget (found.foldl Sources.bind named)

/-! ### Blocks -/

theorem balancedFrom_eq {depth : Nat} (hdepth : 1 ≤ depth) (toks : List Token) :
    balancedFrom depth toks = pure (Clause.balancedFrom depth toks) := by
  induction toks generalizing depth with
  | nil => rfl
  | cons t toks ih =>
    cases t with
    | openParen => rw [balancedFrom, Clause.balancedFrom, ih (Nat.le_add_left 1 _), pure_bind]
    | closeParen =>
      rw [balancedFrom, Clause.balancedFrom, sub_of_le hdepth, pure_bind]
      by_cases hlast : depth ≤ 1
      · rw [if_pos (by omega), if_pos hlast]
      · rw [if_neg (by omega), if_neg hlast, ih (by omega), pure_bind]
    | _ =>
      rw [balancedFrom, Clause.balancedFrom, ih hdepth, pure_bind]
      all_goals nofun

theorem balanced_eq (toks : List Token) : balanced toks = pure (Clause.balanced toks) := by
  cases toks with
  | nil => rfl
  | cons t rest =>
    cases t with
    | openParen => rw [balanced, balancedFrom, balancedFrom_eq (Nat.le_refl _), pure_bind, Clause.balanced]
    | _ => rfl

theorem hints_eq (toks : List Token) : hints toks = pure (Clause.hints toks) := by
  rw [hints, Clause.hints]
  split
  · rw [balanced_eq, pure_bind]
  · rfl

theorem rowLimit_eq (toks : List Token) : rowLimit toks = pure (Clause.rowLimit toks) := by
  have hamount : ∀ toks, rowAmount toks =
      pure (if toks.head? == some .openParen then Clause.balanced toks else 1) := by
    intro toks
    rw [rowAmount]
    split
    · exact balanced_eq toks
    · rfl
  rw [rowLimit, Clause.rowLimit]
  split
  · rw [hamount, pure_bind]
  · rfl

/-! ### Clauses -/

theorem tableFactor_eq (ctes : List (List Char)) (toks : List Token) :
    tableFactor ctes toks = pure (Clause.tableFactor ctes toks) := by
  rw [tableFactor, Clause.tableFactor]
  cases objectName toks with
  | none => rfl
  | some found =>
    simp only [balanced_eq, hints_eq, pure_bind]
    split
    · rfl
    · split <;> rfl

theorem tableFactors_eq (ctes : List (List Char)) (toks : List Token) :
    tableFactors ctes toks = pure (Clause.tableFactors ctes toks) := by
  fun_induction Clause.tableFactors ctes toks with
  | case1 toks r rest h more ih =>
    rw [tableFactors, tableFactor_eq, pure_bind]
    split
    · rename_i rest' hcomma
      obtain rfl : rest = rest' := (List.cons.inj (h.symm.trans hcomma)).2
      rw [ih, pure_bind]
    · rename_i hno
      exact absurd h (hno rest)
  | case2 toks r hno =>
    rw [tableFactors, tableFactor_eq, pure_bind]
    split
    · rename_i rest hcomma
      exact absurd hcomma (hno rest)
    · rfl

theorem target_eq (word : Option String) (bind : List Char → Binding) (toks : List Token) :
    target word bind toks = pure (Clause.target word bind toks) := by
  simp only [target, Clause.target, rowLimit_eq, pure_bind]
  split <;> simp [*]

theorem mergeTarget_eq (toks : List Token) : mergeTarget toks = pure (Clause.mergeTarget toks) := by
  simp only [mergeTarget, Clause.mergeTarget, rowLimit_eq, hints_eq, pure_bind]
  split <;> simp [*]

theorem clauseAt_eq (ctes : List (List Char)) (t : Token) (rest : List Token) :
    clauseAt ctes t rest = pure (Clause.clauseAt ctes t rest) := by
  simp only [clauseAt, Clause.clauseAt, tableFactors_eq, tableFactor_eq, target_eq, rowLimit_eq,
    mergeTarget_eq, pure_bind]
  repeat' split
  all_goals rfl

theorem bindings_eq (ctes : List (List Char)) (toks : List Token) :
    bindings ctes toks = pure (Clause.bindings ctes toks) := by
  fun_induction Clause.bindings ctes toks with
  | case1 => rw [bindings]
  | case2 t rest r ih => rw [bindings, clauseAt_eq, pure_bind, ih, pure_bind]

theorem cteNames_eq (toks : List Token) : cteNames toks = pure (Clause.cteNames toks) := by
  fun_induction Clause.cteNames toks with
  | case1 => rw [cteNames]
  | case2 t rest hnone =>
    rw [cteNames]
    simp only [hnone]
  | case3 t rest name hname behind hbody after hcomma ih =>
    simp only [behind] at hbody hcomma ih ⊢
    rw [cteNames]
    simp only [hname, balanced_eq, pure_bind, if_pos hbody, hcomma, ih]
  | case4 t rest name hname behind hbody hlast =>
    simp only [behind] at hbody hlast
    rw [cteNames]
    simp only [hname, balanced_eq, pure_bind, if_pos hbody]
  | case5 t rest name hname behind hbody =>
    simp only [behind] at hbody
    rw [cteNames]
    simp only [hname, balanced_eq, pure_bind, if_neg hbody]

theorem sources_eq (toks : List Token) : sources toks = pure (Clause.sources toks) := by
  have hctes : leadingCtes toks =
      pure (if frontIs "WITH" toks then Clause.cteNames (toks.drop 1) else []) := by
    rw [leadingCtes]
    split
    · exact cteNames_eq _
    · rfl
  rw [sources, Clause.sources, hctes, pure_bind, bindings_eq, pure_bind]

end SqlAtlas.Checked
