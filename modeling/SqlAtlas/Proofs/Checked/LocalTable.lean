import SqlAtlas.Proofs.Checked.Access
import SqlAtlas.Scope.Routine

/-!
# Local tables of a routine, checked

The columns of a local table are read from the block behind its name, or from the select list in
front of `INTO`, both found by their indices among the tokens of the routine.
-/

namespace SqlAtlas.Checked

set_option autoImplicit false

open Routine

def rowNames (depth : Nat) (rowStart : Bool) : List Token → Except Fault (List Name)
  | [] => return []
  | .openParen :: rest => rowNames (depth + 1) rowStart rest
  | .closeParen :: rest => do
    let outer ← sub depth 1
    if outer = 0 then return [] else rowNames outer rowStart rest
  | .comma :: rest => rowNames depth (rowStart || depth == 1) rest
  | t :: rest =>
    if rowStart && depth == 1 then
      match t with
      | .word value quote =>
        if quote.isNone && Keyword.isConstraintWord value then rowNames depth false rest
        else do
          let names ← rowNames depth false rest
          return Name.ofChars value :: names
      | _ => rowNames depth false rest
    else rowNames depth rowStart rest

def blockNames (toks : List Token) (start : Nat) : Except Fault (Option (List Name)) :=
  if toks[start]? == some .openParen then do
    let block ← sublist toks start toks.length
    let names ← rowNames 0 true block
    return some names
  else return none

def selectIndex (toks : List Token) (depth : Nat) : Nat → Except Fault (Option Nat)
  | 0 => return none
  | n + 1 => do
    match ← get toks n with
    | .closeParen => selectIndex toks (depth + 1) n
    | .openParen => selectIndex toks (depth - 1) n
    | t =>
      if depth == 0 && t.isKeyword "SELECT" then return some n else selectIndex toks depth n

/-- The pieces between commas outside parentheses of the `n` tokens from the index `i` on; the first
piece starts at the index `start`. -/
def commaPieces (toks : List Token) (depth start i : Nat) : Nat → Except Fault (List (List Token))
  | 0 => do
    let last ← sublist toks start i
    return [last]
  | n + 1 => do
    let t ← get toks i
    if t == .comma && depth == 0 then
      let piece ← sublist toks start i
      let more ← commaPieces toks 0 (i + 1) (i + 1) n
      return piece :: more
    else commaPieces toks (Statement.depthAfter depth t) start (i + 1) n

def selectedNames (toks : List Token) (into : Nat) : Except Fault (List Name) := do
  match ← selectIndex toks 0 into with
  | none => return []
  | some i =>
    let items ← commaPieces toks 0 (i + 1) (i + 1) (into - (i + 1))
    return ((items.filterMap outputName?).filter fun n => !Keyword.isReserved n).map Name.ofChars

def followsInsertion (toks : List Token) (i : Nat) : Except Fault Bool :=
  if i = 0 then return false
  else do
    let before ← sub i 1
    let t ← get toks before
    return t.isKeyword "INSERT" || t.isKeyword "MERGE"

def tableNamed (name : Option (List Char)) (columns : Except Fault (Option (List Name))) :
    Except Fault (Option (Name × List Name)) :=
  match name with
  | none => return none
  | some name => do
    let columns ← columns
    return columns.map fun c => (Name.ofChars name, c)

/-- The columns of the block at the index `start` behind a word that announces it. -/
def announcedNames (toks : List Token) (announced : Bool) (start : Nat) :
    Except Fault (Option (List Name)) :=
  if announced then blockNames toks start else return none

def insertedNames (toks : List Token) (start : Nat) : Except Fault (Option (List Name)) := do
  let columns ← blockNames toks start
  return some (columns.getD [])

def localAt (toks : List Token) (i : Nat) (t : Token) : Except Fault (Option (Name × List Name)) :=
  let rest := toks.drop (i + 1)
  let isAt (n : Nat) (keyword : String) := (rest.drop n).head?.any (·.isKeyword keyword)
  if t.isKeyword "DECLARE" then
    let j := if isAt 1 "AS" then 2 else 1
    tableNamed (wordAt? (startsWith '@') rest) (announcedNames toks (isAt j "TABLE") (i + 1 + (j + 1)))
  else if t.isKeyword "CREATE" && isAt 0 "TABLE" then
    tableNamed (wordAt? (startsWith '#') (rest.drop 1)) (blockNames toks (i + 1 + 2))
  else if t.isKeyword "RETURNS" then
    tableNamed (wordAt? (startsWith '@') rest) (announcedNames toks (isAt 1 "TABLE") (i + 1 + 2))
  else if t.isKeyword "INSERT" then
    let j := if isAt 0 "INTO" then 1 else 0
    tableNamed (wordAt? isLocalSpelling (rest.drop j)) (insertedNames toks (i + 1 + (j + 1)))
  else if t.isKeyword "INTO" then do
    if ← followsInsertion toks i then return none
    else tableNamed (wordAt? (startsWith '#') rest) (some <$> selectedNames toks i)
  else return none

def localsFrom (toks : List Token) (i : Nat) (acc : LocalTables) : List Token → Except Fault LocalTables
  | [] => return acc
  | t :: rest => do
    match ← localAt toks i t with
    | some (table, columns) => localsFrom toks (i + 1) (acc.add table columns) rest
    | none => localsFrom toks (i + 1) acc rest

/-! ### Blocks -/

theorem rowNames_eq {depth : Nat} (hdepth : 1 ≤ depth) (rowStart : Bool) (toks : List Token) :
    rowNames depth rowStart toks = pure (Routine.rowNames depth rowStart toks) := by
  induction toks generalizing depth rowStart with
  | nil => rfl
  | cons t toks ih =>
    cases t with
    | openParen => exact ih (Nat.le_add_left 1 _) rowStart
    | closeParen =>
      rw [rowNames, Routine.rowNames, sub_of_le hdepth, pure_bind]
      by_cases hlast : depth ≤ 1
      · rw [if_pos (by omega), if_pos hlast]
      · rw [if_neg (by omega), if_neg hlast, ih (by omega)]
    | comma => exact ih hdepth _
    | word value quote =>
      rw [rowNames, Routine.rowNames, ih hdepth, ih hdepth]
      split
      · split <;> rfl
      · rfl
    | _ =>
      rw [rowNames, Routine.rowNames, ih hdepth, ih hdepth]
      · split <;> rfl
      all_goals nofun

theorem blockNames_eq (toks : List Token) (start : Nat) :
    blockNames toks start = pure (blockNames? (toks.drop start)) := by
  rw [blockNames]
  cases hrest : toks.drop start with
  | nil =>
    rw [List.getElem?_eq_none (List.drop_eq_nil_iff.mp hrest)]
    rfl
  | cons t rest =>
    have hlt : start < toks.length := by
      rw [← Nat.not_le, ← List.drop_eq_nil_iff, hrest]
      exact List.cons_ne_nil t rest
    have ht : toks[start]? = some t := by
      rw [← Nat.add_zero start, ← List.getElem?_drop, hrest]
      rfl
    rw [ht, sublist_of_le (Nat.le_of_lt hlt) (Nat.le_refl _), pure_bind, List.extract_eq_take_drop,
      hrest, List.take_of_length_le (by rw [← hrest, List.length_drop])]
    by_cases hopen : t = .openParen
    · subst hopen
      rw [if_pos (by rfl), rowNames, rowNames_eq (Nat.le_refl _), pure_bind]
      rfl
    · rw [if_neg (by simpa using hopen), blockNames?]
      rintro _ heq
      exact hopen (List.cons.inj heq).1

/-! ### Select lists -/

theorem selectList_eq_some {depth : Nat} {acc near found : List Token}
    (h : Routine.selectList depth acc near = some found) :
    ∃ lead t, near.reverse ++ acc = lead ++ t :: found := by
  induction near generalizing depth acc with
  | nil => cases h
  | cons t near ih =>
    have hskip : ∀ depth', Routine.selectList depth' (t :: acc) near = some found →
        ∃ lead t', (t :: near).reverse ++ acc = lead ++ t' :: found := by
      intro depth' h
      obtain ⟨lead, t', hsplit⟩ := ih h
      exact ⟨lead, t', by rw [← hsplit, List.reverse_cons, List.append_assoc, List.singleton_append]⟩
    rw [Routine.selectList.eq_def] at h
    simp only at h
    split at h
    · exact hskip _ h
    · exact hskip _ h
    · split at h
      · cases h
        exact ⟨near.reverse, t, by simp⟩
      · exact hskip _ h

/-- The index of the token in front of a select list is found from the number of its tokens. -/
theorem selectIndex_eq (depth : Nat) (near acc tail : List Token) :
    selectIndex (near.reverse ++ (acc ++ tail)) depth near.length =
      pure ((Routine.selectList depth acc near).map fun found => near.length + acc.length - (found.length + 1)) := by
  induction near generalizing depth acc with
  | nil => rfl
  | cons t near ih =>
    have hshift : (t :: near).reverse ++ (acc ++ tail) = near.reverse ++ (t :: acc ++ tail) := by simp
    have hget : get (near.reverse ++ (t :: acc ++ tail)) near.length = pure t :=
      get_of_eq (by simp)
    have hcount : near.length + (t :: acc).length = near.length + 1 + acc.length := by
      simp only [List.length_cons]
      omega
    have hskip := fun depth' => ih depth' (t :: acc)
    rw [hcount] at hskip
    rw [Routine.selectList.eq_def, List.length_cons, selectIndex, hshift, hget, pure_bind]
    have hfound : near.length + 1 + acc.length - (acc.length + 1) = near.length := by omega
    cases t with
    | closeParen => exact hskip _
    | openParen => exact hskip _
    | _ =>
      simp only [hskip]
      split
      · rw [Option.map_some, hfound]
      · rfl

/-- The pieces behind what is already read of the first one. -/
theorem commaPieces_eq (depth : Nat) (lead done rest tail : List Token) :
    ∃ piece more, Routine.commaPieces depth rest = piece :: more ∧
      commaPieces (lead ++ (done ++ (rest ++ tail))) depth lead.length (lead.length + done.length)
        rest.length = pure ((done ++ piece) :: more) := by
  induction rest generalizing depth lead done with
  | nil =>
    refine ⟨[], [], rfl, ?_⟩
    rw [List.length_nil, commaPieces, List.nil_append, sublist_append, pure_bind, List.append_nil]
  | cons t rest ih =>
    have hget : get (lead ++ (done ++ (t :: rest ++ tail))) (lead.length + done.length) = pure t := by
      rw [← List.append_assoc, ← List.length_append]
      exact get_length (lead ++ done) t (rest ++ tail)
    rw [List.length_cons, commaPieces, hget, pure_bind, Routine.commaPieces]
    by_cases hcomma : (t == .comma && depth == 0) = true
    · rw [if_pos hcomma, if_pos hcomma, sublist_append, pure_bind]
      obtain ⟨piece, more, hpieces, heq⟩ := ih 0 (lead ++ done ++ [t]) []
      rw [Bool.and_eq_true, beq_iff_eq, beq_iff_eq] at hcomma
      refine ⟨[], piece :: more, by rw [hcomma.2, hpieces], ?_⟩
      have hshift : lead ++ done ++ [t] ++ ([] ++ (rest ++ tail)) = lead ++ (done ++ (t :: rest ++ tail)) := by
        simp
      have hlength : (lead ++ done ++ [t]).length = lead.length + done.length + 1 := by
        simp only [List.length_append, List.length_singleton]
      rw [hshift, hlength, List.length_nil, Nat.add_zero, List.nil_append] at heq
      rw [heq, pure_bind, List.append_nil]
    · rw [if_neg hcomma, if_neg hcomma]
      obtain ⟨piece, more, hpieces, heq⟩ := ih (Statement.depthAfter depth t) lead (done ++ [t])
      have hshift : lead ++ (done ++ [t] ++ (rest ++ tail)) = lead ++ (done ++ (t :: rest ++ tail)) := by
        simp
      have hlength : lead.length + (done ++ [t]).length = lead.length + done.length + 1 := by
        simp [Nat.add_assoc]
      rw [hshift, hlength, List.append_assoc, List.singleton_append] at heq
      exact ⟨t :: piece, more, by rw [hpieces], heq⟩

theorem selectedNames_eq (before rest : List Token) :
    selectedNames (before.reverse ++ rest) before.length = pure (Routine.selectedNames before) := by
  have hindex := selectIndex_eq 0 before [] rest
  rw [List.nil_append, List.length_nil, Nat.add_zero] at hindex
  rw [selectedNames, hindex, pure_bind, Routine.selectedNames]
  cases hfound : Routine.selectList 0 [] before with
  | none => rfl
  | some found =>
    obtain ⟨lead, t, hsplit⟩ := selectList_eq_some hfound
    rw [List.append_nil] at hsplit
    obtain ⟨piece, more, hpieces, heq⟩ := commaPieces_eq 0 (lead ++ [t]) [] found rest
    have hlength := congrArg List.length hsplit
    simp only [List.length_reverse, List.length_append, List.length_cons] at hlength
    have hstart : before.length - (found.length + 1) + 1 = (lead ++ [t]).length := by
      rw [List.length_append, List.length_singleton]
      omega
    have hsteps : before.length - (lead ++ [t]).length = found.length := by
      rw [List.length_append, List.length_singleton]
      omega
    have htoks : lead ++ [t] ++ ([] ++ (found ++ rest)) = before.reverse ++ rest := by
      rw [hsplit]
      simp
    rw [htoks, List.length_nil, Nat.add_zero, List.nil_append] at heq
    simp only [Option.map_some, hstart, hsteps, heq, pure_bind, hpieces]

/-! ### Local tables -/

theorem followsInsertion_eq (before rest : List Token) :
    followsInsertion (before.reverse ++ rest) before.length =
      pure (before.head?.any fun p => p.isKeyword "INSERT" || p.isKeyword "MERGE") := by
  cases before with
  | nil => rfl
  | cons p before =>
    have hget : (((p :: before).reverse ++ rest)[before.length]?) = some p := by simp
    rw [followsInsertion, List.length_cons, if_neg (Nat.succ_ne_zero _), sub_of_le (Nat.le_add_left 1 _),
      pure_bind, Nat.add_sub_cancel, get_of_eq hget, pure_bind]
    rfl

theorem tableNamed_pure (name : Option (List Char)) (columns : Option (List Name)) :
    tableNamed name (pure columns) =
      pure (name.bind fun n => columns.bind fun c => some (Name.ofChars n, c)) := by
  cases name with
  | none => rfl
  | some n => cases columns <;> rfl

theorem localAt_eq (before : List Token) (t : Token) (rest : List Token) :
    localAt (before.reverse ++ t :: rest) before.length t = pure (localAt? before t rest) := by
  have hrest : (before.reverse ++ t :: rest).drop (before.length + 1) = rest := by
    rw [← List.length_reverse, List.drop_append]
    simp
  have hblock : ∀ n, blockNames (before.reverse ++ t :: rest) (before.length + 1 + n) =
      pure (blockNames? (rest.drop n)) := by
    intro n
    rw [blockNames_eq, ← List.drop_drop, hrest]
  have hannounced : ∀ announced n, announcedNames (before.reverse ++ t :: rest) announced
      (before.length + 1 + n) = pure (if announced then blockNames? (rest.drop n) else none) := by
    intro announced n
    rw [announcedNames, hblock]
    cases announced <;> rfl
  have hcolumns : ∀ (announced : Bool) (name : List Char) (columns : Option (List Name)),
      ((if announced then columns else none).bind fun c => some (Name.ofChars name, c)) =
        if announced then columns.bind fun c => some (Name.ofChars name, c)
        else (none : Option (List Name)).bind fun c => some (Name.ofChars name, c) := by
    intro announced name columns
    cases announced <;> rfl
  simp only [localAt, localAt?, hrest, hblock, hannounced, insertedNames, pure_bind, map_pure,
    tableNamed_pure, followsInsertion_eq, selectedNames_eq, hcolumns]
  split
  · rfl
  split
  · rfl
  split
  · rfl
  split
  · rfl
  split
  · split <;> rfl
  · rfl

theorem localsFrom_eq (before : List Token) (acc : LocalTables) (rest : List Token) :
    localsFrom (before.reverse ++ rest) before.length acc rest =
      pure (Routine.localsFrom before acc rest) := by
  induction rest generalizing before acc with
  | nil => rfl
  | cons t rest ih =>
    have hshift : before.reverse ++ t :: rest = (t :: before).reverse ++ rest := by simp
    rw [localsFrom, localAt_eq, pure_bind, Routine.localsFrom, hshift]
    cases localAt? before t rest with
    | none => exact ih (t :: before) acc
    | some found => exact ih (t :: before) _

end SqlAtlas.Checked
