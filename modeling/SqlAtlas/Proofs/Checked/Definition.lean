import SqlAtlas.Proofs.Checked.Block
import SqlAtlas.Proofs.Checked.Line
import SqlAtlas.Proofs.Checked.Name
import SqlAtlas.Proofs.Definition.Place

/-!
# Definitions, checked

What is found in the masked text is cut out of the masked text or, at the same place, out of the text
itself. No cut fails: rows and items are pieces of the masked text, and names are solid.
-/

namespace SqlAtlas.Checked

set_option autoImplicit false

open Text Pattern Definition

/-- The first whole word `word` outside parentheses among code characters. The bytes where it may
stand are read if they end within `stop`. -/
def wordIn (cs : List Char) (stop : Nat) (word : List Char) (depth : Nat) :
    List (Nat × Char) → Except Fault (Option Nat)
  | [] => pure none
  | (i, c) :: rest =>
    if depth == 0 && decide (i + size word ≤ stop) then do
      bytes cs ⟨i, i + size word⟩
      if wordAt cs stop word i then return some i
      else wordIn cs stop word (depthAfter depth c) rest
    else wordIn cs stop word (depthAfter depth c) rest

def findTopLevelWord (cs : List Char) (s : Span) (word : List Char) : Except Fault (Option Nat) := do
  let code ← codeIn cs s
  wordIn cs s.stop word 0 code

def blockRows (masked : List Char) (start : Nat) : Except Fault (Option (List Span)) :=
  if charAt? masked start == some '(' then do
    let close ← matchingParen masked start
    let rows ← splitTopLevel masked ⟨start + 1, close.getD (size masked)⟩
    return some rows
  else return none

def column (cs : List Char) (name : Span) (dataType : Option (List Char)) :
    Except Fault (Option ColumnDef) := do
  let raw ← slice cs name
  let spans ← partSpans raw
  match spans.getLast? with
  | none => return none
  | some inner =>
    let written ← slice raw inner
    let place ← extent cs ⟨name.start + inner.start, name.start + inner.stop⟩
    let key := Name.ofChars written
    if key.isEmpty then return none else return some ⟨key, written, dataType, place⟩

def rowColumn (masked cs : List Char) (row : Span) : Except Fault (Option ColumnDef) := do
  let text ← slice masked row
  match identifier? false text with
  | none => return none
  | some n =>
    let word := text.take n
    let rest ← sliceFrom text (size word)
    if !isDelimited word && Keyword.isConstraintWord word then return none
    else column cs (spanAfter row.start text 0 n) (typeAfter? rest)

def tableColumns (masked cs : List Char) (start : Nat) : Except Fault (List ColumnDef) := do
  match ← blockRows masked (skipBlanks masked start) with
  | none => return []
  | some rows =>
    let columns ← rows.filterMapM (rowColumn masked cs)
    return distinctColumns columns

def listedColumn (masked cs : List Char) (row : Span) : Except Fault (Option ColumnDef) := do
  let text ← slice masked row
  match identifier? false text with
  | none => return none
  | some n => column cs (spanAfter row.start text 0 n) none

def selectList (masked : List Char) (body : Span) : Except Fault (Option Span) := do
  match ← findTopLevelWord masked body "AS".toList with
  | none => return none
  | some a =>
    match ← findTopLevelWord masked ⟨a + 2, body.stop⟩ "SELECT".toList with
    | none => return none
    | some s =>
      let stop ← findTopLevelWord masked ⟨s + 6, body.stop⟩ "FROM".toList
      return some ⟨s + 6, stop.getD body.stop⟩

def selectItems (masked : List Char) (list : Span) : Except Fault (List Span) := do
  match ← splitTopLevel masked list with
  | first :: rest =>
    let text ← slice masked first
    return ⟨first.start + size (text.take (selectOptions text)), first.stop⟩ :: rest
  | [] => return []

def selectedColumn (masked cs : List Char) (item : Span) : Except Fault (Option ColumnDef) := do
  let _ ← slice masked item
  match outputName? masked item with
  | none => return none
  | some name => column cs name none

def viewColumns (masked cs : List Char) (body : Span) : Except Fault (List ColumnDef) := do
  match ← blockRows masked (skipBlanks masked body.start) with
  | some rows =>
    let columns ← rows.filterMapM (listedColumn masked cs)
    return distinctColumns columns
  | none =>
    match ← selectList masked body with
    | some list =>
      let items ← selectItems masked list
      let columns ← items.filterMapM (selectedColumn masked cs)
      return distinctColumns columns
    | none => return []

def contents (masked cs : List Char) (kind : List Char) (body : Span) :
    Except Fault (Option (SymbolKind × List ColumnDef)) :=
  if Keyword.oneOf ["PROCEDURE", "PROC"] kind then return some (.procedure, [])
  else if Keyword.isWord "FUNCTION" kind then return some (.function, [])
  else if Keyword.isWord "TABLE" kind then do
    let columns ← tableColumns masked cs body.start
    return some (.table, columns)
  else if Keyword.isWord "VIEW" kind then do
    let columns ← viewColumns masked cs body
    return some (.view, columns)
  else do
    let rest ← sliceFrom masked body.start
    match asTable? rest with
    | none => return none
    | some n =>
      let columns ← tableColumns masked cs (body.start + size (rest.take n))
      return some (.tableType, columns)

def symbol (uri : String) (masked cs : List Char) (bounds : List Nat) (h : Found Header) :
    Except Fault (Option SymbolDef) := do
  let span := h.value.name
  let raw ← slice cs span
  let name := Name.ofChars raw
  if name.isEmpty || name.chars.head? == some '#' then return none
  else
    match ← contents masked cs h.value.kindWord ⟨span.stop, statementEnd masked bounds h.offset⟩ with
    | none => return none
    | some (kind, columns) =>
      let spans ← partSpans raw
      let inner := (spans.getLast?.map fun s =>
        (⟨span.start + s.start, span.start + s.stop⟩ : Span)).getD span
      let place ← extent cs inner
      let written ← displayName raw
      return some ⟨name, written, uri, place, kind, columns⟩

def definitions (uri : String) (cs : List Char) : Except Fault (List SymbolDef) := do
  let masked ← maskCommentsAndLiterals cs
  (headers masked).filterMapM (symbol uri masked cs (boundaries masked))

/-! ### Columns -/

theorem findTopLevelWord_eq {cs : List Char} {s : Span} (hstop : s.stop ≤ size cs) (word : List Char) :
    findTopLevelWord cs s word = pure (findTopLevelWord? cs s word) := by
  have hword : ∀ depth ps, wordIn cs s.stop word depth ps = pure (Text.wordIn cs s.stop word depth ps) := by
    intro depth ps
    induction ps generalizing depth with
    | nil => rfl
    | cons p ps ih =>
      obtain ⟨i, c⟩ := p
      rw [wordIn, Text.wordIn]
      split
      · rename_i hfits
        rw [Bool.and_eq_true, decide_eq_true_eq] at hfits
        rw [bytes_of_le (Nat.le_add_right _ _) (Nat.le_trans hfits.2 hstop), pure_bind, hfits.1,
          Bool.true_and]
        split
        · rfl
        · exact ih _
      · rename_i hmisses
        rw [if_neg, ih]
        simp only [wordAt, Bool.and_eq_true, decide_eq_true_eq] at hmisses ⊢
        exact fun h => hmisses ⟨h.1, h.2.1.1.1⟩
  rw [findTopLevelWord, codeIn_eq, pure_bind]
  exact hword 0 (Text.codeIn cs s)

theorem blockRows_eq (masked : List Char) (start : Nat) :
    blockRows masked start = pure (blockRows? masked start) := by
  rw [blockRows, blockRows?]
  split
  · rw [matchingParen_eq, pure_bind, splitTopLevel_eq, pure_bind]
  · rfl

theorem column_eq {cs : List Char} {name : Span} {raw : List Char} (hname : IsPiece cs name raw)
    (dataType : Option (List Char)) : column cs name dataType = pure (column? cs name dataType) := by
  rw [column, column?, slice_piece hname, pure_bind, partSpans_eq, pure_bind, hname.slice_eq]
  cases hlast : (SqlAtlas.partSpans raw).getLast? with
  | none => rfl
  | some inner =>
    obtain ⟨kept, hkept⟩ := isPiece_of_mem_partSpans (List.mem_of_getLast? hlast)
    simp only [slice_piece hkept, extent_eq, pure_bind, hkept.slice_eq, Option.bind_eq_bind,
      Option.bind_some]
    split <;> rfl

section

variable {cs : List Char}

theorem rowColumn_eq {row : Span} {piece : List Char}
    (hrow : IsPiece (Text.maskCommentsAndLiterals cs) row piece) :
    rowColumn (Text.maskCommentsAndLiterals cs) cs row =
      pure (rowColumn? (Text.maskCommentsAndLiterals cs) cs row) := by
  rw [rowColumn, rowColumn?, leading?, slice_piece hrow, pure_bind, hrow.slice_eq]
  cases hn : identifier? false piece with
  | none => rfl
  | some n =>
    obtain ⟨hword, hsolid⟩ := solid_leading hrow hn
    obtain ⟨raw, hraw, _⟩ := hsolid.unmasked hword
    have hrest : sliceFrom piece (size (piece.take n)) = pure (piece.drop n) := by
      have hdrop := (isPiece_whole piece).drop n
      rw [Nat.zero_add] at hdrop
      exact slice_piece hdrop
    have hbehind : Text.slice (Text.maskCommentsAndLiterals cs)
        ⟨(spanAfter row.start piece 0 n).stop, row.stop⟩ = piece.drop n := by
      have hstop : (spanAfter row.start piece 0 n).stop = row.start + size (piece.take n) := by
        simp [spanAfter]
      rw [hstop]
      exact (hrow.drop n).slice_eq
    simp only [hrest, pure_bind, Option.map_some, Option.bind_eq_bind, Option.bind_some,
      hword.slice_eq, hbehind, column_eq hraw]
    split <;> rfl

theorem listedColumn_eq {row : Span} {piece : List Char}
    (hrow : IsPiece (Text.maskCommentsAndLiterals cs) row piece) :
    listedColumn (Text.maskCommentsAndLiterals cs) cs row =
      pure ((leading? (Text.maskCommentsAndLiterals cs) row).bind fun name => column? cs name none) := by
  rw [listedColumn, leading?, slice_piece hrow, pure_bind, hrow.slice_eq]
  cases hn : identifier? false piece with
  | none => rfl
  | some n =>
    obtain ⟨hword, hsolid⟩ := solid_leading hrow hn
    obtain ⟨raw, hraw, _⟩ := hsolid.unmasked hword
    exact column_eq hraw none

theorem selectedColumn_eq {item : Span} {piece : List Char}
    (hitem : IsPiece (Text.maskCommentsAndLiterals cs) item piece) :
    selectedColumn (Text.maskCommentsAndLiterals cs) cs item =
      pure ((outputName? (Text.maskCommentsAndLiterals cs) item).bind fun name => column? cs name none) := by
  rw [selectedColumn, slice_piece hitem, pure_bind]
  cases hname : outputName? (Text.maskCommentsAndLiterals cs) item with
  | none => rfl
  | some name =>
    obtain ⟨_, _, word, hword, hsolid⟩ := outputName?_eq_some hitem hname
    obtain ⟨raw, hraw, _⟩ := hsolid.unmasked hword
    exact column_eq hraw none

/-! ### Definitions -/

theorem tableColumns_eq {start : Nat} (hstart : IsBoundary (Text.maskCommentsAndLiterals cs) start) :
    tableColumns (Text.maskCommentsAndLiterals cs) cs start =
      pure (Definition.tableColumns (Text.maskCommentsAndLiterals cs) cs start) := by
  rw [tableColumns, blockRows_eq, pure_bind, Definition.tableColumns]
  cases hrows : blockRows? (Text.maskCommentsAndLiterals cs)
    (skipBlanks (Text.maskCommentsAndLiterals cs) start) with
  | none => rfl
  | some rows =>
    simp only
    rw [filterMapM_pure_of_forall (g := rowColumn? (Text.maskCommentsAndLiterals cs) cs)]
    · rfl
    · intro row hrow
      obtain ⟨piece, hpiece⟩ := isPiece_of_blockRows? (isBoundary_skipBlanks hstart) hrows hrow
      exact rowColumn_eq hpiece

theorem selectList_eq {masked : List Char} {body : Span} (hstop : body.stop ≤ size masked) :
    selectList masked body = pure (selectList? masked body) := by
  have hrest : ∀ start word, findTopLevelWord masked ⟨start, body.stop⟩ word =
      pure (findTopLevelWord? masked ⟨start, body.stop⟩ word) := by
    intro start word
    exact findTopLevelWord_eq (s := ⟨start, body.stop⟩) hstop word
  rw [selectList, selectList?, hrest body.start, pure_bind]
  cases ha : findTopLevelWord? masked body "AS".toList with
  | none => rfl
  | some a =>
    simp only [hrest, pure_bind, Option.bind_eq_bind, Option.bind_some]
    cases hs : findTopLevelWord? masked ⟨a + 2, body.stop⟩ "SELECT".toList with
    | none => rfl
    | some s => rfl

theorem selectItems_eq {masked : List Char} {list : Span} (hstart : IsBoundary masked list.start)
    (hstop : IsBoundary masked list.stop) :
    selectItems masked list = pure (Definition.selectItems masked list) := by
  rw [selectItems, splitTopLevel_eq, pure_bind, Definition.selectItems]
  cases hitems : Text.splitTopLevel masked list with
  | nil => rfl
  | cons first rest =>
    obtain ⟨piece, hpiece, _⟩ := isPiece_of_mem_splitTopLevel hstart hstop
      (hitems ▸ List.mem_cons_self : first ∈ Text.splitTopLevel masked list)
    simp only [slice_piece hpiece, pure_bind, hpiece.slice_eq]

theorem viewColumns_eq {body : Span} (hstart : IsBoundary (Text.maskCommentsAndLiterals cs) body.start)
    (hstop : IsBoundary (Text.maskCommentsAndLiterals cs) body.stop) :
    viewColumns (Text.maskCommentsAndLiterals cs) cs body =
      pure (Definition.viewColumns (Text.maskCommentsAndLiterals cs) cs body) := by
  rw [viewColumns, blockRows_eq, pure_bind, Definition.viewColumns]
  cases hrows : blockRows? (Text.maskCommentsAndLiterals cs)
    (skipBlanks (Text.maskCommentsAndLiterals cs) body.start) with
  | some rows =>
    simp only
    rw [filterMapM_pure_of_forall]
    · rfl
    · intro row hrow
      obtain ⟨piece, hpiece⟩ := isPiece_of_blockRows? (isBoundary_skipBlanks hstart) hrows hrow
      exact listedColumn_eq hpiece
  | none =>
    simp only
    rw [selectList_eq hstop.le_size, pure_bind]
    cases hlist : selectList? (Text.maskCommentsAndLiterals cs) body with
    | none => rfl
    | some list =>
      obtain ⟨hfirst, hlast, _⟩ := selectList?_eq_some hstart hstop hlist
      simp only
      rw [selectItems_eq hfirst hlast, pure_bind, filterMapM_pure_of_forall]
      · rfl
      · intro item hitem
        obtain ⟨piece, hpiece⟩ := isPiece_of_mem_selectItems hfirst hlast hitem
        exact selectedColumn_eq hpiece

theorem contents_eq (kind : List Char) {body : Span}
    (hstart : IsBoundary (Text.maskCommentsAndLiterals cs) body.start)
    (hstop : IsBoundary (Text.maskCommentsAndLiterals cs) body.stop) :
    contents (Text.maskCommentsAndLiterals cs) cs kind body =
      pure (contents? (Text.maskCommentsAndLiterals cs) cs kind body) := by
  rw [contents, contents?]
  split
  · rfl
  split
  · rfl
  split
  · rw [tableColumns_eq hstart]
    rfl
  split
  · rw [viewColumns_eq hstart hstop]
    rfl
  rw [sliceFrom_boundary hstart, pure_bind]
  cases hn : asTable? (dropBytes body.start (Text.maskCommentsAndLiterals cs)) with
  | none => simp [hn]
  | some n =>
    simp only [hn, Option.map_some]
    rw [tableColumns_eq (hstart.add_take n)]
    rfl

theorem symbol_eq (uri : String) {bounds : List Nat}
    (hbounds : ∀ b ∈ bounds, IsBoundary (Text.maskCommentsAndLiterals cs) b) {h : Found Header}
    (hh : h ∈ headers (Text.maskCommentsAndLiterals cs)) :
    symbol uri (Text.maskCommentsAndLiterals cs) cs bounds h =
      pure (symbol? uri (Text.maskCommentsAndLiterals cs) cs bounds h) := by
  obtain ⟨_, word, hword, hsolid⟩ := solid_of_mem_headers hh
  obtain ⟨raw, hraw, _⟩ := hsolid.unmasked hword
  simp only [symbol, symbol?, slice_piece hraw, pure_bind, hraw.slice_eq]
  split
  · rfl
  · rw [contents_eq _ hword.boundary_stop (isBoundary_statementEnd hbounds h.offset), pure_bind]
    cases contents? (Text.maskCommentsAndLiterals cs) cs h.value.kindWord
      ⟨h.value.name.stop, statementEnd (Text.maskCommentsAndLiterals cs) bounds h.offset⟩ with
    | none => rfl
    | some found =>
      simp only [partSpans_eq, extent_eq, displayName_eq, pure_bind]
      rfl

end

theorem definitions_eq (uri : String) (cs : List Char) :
    definitions uri cs = pure (SqlAtlas.definitions uri cs) := by
  rw [definitions, maskCommentsAndLiterals_eq, pure_bind]
  exact filterMapM_pure_of_forall fun _ hh => symbol_eq uri (fun _ => isBoundary_of_mem_boundaries) hh

end SqlAtlas.Checked
