import SqlAtlas.Proofs.Checked.File
import SqlAtlas.Proofs.Checked.Name
import SqlAtlas.Proofs.Reference.Place
import SqlAtlas.Reference.Extraction

/-!
# Usages, checked

Every line is cut out of the masked text and searched. A find is a place of the masked text, and what
is written there is cut out of the text itself: no cut fails, since finds are solid.
-/

namespace SqlAtlas.Checked

set_option autoImplicit false

open Text Pattern Usage

/-- The next character that is neither a space nor a tab, among all later bytes. -/
def next (s : Source) (n : Nat) : Except Fault (Option Char) := do
  bytes s.masked ⟨n, size s.masked⟩
  return s.next? n

def previous (s : Source) (n : Nat) : Except Fault (Option Char) := do
  bytes s.masked ⟨0, n⟩
  return s.previous? n

def emit (s : Source) (name : Name) (kind : ReferenceKind) (here : Span) : Except Fault Emission := do
  let place ← extent s.chars here
  return .reference ⟨name, s.uri, place, kind⟩

def emitLast (s : Source) (name : Name) (kind : ReferenceKind) (raw : List Char) (start : Nat) :
    Except Fault (Option Emission) := do
  let spans ← partSpans raw
  match spans.getLast?.filter fun p => !p.isEmpty with
  | none => return none
  | some p =>
    let e ← emit s name kind ⟨start + p.start, start + p.stop⟩
    return some e

/-! ### Tables and routines -/

def tableName (s : Source) (line : Span) (f : Found Nat) : Except Fault (Option Span) := do
  let after := f.offset + size ((dropBytes f.offset s.masked).take f.value)
  let rest ← slice s.masked ⟨after, line.stop⟩
  match someBlanks? rest with
  | none => return none
  | some b =>
    match dottedName? false 3 (rest.drop b) with
    | none => return none
    | some n =>
      let raw ← slice s.chars (spanAfter after rest b n)
      return if isBareKeyword raw then none else some (spanAfter after rest b n)

def tableNames (s : Source) (line : Span) : Except Fault (List Span) := do
  let text ← slice s.masked line
  (findAll tableWord? line.start text).filterMapM (tableName s line)

def isRebound (s : Source) (name : Name) (n : Nat) : Except Fault Bool := do
  match ← scopeAt s.scopes n with
  | none => return false
  | some scope =>
    match scope.aliases.get? name.chars with
    | some .subquery => return true
    | some (.table t) => return t.unqualified != name.unqualified
    | none => return false

def tableEmission (s : Source) (here : Span) : Except Fault (Option Emission) := do
  if (← next s here.stop) == some '(' then return none
  else
    let raw ← slice s.chars here
    if (Name.ofChars raw).isLocal then return none
    else if ← isRebound s (Name.ofChars raw) here.start then return none
    else emitLast s (Name.ofChars raw) .table raw here.start

def tables (s : Source) (line : Span) : Except Fault Reading := do
  let names ← tableNames s line
  let found ← names.filterMapM (tableEmission s)
  return ⟨found, names⟩

def callNames (s : Source) (line : Span) : Except Fault (List Span) := do
  let text ← slice s.masked line
  return (findAll call? line.start text).map fun f =>
    spanAfter f.offset (dropBytes f.offset s.masked) f.value.1 f.value.2

def callEmission (s : Source) (here : Span) : Except Fault (Option Emission) := do
  let raw ← slice s.chars here
  if raw.head? == some '@' || isBareKeyword raw then return none
  else emitLast s (Name.ofChars raw) .routine raw here.start

def calls (s : Source) (line : Span) : Except Fault Reading := do
  let names ← callNames s line
  let found ← names.filterMapM (callEmission s)
  return ⟨found, names⟩

/-! ### Qualified columns -/

def claimQualified (s : Source) (claimed : List Span) : List (Found Nat) → Except Fault (List Span)
  | [] => return []
  | f :: rest => do
    let r := spanAfter f.offset (dropBytes f.offset s.masked) 0 f.value
    if overlaps claimed r then claimQualified s claimed rest
    else
      let before ← charBefore s.masked r.start
      if before.any fun c => isNamePart c || c == '.' then claimQualified s claimed rest
      else
        let more ← claimQualified s (r :: claimed) rest
        return r :: more

def qualifier (spans : List Span) (parts : List (List Char)) :
    Except Fault (Option (List Char × Span)) :=
  match parts with
  | [q, _] => do
    let last ← get spans 1
    return some (q, last)
  | [q, t, _] => do
    let last ← get spans 2
    return some (q ++ '.' :: t, last)
  | _ => return none

def qualifierTable (s : Source) (key : Name) (parts : Nat) (n : Nat) : Except Fault (Option Name) := do
  let scope ← scopeAt s.scopes n
  match scope.bind (·.aliases.get? key.chars) <|> s.scopes.aliases.get? key.chars with
  | some (.table t) => return some t
  | some .subquery => return none
  | none => return if parts == 3 then some key else none

/-- The reference of the last of some parts, at its place `last` in a name, to the table that the
parts before stand for. -/
def columnOf (s : Source) (here : Span) (q : List Char) (parts : List (List Char)) (last : Span) :
    Except Fault (Option Emission) :=
  if isLocalSpelling q then return none
  else do
    match ← qualifierTable s (Name.ofChars q) parts.length here.start with
    | none => return none
    | some table =>
      if table.isLocal then return none
      else
        let i ← sub parts.length 1
        let column ← get parts i
        let e ← emit s (.qualified table (Name.ofChars column)) .column
          ⟨here.start + last.start, here.start + last.stop⟩
        return some e

def qualifiedEmission (s : Source) (here : Span) : Except Fault (Option Emission) := do
  if (← next s here.stop) == some '(' then return none
  else
    let raw ← slice s.chars here
    let spans ← partSpans raw
    let parts ← spans.mapM (slice raw)
    match ← qualifier spans parts with
    | none => return none
    | some (q, last) => columnOf s here q parts last

def qualified (s : Source) (claimed : List Span) (line : Span) : Except Fault Reading := do
  let text ← slice s.masked line
  let names ← claimQualified s claimed (findAll (fun _ cs => qualifiedName? cs) line.start text)
  let found ← names.filterMapM (qualifiedEmission s)
  return ⟨found, names⟩

/-! ### Bare columns -/

def mayBeColumn (s : Source) (claimed : List Span) (line here : Span) : Except Fault Bool := do
  let word ← slice s.masked here
  if word.head? == some '@' || word.head? == some '#' || word.head? == some '$' then return false
  else if isBareKeyword word then return false
  else if overlaps claimed here then return false
  else
    let before ← charBefore s.masked here.start
    if before.any fun c => c == '.' || c == '@' || c == '#' || c == '$' then return false
    else if (← previous s here.start) == some '.' then return false
    else
      let ahead ← next s here.stop
      if ahead.any fun c => c == '.' || c == '(' || c == '\'' then return false
      else
        let lead ← slice s.masked ⟨line.start, here.start⟩
        return !followsAs lead.reverse &&
          !(!isDelimited word && (Keyword.isTypeWord word || Keyword.isWord "KEY" word) &&
            followsTypeContext lead.reverse)

def bareEmissions (s : Source) (catalog : Catalog) (here : Span) : Except Fault (List Emission) := do
  match ← scopeAt s.scopes here.start with
  | none => return []
  | some scope =>
    let raw ← slice s.chars here
    let column := Name.ofChars raw
    if column.isEmpty || scope.aliases.isExplicit column.chars then return []
    else
      let all := owners catalog scope column
      let global := all.filter fun t => !t.isLocal
      let spans ← partSpans raw
      let place ← extent s.chars ((spans.getLast?.map fun p =>
        (⟨here.start + p.start, here.start + p.stop⟩ : Span)).getD here)
      return global.map (fun t => .reference ⟨.qualified t column, s.uri, place, .column⟩) ++
        if decide (1 < all.length) && !global.isEmpty then
          [.ambiguity ⟨place, column, global, scope.candidates, scope.aliases,
            Text.slice s.chars scope.span⟩]
        else []

def wordEmissions (s : Source) (catalog : Catalog) (claimed : List Span) (line here : Span) :
    Except Fault (List Emission) := do
  if ← mayBeColumn s claimed line here then bareEmissions s catalog here else return []

def bare (s : Source) (catalog : Catalog) (claimed : List Span) (line : Span) :
    Except Fault (List Emission) := do
  let text ← slice s.masked line
  let found := findAll (fun _ cs => (identifier? false cs).map fun n => (n, n - 1)) line.start text
  let emitted ← found.mapM fun f =>
    wordEmissions s catalog claimed line (spanAfter f.offset (dropBytes f.offset s.masked) 0 f.value)
  return emitted.flatten

/-! ### Files -/

def lineEmissions (s : Source) (catalog : Catalog) (line : Span) : Except Fault (List Emission) := do
  let t ← tables s line
  let c ← calls s line
  let q ← qualified s (t.claimed ++ c.claimed) line
  let b ← bare s catalog (t.claimed ++ c.claimed ++ q.claimed) line
  return t.emissions ++ c.emissions ++ q.emissions ++ b

def parameterEmissions (s : Source) (r : Routine) : Except Fault (List Emission) :=
  (r.parameters ++ r.usages).mapM fun v => emit s v.name .parameter v.span

/-- All emissions of a file; every line is read, also behind the limit. -/
def emissions (s : Source) (catalog : Catalog) : Except Fault (List Emission) := do
  let spans ← (List.range (lineStarts s.chars).length).filterMapM (lineSpan s.chars)
  let found ← spans.mapM (lineEmissions s catalog)
  let parameters ← s.scopes.routines.mapM (parameterEmissions s)
  return found.flatten ++ parameters.flatten

def extractReferences (uri : String) (cs : List Char) (scopes : FileScopes) (catalog : Catalog)
    (limit : Nat) : Except Fault Extraction := do
  let masked ← maskCommentsAndLiterals cs
  let found ← emissions ⟨uri, cs, masked, scopes⟩ catalog
  return Extraction.ofEmissions limit found

/-! ### References -/

theorem emit_eq (s : Source) (name : Name) (kind : ReferenceKind) (here : Span) :
    emit s name kind here = pure (s.emit name kind here) := by
  rw [emit, extent_eq, pure_bind, Source.emit]

theorem emitLast_eq (s : Source) (name : Name) (kind : ReferenceKind) (raw : List Char) (start : Nat) :
    emitLast s name kind raw start = pure ((lastPart? raw start).map fun p => s.emit name kind p) := by
  rw [emitLast, partSpans_eq, pure_bind, lastPart?]
  cases (SqlAtlas.partSpans raw).getLast?.filter fun p => !p.isEmpty with
  | none => rfl
  | some p => simp only [emit_eq, pure_bind, Option.map_some]

theorem isRebound_eq (s : Source) (name : Name) (n : Nat) :
    isRebound s name n = pure (Usage.isRebound s name n) := by
  rw [isRebound, scopeAt_eq, pure_bind, Usage.isRebound]
  cases s.scopes.scopeAt? n with
  | none => rfl
  | some scope =>
    simp only
    cases scope.aliases.get? name.chars with
    | none => rfl
    | some target => cases target <;> rfl

theorem qualifierTable_eq (s : Source) (key : Name) (parts n : Nat) :
    qualifierTable s key parts n = pure (qualifierTable? s key parts n) := by
  rw [qualifierTable, scopeAt_eq, pure_bind, qualifierTable?]
  split <;> simp [*]

theorem columnOf_eq (s : Source) (here : Span) (q : List Char) (init : List (List Char))
    (column : List Char) (last : Span) : columnOf s here q (init ++ [column]) last =
      pure (if isLocalSpelling q then none
        else (qualifierTable? s (Name.ofChars q) (init.length + 1) here.start).bind fun table =>
          if table.isLocal then none
          else some (s.emit (.qualified table (Name.ofChars column)) .column
            ⟨here.start + last.start, here.start + last.stop⟩)) := by
  rw [columnOf]
  split
  · rfl
  · rw [List.length_append, List.length_singleton, qualifierTable_eq, pure_bind]
    cases qualifierTable? s (Name.ofChars q) (init.length + 1) here.start with
    | none => rfl
    | some table =>
      simp only [sub_of_le (Nat.le_add_left 1 _), Nat.add_sub_cancel, get_length, emit_eq, pure_bind,
        Option.bind_some]
      split <;> rfl

section

variable {uri : String} {cs : List Char} {scopes : FileScopes} {line here : Span}

/-! ### Names -/

theorem next_eq (h : NameIn (.ofText uri cs scopes) line here) :
    next (.ofText uri cs scopes) here.stop = pure ((Source.ofText uri cs scopes).next? here.stop) := by
  obtain ⟨word, hword, _⟩ := h.piece
  rw [next, bytes_of_le hword.stop_le_size (Nat.le_refl _), pure_bind]

theorem previous_eq (h : NameIn (.ofText uri cs scopes) line here) :
    previous (.ofText uri cs scopes) here.start =
      pure ((Source.ofText uri cs scopes).previous? here.start) := by
  obtain ⟨word, hword, _⟩ := h.piece
  rw [previous, bytes_of_le (Nat.zero_le _) hword.boundary_start.le_size, pure_bind]

theorem charBefore_eq (h : NameIn (.ofText uri cs scopes) line here) :
    charBefore (Source.ofText uri cs scopes).masked here.start =
      pure (charBefore? (Source.ofText uri cs scopes).masked here.start) := by
  obtain ⟨word, hword, _⟩ := h.piece
  exact charBefore_boundary hword.boundary_start

theorem slice_name (h : NameIn (.ofText uri cs scopes) line here) :
    slice (Source.ofText uri cs scopes).chars here =
      pure (Text.slice (Source.ofText uri cs scopes).chars here) := by
  obtain ⟨raw, hraw, _⟩ := h.spelling
  have hcut : slice cs here = pure (Text.slice cs here) := by rw [slice_piece hraw, hraw.slice_eq]
  exact hcut

theorem tableEmission_eq (h : NameIn (.ofText uri cs scopes) line here) :
    tableEmission (.ofText uri cs scopes) here = pure (tableEmission? (.ofText uri cs scopes) here) := by
  rw [tableEmission, next_eq h, pure_bind, slice_name h, tableEmission?]
  simp only [isRebound_eq, emitLast_eq, pure_bind]
  repeat' split
  all_goals simp_all

theorem callEmission_eq (h : NameIn (.ofText uri cs scopes) line here) :
    callEmission (.ofText uri cs scopes) here = pure (callEmission? (.ofText uri cs scopes) here) := by
  rw [callEmission, slice_name h, pure_bind, emitLast_eq, callEmission?]
  split <;> rfl

theorem qualifiedEmission_eq (h : NameIn (.ofText uri cs scopes) line here) :
    qualifiedEmission (.ofText uri cs scopes) here =
      pure (qualifiedEmission? (.ofText uri cs scopes) here) := by
  rw [qualifiedEmission, next_eq h, pure_bind, slice_name h, qualifiedEmission?]
  simp only [partSpans_eq, slices_partSpans, pure_bind]
  split
  · rfl
  -- only names of two or three parts have a qualifier; the others are let go on both sides
  · generalize Text.slice (Source.ofText uri cs scopes).chars here = raw
    match SqlAtlas.partSpans raw with
    | [] => rfl
    | [_] => rfl
    | [q, c] =>
      have hlast : get [q, c] 1 = pure c := rfl
      have hcolumn := columnOf_eq (.ofText uri cs scopes) here (Text.slice raw q) [Text.slice raw q]
        (Text.slice raw c) c
      rw [List.singleton_append] at hcolumn
      simp only [List.map_cons, List.map_nil, qualifier, hlast, hcolumn, pure_bind]
      rfl
    | [q, t, c] =>
      have hlast : get [q, t, c] 2 = pure c := rfl
      have hcolumn := columnOf_eq (.ofText uri cs scopes) here
        (Text.slice raw q ++ '.' :: Text.slice raw t) [Text.slice raw q, Text.slice raw t]
        (Text.slice raw c) c
      rw [List.cons_append, List.singleton_append] at hcolumn
      simp only [List.map_cons, List.map_nil, qualifier, hlast, hcolumn, pure_bind]
      rfl
    | _ :: _ :: _ :: _ :: _ => rfl

theorem mayBeColumn_eq (h : NameIn (.ofText uri cs scopes) line here)
    (hline : IsBoundary (Source.ofText uri cs scopes).masked line.start) (claimed : List Span) :
    mayBeColumn (.ofText uri cs scopes) claimed line here =
      pure (Usage.mayBeColumn (.ofText uri cs scopes) claimed line here) := by
  obtain ⟨word, hword, _⟩ := h.piece
  -- the text in front of the word, from the start of its line
  have hlead := isPiece_of_boundaries hline hword.boundary_start h.after_start
  rw [mayBeColumn, slice_piece hword, pure_bind, Usage.mayBeColumn, hword.slice_eq]
  simp only [charBefore_eq h, previous_eq h, next_eq h, slice_piece hlead, pure_bind]
  repeat' split
  all_goals simp_all only [Bool.not_eq_true, Bool.not_true, Bool.not_false, Bool.false_and,
    Bool.true_and, Bool.and_false, Bool.and_assoc]

theorem bareEmissions_eq (h : NameIn (.ofText uri cs scopes) line here) (catalog : Catalog) :
    bareEmissions (.ofText uri cs scopes) catalog here =
      pure (Usage.bareEmissions (.ofText uri cs scopes) catalog here) := by
  rw [bareEmissions, scopeAt_eq, pure_bind, Usage.bareEmissions]
  cases (Source.ofText uri cs scopes).scopes.scopeAt? here.start with
  | none => rfl
  | some scope =>
    simp only [slice_name h, partSpans_eq, extent_eq, pure_bind]
    split <;> rfl

theorem claimQualified_eq (claimed : List Span) {found : List (Found Nat)}
    (hfound : ∀ f ∈ found, NameIn (.ofText uri cs scopes) line
      (spanAfter f.offset (dropBytes f.offset (Source.ofText uri cs scopes).masked) 0 f.value)) :
    claimQualified (.ofText uri cs scopes) claimed found =
        pure (Usage.claimQualified (.ofText uri cs scopes) claimed found) ∧
      ∀ here ∈ Usage.claimQualified (.ofText uri cs scopes) claimed found,
        NameIn (.ofText uri cs scopes) line here := by
  -- what is claimed grows along the finds, and each find is a name whether it is claimed or not
  induction found generalizing claimed with
  | nil => exact ⟨rfl, by simp [Usage.claimQualified]⟩
  | cons f found ih =>
    have hf := hfound f List.mem_cons_self
    have hlater := fun claimed => ih claimed fun g hg => hfound g (List.mem_cons_of_mem f hg)
    rw [claimQualified, Usage.claimQualified]
    generalize spanAfter f.offset (dropBytes f.offset (Source.ofText uri cs scopes).masked) 0 f.value =
      here at hf
    simp only [charBefore_eq hf, pure_bind, Bool.or_eq_true]
    by_cases hmeets : overlaps claimed here = true
    · simp only [if_pos hmeets, if_pos (Or.inl hmeets)]
      exact hlater claimed
    by_cases hruns : (charBefore? (Source.ofText uri cs scopes).masked here.start).any
        (fun c => isNamePart c || c == '.') = true
    · simp only [if_neg hmeets, if_pos hruns, if_pos (Or.inr hruns)]
      exact hlater claimed
    · obtain ⟨hmore, hnames⟩ := hlater (here :: claimed)
      simp only [if_neg hmeets, if_neg hruns, if_neg (not_or.mpr ⟨hmeets, hruns⟩), hmore, pure_bind]
      exact ⟨trivial, List.forall_mem_cons.mpr ⟨hf, hnames⟩⟩

/-! ### Lines -/

section

variable {before text after : List Char}
  (hmasked : (Source.ofText uri cs scopes).masked = before ++ (text ++ after))

include hmasked

theorem line_piece :
    IsPiece (Source.ofText uri cs scopes).masked ⟨size before, size before + size text⟩ text :=
  ⟨before, after, hmasked, rfl⟩

theorem tables_eq : tables (.ofText uri cs scopes) ⟨size before, size before + size text⟩ =
    pure (Usage.tables (.ofText uri cs scopes) ⟨size before, size before + size text⟩) := by
  have hnames : tableNames (.ofText uri cs scopes) ⟨size before, size before + size text⟩ =
      pure (Usage.tableNames (.ofText uri cs scopes) ⟨size before, size before + size text⟩) := by
    have htext := line_piece hmasked
    rw [tableNames, slice_piece htext, pure_bind, Usage.tableNames, htext.slice_eq]
    refine filterMapM_pure_of_forall fun f hf => ?_
    obtain ⟨lead, behind, hline, hafter, hbehind⟩ := behind_tableWord hmasked hf
    simp only [tableName, hafter, slice_piece hbehind, hbehind.slice_eq, pure_bind]
    cases hb : someBlanks? behind with
    | none => rfl
    | some b =>
      simp only [Option.bind_eq_bind, Option.bind_some]
      cases hn : dottedName? false 3 (behind.drop b) with
      | none => rfl
      | some n =>
        simp only [slice_name (nameIn_behind hmasked hline hn), pure_bind, Option.bind_some]
  rw [tables, hnames, pure_bind, filterMapM_pure_of_forall fun here hhere =>
    tableEmission_eq (nameIn_of_mem_tableNames hmasked hhere), pure_bind, Usage.tables]

theorem calls_eq : calls (.ofText uri cs scopes) ⟨size before, size before + size text⟩ =
    pure (Usage.calls (.ofText uri cs scopes) ⟨size before, size before + size text⟩) := by
  have hnames : callNames (.ofText uri cs scopes) ⟨size before, size before + size text⟩ =
      pure (Usage.callNames (.ofText uri cs scopes) ⟨size before, size before + size text⟩) := by
    have htext := line_piece hmasked
    rw [callNames, slice_piece htext, pure_bind, Usage.callNames, htext.slice_eq]
  rw [calls, hnames, pure_bind, filterMapM_pure_of_forall fun here hhere =>
    callEmission_eq (nameIn_of_mem_callNames hmasked hhere), pure_bind, Usage.calls]

theorem qualified_eq (claimed : List Span) :
    qualified (.ofText uri cs scopes) claimed ⟨size before, size before + size text⟩ =
      pure (Usage.qualified (.ofText uri cs scopes) claimed ⟨size before, size before + size text⟩) := by
  have htext := line_piece hmasked
  obtain ⟨hclaims, hnames⟩ := claimQualified_eq claimed fun f hf =>
    nameIn_of_find_qualified hmasked hf
  rw [qualified, slice_piece htext, pure_bind, hclaims, pure_bind, filterMapM_pure_of_forall
    fun here hhere => qualifiedEmission_eq (hnames here hhere), pure_bind, Usage.qualified,
    htext.slice_eq]

theorem bare_eq (catalog : Catalog) (claimed : List Span) :
    bare (.ofText uri cs scopes) catalog claimed ⟨size before, size before + size text⟩ =
      pure (Usage.bare (.ofText uri cs scopes) catalog claimed
        ⟨size before, size before + size text⟩) := by
  have htext := line_piece hmasked
  have hword : ∀ f ∈ findAll (fun _ cs => (identifier? false cs).map fun n => (n, n - 1))
      (size before) text, ∀ here, here =
        spanAfter f.offset (dropBytes f.offset (Source.ofText uri cs scopes).masked) 0 f.value →
      wordEmissions (.ofText uri cs scopes) catalog claimed ⟨size before, size before + size text⟩ here =
        pure (if Usage.mayBeColumn (.ofText uri cs scopes) claimed
            ⟨size before, size before + size text⟩ here
          then Usage.bareEmissions (.ofText uri cs scopes) catalog here else []) := by
    rintro f hf here rfl
    obtain ⟨lead, word, tail, hline, hsolid, _, _, hspan⟩ := word_of_find hmasked hf
    have hname := nameIn_of_split hmasked hline hsolid
    rw [hspan, wordEmissions, mayBeColumn_eq hname htext.boundary_start, pure_bind,
      bareEmissions_eq hname]
    split <;> rfl
  rw [bare, slice_piece htext, pure_bind, Usage.bare, htext.slice_eq, flatMap_filter, List.flatMap_map,
    List.flatMap_def]
  simp only [mapM_pure_of_forall fun f hf => hword f hf _ rfl, pure_bind]

end

theorem lineEmissions_eq (catalog : Catalog) {l : Text.Line} (hl : l ∈ lines cs) :
    lineEmissions (.ofText uri cs scopes) catalog l.span =
      pure (Usage.lineEmissions (.ofText uri cs scopes) catalog l.span) := by
  obtain ⟨before, text, after, hmasked, hspan⟩ := masked_line hl
  rw [hspan, lineEmissions, tables_eq hmasked, pure_bind, calls_eq hmasked, pure_bind,
    qualified_eq hmasked, pure_bind, bare_eq hmasked, pure_bind, Usage.lineEmissions]

/-! ### Files -/

theorem lineSpans_eq (cs : List Char) : (List.range (lineStarts cs).length).filterMapM (lineSpan cs) =
    pure ((lines cs).map (·.span)) := by
  rw [filterMapM_pure_of_forall fun i _ => lineSpan_eq cs i, lineStarts_eq, List.length_map,
    ← List.map_filterMap, filterMap_range_getElem?]

theorem parameterEmissions_eq (s : Source) (r : Routine) :
    parameterEmissions s r = pure (Usage.parameterEmissions s r) :=
  mapM_pure_of_forall fun v _ => emit_eq s v.name .parameter v.span

theorem emissions_eq (catalog : Catalog) : emissions (.ofText uri cs scopes) catalog =
    pure (Usage.emissions (.ofText uri cs scopes) catalog) := by
  have hspans : (List.range (lineStarts (Source.ofText uri cs scopes).chars).length).filterMapM
      (lineSpan (Source.ofText uri cs scopes).chars) = pure ((lines cs).map (·.span)) := lineSpans_eq cs
  have hlines : ((lines cs).map (·.span)).mapM (lineEmissions (.ofText uri cs scopes) catalog) =
      pure (((lines cs).map (·.span)).map (Usage.lineEmissions (.ofText uri cs scopes) catalog)) := by
    refine mapM_pure_of_forall fun span hspan => ?_
    obtain ⟨l, hl, rfl⟩ := List.mem_map.mp hspan
    exact lineEmissions_eq catalog hl
  rw [emissions, hspans, pure_bind, hlines, pure_bind,
    mapM_pure_of_forall fun r _ => parameterEmissions_eq _ r, pure_bind, ← List.flatMap_def,
    ← List.flatMap_def, List.flatMap_map]
  rfl

theorem extractReferences_eq (catalog : Catalog) (limit : Nat) :
    extractReferences uri cs scopes catalog limit =
      pure (SqlAtlas.extractReferences uri cs scopes catalog limit) := by
  have hsource : (⟨uri, cs, Text.maskCommentsAndLiterals cs, scopes⟩ : Source) =
      .ofText uri cs scopes := rfl
  rw [extractReferences, maskCommentsAndLiterals_eq, pure_bind, hsource, emissions_eq, pure_bind,
    SqlAtlas.extractReferences]

end

end SqlAtlas.Checked
