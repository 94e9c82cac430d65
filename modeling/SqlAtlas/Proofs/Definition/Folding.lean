import SqlAtlas.Proofs.Definition.Reading
import SqlAtlas.Proofs.Name.Folding
import SqlAtlas.Proofs.Pattern.Folding

/-!
# Definitions in any case

A text with its ASCII letters in lower case has the same definitions: what is written in them is in
lower case too, and nothing else changes. So texts that differ in the case of ASCII letters have
definitions of the same names and kinds at the same places, with the same columns.
-/

namespace SqlAtlas

set_option autoImplicit false

open Text Pattern

def ColumnDef.lower (c : ColumnDef) : ColumnDef :=
  { c with raw := asciiLower c.raw, dataType := c.dataType.map asciiLower }

def SymbolDef.lower (s : SymbolDef) : SymbolDef :=
  { s with raw := asciiLower s.raw, columns := s.columns.map ColumnDef.lower }

namespace Definition

/-! ### Headers and boundaries -/

def Header.lower (h : Header) : Header := { h with kindWord := asciiLower h.kindWord }

theorem orAlter_asciiLower : CaselessText orAlter := by
  refine optionally_asciiLower (chain?_asciiLower ?_)
  simp only [List.forall_mem_cons]
  exact ⟨keyword?_asciiLower _, someBlanks?_asciiLower, keyword?_asciiLower _,
    someBlanks?_asciiLower, nofun⟩

theorem kindWord?_asciiLower : CaselessText kindWord? := by
  intro cs
  simp only [kindWord?, keyword?_asciiLower _ cs, drop_asciiLower, someBlanks?_asciiLower _]

theorem header?_asciiLower (prev : Option Char) (cs : List Char) :
    header? (prev.map Char.toLower) (asciiLower cs) =
      (header? prev cs).map (Prod.map (Prod.map asciiLower id) id) := by
  have hcreate : CaselessText (chain? [keyword? "CREATE", someBlanks?]) := by
    apply chain?_asciiLower
    simp only [List.forall_mem_cons]
    exact ⟨keyword?_asciiLower _, someBlanks?_asciiLower, nofun⟩
  simp only [header?, isWordAt_map_toLower, hcreate cs, drop_asciiLower, take_asciiLower,
    orAlter_asciiLower _, kindWord?_asciiLower _, someBlanks?_asciiLower _,
    dottedName?_asciiLower _ _ _, Option.bind_eq_bind]
  split
  · rfl
  · simp only [Option.map_bind, Function.comp_def]
    rfl

theorem headers_asciiLower (masked : List Char) :
    headers (asciiLower masked) = (headers masked).map (Found.map Header.lower) := by
  have hfound : findAll header? 0 (asciiLower masked) =
      (findAll header? 0 masked).map (Found.map (Prod.map asciiLower id)) :=
    findAllFrom_asciiLower header?_asciiLower none 0 masked
  rw [headers, headers, hfound, List.map_map, List.map_map]
  refine List.map_congr_left fun f _ => ?_
  simp only [Function.comp_apply, Found.map, dropBytes_asciiLower, spanAfter_asciiLower]
  rfl

theorem isBatchLine_asciiLower : CaselessText isBatchLine := by
  have hblank : Caseless isLineBlank := by
    intro c
    simp (disch := decide) only [isLineBlank, toLower_beq]
  have hreturn : ∀ cs : List Char, (asciiLower cs == ['\r']) = (cs == ['\r']) := by
    intro cs
    cases cs with
    | nil => rfl
    | cons c cs =>
      rw [asciiLower_cons, List.cons_beq_cons, List.cons_beq_cons, toLower_beq (by decide)]
      cases cs <;> rfl
  intro line
  simp only [isBatchLine, hblank.dropWhile, word?_asciiLower _ _, drop_asciiLower]
  cases word? "GO".toList (line.dropWhile isLineBlank) with
  | none => rfl
  | some n =>
    simp only [caseless_isDigit.takeWhile, length_asciiLower, isEmpty_asciiLower]
    rw [← apply_ite asciiLower, hblank.dropWhile, isEmpty_asciiLower, hreturn]

theorem boundaries_asciiLower (masked : List Char) :
    boundaries (asciiLower masked) = boundaries masked := by
  rw [boundaries, boundaries, headers_asciiLower, List.map_map, lines, linesFrom_asciiLower,
    List.filter_map, List.map_map]
  congr 2
  exact List.filter_congr fun l _ => isBatchLine_asciiLower l.chars

theorem statementEnd_asciiLower (masked : List Char) (bounds : List Nat) (start : Nat) :
    statementEnd (asciiLower masked) bounds start = statementEnd masked bounds start := by
  rw [statementEnd, statementEnd, size_asciiLower]

/-! ### Sites -/

def Site.lower (s : Site) : Site := { s with dataType := s.dataType.map asciiLower }

theorem skipBlanks_asciiLower (masked : List Char) (start : Nat) :
    skipBlanks (asciiLower masked) start = skipBlanks masked start := by
  rw [skipBlanks, skipBlanks, dropBytes_asciiLower, caseless_isAsciiBlank.takeWhile,
    length_asciiLower]

theorem blockRows?_asciiLower (masked : List Char) (start : Nat) :
    blockRows? (asciiLower masked) start = blockRows? masked start := by
  simp only [blockRows?, charAt?_asciiLower, map_beq_some (show '('.isAlpha = false by decide),
    matchingParen?_asciiLower, size_asciiLower, splitTopLevel_asciiLower]

theorem typeAfter?_asciiLower (rest : List Char) :
    typeAfter? (asciiLower rest) = (typeAfter? rest).map asciiLower := by
  have htoken : Caseless fun c => !isBlank c && c != ',' && c != '(' && c != ')' := by
    intro c
    simp (disch := decide) only [bne, caseless_isBlank c, toLower_beq]
  have htwice : ∀ cs, asciiLower (asciiLower cs) = asciiLower cs := by
    intro cs
    rw [asciiLower, asciiLower, List.map_map]
    exact List.map_congr_left fun c _ => caseless_toLower c
  simp only [typeAfter?, blanks_asciiLower rest, drop_asciiLower, htoken.takeWhile,
    unwrapIdentifier_asciiLower, isEmpty_asciiLower, htwice]
  split <;> rfl

theorem leading?_asciiLower (masked : List Char) (row : Span) :
    leading? (asciiLower masked) row = leading? masked row := by
  simp only [leading?, slice_asciiLower, identifier?_asciiLower _ _, spanAfter_asciiLower]

theorem rowSite?_asciiLower (masked : List Char) (row : Span) :
    rowSite? (asciiLower masked) row = (rowSite? masked row).map Site.lower := by
  rw [rowSite?, rowSite?, leading?_asciiLower]
  cases leading? masked row with
  | none => rfl
  | some name =>
    simp only [slice_asciiLower, isDelimited_asciiLower, Keyword.isConstraintWord_asciiLower,
      typeAfter?_asciiLower, Option.bind_eq_bind, Option.bind_some]
    split
    · rw [Option.map_none]
    · rw [Option.map_some, Site.lower]

theorem tableSites_asciiLower (masked : List Char) (start : Nat) :
    tableSites (asciiLower masked) start = (tableSites masked start).map Site.lower := by
  rw [tableSites, tableSites, skipBlanks_asciiLower, blockRows?_asciiLower,
    funext (rowSite?_asciiLower masked), List.map_filterMap]

/-! ### Select lists -/

theorem rowAmount?_asciiLower : CaselessText rowAmount? := by
  intro cs
  cases cs with
  | nil => rfl
  | cons c rest =>
    have hinside : Caseless (· != ')') := by
      intro d
      simp (disch := decide) only [bne, toLower_beq]
    by_cases hc : c = '('
    · subst hc
      have hopen : asciiLower ('(' :: rest) = '(' :: asciiLower rest := rfl
      simp only [hopen, rowAmount?, hinside.takeWhile, length_asciiLower, drop_asciiLower,
        char?_asciiLower (show ')'.isAlpha = false by decide) _]
    · have hlower : c.toLower ≠ '(' := by
        rw [← beq_eq_false_iff_ne, toLower_beq (by decide), beq_eq_false_iff_ne]
        exact hc
      rw [asciiLower_cons, rowAmount?.eq_2 _ (by simpa using hlower),
        rowAmount?.eq_2 _ (by simpa using hc), ← asciiLower_cons, caseless_isDigit.takeWhile,
        length_asciiLower]

theorem selectOptions_asciiLower : CaselessText selectOptions := by
  have hquantifier : CaselessText quantifier? := by
    apply chain?_asciiLower
    simp only [List.forall_mem_cons]
    refine ⟨blanks?_asciiLower, fun cs => ?_, nofun⟩
    simp only [wholeKeyword?_asciiLower _ cs]
  have hpercent : CaselessText (chain? [someBlanks?, keyword? "PERCENT"]) := by
    apply chain?_asciiLower
    simp only [List.forall_mem_cons]
    exact ⟨someBlanks?_asciiLower, keyword?_asciiLower _, nofun⟩
  have hties : CaselessText (chain? [someBlanks?, keyword? "WITH", someBlanks?, keyword? "TIES"]) := by
    apply chain?_asciiLower
    simp only [List.forall_mem_cons]
    exact ⟨someBlanks?_asciiLower, keyword?_asciiLower _, someBlanks?_asciiLower,
      keyword?_asciiLower _, nofun⟩
  have hlimit : CaselessText rowLimit? := by
    apply chain?_asciiLower
    simp only [List.forall_mem_cons]
    exact ⟨blanks?_asciiLower, keyword?_asciiLower _, blanks?_asciiLower, rowAmount?_asciiLower,
      optional?_asciiLower hpercent, optional?_asciiLower hties, nofun⟩
  refine optionally_asciiLower (chain?_asciiLower ?_)
  simp only [List.forall_mem_cons]
  exact ⟨optional?_asciiLower hquantifier, optional?_asciiLower hlimit, blanks?_asciiLower, nofun⟩

theorem assignedName?_asciiLower : CaselessText assignedName? := by
  intro item
  simp (disch := decide) only [assignedName?, identifier?_asciiLower _ item, drop_asciiLower,
    blanks_asciiLower _, head?_asciiLower, map_beq_some, bne]

theorem namedAlias?_asciiLower (prev : Option Char) (skip : Nat) (cs : List Char) :
    namedAlias? (prev.map Char.toLower) skip (asciiLower cs) = namedAlias? prev skip cs := by
  have has : CaselessText (chain? [keyword? "AS", someBlanks?]) := by
    apply chain?_asciiLower
    simp only [List.forall_mem_cons]
    exact ⟨keyword?_asciiLower _, someBlanks?_asciiLower, nofun⟩
  induction cs generalizing prev skip with
  | nil => rfl
  | cons c cs ih =>
    have hlater := ih (some c) (skip + 1)
    rw [Option.map_some] at hlater
    rw [asciiLower_cons, namedAlias?, namedAlias?, hlater, ← asciiLower_cons]
    simp only [isWordAt_map_toLower, has (c :: cs), drop_asciiLower, identifier?_asciiLower _ _,
      caseless_isBlank.all]

theorem trailingName?_asciiLower (skip : Nat) : CaselessText (trailingName? skip) := by
  intro cs
  induction cs generalizing skip with
  | nil => rfl
  | cons c cs ih =>
    rw [asciiLower_cons, trailingName?, trailingName?, ih, ← asciiLower_cons]
    simp only [identifier?_asciiLower _ (c :: cs), drop_asciiLower, caseless_isBlank.all]

theorem outputName?_asciiLower (masked : List Char) (item : Span) :
    outputName? (asciiLower masked) item = outputName? masked item := by
  have halias : ∀ cs, namedAlias? none 0 (asciiLower cs) = namedAlias? none 0 cs :=
    namedAlias?_asciiLower none 0
  simp (disch := decide) only [outputName?, slice_asciiLower, assignedName?_asciiLower _, halias,
    trailingName?_asciiLower _ _, drop_asciiLower, take_asciiLower, isDelimited_asciiLower,
    Keyword.isReserved_asciiLower, head?_asciiLower, map_beq_some, spanAfter_asciiLower]

theorem selectList?_asciiLower (masked : List Char) (body : Span) :
    selectList? (asciiLower masked) body = selectList? masked body := by
  simp only [selectList?, findTopLevelWord?_asciiLower]

theorem selectItems_asciiLower (masked : List Char) (list : Span) :
    selectItems (asciiLower masked) list = selectItems masked list := by
  simp only [selectItems, splitTopLevel_asciiLower, slice_asciiLower, selectOptions_asciiLower _,
    take_asciiLower, size_asciiLower]

theorem viewSites_asciiLower (masked : List Char) (body : Span) :
    viewSites (asciiLower masked) body = (viewSites masked body).map Site.lower := by
  have hnames : viewNames (asciiLower masked) body = viewNames masked body := by
    rw [viewNames, skipBlanks_asciiLower, blockRows?_asciiLower, selectList?_asciiLower,
      funext (leading?_asciiLower masked), funext (outputName?_asciiLower masked),
      funext (selectItems_asciiLower masked), viewNames]
  rw [viewSites, viewSites, hnames, List.map_map]
  rfl

theorem sites?_asciiLower (masked kind : List Char) (body : Span) :
    sites? (asciiLower masked) (asciiLower kind) body =
      (sites? masked kind body).map (Prod.map id (List.map Site.lower)) := by
  have htable : CaselessText asTable? := by
    apply chain?_asciiLower
    simp only [List.forall_mem_cons]
    exact ⟨blanks?_asciiLower, keyword?_asciiLower _, someBlanks?_asciiLower,
      wholeKeyword?_asciiLower _, nofun⟩
  simp only [sites?, Keyword.oneOf_asciiLower, Keyword.isWord_asciiLower, tableSites_asciiLower,
    viewSites_asciiLower, dropBytes_asciiLower, htable _, take_asciiLower, size_asciiLower]
  split
  · rfl
  split
  · rfl
  split
  · rfl
  split
  · rfl
  rw [Option.map_map]
  rfl

/-! ### Definitions -/

theorem column?_asciiLower (cs : List Char) (s : Site) :
    s.lower.column? (asciiLower cs) = (s.column? cs).map ColumnDef.lower := by
  simp only [Site.column?, Site.lower, column?, slice_asciiLower, partSpans_asciiLower,
    Name.ofChars_asciiLower, extent_asciiLower, Option.bind_eq_bind, Option.map_bind]
  congr 1
  funext inner
  rw [Function.comp_apply]
  split <;> rfl

theorem columnsAt_asciiLower (cs : List Char) (sites : List Site) :
    columnsAt (asciiLower cs) (sites.map Site.lower) = (columnsAt cs sites).map ColumnDef.lower := by
  rw [columnsAt, columnsAt, ← distinctColumns_map ColumnDef.lower fun _ => rfl,
    List.filterMap_map, List.map_filterMap]
  exact congrArg distinctColumns (congrArg (List.filterMap · sites) (funext (column?_asciiLower cs)))

theorem symbol?_asciiLower (uri : String) (masked cs : List Char) (bounds : List Nat) (h : Found Header) :
    symbol? uri (asciiLower masked) (asciiLower cs) bounds (h.map Header.lower) =
      (symbol? uri masked cs bounds h).map SymbolDef.lower := by
  simp only [symbol?, Found.map, Header.lower, slice_asciiLower, Name.ofChars_asciiLower,
    statementEnd_asciiLower, contents?_eq, sites?_asciiLower, partSpans_asciiLower, extent_asciiLower,
    displayName_asciiLower, Option.bind_eq_bind, Option.map_map]
  split
  · rfl
  · cases sites? masked h.value.kindWord
      ⟨h.value.name.stop, statementEnd masked bounds h.offset⟩ with
    | none => rfl
    | some found =>
      simp only [Option.map_some, Option.bind_some, Function.comp_apply, Prod.map, id_eq,
        columnsAt_asciiLower]
      rfl

end Definition

theorem definitions_asciiLower (uri : String) (cs : List Char) :
    definitions uri (asciiLower cs) = (definitions uri cs).map SymbolDef.lower := by
  rw [definitions, maskCommentsAndLiterals, mask_asciiLower, Definition.headers_asciiLower,
    Definition.boundaries_asciiLower, List.filterMap_map, definitions, List.map_filterMap]
  exact congrArg (List.filterMap · _) (funext (Definition.symbol?_asciiLower uri _ cs _))

/-- Texts that differ in the case of ASCII letters only have as many definitions, in order of the
same names and kinds at the same places, with columns of the same names at the same places. -/
theorem definitions_of_recased {cs cs' : List Char} (h : asciiLower cs = asciiLower cs') (uri : String) :
    List.Forall₂ (fun s s' => s.name = s'.name ∧ s.kind = s'.kind ∧ s.place = s'.place ∧
        List.Forall₂ (fun c c' => c.name = c'.name ∧ c.place = c'.place) s.columns s'.columns)
      (definitions uri cs) (definitions uri cs') := by
  have hsame : (definitions uri cs).map SymbolDef.lower = (definitions uri cs').map SymbolDef.lower := by
    rw [← definitions_asciiLower, h, definitions_asciiLower]
  refine (Definition.forall₂_of_map_eq hsame).imp fun s s' hlower => ?_
  simp only [SymbolDef.lower, SymbolDef.mk.injEq] at hlower
  obtain ⟨hname, _, _, hplace, hkind, hcolumns⟩ := hlower
  refine ⟨hname, hkind, hplace, (Definition.forall₂_of_map_eq hcolumns).imp fun c c' hcolumn => ?_⟩
  simp only [ColumnDef.lower, ColumnDef.mk.injEq] at hcolumn
  exact ⟨hcolumn.1, hcolumn.2.2.2⟩

theorem definitions_of_recased_view :
    let cs := "create view DBO.V as select all Top 5 a As X, y from T\ngo\nCREATE TABLE T (K bit)".toList
    let cs' := "CREATE VIEW dbo.v AS SELECT ALL TOP 5 A as x, Y FROM t\nGO\ncreate table t (k BIT)".toList
    asciiLower cs = asciiLower cs' ∧ (definitions "a.sql" cs).length = 2 ∧
      List.Forall₂ (fun s s' => s.name = s'.name ∧ s.kind = s'.kind ∧ s.place = s'.place ∧
          List.Forall₂ (fun c c' => c.name = c'.name ∧ c.place = c'.place) s.columns s'.columns)
        (definitions "a.sql" cs) (definitions "a.sql" cs') :=
  ⟨by decide +kernel, by decide +kernel, definitions_of_recased (by decide +kernel) _⟩

end SqlAtlas
