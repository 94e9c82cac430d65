import SqlAtlas.Proofs.Definition.Place
import SqlAtlas.Proofs.Definition.Reading
import SqlAtlas.Proofs.Name

/-!
# Columns between a name and the next boundary

The columns of a definition stand behind its name. A select list ends in front of the first header or
batch separator behind the name. A parenthesised list does so only if it is closed there: one that is
not closed goes on through what follows.
-/

namespace SqlAtlas

set_option autoImplicit false

open Text Pattern

namespace Definition

variable {masked cs : List Char}

/-! ### Sites -/

/-- The byte where the parenthesised list of a definition would open: behind its name, for a table type
behind the words `AS TABLE`. -/
def listStart (masked : List Char) (h : Header) : Nat :=
  if Keyword.isWord "TABLE" h.kindWord || Keyword.isWord "VIEW" h.kindWord then
    skipBlanks masked h.name.stop
  else
    let rest := dropBytes h.name.stop masked
    skipBlanks masked (h.name.stop + size (rest.take (optionally asTable? rest)))

/-- Whether a parenthesised list at a byte, if there is one, is closed in front of another byte. -/
def ClosedBefore (masked : List Char) (start b : Nat) : Prop :=
  charAt? masked start = some '(' → ∃ close < b, matchingParen? masked start = some close

structure InList (masked : List Char) (start : Nat) (s : Span) : Prop where
  opens : charAt? masked start = some '('
  first : start < s.start
  last : s.stop ≤ (matchingParen? masked start).getD (size masked)

theorem InList.stop_le {start b : Nat} {s : Span} (h : InList masked start s)
    (hclosed : ClosedBefore masked start b) : s.stop ≤ b := by
  obtain ⟨close, hlt, hclose⟩ := hclosed h.opens
  have hlast := h.last
  rw [hclose, Option.getD_some] at hlast
  exact hlast.trans hlt.le

theorem skipBlanks_ge (masked : List Char) (start : Nat) : start ≤ skipBlanks masked start :=
  Nat.le_add_right _ _

/-- The rows of a block stand in its list, and so does what is read in them. -/
theorem inList_of_blockRows? {start : Nat} {rows : List Span} (hstart : IsBoundary masked start)
    (h : blockRows? masked start = some rows) {row s : Span} (hrow : row ∈ rows)
    (hfirst : row.start ≤ s.start) (hlast : s.stop ≤ row.stop) : InList masked start s := by
  rw [blockRows?] at h
  split at h
  · rename_i hopen
    cases h
    have hinside := (standsAt_of_charAt? (beq_iff_eq.mp hopen) hstart).boundary_after
    obtain ⟨hrowFirst, hrowLast⟩ := mem_splitTopLevel_within (s := ⟨start + 1, _⟩) hinside hrow
    exact ⟨beq_iff_eq.mp hopen, hrowFirst.trans hfirst, hlast.trans hrowLast⟩
  · cases h

theorem stop_le_listStart (masked : List Char) (h : Header) : h.name.stop ≤ listStart masked h := by
  rw [listStart]
  split
  · exact skipBlanks_ge masked _
  · exact (Nat.le_add_right _ _).trans (skipBlanks_ge masked _)

/-- A site of a table body is read in its list. -/
theorem inList_of_mem_tableSites {start : Nat} (hstart : IsBoundary masked start) {s : Site}
    (h : s ∈ tableSites masked start) : InList masked (skipBlanks masked start) s.name ∧
      ∃ word, IsPiece masked s.name word ∧ Solid word := by
  obtain ⟨row, hrow, hs⟩ := List.mem_filterMap.mp h
  cases hrows : blockRows? masked (skipBlanks masked start) with
  | none =>
    rw [hrows] at hrow
    cases hrow
  | some rows =>
    rw [hrows, Option.getD_some] at hrow
    obtain ⟨piece, hpiece⟩ := isPiece_of_blockRows? (isBoundary_skipBlanks hstart) hrows hrow
    rw [rowSite?] at hs
    obtain ⟨name, hname, hs⟩ := Option.bind_eq_some_iff.mp hs
    simp only at hs
    split at hs
    · cases hs
    · cases hs
      obtain ⟨hfirst, hlast, hsolid⟩ := leading?_eq_some hpiece hname
      exact ⟨inList_of_blockRows? (isBoundary_skipBlanks hstart) hrows hrow hfirst hlast, hsolid⟩

/-- A name of a view is read in its column list, or in its text if it has no list. -/
theorem stands_of_mem_viewNames {body name : Span} (hstart : IsBoundary masked body.start)
    (hstop : IsBoundary masked body.stop) (h : name ∈ viewNames masked body) :
    (InList masked (skipBlanks masked body.start) name ∨
      body.start < name.start ∧ name.stop ≤ body.stop) ∧
      ∃ word, IsPiece masked name word ∧ Solid word := by
  rw [viewNames] at h
  split at h
  · rename_i rows hrows
    obtain ⟨row, hrow, hname⟩ := List.mem_filterMap.mp h
    obtain ⟨piece, hpiece⟩ := isPiece_of_blockRows? (isBoundary_skipBlanks hstart) hrows hrow
    obtain ⟨hfirst, hlast, hsolid⟩ := leading?_eq_some hpiece hname
    exact ⟨.inl (inList_of_blockRows? (isBoundary_skipBlanks hstart) hrows hrow hfirst hlast), hsolid⟩
  · split at h
    · rename_i list hlist
      obtain ⟨item, hitem, hname⟩ := List.mem_filterMap.mp h
      obtain ⟨hlistStart, hlistStop, hbehind, hbefore⟩ := selectList?_eq_some hstart hstop hlist
      obtain ⟨piece, hpiece⟩ := isPiece_of_mem_selectItems hlistStart hlistStop hitem
      obtain ⟨hitemFirst, hitemLast⟩ := mem_selectItems_within hlistStart hitem
      obtain ⟨hfirst, hlast, hsolid⟩ := outputName?_eq_some hpiece hname
      exact ⟨.inr ⟨by omega, by omega⟩, hsolid⟩
    · cases h

/-- A site of a definition is read in its list, or in its text if it has no list. -/
theorem stands_of_mem_sites? {h : Header} {stop : Nat} (hstart : IsBoundary masked h.name.stop)
    (hstop : IsBoundary masked stop) {found : SymbolKind × List Site}
    (hfound : sites? masked h.kindWord ⟨h.name.stop, stop⟩ = some found) {s : Site} (hs : s ∈ found.2) :
    (InList masked (listStart masked h) s.name ∨ h.name.stop < s.name.start ∧ s.name.stop ≤ stop) ∧
      ∃ word, IsPiece masked s.name word ∧ Solid word := by
  rw [sites?] at hfound
  rw [listStart]
  split at hfound
  · cases hfound
    cases hs
  split at hfound
  · cases hfound
    cases hs
  split at hfound
  · rename_i htable
    cases hfound
    rw [htable, Bool.true_or, if_pos rfl]
    obtain ⟨hlist, hsolid⟩ := inList_of_mem_tableSites hstart hs
    exact ⟨.inl hlist, hsolid⟩
  split at hfound
  · rename_i hview
    cases hfound
    obtain ⟨name, hname, rfl⟩ := List.mem_map.mp hs
    rw [hview, Bool.or_true, if_pos rfl]
    exact stands_of_mem_viewNames hstart hstop hname
  -- what is neither a table nor a view is a table type, with a list behind `AS TABLE`
  rename_i htable hview
  obtain ⟨n, hn, rfl⟩ := Option.map_eq_some_iff.mp hfound
  have hwords : optionally asTable? (dropBytes h.name.stop masked) = n := by
    rw [optionally, hn, Option.getD_some]
  rw [if_neg (by simp [htable, hview])]
  simp only [hwords]
  obtain ⟨hlist, hsolid⟩ := inList_of_mem_tableSites (hstart.add_take n) hs
  exact ⟨.inl hlist, hsolid⟩

/-! ### Columns -/

theorem column?_eq_some {name : Span} {raw : List Char} (hname : IsPiece cs name raw)
    {dataType : Option (List Char)} {c : ColumnDef} (h : column? cs name dataType = some c) :
    ∃ place written, IsPiece cs place written ∧ c.place = extent cs place ∧
      name.start ≤ place.start ∧ place.start < place.stop ∧ place.stop ≤ name.stop := by
  simp only [column?, hname.slice_eq, Option.bind_eq_bind] at h
  obtain ⟨inner, hinner, h⟩ := Option.bind_eq_some_iff.mp h
  obtain ⟨written, hwritten⟩ := isPiece_of_mem_partSpans (List.mem_of_getLast? hinner)
  rw [hwritten.slice_eq] at h
  split at h
  · cases h
  · rename_i hfull
    cases h
    have hplace := hname.within hwritten
    refine ⟨_, written, hplace, rfl, Nat.le_add_right _ _, ?_, ?_⟩
    · have hne : size written ≠ 0 := by
        intro hzero
        rw [eq_nil_of_size hzero] at hfull
        exact hfull rfl
      have hstop := hplace.stop_eq
      omega
    · have hlast := hwritten.stop_le_size
      have hstop := hname.stop_eq
      simp only
      omega

theorem statementEnd_le {bounds : List Nat} {b start : Nat} (hb : b ∈ bounds) (hlt : start < b) :
    statementEnd masked bounds start ≤ b := by
  have hmem : b ∈ bounds.filter fun b => decide (start < b) :=
    List.mem_filter.mpr ⟨hb, decide_eq_true hlt⟩
  rw [statementEnd]
  cases hmin : (bounds.filter fun b => decide (start < b)).min? with
  | none =>
    rw [List.min?_eq_none_iff.mp hmin] at hmem
    cases hmem
  | some least => exact (List.min?_eq_some_iff.mp hmin).2 b hmem

theorem offset_lt_stop {h : Found Header} (hh : h ∈ headers masked) : h.offset < h.value.name.stop := by
  obtain ⟨_, word, hword, hsolid⟩ := solid_of_mem_headers hh
  obtain ⟨f, _, rfl⟩ := List.mem_map.mp hh
  have hpos : size word ≠ 0 := fun hzero => hsolid.ne_nil (eq_nil_of_size hzero)
  have hstop := hword.stop_eq
  simp only [spanAfter] at hstop ⊢
  omega

/-- A definition stands within the name of its header, and its columns are read at the sites behind. -/
theorem symbol?_eq_some {uri : String} {bounds : List Nat} {h : Found Header} {raw : List Char}
    (hname : IsPiece cs h.value.name raw) {s : SymbolDef}
    (hsymbol : symbol? uri masked cs bounds h = some s) :
    (∃ place : Span, s.place = extent cs place ∧ h.value.name.start ≤ place.start ∧
      place.stop ≤ h.value.name.stop) ∧
    ∃ sites, s.columns = columnsAt cs sites ∧ sites? masked h.value.kindWord
      ⟨h.value.name.stop, statementEnd masked bounds h.offset⟩ = some (s.kind, sites) := by
  simp only [symbol?, contents?_eq, hname.slice_eq, Option.bind_eq_bind] at hsymbol
  split at hsymbol
  · cases hsymbol
  · obtain ⟨found, hfound, hs⟩ := Option.bind_eq_some_iff.mp hsymbol
    obtain ⟨⟨kind, sites⟩, hsites, rfl⟩ := Option.map_eq_some_iff.mp hfound
    cases hs
    refine ⟨⟨_, rfl, ?_⟩, sites, rfl, hsites⟩
    cases hlast : (partSpans raw).getLast? with
    | none => exact ⟨Nat.le_refl _, Nat.le_refl _⟩
    | some inner =>
      obtain ⟨_, hinner⟩ := isPiece_of_mem_partSpans (List.mem_of_getLast? hlast)
      have hle := hinner.stop_le_size
      have hstop := hname.stop_eq
      simp only [Option.map_some, Option.getD_some]
      omega

end Definition

open Definition

/-- A column of a definition stands behind its name, and in front of every header and batch separator
behind the name in front of which the parenthesised list of the definition, if it has one, is closed. -/
theorem columns_before_boundary {uri : String} {cs : List Char} {s : SymbolDef}
    (hs : s ∈ definitions uri cs) :
    let masked := maskCommentsAndLiterals cs
    ∃ h ∈ headers masked, symbol? uri masked cs (boundaries masked) h = some s ∧
      (∃ name : Span, s.place = extent cs name ∧ h.value.name.start ≤ name.start ∧
        name.stop ≤ h.value.name.stop) ∧
      ∀ c ∈ s.columns, ∃ place : Span, c.place = extent cs place ∧
        (position cs h.value.name.stop).Before (position cs place.start) ∧
        ∀ b ∈ boundaries masked, h.value.name.stop ≤ b →
          ClosedBefore masked (listStart masked h.value) b →
          place.stop ≤ b ∧ (position cs place.start).Before (position cs b) := by
  intro masked
  obtain ⟨h, hh, hsymbol⟩ := List.mem_filterMap.mp hs
  obtain ⟨_, name, hname, hnameSolid⟩ := solid_of_mem_headers hh
  obtain ⟨_, hrawName, _⟩ := hnameSolid.unmasked hname
  obtain ⟨hnamed, sites, hcolumns, hsites⟩ := symbol?_eq_some hrawName hsymbol
  refine ⟨h, hh, hsymbol, hnamed, fun c hc => ?_⟩
  rw [hcolumns] at hc
  obtain ⟨site, hsite, hcolumn⟩ := mem_columnsAt cs hc
  obtain ⟨hstands, word, hword, hsolid⟩ := stands_of_mem_sites? hname.boundary_stop
    (isBoundary_statementEnd (fun _ => isBoundary_of_mem_boundaries) h.offset) hsites hsite
  obtain ⟨raw, hraw, _⟩ := hsolid.unmasked hword
  obtain ⟨place, written, hplace, hextent, hfirst, hfull, hlast⟩ := column?_eq_some hraw hcolumn
  have hbehind : h.value.name.stop < site.name.start := by
    rcases hstands with hlist | ⟨hbehind, _⟩
    · exact (stop_le_listStart masked h.value).trans_lt hlist.first
    · exact hbehind
  refine ⟨place, hextent,
    position_before hplace.boundary_start (hbehind.trans_le hfirst) (Nat.le_refl _), ?_⟩
  -- what is read in a list ends with it; a select list ends with the text of its view
  intro b hb hstop hclosed
  have hbefore : site.name.stop ≤ b := by
    rcases hstands with hlist | ⟨_, hend⟩
    · exact hlist.stop_le hclosed
    · exact hend.trans (statementEnd_le hb ((offset_lt_stop hh).trans_le hstop))
  have hle := hlast.trans hbefore
  exact ⟨hle, position_before hplace.boundary_stop hfull hle⟩

theorem columns_before_boundary_batch :
    let cs := "CREATE VIEW V AS SELECT (A), B\nGO\nCREATE TABLE T (C INT)".toList
    let masked := maskCommentsAndLiterals cs
    let b : ColumnDef := ⟨⟨['b']⟩, ['B'], none, ⟨0, 29, 30⟩⟩
    let s : SymbolDef := ⟨⟨['v']⟩, ['V'], "a.sql", ⟨0, 12, 13⟩, .view, [b]⟩
    s ∈ definitions "a.sql" cs ∧
    ∃ h ∈ headers masked, symbol? "a.sql" masked cs (boundaries masked) h = some s ∧
      (∃ name : Span, s.place = extent cs name ∧ h.value.name.start ≤ name.start ∧
        name.stop ≤ h.value.name.stop) ∧
      ∀ c ∈ s.columns, ∃ place : Span, c.place = extent cs place ∧
        (position cs h.value.name.stop).Before (position cs place.start) ∧
        ∀ b ∈ boundaries masked, h.value.name.stop ≤ b →
          ClosedBefore masked (listStart masked h.value) b →
          place.stop ≤ b ∧ (position cs place.start).Before (position cs b) := by
  intro cs masked b s
  have hs : s ∈ definitions "a.sql" cs := by decide +kernel
  exact ⟨hs, columns_before_boundary hs⟩

/-- A list that is not closed goes on behind a batch separator: the last column of the table is read in
the view. -/
theorem columns_past_boundary :
    let cs := "CREATE TABLE A (X INT\nGO\nCREATE VIEW V AS SELECT Y, Z FROM B".toList
    let masked := maskCommentsAndLiterals cs
    ∃ s ∈ definitions "a.sql" cs, ∃ h ∈ headers masked,
      symbol? "a.sql" masked cs (boundaries masked) h = some s ∧ h.value.name.stop ≤ 22 ∧
      22 ∈ boundaries masked ∧ ∃ c ∈ s.columns, (position cs 22).line < c.place.line := by
  decide +kernel

end SqlAtlas
