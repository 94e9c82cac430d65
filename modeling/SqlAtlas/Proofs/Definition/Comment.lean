import SqlAtlas.Proofs.Definition.Boundary
import SqlAtlas.Proofs.Text.Reread

/-!
# Definitions without their comments

A text and the same text without its comments have one masked text, so that their definitions are
found at the same places. Names are cut out of the text itself: a comment inside a name becomes part
of the name, and comments anywhere else change nothing.
-/

namespace SqlAtlas

set_option autoImplicit false

open Text Pattern

namespace Text

/-! ### Where comments stand -/

def commentsOf (offset : Nat) : List (Char × Role) → List Nat
  | [] => []
  | (c, role) :: rest =>
    if role = .comment then offset :: commentsOf (offset + c.utf8Size) rest
    else commentsOf (offset + c.utf8Size) rest

def CommentIn (cs : List Char) (s : Span) : Prop :=
  ∃ i ∈ commentsOf 0 (roles cs), s.start ≤ i ∧ i < s.stop

instance (cs : List Char) (s : Span) : Decidable (CommentIn cs s) :=
  inferInstanceAs (Decidable (∃ i ∈ commentsOf 0 (roles cs), s.start ≤ i ∧ i < s.stop))

theorem mem_commentsOf (offset : Nat) (ps : List (Char × Role)) (c : Char) (rs : List (Char × Role)) :
    offset + size (ps.map (·.1)) ∈ commentsOf offset (ps ++ (c, .comment) :: rs) := by
  induction ps generalizing offset with
  | nil => exact List.mem_cons_self
  | cons p ps ih =>
    have hlater := ih (offset + p.1.utf8Size)
    rw [List.map_cons, size_cons, ← Nat.add_assoc, List.cons_append, commentsOf]
    split
    · exact List.mem_cons_of_mem _ hlater
    · exact hlater

/-- What stands in a range without comments is the same in the text without comments. -/
theorem IsPiece.maskComments {cs raw : List Char} {here : Span} (h : IsPiece cs here raw)
    (hnone : ¬CommentIn cs here) : IsPiece (maskComments cs) here raw := by
  obtain ⟨before, after, rfl, rfl⟩ := h
  obtain ⟨ps, qs, hroles, rfl, hqs⟩ :=
    List.map_eq_append_iff.mp (rolesFrom_map_fst .code (before ++ (raw ++ after)))
  obtain ⟨qs, rs, rfl, rfl, rfl⟩ := List.map_eq_append_iff.mp hqs
  -- no character of the piece is blanked, or it would be a comment in the range
  have hshown : qs.flatMap (masked (· == .comment)) = qs.map (·.1) := by
    rw [List.map_eq_flatMap]
    refine List.flatMap_congr fun p hp => ?_
    rw [masked, if_neg]
    intro hcomment
    obtain ⟨front, back, rfl⟩ := List.append_of_mem hp
    obtain ⟨c, role⟩ := p
    obtain rfl : role = .comment := by simpa using hcomment
    refine hnone ⟨0 + size ((ps ++ front).map (·.1)), ?_, ?_, ?_⟩
    · have hmem := mem_commentsOf 0 (ps ++ front) c (back ++ rs)
      rw [List.append_assoc] at hmem
      rwa [roles, hroles, List.append_assoc front, List.cons_append]
    · simp only [List.map_append, size_append]
      omega
    · have hpos := c.utf8Size_pos
      simp only [List.map_append, List.map_cons, size_append, size_cons]
      omega
  refine ⟨ps.flatMap (masked (· == .comment)), rs.flatMap (masked (· == .comment)), ?_, ?_⟩
  · rw [Text.maskComments, mask_eq, roles, hroles, List.flatMap_append, List.flatMap_append, hshown]
  · rw [size_flatMap_masked]

theorem maskCommentsAndLiterals_maskComments (cs : List Char) :
    maskCommentsAndLiterals (maskComments cs) = maskCommentsAndLiterals cs :=
  masking_masking true false cs

/-- A solid piece of the masked text without a space, or without a comment inside, is cut alike out of
the text and of the text without comments. -/
theorem slice_maskComments {cs word : List Char} {here : Span} (hsolid : Solid word)
    (h : IsPiece (maskCommentsAndLiterals cs) here word)
    (hnone : ' ' ∈ word → ¬CommentIn cs here) : slice (maskComments cs) here = slice cs here := by
  by_cases hspace : ' ' ∈ word
  · obtain ⟨raw, hraw, _⟩ := hsolid.unmasked h
    rw [hraw.slice_eq, (hraw.maskComments (hnone hspace)).slice_eq]
  · have hplain : ∀ c ∈ word, c ≠ ' ' := by
      rintro c hc rfl
      exact hspace hc
    rw [(mask_plain h hsolid.ne_nil hplain).slice_eq]
    rw [← maskCommentsAndLiterals_maskComments] at h
    exact (mask_plain h hsolid.ne_nil hplain).slice_eq

end Text

def ColumnDef.unplaced (c : ColumnDef) : ColumnDef := { c with place := default }

def SymbolDef.unplaced (s : SymbolDef) : SymbolDef :=
  { s with place := default, columns := s.columns.map ColumnDef.unplaced }

namespace Definition

/-- The places of the names that are read behind a header: its own and those of the columns. -/
def namesBehind (masked : List Char) (bounds : List Nat) (h : Found Header) : List Span :=
  h.value.name ::
    match sites? masked h.value.kindWord ⟨h.value.name.stop, statementEnd masked bounds h.offset⟩ with
    | some found => found.2.map (·.name)
    | none => []

def namesRead (masked : List Char) : List Span :=
  (headers masked).flatMap (namesBehind masked (boundaries masked))

variable {cs cs' : List Char}

theorem solid_of_mem_namesBehind {masked : List Char} {h : Found Header} (hh : h ∈ headers masked)
    {s : Span} (hs : s ∈ namesBehind masked (boundaries masked) h) :
    ∃ word, IsPiece masked s word ∧ Solid word := by
  obtain ⟨_, hname⟩ := solid_of_mem_headers hh
  rw [namesBehind] at hs
  rcases List.mem_cons.mp hs with rfl | hs
  · exact hname
  · split at hs
    · rename_i found hfound
      obtain ⟨site, hsite, rfl⟩ := List.mem_map.mp hs
      obtain ⟨_, hheader, _⟩ := hname
      exact (stands_of_mem_sites? hheader.boundary_stop
        (isBoundary_statementEnd (fun _ => isBoundary_of_mem_boundaries) h.offset) hfound hsite).2
    · cases hs

theorem column?_unplaced {s : Site} (h : slice cs' s.name = slice cs s.name) :
    (s.column? cs').map ColumnDef.unplaced = (s.column? cs).map ColumnDef.unplaced := by
  simp only [Site.column?, column?, h, Option.bind_eq_bind, Option.map_bind]
  congr 1
  funext inner
  rw [Function.comp_apply, Function.comp_apply]
  split <;> rfl

theorem columnsAt_unplaced {sites : List Site} (h : ∀ s ∈ sites, slice cs' s.name = slice cs s.name) :
    (columnsAt cs' sites).map ColumnDef.unplaced = (columnsAt cs sites).map ColumnDef.unplaced := by
  rw [columnsAt, columnsAt, ← distinctColumns_map ColumnDef.unplaced fun _ => rfl,
    ← distinctColumns_map ColumnDef.unplaced fun _ => rfl, List.map_filterMap,
    List.map_filterMap]
  exact congrArg distinctColumns (List.filterMap_congr fun s hs => column?_unplaced (h s hs))

/-- Two texts that agree on the names behind a header have the same definition there. -/
theorem symbol?_unplaced (uri : String) {masked : List Char} {bounds : List Nat} {h : Found Header}
    (hnames : ∀ s ∈ namesBehind masked bounds h, slice cs' s = slice cs s) :
    (symbol? uri masked cs' bounds h).map SymbolDef.unplaced =
      (symbol? uri masked cs bounds h).map SymbolDef.unplaced := by
  rw [namesBehind, List.forall_mem_cons] at hnames
  obtain ⟨hname, hsites⟩ := hnames
  simp only [symbol?, contents?_eq, hname, Option.bind_eq_bind]
  split
  · rfl
  · cases hfound : sites? masked h.value.kindWord
      ⟨h.value.name.stop, statementEnd masked bounds h.offset⟩ with
    | none => rfl
    | some found =>
      rw [hfound] at hsites
      have hcolumns := columnsAt_unplaced fun s hs => hsites s.name (List.mem_map_of_mem hs)
      simp only [Option.map_some, Option.bind_some, Option.pure_def, SymbolDef.unplaced, hcolumns]

end Definition

open Definition

/-- A text whose names hold no comment has the same definitions without its comments, up to where they
stand. -/
theorem definitions_unplaced (uri : String) {cs : List Char}
    (hnames : ∀ s ∈ namesRead (maskCommentsAndLiterals cs),
      ' ' ∈ slice (maskCommentsAndLiterals cs) s → ¬CommentIn cs s) :
    (definitions uri (maskComments cs)).map SymbolDef.unplaced =
      (definitions uri cs).map SymbolDef.unplaced := by
  rw [definitions, maskCommentsAndLiterals_maskComments, definitions, List.map_filterMap,
    List.map_filterMap]
  refine List.filterMap_congr fun h hh => symbol?_unplaced uri fun s hs => ?_
  obtain ⟨word, hword, hsolid⟩ := solid_of_mem_namesBehind hh hs
  have hnone := hnames s (List.mem_flatMap.mpr ⟨h, hh, hs⟩)
  rw [hword.slice_eq] at hnone
  exact slice_maskComments hsolid hword hnone

/-- Comments do not change definitions, if none stands inside a name: a text and the text without its
comments have as many definitions, in order of the same names and kinds with columns of the same names.
A name that has no space in the masked text holds no comment. -/
theorem definitions_without_comments (uri : String) {cs : List Char}
    (hnames : ∀ s ∈ namesRead (maskCommentsAndLiterals cs),
      ' ' ∈ slice (maskCommentsAndLiterals cs) s → ¬CommentIn cs s) :
    List.Forall₂ (fun s s' => s.name = s'.name ∧ s.kind = s'.kind ∧
        s.columns.map (·.name) = s'.columns.map (·.name))
      (definitions uri cs) (definitions uri (maskComments cs)) := by
  refine (forall₂_of_map_eq (definitions_unplaced uri hnames).symm).imp fun s s' hsame => ?_
  simp only [SymbolDef.unplaced, SymbolDef.mk.injEq] at hsame
  obtain ⟨hname, _, _, _, hkind, hcolumns⟩ := hsame
  have hcolumnNames := congrArg (List.map (·.name)) hcolumns
  rw [List.map_map, List.map_map] at hcolumnNames
  exact ⟨hname, hkind, hcolumnNames⟩

theorem definitions_without_comments_spaced :
    let cs := "CREATE /* a */ TABLE dbo . T -- b\n(Id /* c */ INT, [Full -- Name] INT)".toList
    (∀ s ∈ namesRead (maskCommentsAndLiterals cs),
      ' ' ∈ slice (maskCommentsAndLiterals cs) s → ¬CommentIn cs s) ∧
    (definitions "a.sql" cs).map (·.columns.length) = [2] ∧
    List.Forall₂ (fun s s' => s.name = s'.name ∧ s.kind = s'.kind ∧
        s.columns.map (·.name) = s'.columns.map (·.name))
      (definitions "a.sql" cs) (definitions "a.sql" (maskComments cs)) := by
  intro cs
  have hnames : ∀ s ∈ namesRead (maskCommentsAndLiterals cs),
      ' ' ∈ slice (maskCommentsAndLiterals cs) s → ¬CommentIn cs s := by decide +kernel
  exact ⟨hnames, by decide +kernel, definitions_without_comments "a.sql" hnames⟩

/-- A comment between the parts of a name becomes part of the name. -/
theorem definitions_with_commented_name :
    let cs := "CREATE TABLE dbo./* new */T (Id INT)".toList
    (definitions "a.sql" cs).map (·.name.text) = ["/* new */t"] ∧
      (definitions "a.sql" (maskComments cs)).map (·.name.text) = ["t"] := by
  decide +kernel

end SqlAtlas
