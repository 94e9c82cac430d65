import Mathlib.Data.List.Forall2
import SqlAtlas.Definition

/-!
# Where columns are read

The masked text decides the kind of a definition and the places where the names of its columns are
read. The text itself gives what is written there and nothing else.
-/

namespace SqlAtlas.Definition

set_option autoImplicit false

open Text Pattern

structure Site where
  name : Span
  dataType : Option (List Char)
deriving DecidableEq, Repr

def Site.column? (cs : List Char) (s : Site) : Option ColumnDef :=
  Definition.column? cs s.name s.dataType

/-- The columns that a text declares at some sites, each name only at its first place. -/
def columnsAt (cs : List Char) (sites : List Site) : List ColumnDef :=
  distinctColumns (sites.filterMap (Site.column? cs))

/-- The site in a row of a table; constraints have none. -/
def rowSite? (masked : List Char) (row : Span) : Option Site := do
  let name ← leading? masked row
  let word := slice masked name
  if !isDelimited word && Keyword.isConstraintWord word then none
  else some ⟨name, typeAfter? (slice masked ⟨name.stop, row.stop⟩)⟩

def tableSites (masked : List Char) (start : Nat) : List Site :=
  ((blockRows? masked (skipBlanks masked start)).getD []).filterMap (rowSite? masked)

def viewNames (masked : List Char) (body : Span) : List Span :=
  match blockRows? masked (skipBlanks masked body.start) with
  | some rows => rows.filterMap (leading? masked)
  | none =>
    match selectList? masked body with
    | some list => (selectItems masked list).filterMap (outputName? masked)
    | none => []

/-- The sites of a view: its column list if it has one, else its select list. -/
def viewSites (masked : List Char) (body : Span) : List Site :=
  (viewNames masked body).map (⟨·, none⟩)

def sites? (masked : List Char) (kind : List Char) (body : Span) :
    Option (SymbolKind × List Site) :=
  if Keyword.oneOf ["PROCEDURE", "PROC"] kind then some (.procedure, [])
  else if Keyword.isWord "FUNCTION" kind then some (.function, [])
  else if Keyword.isWord "TABLE" kind then some (.table, tableSites masked body.start)
  else if Keyword.isWord "VIEW" kind then some (.view, viewSites masked body)
  else
    let rest := dropBytes body.start masked
    (asTable? rest).map fun n => (.tableType, tableSites masked (body.start + size (rest.take n)))

/-! ### Columns are read at sites -/

variable (masked cs : List Char)

theorem rowColumn?_eq (row : Span) :
    rowColumn? masked cs row = (rowSite? masked row).bind (Site.column? cs) := by
  rw [rowColumn?, rowSite?]
  cases leading? masked row with
  | none => rfl
  | some name =>
    simp only [Option.bind_eq_bind, Option.bind_some]
    split
    · rw [Option.bind_none]
    · rw [Option.bind_some, Site.column?]

theorem tableColumns_eq (start : Nat) :
    tableColumns masked cs start = columnsAt cs (tableSites masked start) := by
  rw [tableColumns, tableSites, columnsAt, List.filterMap_filterMap,
    ← funext (rowColumn?_eq masked cs)]
  cases blockRows? masked (skipBlanks masked start) <;> rfl

theorem viewColumns_eq (body : Span) :
    viewColumns masked cs body = columnsAt cs (viewSites masked body) := by
  have hnames : ∀ (find : Span → Option Span) (rows : List Span),
      distinctColumns (rows.filterMap fun row => (find row).bind fun name => column? cs name none) =
        columnsAt cs ((rows.filterMap find).map (⟨·, none⟩)) := by
    intro find rows
    rw [columnsAt, List.filterMap_map, List.filterMap_filterMap]
    rfl
  rw [viewColumns, viewSites, viewNames]
  cases blockRows? masked (skipBlanks masked body.start) with
  | some rows => exact hnames (leading? masked) rows
  | none =>
    cases selectList? masked body with
    | some list => exact hnames (outputName? masked) (selectItems masked list)
    | none => rfl

theorem contents?_eq (kind : List Char) (body : Span) : contents? masked cs kind body =
    (sites? masked kind body).map fun found => (found.1, columnsAt cs found.2) := by
  rw [contents?, sites?]
  split
  · rfl
  split
  · rfl
  split
  · rw [tableColumns_eq]
    rfl
  split
  · rw [viewColumns_eq]
    rfl
  rw [Option.map_map]
  exact congrArg (Option.map · _) (funext fun n => by rw [tableColumns_eq]; rfl)

/-! ### The first column of each name -/

/-- A change of columns that keeps their names keeps which of them are the first of their name. -/
theorem distinctColumns_map (change : ColumnDef → ColumnDef)
    (hname : ∀ c, (change c).name = c.name) (columns : List ColumnDef) :
    distinctColumns (columns.map change) = (distinctColumns columns).map change := by
  have hany : ∀ (acc : List ColumnDef) (c : ColumnDef),
      (acc.map change).any (·.name = (change c).name) = acc.any (·.name = c.name) := by
    intro acc c
    rw [List.any_map]
    exact congrArg acc.any (funext fun d => by rw [Function.comp_apply, hname, hname])
  have hnil : ([] : List ColumnDef) = [].map change := rfl
  rw [distinctColumns, distinctColumns, List.map_reverse, List.foldl_map]
  conv => lhs; rw [hnil]
  refine congrArg List.reverse (List.foldl_hom (List.map change) fun acc c => ?_)
  rw [hany]
  split <;> rfl

theorem mem_of_mem_distinctColumns {columns : List ColumnDef} {c : ColumnDef}
    (h : c ∈ distinctColumns columns) : c ∈ columns := by
  rw [distinctColumns, List.mem_reverse] at h
  revert h
  refine List.foldlRecOn (motive := fun acc => c ∈ acc → c ∈ columns) columns _ nofun ?_
  intro acc ih d hd hc
  split at hc
  · exact ih hc
  · rcases List.mem_cons.mp hc with rfl | hc
    · exact hd
    · exact ih hc

theorem mem_columnsAt {sites : List Site} {c : ColumnDef} (h : c ∈ columnsAt cs sites) :
    ∃ s ∈ sites, s.column? cs = some c :=
  List.mem_filterMap.mp (mem_of_mem_distinctColumns h)

/-- Lists that agree after a change of their elements agree element by element. -/
theorem forall₂_of_map_eq {α β : Type} {f : α → β} {as bs : List α} (h : as.map f = bs.map f) :
    List.Forall₂ (fun a b => f a = f b) as bs := by
  rw [← List.forall₂_map_right_iff, ← h, List.forall₂_map_right_iff]
  exact List.forall₂_refl as

end SqlAtlas.Definition
