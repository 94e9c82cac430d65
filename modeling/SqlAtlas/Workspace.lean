import SqlAtlas.Definition
import SqlAtlas.Filter
import SqlAtlas.Index
import SqlAtlas.Owner

/-!
# Workspaces

A workspace keeps the index of its files. Indexing a file publishes its references at once, the
ambiguous ones for every table that may own them, and schedules a correction for each ambiguity. A
correction first checks that the file has not moved on; later it gets the tree of its statement, or
no tree, and takes out the references to the tables that do not own the column.

Every definition that takes a workspace to a workspace is one step that nothing else can interrupt.
-/

namespace SqlAtlas

set_option autoImplicit false

/-- An ambiguity of one generation of a file. -/
structure Correction where
  uri : String
  generation : Nat
  ambiguity : Ambiguity
deriving DecidableEq, Repr

structure CorrectionCounts where
  scheduled : Nat := 0
  applied : Nat := 0
  stale : Nat := 0
  rejected : Nat := 0
  inconclusive : Nat := 0
deriving DecidableEq, Repr, Inhabited

structure IndexedFile where
  generation : Nat
  symbols : Nat
  references : Nat
  ambiguities : Nat
  truncated : Bool
deriving DecidableEq, Repr

inductive IndexOutcome where
  | indexed (file : IndexedFile)
  | skipped (reason : SkipReason)
deriving DecidableEq, Repr

structure Workspace where
  settings : Settings
  globs : List Glob
  index : SymbolIndex := {}
  counts : CorrectionCounts := {}
  /-- Corrections that have not begun, the oldest first. -/
  scheduled : List Correction := []
  /-- Corrections that wait for the tree of their statement. -/
  begun : List Correction := []

namespace Workspace

/-- An empty workspace, unless the settings cannot work. -/
def ofSettings (s : Settings) : Except SettingsError Workspace :=
  s.validate.map fun globs => { settings := s, globs }

def corrects (w : Workspace) : Bool := decide (0 < w.settings.parse.poolSize)

def filter (w : Workspace) : PathFilter := ⟨w.settings.maxFileBytes, w.settings.fragments, w.globs⟩

def skipReason? (w : Workspace) (uri : String) (bytes : Nat) :
    Except FilterFault (Option SkipReason) :=
  w.filter.skipReason? uri.toList bytes

/-! ### Indexing -/

def schedule (w : Workspace) (uri : String) (generation : Nat) (as : List Ambiguity) : Workspace :=
  if w.corrects then
    { w with
      scheduled := w.scheduled ++ as.map fun a => ⟨uri, generation, a⟩
      counts := { w.counts with scheduled := w.counts.scheduled + as.length } }
  else w

def deindexFile (w : Workspace) (uri : String) : Workspace :=
  { w with index := w.index.removeFile uri }

def publish (w : Workspace) (uri : String) (text : List Char) : IndexedFile × Workspace :=
  let (p, index) := w.index.replaceFile uri text (definitions uri text) (.ofText text)
    w.settings.maxReferences
  let x := p.extracted
  (⟨p.generation, p.symbols, x.references.length, x.ambiguities.length, x.truncated⟩,
    { w with index }.schedule uri p.generation x.ambiguities)

/-- Indexes a file, unless it is left out. A file that is left out leaves the index. -/
def indexFile (w : Workspace) (uri : String) (text : List Char) :
    Except FilterFault (IndexOutcome × Workspace) :=
  match w.skipReason? uri (Text.size text) with
  | .error e => .error e
  | .ok (some reason) =>
    .ok (.skipped reason, if (w.index.generations.get? uri).isSome then w.deindexFile uri else w)
  | .ok none =>
    let (file, w) := w.publish uri text
    .ok (.indexed file, w)

def indexFiles (w : Workspace) :
    List (String × List Char) → Except FilterFault (List IndexOutcome × Workspace)
  | [] => .ok ([], w)
  | (uri, text) :: rest =>
    match w.indexFile uri text with
    | .error e => .error e
    | .ok (outcome, w) =>
      match indexFiles w rest with
      | .error e => .error e
      | .ok (outcomes, w) => .ok (outcome :: outcomes, w)

def eligible (w : Workspace) :
    List (String × List Char) → Except FilterFault (List (String × List Char))
  | [] => .ok []
  | (uri, text) :: rest =>
    match w.skipReason? uri (Text.size text), eligible w rest with
    | .error e, _ => .error e
    | .ok _, .error e => .error e
    | .ok none, .ok files => .ok ((uri, text) :: files)
    | .ok (some _), .ok files => .ok files

def publishDefinitions (w : Workspace) (file : String × List Char) : Workspace :=
  { w with index := (w.index.publishDefinitions file.1 (definitions file.1 file.2)).2 }

/-- Indexes several files. The definitions of all of them are published first, so that the
references of each are found with the columns of all. -/
def indexBatch (w : Workspace) (files : List (String × List Char)) :
    Except FilterFault (List IndexOutcome × Workspace) :=
  match w.eligible files with
  | .error e => .error e
  | .ok kept => (kept.foldl publishDefinitions w).indexFiles files

/-! ### Corrections -/

/-- Begins the `n`-th scheduled correction. It ends at once if the file has moved on. -/
def beginCorrection (w : Workspace) (n : Nat) : Workspace :=
  match w.scheduled[n]? with
  | none => w
  | some c =>
    let taken := { w with scheduled := w.scheduled.eraseIdx n }
    if w.index.generations.get? c.uri = some c.generation then
      { taken with begun := taken.begun ++ [c] }
    else { taken with counts := { w.counts with stale := w.counts.stale + 1 } }

def correct (w : Workspace) (c : Correction) (tree : Option Tree) : Workspace :=
  let a := c.ambiguity
  match disambiguate tree a.column a.aliases a.candidates with
  | .accepted keep =>
    match w.index.applyCorrection c.uri c.generation a.place a.column keep a.provisional with
    | (.applied _, index) =>
      { w with index, counts := { w.counts with applied := w.counts.applied + 1 } }
    | (.stale, index) =>
      { w with index, counts := { w.counts with stale := w.counts.stale + 1 } }
    | (.unmatched, index) =>
      { w with index, counts := { w.counts with rejected := w.counts.rejected + 1 } }
  | .rejected _ => { w with counts := { w.counts with rejected := w.counts.rejected + 1 } }
  | .inconclusive =>
    { w with counts := { w.counts with inconclusive := w.counts.inconclusive + 1 } }

def endCorrection (w : Workspace) (n : Nat) (tree : Option Tree) : Workspace :=
  match w.begun[n]? with
  | none => w
  | some c => { w with begun := w.begun.eraseIdx n }.correct c tree

def pending (w : Workspace) : Nat := w.scheduled.length + w.begun.length

end Workspace

end SqlAtlas
