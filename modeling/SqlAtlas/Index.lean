import SqlAtlas.Reference.Extraction
import SqlAtlas.Registry

/-!
# The index

Definitions, references, columns and aliases of all files. A file's contributions are replaced as a
whole, and each replacement gives the file a generation that no file had before. A correction names
the generation it was made for, and has no effect once the file has moved on.
-/

namespace SqlAtlas

set_option autoImplicit false

open Text

structure SymbolIndex where
  symbolsByFile : Dict String (List SymbolDef) := {}
  /-- The files that define a name, in ascending order. -/
  filesByName : Dict Name (List String) := {}
  /-- The references to a name, by file. -/
  references : Dict Name (Dict String (List Reference)) := {}
  /-- The names that a file refers to. -/
  namesByFile : Dict String NameSet := {}
  columns : ColumnRegistry := {}
  aliasesByFile : Dict String AliasMap := {}
  generations : Dict String Nat := {}
  /-- The generation that was given last. -/
  lastGeneration : Nat := 0

structure PublishedFile where
  generation : Nat
  symbols : Nat
  extracted : Extraction

inductive CorrectionOutcome where
  | applied (retracted : Nat)
  | stale
  | unmatched
deriving DecidableEq, Repr

/-- Adds a text to a list in ascending order, unless it is there. -/
def insertText (s : String) : List String → List String
  | [] => [s]
  | t :: ts =>
    if s = t then t :: ts
    else if s < t then s :: t :: ts
    else t :: insertText s ts

namespace SymbolIndex

instance : Inhabited SymbolIndex := ⟨{}⟩

def dropDefiner (uri : String) (files : Dict Name (List String)) (s : SymbolDef) :
    Dict Name (List String) :=
  files.alter s.name fun
    | some us =>
      let rest := us.filter fun u => decide (u ≠ uri)
      if rest.isEmpty then none else some rest
    | none => none

/-- Changes a file's references to a name; a name without references is not listed. -/
def alterReferences (refs : Dict Name (Dict String (List Reference))) (name : Name)
    (uri : String) (f : List Reference → List Reference) :
    Dict Name (Dict String (List Reference)) :=
  refs.alter name fun byFile =>
    let changed := (byFile.getD {}).alter uri fun rs =>
      match f (rs.getD []) with
      | [] => none
      | left => some left
    if changed.isEmpty then none else some changed

/-- Takes out everything that a file contributed, but not its generation. -/
def purge (x : SymbolIndex) (uri : String) : SymbolIndex :=
  { x with
    symbolsByFile := x.symbolsByFile.erase uri
    filesByName := ((x.symbolsByFile.get? uri).getD []).foldl (dropDefiner uri) x.filesByName
    references := ((x.namesByFile.get? uri).getD []).foldl
      (fun refs name => alterReferences refs name uri fun _ => []) x.references
    namesByFile := x.namesByFile.erase uri
    columns := x.columns.removeFile uri
    aliasesByFile := x.aliasesByFile.erase uri }

def addDefinitions (x : SymbolIndex) (uri : String) (symbols : List SymbolDef) : SymbolIndex :=
  { x with
    symbolsByFile := x.symbolsByFile.insert uri symbols
    filesByName := symbols.foldl
      (fun files s => files.alter s.name fun us => some (insertText uri (us.getD [])))
      x.filesByName
    columns := x.columns.addFile uri symbols }

def addReferences (x : SymbolIndex) (uri : String) (refs : List Reference) : SymbolIndex :=
  { x with
    references := refs.foldl
      (fun all r => alterReferences all r.name uri fun rs => rs ++ [r]) x.references
    namesByFile := x.namesByFile.insert uri
      (NameSet.insertAll (refs.map (·.name)) ((x.namesByFile.get? uri).getD [])) }

def advance (x : SymbolIndex) (uri : String) : SymbolIndex :=
  { x with
    generations := x.generations.insert uri (x.lastGeneration + 1)
    lastGeneration := x.lastGeneration + 1 }

/-- Replaces the definitions of a file and drops its references; answers its new generation. -/
def publishDefinitions (x : SymbolIndex) (uri : String) (symbols : List SymbolDef) :
    Nat × SymbolIndex :=
  let next := ((x.purge uri).addDefinitions uri symbols).advance uri
  (next.lastGeneration, next)

/-- Replaces everything that a file contributes. References are found with the columns that are
known once the file's own definitions are in. -/
def replaceFile (x : SymbolIndex) (uri : String) (text : List Char) (symbols : List SymbolDef)
    (scopes : FileScopes) (limit : Nat) : PublishedFile × SymbolIndex :=
  let defined := (x.purge uri).addDefinitions uri symbols
  let extracted := extractReferences uri text scopes defined.columns.hasColumn limit
  let referred := defined.addReferences uri extracted.references
  let next := { referred with
    aliasesByFile := referred.aliasesByFile.insert uri scopes.aliases }.advance uri
  (⟨next.lastGeneration, symbols.length, extracted⟩, next)

/-- Takes a file out. Its generations are not given again. -/
def removeFile (x : SymbolIndex) (uri : String) : SymbolIndex :=
  let purged := x.purge uri
  { purged with generations := purged.generations.erase uri }

def referencesTo (x : SymbolIndex) (uri : String) (name : Name) : List Reference :=
  ((x.references.get? name).bind (·.get? uri)).getD []

/-- Takes out a file's references to a name at a place; answers how many there were. -/
def retract (uri : String) (place : Extent) (name : Name) (x : SymbolIndex) :
    Nat × SymbolIndex :=
  let here := (x.referencesTo uri name).filter fun r => decide (r.place = place)
  if here.isEmpty then (0, x)
  else
    (here.length,
      { x with references := alterReferences x.references name uri fun rs =>
          rs.filter fun r => decide (r.place ≠ place) })

/-- Keeps one of the provisional references at a place and takes the others out. -/
def applyCorrection (x : SymbolIndex) (uri : String) (generation : Nat) (place : Extent)
    (column keep : Name) (provisional : List Name) : CorrectionOutcome × SymbolIndex :=
  if x.generations.get? uri ≠ some generation then (.stale, x)
  else if !provisional.contains keep then (.unmatched, x)
  else
    let (retracted, next) := (provisional.filter (· ≠ keep)).foldl
      (fun (n, y) table =>
        let (m, z) := retract uri place (Name.qualified table column) y
        (n + m, z))
      (0, x)
    (.applied retracted, next)

end SymbolIndex

end SqlAtlas
