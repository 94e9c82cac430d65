import SqlAtlas.Index

/-!
# Questions to the index

Answers are sorted by place, so they do not depend on the order in which files came in.
-/

namespace SqlAtlas

set_option autoImplicit false

open Text

/-- Whether an extent is at or before another, by line, first and last column. -/
def Text.Extent.upTo (a b : Extent) : Bool :=
  if a.line ≠ b.line then decide (a.line < b.line)
  else if a.first ≠ b.first then decide (a.first < b.first)
  else decide (a.last ≤ b.last)

/-- Whether a location is at or before another, by file and then by place. -/
def Location.upTo (a b : Location) : Bool :=
  if a.uri ≠ b.uri then decide (a.uri < b.uri) else a.place.upTo b.place

def SymbolDef.location (s : SymbolDef) : Location := ⟨s.uri, s.place⟩

def SymbolDef.columnLocation (s : SymbolDef) (c : ColumnDef) : Location := ⟨s.uri, c.place⟩

def sortLocations (ls : List Location) : List Location := ls.mergeSort Location.upTo

/-- A list without the entries that equal the one before them. -/
def dropRepeats : List Location → List Location
  | a :: b :: rest => if a = b then dropRepeats (b :: rest) else a :: dropRepeats (b :: rest)
  | ls => ls

structure IndexStats where
  files : Nat
  symbols : Nat
  tablesWithColumns : Nat
  referenceNames : Nat
  references : Nat
deriving DecidableEq, Repr

namespace SymbolIndex

def getReferences (x : SymbolIndex) (name : Name) : List Reference :=
  let found := (((x.references.get? name).map (·.values)).getD []).flatten
  found.mergeSort fun a b => a.location.upTo b.location

def getReferencesInFile (x : SymbolIndex) (name : Name) (uri : String) : List Reference :=
  (x.referencesTo uri name).mergeSort fun a b => a.place.upTo b.place

def referencesInFile (x : SymbolIndex) (uri : String) : List Reference :=
  let found := ((x.namesByFile.get? uri).getD []).flatMap (x.referencesTo uri)
  found.mergeSort fun a b =>
    if a.place ≠ b.place then a.place.upTo b.place else !b.name.before a.name

def symbolsNamed (x : SymbolIndex) (name : Name) : List SymbolDef :=
  ((x.filesByName.get? name).getD []).flatMap fun uri =>
    ((x.symbolsByFile.get? uri).getD []).filter (·.name = name)

def columnLocations (x : SymbolIndex) (table column : Name) : List Location :=
  sortLocations <| (x.symbolsNamed table).filterMap fun s =>
    (s.columns.find? (·.name = column)).map s.columnLocation

def symbols (x : SymbolIndex) : List SymbolDef := x.symbolsByFile.values.flatten

/-- Where a word is defined: objects with that name, qualified or not, and then columns. -/
def anyLocations (x : SymbolIndex) (word : Name) : List Location :=
  if word.isEmpty then []
  else
    let objects := x.symbols.filter fun s =>
      s.name == word || s.name.unqualified == word.chars
    let columns := x.symbols.flatMap fun s =>
      (s.columns.filter (·.name = word)).map s.columnLocation
    dropRepeats (sortLocations (objects.map (·.location)) ++ sortLocations columns)

def findDefinitions (x : SymbolIndex) (name : Name) : List SymbolDef :=
  (x.symbolsNamed name).mergeSort fun a b => a.location.upTo b.location

def symbolsInFile (x : SymbolIndex) (uri : String) : List SymbolDef :=
  (x.symbolsByFile.get? uri).getD []

def columnsForTable (x : SymbolIndex) (table : Name) : List Name :=
  (x.columns.columns? table).getD []

def tablesWithColumn (x : SymbolIndex) (column : Name) : List Name := x.columns.tablesWith column

def aliasesForFile? (x : SymbolIndex) (uri : String) : Option AliasMap := x.aliasesByFile.get? uri

def generation? (x : SymbolIndex) (uri : String) : Option Nat := x.generations.get? uri

def files (x : SymbolIndex) : List String := x.generations.keys.foldl (fun us u => insertText u us) []

def stats (x : SymbolIndex) : IndexStats where
  files := x.generations.size
  symbols := x.symbols.length
  tablesWithColumns := x.columns.size
  referenceNames := x.references.size
  references := (x.references.values.flatMap (·.values)).foldl (fun n rs => n + rs.length) 0

end SymbolIndex

end SqlAtlas
