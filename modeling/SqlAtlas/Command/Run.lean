import SqlAtlas.Command

/-!
# Answers to commands

A command reads the files that it needs and writes a report. It ends with code 0, with code 1 and
the reason, or, where the file filter has no answer, with code 101; a command line that cannot be
read ends with code 2.
-/

namespace SqlAtlas

set_option autoImplicit false

structure FileSystem where
  /-- What stands at a path. -/
  lookup : List Char → Option FileTree
  /-- The full form of a path, where it is known. -/
  canonical : List Char → Option (List Char) := fun _ => none

structure CommandResult where
  code : Nat := 0
  stdout : String := ""
  stderr : String := ""
deriving DecidableEq, Repr, Inhabited

namespace Command

def lines (ls : List String) : String := String.join (ls.map (· ++ "\n"))

def failed (reason : String) : CommandResult := { code := 1, stderr := lines ["Error: " ++ reason] }

/-- A place as editors write it: line and column count from one. -/
def placeText (l : Location) : String :=
  String.ofList (pathOfUri l.uri.toList) ++ ":" ++ toString (l.place.line + 1) ++ ":" ++
    toString (l.place.first + 1)

def kindText : ReferenceKind → String
  | .table => "Table"
  | .column => "Column"
  | .parameter => "Parameter"
  | .routine => "Routine"

def withWorkspace (fs : FileSystem) (a : IndexArgs) (f : Session → CommandResult) : CommandResult :=
  match Session.start a.settings grammarBackend with
  | .error _ => failed "Invalid index configuration"
  | .ok s =>
    match s.scan a.root (fs.lookup a.root) with
    | .ok (_, s) => f s
    | .error (.filter _) => { code := 101 }
    | .error (.walk _) | .error (.unreadable _) =>
      failed ("Failed to index " ++ String.ofList ((fs.canonical a.root).getD a.root))

def summary (s : SessionStats) : List String :=
  let c := s.corrections
  ["Files indexed:     " ++ toString s.index.files,
   "Symbols:           " ++ toString s.index.symbols,
   "Tables w/ columns: " ++ toString s.index.tablesWithColumns,
   "References:        " ++ toString s.index.references] ++
  match s.pool with
  | none => []
  | some p =>
    ["Corrections:       " ++ toString c.applied ++ " applied, " ++ toString c.rejected ++
       " rejected, " ++ toString c.inconclusive ++ " inconclusive, " ++ toString c.stale ++
       " stale",
     "Parse workers:     " ++ toString p.live ++ " live, " ++ toString p.degraded ++ " disabled"]

def splitLastDot (name : List Char) : Option (List Char × List Char) :=
  match name.reverse.dropWhile (· != '.') with
  | [] => none
  | _ :: before => some (before.reverse, (name.reverse.takeWhile (· != '.')).reverse)

/-- Where a name is defined: as an object, else as a column of a table, else as a bare word. -/
def definitionPlaces (x : SymbolIndex) (name : List Char) : List Location :=
  match (x.findDefinitions (.ofChars name)).map (·.location) with
  | p :: ps => p :: ps
  | [] =>
    match (splitLastDot name).map fun (t, c) => x.columnLocations (.ofChars t) (.ofChars c) with
    | some (p :: ps) => p :: ps
    | some [] | none => x.anyLocations (.ofChars name)

def scopeLines (text : List Char) (s : StatementScope) : List String :=
  let sorted {α : Type} (es : List (List Char × α)) : List (List Char × α) :=
    es.mergeSort fun a b => !decide (b.1 < a.1)
  let shown (cs : List Char) : String := String.ofList cs
  let aliases := (sorted s.aliases.entries).map fun (label, target) =>
    "  " ++ shown label ++ " -> " ++
      match target with
      | .table t => t.text
      | .subquery => "(subquery)"
  let locals := (sorted (s.locals.tables.map fun (t, columns) => (t.chars, columns))).map
    fun (t, columns) =>
      "  " ++ shown t ++ " (" ++ String.intercalate ", " (columns.map Name.text) ++ ")"
  ["Statement: " ++ shown (Text.trim (Text.slice text s.span)), "Candidate tables:"] ++
    s.candidates.map (fun t => "  " ++ t.text) ++
    ["Aliases:"] ++ aliases ++
    if locals.isEmpty then [] else "Local tables:" :: locals

def readText? (fs : FileSystem) (path : List Char) : Option (List Char) :=
  match fs.lookup path with
  | some (.file _ contents) => contents.bind Text.decodeFile
  | some _ | none => none

def run (fs : FileSystem) : Command → CommandResult
  | .index a => withWorkspace fs a fun s => { stdout := lines (summary s.stats) }
  | .references name a =>
    withWorkspace fs a fun s =>
      let found := s.workspace.index.getReferences (.ofChars name)
      { stdout := lines (found.map fun r => placeText r.location ++ "\t" ++ kindText r.kind)
        stderr := lines [toString found.length ++ " reference(s) to " ++ String.ofList name] }
  | .definition name a =>
    withWorkspace fs a fun s =>
      { stdout := lines ((definitionPlaces s.workspace.index name).map placeText) }
  | .scope file line character =>
    match readText? fs file with
    | none => failed (unreadableMessage file)
    | some text =>
      let scope := resolveScope text (Text.offset text ⟨line, character⟩)
      { stdout := lines (scopeLines text scope) }

def runLine (fs : FileSystem) (args : List (List Char)) : CommandResult :=
  match read args with
  | none => { code := 2 }
  | some c => c.run fs

end Command

end SqlAtlas
