import SqlAtlas.FileTree
import SqlAtlas.Text.Decode
import SqlAtlas.Workspace.Run

/-!
# Scans

A scan indexes the files below a root. It first walks the whole tree, then reads every file that is
not left out by its name or size, and only then indexes them as one batch. A walk or a file that
fails ends the scan before anything is indexed.
-/

namespace SqlAtlas

set_option autoImplicit false

inductive ScanError where
  | walk (root : List Char)
  | unreadable (path : List Char)
  | filter (fault : FilterFault)
deriving DecidableEq, Repr

def unreadableMessage (path : List Char) : String :=
  "Failed to read SQL file: " ++ String.ofList path

def walkMessage (root : List Char) : String :=
  "Failed to scan workspace directory: " ++ String.ofList root

structure ScanReport where
  indexed : Nat := 0
  skipped : Nat := 0
  ambiguities : Nat := 0
  truncated : Nat := 0
deriving DecidableEq, Repr, Inhabited

/-- What a walk leaves to read, and how many SQL files it leaves out. -/
structure Selection where
  skipped : Nat := 0
  chosen : List (List Char × Option (List UInt8)) := []
deriving DecidableEq, Repr, Inhabited

def ScanReport.add (r : ScanReport) : IndexOutcome → ScanReport
  | .skipped _ => { r with skipped := r.skipped + 1 }
  | .indexed f =>
    { r with
      indexed := r.indexed + 1
      ambiguities := r.ambiguities + f.ambiguities
      truncated := r.truncated + f.truncated.toNat }

namespace Workspace

/-- Sorts out what a walk has met, up to the first failure. -/
def select (w : Workspace) (root : List Char) : List Visit → Except ScanError Selection
  | [] => .ok {}
  | .failure :: _ => .error (.walk root)
  | .file path size contents :: rest =>
    match w.skipReason? (String.ofList (uriOfPath path)) size with
    | .error e => .error (.filter e)
    | .ok reason =>
      match select w root rest with
      | .error e => .error e
      | .ok s =>
        match reason with
        | some .notSql => .ok s
        | some _ => .ok { s with skipped := s.skipped + 1 }
        | none => .ok { s with chosen := (path, contents) :: s.chosen }

def readFiles : List (List Char × Option (List UInt8)) →
    Except ScanError (List (String × List Char))
  | [] => .ok []
  | (path, contents) :: rest =>
    match contents.bind Text.decodeFile with
    | none => .error (.unreadable path)
    | some text => (readFiles rest).map ((String.ofList (uriOfPath path), text) :: ·)

/-- Indexes files one after another, up to a fault. What was indexed before it stays. -/
def indexEach (w : Workspace) :
    List (String × List Char) → Except FilterFault (List IndexOutcome) × Workspace
  | [] => (.ok [], w)
  | (uri, text) :: rest =>
    match w.indexFile uri text with
    | .error e => (.error e, w)
    | .ok (outcome, w) =>
      let (outcomes, w) := indexEach w rest
      (outcomes.map (outcome :: ·), w)

def indexTogether (w : Workspace) (files : List (String × List Char)) :
    Except FilterFault (List IndexOutcome) × Workspace :=
  match w.eligible files with
  | .error e => (.error e, w)
  | .ok kept => (kept.foldl publishDefinitions w).indexEach files

/-- Indexes the files of a tree that stands at a root; a missing tree fails. The workspace is what the scan
leaves, with a report or without. -/
def scan (w : Workspace) (root : List Char) (tree : Option FileTree) :
    Except ScanError ScanReport × Workspace :=
  match tree with
  | none => (.error (.walk root), w)
  | some tree =>
    match w.select root (tree.visits root) with
    | .error e => (.error e, w)
    | .ok s =>
      match readFiles s.chosen with
      | .error e => (.error e, w)
      | .ok files =>
        match w.indexTogether files with
        | (.error e, w) => (.error (.filter e), w)
        | (.ok outcomes, w) => (.ok (outcomes.foldl ScanReport.add { skipped := s.skipped }), w)

end Workspace

def Session.scan (s : Session) (root : List Char) (tree : Option FileTree) :
    Except ScanError (ScanReport × Session) :=
  match s.workspace.scan root tree with
  | (.error e, _) => .error e
  | (.ok r, w) => .ok (r, { s with workspace := w }.correctAll)

end SqlAtlas
