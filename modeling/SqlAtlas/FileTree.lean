/-!
# Trees of files

A folder lists its entries in ascending order of their names, and a walk visits them in that order,
the contents of a folder at its place. A walk that meets a folder it cannot open fails there.
-/

namespace SqlAtlas

set_option autoImplicit false

inductive FileTree where
  /-- A regular file of a reported size; without contents it cannot be read. -/
  | file (size : Nat) (contents : Option (List UInt8))
  | folder (entries : List (List Char × FileTree))
  /-- A folder that cannot be opened. -/
  | closed
  /-- Neither a regular file nor a folder. -/
  | other

inductive Visit where
  | file (path : List Char) (size : Nat) (contents : Option (List UInt8))
  | failure
deriving DecidableEq, Repr

namespace FileTree

def join (path name : List Char) : List Char :=
  if path.getLast? = some '/' then path ++ name else path ++ '/' :: name

mutual

def visits (path : List Char) : FileTree → List Visit
  | file size contents => [.file path size contents]
  | folder entries => entryVisits path entries
  | closed => [.failure]
  | other => []

def entryVisits (path : List Char) : List (List Char × FileTree) → List Visit
  | [] => []
  | (name, tree) :: rest => visits (join path name) tree ++ entryVisits path rest

end

/-! ### Paths -/

def parts (path : List Char) : List (List Char) := path.splitOn '/'

def entries : FileTree → List (List Char × FileTree)
  | folder es => es
  | file _ _ | closed | other => []

def isFolder : FileTree → Bool
  | folder _ | closed => true
  | file _ _ | other => false

/-- What a relative path leads to, given the folders above. Every part but the first must be asked
of a folder. -/
def follow (above : List FileTree) (here : FileTree) : List (List Char) → Option FileTree
  | [] => some here
  | part :: rest =>
    if !here.isFolder then none
    else if part.isEmpty || part == ['.'] then follow above here rest
    else if part == ['.', '.'] then
      match above with
      | [] => none
      | parent :: above => follow above parent rest
    else
      match here.entries.lookup part with
      | none => none
      | some next => follow (here :: above) next rest

/-- What a path leads to from a folder; absolute paths lead nowhere. -/
def at? (t : FileTree) (path : List Char) : Option FileTree :=
  if path.isEmpty || path.head? == some '/' then none else follow [] t (parts path)

/-- Puts an entry in its place, instead of an entry of the same name. -/
def put (name : List Char) (tree : FileTree) :
    List (List Char × FileTree) → List (List Char × FileTree)
  | [] => [(name, tree)]
  | e :: es =>
    if e.1 = name then (name, tree) :: es
    else if name < e.1 then (name, tree) :: e :: es
    else e :: put name tree es

/-- Changes what stands at some parts, with folders made on the way. -/
def alter (f : Option FileTree → FileTree) : List (List Char) → Option FileTree → FileTree
  | [], t => f t
  | part :: rest, t =>
    let es := (t.map entries).getD []
    folder (put part (alter f rest (es.lookup part)) es)

def addFile (t : FileTree) (path : List Char) (contents : List UInt8) : FileTree :=
  alter (fun _ => file contents.length (some contents)) (parts path) (some t)

def addFolder (t : FileTree) (path : List Char) : FileTree :=
  alter (·.getD (folder [])) (parts path) (some t)

end FileTree

end SqlAtlas
