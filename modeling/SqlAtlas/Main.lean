import SqlAtlas.Command.Run

/-!
# The command line

Reads the files that a command names, carries the command out, and writes its report.
-/

set_option autoImplicit false

open SqlAtlas

partial def loadTree (entry : IO.FS.DirEntry) (followLink : Bool) : IO FileTree := do
  let path := entry.path
  let kind ← if followLink then pure (← path.metadata).type
    else pure (← path.symlinkMetadata).type
  match kind with
  | .file =>
    let size := match ← path.metadata.toBaseIO with
      | .ok found => found.byteSize.toNat
      | .error _ => 0
    match ← (IO.FS.readBinFile path).toBaseIO with
    | .ok bytes => return .file size (some bytes.toList)
    | .error _ => return .file size none
  | .dir =>
    match ← path.readDir.toBaseIO with
    | .error _ => return .closed
    | .ok found =>
      let entries ← found.toList.mapM fun e => do
        return (e.fileName.toList, ← loadTree e false)
      return .folder (entries.mergeSort fun a b => !decide (b.1 < a.1))
  | _ => return .other

def loadFiles (path : List Char) : IO FileSystem := do
  let entry : IO.FS.DirEntry := { root := ".", fileName := String.ofList path }
  match ← (loadTree entry true).toBaseIO with
  | .error _ => return { lookup := fun _ => none }
  | .ok tree =>
    let full := (← IO.FS.realPath entry.path).toString.toList
    return { lookup := fun _ => some tree, canonical := fun _ => some full }

def main (args : List String) : IO UInt32 := do
  match Command.read (args.map String.toList) with
  | none =>
    IO.eprintln "usage: sqlatlas [-v] (index|references|definition|scope) [options] [arguments]"
    return 2
  | some command =>
    let result := command.run (← loadFiles command.path)
    IO.print result.stdout
    IO.eprint result.stderr
    return result.code.toUInt32
