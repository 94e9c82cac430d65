import SqlAtlas.Scan

/-!
# Commands

The requests of the command line, and how their arguments are read. Options may stand anywhere after
the name of the command, with their value in the next argument or after an equals sign; what follows
`--` is no option. An option that takes one value is given at most once.
-/

namespace SqlAtlas

set_option autoImplicit false

structure IndexArgs where
  root : List Char := ['.']
  maxFileBytes : Nat := 12288
  maxReferences : Nat := 10000
  /-- Fragments in place of the usual ones, if there are any. -/
  exclude : List (List Char) := []
  poolSize : Nat := 2
  timeout : Nat := 2000
  noParse : Bool := false
  dialect : Dialect := .tsql
deriving DecidableEq, Repr

inductive Command where
  | index (args : IndexArgs)
  | references (name : List Char) (args : IndexArgs)
  | definition (name : List Char) (args : IndexArgs)
  | scope (file : List Char) (line character : Nat)
deriving DecidableEq, Repr

def IndexArgs.settings (a : IndexArgs) : Settings :=
  let base : Settings := {}
  { base with
    maxFileBytes := a.maxFileBytes
    maxReferences := a.maxReferences
    fragments := if a.exclude.isEmpty then base.fragments else a.exclude
    parse :=
      { base.parse with
        poolSize := if a.noParse then 0 else a.poolSize
        timeout := .of a.timeout
        dialect := a.dialect } }

namespace Command

def path : Command → List Char
  | index a | references _ a | definition _ a => a.root
  | scope file _ _ => file

/-- Whether an option takes a value, and how often it may be given. -/
inductive OptionKind where
  | flag
  | counted
  | single
  | repeated
deriving DecidableEq, Repr

/-- Options and other arguments as they were given, in order. -/
structure RawArgs where
  options : List (String × List Char) := []
  operands : List (List Char) := []
deriving DecidableEq, Repr, Inhabited

def commonOptions : List (String × OptionKind) := [("verbose", .counted)]

def indexOptions : List (String × OptionKind) :=
  commonOptions ++
    [("max-file-bytes", .single), ("max-refs", .single), ("exclude", .repeated),
     ("pool-size", .single), ("parse-timeout-ms", .single), ("no-parse", .flag),
     ("dialect", .single)]

def scopeOptions : List (String × OptionKind) :=
  commonOptions ++ [("line", .single), ("character", .single)]

def isOptionLike (arg : List Char) : Bool := arg.head? == some '-' && arg != ['-']

/-- The name of a long option, and its value if one is attached. -/
def splitLong (arg : List Char) : String × Option (List Char) :=
  let body := arg.drop 2
  let name := String.ofList (body.takeWhile (· != '='))
  match body.dropWhile (· != '=') with
  | [] => (name, none)
  | _ :: value => (name, some value)

def sortArgs (known : List (String × OptionKind)) : List (List Char) → Option RawArgs
  | [] => some {}
  | arg :: rest =>
    let option (name : String) (value : List Char) (raw : RawArgs) : RawArgs :=
      { raw with options := (name, value) :: raw.options }
    if arg = ['-', '-'] then some { operands := rest }
    else if ['-', '-'].isPrefixOf arg then
      let (name, attached) := splitLong arg
      match known.lookup name, attached with
      | none, _ => none
      | some .flag, some _ | some .counted, some _ => none
      | some .flag, none | some .counted, none => (sortArgs known rest).map (option name [])
      | some _, some value => (sortArgs known rest).map (option name value)
      | some _, none =>
        match rest with
        | [] => none
        | value :: rest =>
          if isOptionLike value then none else (sortArgs known rest).map (option name value)
    else if isOptionLike arg then
      if arg.tail.all (· == 'v') then sortArgs known rest else none
    else (sortArgs known rest).map fun raw => { raw with operands := arg :: raw.operands }

def RawArgs.values (raw : RawArgs) (name : String) : List (List Char) :=
  (raw.options.filter (·.1 == name)).map (·.2)

def RawArgs.isWithin (raw : RawArgs) (known : List (String × OptionKind)) : Bool :=
  known.all fun (name, kind) =>
    kind == .counted || kind == .repeated || decide ((raw.values name).length ≤ 1)

/-- A number of at most 64 bits in decimal digits, perhaps after a plus sign. -/
def readNumber (cs : List Char) : Option Nat :=
  let digits := if cs.head? = some '+' then cs.tail else cs
  if digits.isEmpty || !digits.all Char.isDigit then none
  else
    let n := digits.foldl (fun n c => 10 * n + (c.toNat - '0'.toNat)) 0
    if n < UInt64.size then some n else none

def RawArgs.number (raw : RawArgs) (name : String) (otherwise : Nat) : Option Nat :=
  match raw.values name with
  | [] => some otherwise
  | value :: _ => readNumber value

def readIndexArgs (raw : RawArgs) (operands : List (List Char)) : Option IndexArgs := do
  let base : IndexArgs := {}
  let root ← match operands with
    | [] => some base.root
    | [root] => if root.isEmpty then none else some root
    | _ => none
  let dialect ← match raw.values "dialect" with
    | [] => some base.dialect
    | name :: _ => Dialect.ofText? (String.ofList name)
  return {
    root
    maxFileBytes := ← raw.number "max-file-bytes" base.maxFileBytes
    maxReferences := ← raw.number "max-refs" base.maxReferences
    exclude := raw.values "exclude"
    poolSize := ← raw.number "pool-size" base.poolSize
    timeout := ← raw.number "parse-timeout-ms" base.timeout
    noParse := !(raw.values "no-parse").isEmpty
    dialect }

def readRaw (known : List (String × OptionKind)) (args : List (List Char)) : Option RawArgs :=
  (sortArgs known args).filter (·.isWithin known)

def readNamed (make : List Char → IndexArgs → Command) (args : List (List Char)) :
    Option Command := do
  let raw ← readRaw indexOptions args
  match raw.operands with
  | [] => none
  | name :: operands => return make name (← readIndexArgs raw operands)

def readScope (args : List (List Char)) : Option Command := do
  let raw ← readRaw scopeOptions args
  match raw.operands, raw.values "line" with
  | [file], [line] =>
    if file.isEmpty then none
    else return .scope file (← readNumber line) (← raw.number "character" 0)
  | _, _ => none

def read : List (List Char) → Option Command
  | [] => none
  | arg :: rest =>
    match String.ofList arg with
    | "index" => do
      let raw ← readRaw indexOptions rest
      return .index (← readIndexArgs raw raw.operands)
    | "references" => readNamed .references rest
    | "definition" => readNamed .definition rest
    | "scope" => readScope rest
    | "--verbose" => read rest
    | _ =>
      if isOptionLike arg && arg.tail.all (· == 'v') then read rest else none

end Command

end SqlAtlas
