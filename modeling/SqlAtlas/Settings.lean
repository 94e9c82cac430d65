import SqlAtlas.Dialect
import SqlAtlas.Duration
import SqlAtlas.Glob
import SqlAtlas.Supervisor

/-!
# Settings

What files are indexed, how much of them, and how statements are parsed. Settings that cannot work
are refused before anything starts. An empty path fragment is not refused.
-/

namespace SqlAtlas

set_option autoImplicit false

/-- How statements are parsed. Times are in milliseconds. -/
structure ParseSettings where
  /-- The number of workers; without any, no statement is parsed. -/
  poolSize : Nat := 2
  /-- How long a caller waits. -/
  timeout : Millis := 2000
  cacheCapacity : Nat := 512
  cacheTtl : Nat := 600000
  /-- The longest statement that is parsed, in bytes. -/
  maxStatementBytes : Nat := 20000
  restart : RestartPolicy := {}
  dialect : Dialect := .tsql
deriving DecidableEq, Repr, Inhabited

structure Settings where
  maxFileBytes : Nat := 12288
  maxReferences : Nat := 10000
  /-- A path that holds one of these, whatever the case of ASCII letters, is left out. -/
  fragments : List (List Char) := ["deployment".toList]
  /-- A path that fits one of these patterns is left out. -/
  globs : List (List Char) := []
  parse : ParseSettings := {}
deriving DecidableEq, Repr

instance : Inhabited Settings := ⟨{}⟩

inductive SettingsError where
  | noFileBytes
  | noReferences
  | noTimeout
  | delaysReversed (base max : Nat)
  | badPattern (pattern : List Char) (error : GlobError)
deriving DecidableEq, Repr

def SettingsError.message : SettingsError → String
  | .noFileBytes => "Invalid index configuration: max_file_bytes must be greater than zero"
  | .noReferences =>
    "Invalid index configuration: max_references_per_file must be greater than zero"
  | .noTimeout => "Invalid index configuration: parse job timeout must be greater than zero"
  | .delaysReversed base max =>
    "Invalid index configuration: restart base delay " ++ Duration.ofMicros base ++
      " exceeds max delay " ++ Duration.ofMicros max
  | .badPattern pattern _ => "Invalid exclusion pattern '" ++ String.ofList pattern ++ "'"

namespace Settings

/-- Reads the patterns, up to the first that is refused. -/
def readGlobs : List (List Char) → Except SettingsError (List Glob)
  | [] => .ok []
  | g :: gs =>
    match Glob.ofText g with
    | .error e => .error (.badPattern g e)
    | .ok glob => (readGlobs gs).map (glob :: ·)

def validate (s : Settings) : Except SettingsError (List Glob) :=
  if s.maxFileBytes = 0 then .error .noFileBytes
  else if s.maxReferences = 0 then .error .noReferences
  else if 0 < s.parse.poolSize ∧ s.parse.timeout.count = 0 then .error .noTimeout
  else if s.parse.restart.maxDelay < s.parse.restart.baseDelay then
    .error (.delaysReversed s.parse.restart.baseDelay s.parse.restart.maxDelay)
  else readGlobs s.globs

end Settings

end SqlAtlas
