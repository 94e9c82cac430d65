/-!
# Names of files

The index knows a file by a uri. The uri of a path is the path with slashes only, made absolute.
-/

namespace SqlAtlas

set_option autoImplicit false

def fileScheme : List Char := "file://".toList

def uriOfPath (path : List Char) : List Char :=
  let slashed := path.map fun c => if c = '\\' then '/' else c
  fileScheme ++ if slashed.head? = some '/' then slashed else '/' :: slashed

/-- What a uri names without its scheme; any other name as it is. -/
def pathOfUri (uri : List Char) : List Char :=
  if fileScheme.isPrefixOf uri then uri.drop fileScheme.length else uri

end SqlAtlas
