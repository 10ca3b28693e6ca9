import HeaderAtlas.Text.Blank

/-!
# Paths

Paths are kept as they are written; `a//b` and `a/b` are different texts for one place. A path is joined to a folder by text
alone. The folder of a path is what is left without its last name; single points and repeated slashes name nothing, except for a
point at the very beginning.
-/

namespace HeaderAtlas

namespace Path

/-- The path begins at the root. -/
def isAbsolute (path : String) : Bool := path.toList.head? == some '/'

/-- A path seen from a folder. -/
def join (folder path : String) : String :=
  if isAbsolute path || folder == "" then path
  else if folder.toList.getLast? == some '/' then folder ++ path
  else folder ++ "/" ++ path

/-- The pieces of a path between its slashes. -/
def pieces (path : List Char) : List (List Char) := Text.splitBy (· == '/') path

/-- The piece names nothing. -/
def isVoid (piece : List Char) : Bool := piece == [] || piece == ['.']

/-- Pieces without those at the end that name nothing. -/
def dropVoid (ps : List (List Char)) : List (List Char) := (ps.reverse.dropWhile isVoid).reverse

/-- What a path begins with before its names, the root or a single point, and the rest. -/
def splitLead : List Char → List Char × List Char
  | '/' :: rest => (['/'], rest)
  | ['.'] => (['.'], [])
  | '.' :: '/' :: rest => (['.'], '/' :: rest)
  | path => ([], path)

/-- The folder of a path; the root has none, and neither has the empty path. -/
def folder? (path : String) : Option String :=
  let split := splitLead path.toList
  let names := dropVoid (pieces split.2)
  if names.isEmpty then if split.1 = ['.'] then some "" else none
  else some (String.ofList (split.1 ++ List.intercalate ['/'] (dropVoid names.dropLast)))

end Path

end HeaderAtlas
