import HeaderAtlas.Source.Unit

/-!
# A directory in memory

Files and folders by their paths, read as a system would read them: each name of a path is looked up in the folder reached so far,
so every folder on the way has to exist, also one that `..` leaves again. What lies outside of the directory is not known; nothing
is found there.
-/

namespace HeaderAtlas

/-- What stands at a place of a directory. -/
inductive Node where
  | file (bytes : ByteArray)
  | folder

/-- Files and folders with the names that lead to them, the outermost first. A folder need not be listed if something is in it. -/
abbrev Directory : Type := List (List String × Node)

/-- Where a walk along a path has come to. -/
inductive Site where
  /-- A folder of the directory. -/
  | inside (names : List String)
  /-- A file of the directory. -/
  | file (bytes : ByteArray)
  /-- A folder outside of the directory. -/
  | outside

namespace Directory

/-- The names in a path; empty pieces and single points name nothing. -/
def namesIn (path : String) : List String :=
  ((Path.pieces path.toList).filter fun p => !Path.isVoid p).map String.ofList

/-- What stands under these names. -/
def node? (d : Directory) (names : List String) : Option Node :=
  match d.find? fun e => e.1 == names with
  | some e => some e.2
  | none => if names.isEmpty || d.any fun e => names.isPrefixOf e.1 then some .folder else none

/-- The most bytes a name may have. -/
def nameLimit : Nat := 255

/-- The most bytes a path may have. -/
def pathLimit : Nat := 4095

/-- One step of a walk. -/
def step (d : Directory) (site : Site) (piece : String) : Except ReadFault Site :=
  match site with
  | .file _ => .error .notAFolder
  | .outside =>
    if piece == "" || piece == "." || piece == ".." then .ok .outside
    else if nameLimit < piece.utf8ByteSize then .error .nameTooLong
    else .error .notFound
  | .inside names =>
    if piece == "" || piece == "." then .ok site
    else if piece == ".." then .ok (if names.isEmpty then .outside else .inside names.dropLast)
    else if nameLimit < piece.utf8ByteSize then .error .nameTooLong
    else
      match d.node? (names ++ [piece]) with
      | some .folder => .ok (.inside (names ++ [piece]))
      | some (.file bytes) => .ok (.file bytes)
      | none => .error .notFound

/-- The bytes of the file at a path. -/
def bytes (d : Directory) (path : String) : Except ReadFault ByteArray :=
  if path.contains '\x00' then .error .nulInName
  else if path == "" then .error .notFound
  else if pathLimit < path.utf8ByteSize then .error .nameTooLong
  else do
    let start := if Path.isAbsolute path then Site.outside else .inside []
    match ← ((Path.pieces path.toList).map String.ofList).foldlM d.step start with
    | .file bytes => return bytes
    | _ => throw .isAFolder

/-- The text of the file at a path. -/
def read (d : Directory) (path : String) : Except ReadFault String := do decodeText (← d.bytes path)

/-- The directory with a file or folder added; what stood at its path is replaced. -/
def add (d : Directory) (path : String) (node : Node) : Directory :=
  let names := namesIn path
  (names, node) :: d.filter fun e => e.1 != names

end Directory

end HeaderAtlas
