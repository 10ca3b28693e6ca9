import HeaderAtlas.Catalog.Builtin
import HeaderAtlas.Listing
import HeaderAtlas.Source.Unit

/-!
# The command line

What the arguments ask for, and what is printed and returned for them. Files are read by whoever runs it.
-/

namespace HeaderAtlas

/-- What the arguments ask for. -/
structure Arguments where
  files : List String := []
  listFile : Option String := none
  order : Option Strategy := none
  includePrivate : Bool := false
  apiWords : List String := []
  includeInternal : Bool := false
  deriving DecidableEq, Repr

namespace Arguments

/-- The options with a value. -/
inductive ValueOption where
  | file
  | listFile
  | order
  | apiWord
  deriving DecidableEq, Repr

/-- The option with a value of this name. -/
def valueOption? : String → Option ValueOption
  | "--file" => some .file
  | "--config-file" => some .listFile
  | "--order" => some .order
  | "--api-decl" => some .apiWord
  | _ => none

/-- An option set to a value. Paths are not empty, and only files and export words may be given more than once. -/
def setValue (a : Arguments) (option : ValueOption) (value : String) : Option Arguments :=
  match option with
  | .file => if value == "" then none else some { a with files := a.files ++ [value] }
  | .listFile => if value == "" || a.listFile.isSome then none else some { a with listFile := some value }
  | .order =>
    match Strategy.ofName? value, a.order with
    | some strategy, none => some { a with order := some strategy }
    | _, _ => none
  | .apiWord => some { a with apiWords := a.apiWords ++ [value] }

/-- A flag set; no flag may be given twice. -/
def setFlag (a : Arguments) : String → Option Arguments
  | "--include-private" => if a.includePrivate then none else some { a with includePrivate := true }
  | "--include-internal" => if a.includeInternal then none else some { a with includeInternal := true }
  | _ => none

/-- An argument that cannot be the value of the option before it. -/
def isOptionLike (arg : String) : Bool := arg.startsWith "-" && arg != "-"

/-- The arguments taken in from the first to the last; none if they make no sense. -/
def readFrom (a : Arguments) : List String → Option Arguments
  | [] => some a
  | ["--"] => some a
  | arg :: rest =>
    match valueOption? arg with
    | some option =>
      match rest with
      | [] => none
      | value :: rest =>
        if isOptionLike value then none
        else
          match a.setValue option value with
          | some a => a.readFrom rest
          | none => none
    | none =>
      match Text.cutFirst '=' arg.toList with
      | some (name, value) =>
        match valueOption? (String.ofList name) with
        | some option =>
          match a.setValue option (String.ofList value) with
          | some a => a.readFrom rest
          | none => none
        | none => none
      | none =>
        match a.setFlag arg with
        | some a => a.readFrom rest
        | none => none

/-- What the arguments ask for; none if they make no sense. -/
def read? (args : List String) : Option Arguments := readFrom {} args

/-- The options to read headers with. -/
def options (a : Arguments) : ScanOptions :=
  let base : ScanOptions := { includePrivate := a.includePrivate }
  { base with apiWords := base.apiWords ++ a.apiWords }

end Arguments

/-- Why a run ended without a listing. -/
inductive RunFailure where
  | listUnreadable (path : String) (fault : ReadFault)
  | nothingToScan
  | noneReadable (listed : Nat)
  deriving DecidableEq, Repr

namespace RunFailure

/-- What went wrong, in words. -/
def message : RunFailure → String
  | listUnreadable path _ => "loading unit list " ++ path
  | nothingToScan => "nothing to scan: pass --file or --config-file"
  | noneReadable listed => s!"none of the {listed} units could be read"

/-- What it was caused by, the nearest cause first. -/
def causes : RunFailure → List String
  | listUnreadable path fault => [(ReadError.unitList path fault).message, fault.text]
  | _ => []

/-- A numbered cause; the lines behind its first one stand below its text. -/
def causeText (cause : String × Nat) : String :=
  s!"    {cause.2}: " ++ "\n       ".intercalate ((Text.splitBy (· == '\n') cause.1.toList).map String.ofList)

/-- A failure with its causes, as it is printed. -/
def text (f : RunFailure) : String :=
  let head := "Error: " ++ f.message
  if f.causes.isEmpty then head
  else head ++ "\n\nCaused by:\n" ++ "\n".intercalate (f.causes.zipIdx.map causeText)

end RunFailure

/-- What a run returns and prints. -/
structure Outcome where
  exit : Nat
  output : List String
  errors : List String
  deriving DecidableEq, Repr

namespace Arguments

/-- The units to read: those of the list file, of which the content is given, then the single files. -/
def units (a : Arguments) (listed : Option (Except ReadFault String)) : Except RunFailure UnitList :=
  let loaded : Except RunFailure UnitList :=
    match a.listFile, listed with
    | some path, some (.error fault) => .error (.listUnreadable path fault)
    | some path, some (.ok text) => .ok (.ofText text (Path.folder? path))
    | _, _ => .ok ⟨[]⟩
  match loaded with
  | .error e => .error e
  | .ok l =>
    let l := a.files.foldl UnitList.push l
    if l.paths.isEmpty then .error .nothingToScan else .ok l

/-- What is printed for a run that failed. -/
def failed (errors : List String) (f : RunFailure) : Outcome := ⟨1, [], errors ++ [f.text]⟩

/-- What is printed for units of which the content is given. -/
def report (a : Arguments) (units : List (String × Except ReadFault String)) : Outcome :=
  let scan := Recorder.scanUnits { catalog := .builtin } a.options units
  let warnings := scan.1.failed.map fun e => "warning: " ++ e.message
  if scan.1.scanned.isEmpty then failed warnings (.noneReadable units.length)
  else
    let settled := scan.2.catalog.settle
    let c := settled.2
    let types := if a.includeInternal then c.order else c.userTypes
    ⟨0, c.listing (a.order.getD .registration) types settled.1.unresolved, warnings⟩

/-- A run, with files read by the given function. -/
def run (a : Arguments) (read : String → Except ReadFault String) : Outcome :=
  match a.units (a.listFile.map read) with
  | .error f => failed [] f
  | .ok l => a.report (l.paths.map fun path => (path, read path))

end Arguments

end HeaderAtlas
