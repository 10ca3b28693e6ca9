import HeaderAtlas.Declaration.Header
import HeaderAtlas.Source.Path

/-!
# Source units

The headers of a run: a list of paths, read from a list file or given one by one, and what became of reading each of them. Reading
files is the only thing that can fail; a unit that cannot be read is reported and left out.
-/

namespace HeaderAtlas

/-- Why a file could not be read. -/
inductive ReadFault where
  | notFound
  | notAllowed
  | notAFolder
  | isAFolder
  | nameTooLong
  | nulInName
  | notText
  | other (reason : String)
  deriving DecidableEq, Repr

/-- Why a file could not be read, in words. -/
def ReadFault.text : ReadFault → String
  | notFound => "No such file or directory (os error 2)"
  | notAllowed => "Permission denied (os error 13)"
  | notAFolder => "Not a directory (os error 20)"
  | isAFolder => "Is a directory (os error 21)"
  | nameTooLong => "File name too long (os error 36)"
  | nulInName => "file name contained an unexpected NUL byte"
  | notText => "stream did not contain valid UTF-8"
  | other reason => reason

/-- The text in bytes that were read. -/
def decodeText (bytes : ByteArray) : Except ReadFault String :=
  match String.fromUTF8? bytes with
  | some text => .ok text
  | none => .error .notText

/-- A file that could not be read, and what it was to be read for. -/
inductive ReadError where
  | unit (path : String) (fault : ReadFault)
  | unitList (path : String) (fault : ReadFault)
  deriving DecidableEq, Repr

/-- What is said of a file that could not be read. -/
def ReadError.message : ReadError → String
  | unit path fault => s!"failed to read source unit '{path}': " ++ fault.text
  | unitList path fault => s!"failed to read unit list '{path}': " ++ fault.text

/-- The paths of the units to read, in order. -/
structure UnitList where
  paths : List String
  deriving DecidableEq, Repr

namespace UnitList

/-- A line of a list file names a unit: it is neither blank nor a comment. -/
def isEntry (line : String) : Bool := line != "" && !line.startsWith "//"

/-- The list in the text of a list file, its paths seen from a folder if there is one. -/
def ofText (text : String) (folder : Option String) : UnitList :=
  let entries := ((Text.lines text).map Text.trim).filter isEntry
  ⟨match folder with
    | some folder => entries.map (Path.join folder)
    | none => entries⟩

/-- The list with one more unit. -/
def push (l : UnitList) (path : String) : UnitList := ⟨l.paths ++ [path]⟩

end UnitList

/-- A list file that was read: its paths are seen from the folder of the file. -/
def Recorder.loadList (r : Recorder) (path : String) (content : Except ReadFault String) :
    Except ReadError (UnitList × Recorder) :=
  match content with
  | .error fault => .error (.unitList path fault)
  | .ok text =>
    let l := UnitList.ofText text (Path.folder? path)
    .ok (l, r.note (.unitsListed l.paths.length path))

/-- Which units were read and which could not be. -/
structure ScanReport where
  scanned : List String := []
  failed : List ReadError := []
  deriving DecidableEq, Repr

/-- Every unit was read. -/
def ScanReport.isComplete (s : ScanReport) : Bool := s.failed.isEmpty

namespace Recorder

/-- One unit read into the catalog. -/
def scanUnit (r : Recorder) (options : ScanOptions) (path : String) (content : Except ReadFault String) :
    Except ReadError Recorder :=
  match content with
  | .error fault => .error (.unit path fault)
  | .ok text => .ok ((r.note (.scanning path)).scan options text)

/-- One unit of several read, and what became of it reported. -/
def scanReported (options : ScanOptions) (s : ScanReport × Recorder) (u : String × Except ReadFault String) :
    ScanReport × Recorder :=
  match s.2.scanUnit options u.1 u.2 with
  | .ok r => ({ s.1 with scanned := s.1.scanned ++ [u.1] }, r)
  | .error e => ({ s.1 with failed := s.1.failed ++ [e] }, s.2.note (.unitFailed e.message))

/-- Units read in order, each with its path and content. -/
def scanUnits (r : Recorder) (options : ScanOptions) (units : List (String × Except ReadFault String)) :
    ScanReport × Recorder :=
  let s := units.foldl (scanReported options) ({}, r)
  (s.1, s.2.note (.unitsScanned s.1.scanned.length units.length))

end Recorder

end HeaderAtlas
