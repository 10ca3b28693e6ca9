import HeaderAtlas.CommandLine

/-!
# The program

Reads the files that the arguments name and prints what the command line says of them.
-/

namespace HeaderAtlas

/-- The number of a system fault; some calls report it with its sign changed. -/
def faultNumber (code : UInt32) : Nat := if code.toNat < Nat.pow 2 31 then code.toNat else Nat.pow 2 32 - code.toNat

/-- Why the system could not read a file. -/
def faultOf (e : IO.Error) : ReadFault :=
  match e with
  | .noFileOrDirectory .. => .notFound
  | .permissionDenied .. => .notAllowed
  | .inappropriateType _ code _ =>
    if faultNumber code = 20 then .notAFolder else if faultNumber code = 21 then .isAFolder else .other (toString e)
  | .invalidArgument _ code _ => if faultNumber code = 36 then .nameTooLong else .other (toString e)
  | _ => .other (toString e)

/-- The text of a file, or why there is none. -/
def readText (path : String) : IO (Except ReadFault String) := do
  if path.contains '\x00' then return .error .nulInName
  try return decodeText (← IO.FS.readBinFile path)
  catch e => return .error (faultOf e)

/-- A run on the files of the system. -/
def runOnFiles (a : Arguments) : IO Outcome := do
  match a.units (← a.listFile.mapM readText) with
  | .error f => return Arguments.failed [] f
  | .ok l => return a.report (← l.paths.mapM fun path => return (path, ← readText path))

/-- How the program is called. -/
def usage : String :=
  "usage: [--file PATH]... [--config-file PATH] [--order ORDER] [--include-private] [--api-decl WORD]... " ++
    "[--include-internal]"

/-- A run for arguments as they are given. -/
def runProgram (args : List String) : IO UInt32 := do
  match Arguments.read? args with
  | none =>
    IO.eprintln usage
    return 2
  | some a =>
    let outcome ← runOnFiles a
    outcome.errors.forM fun line => IO.eprintln line
    outcome.output.forM fun line => IO.println line
    return outcome.exit.toUInt32

end HeaderAtlas

/-- The types declared in the headers that the arguments name. -/
def main (args : List String) : IO UInt32 := HeaderAtlas.runProgram args
