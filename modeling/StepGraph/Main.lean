import StepGraph.Command.Execute

/-!
# The program

Executes a command on the files of the disk.
-/

namespace StepGraph
namespace Main

/-- The number of an error, which some operations of the system give as a negative number. -/
def errorNumber (code : UInt32) : UInt32 := min code (0 - code)

/-- The error of a file operation. -/
def fileError (e : IO.Error) : FileError :=
  match e with
  | .noFileOrDirectory .. => .notFound
  | .inappropriateType _ code _ =>
    match errorNumber code with
    | 20 => .notDirectory
    | 21 => .isDirectory
    | _ => .other (toString e)
  | .invalidArgument _ code _ =>
    if errorNumber code = 36 then .nameTooLong else .other (toString e)
  | _ => .other (toString e)

/-- The files on the disk. -/
def disk : Files IO where
  read path := do
    try
      match String.fromUTF8? (← IO.FS.readBinFile path) with
      | some text => return .ok text
      | none => return .error .notText
    catch e => return .error (fileError e)
  write path text := do
    try
      IO.FS.writeBinFile path text.toUTF8
      return .ok ()
    catch e => return .error (fileError e)

end Main
end StepGraph

open StepGraph in
/-- Executes the arguments, prints the report and ends with its exit code. -/
def main (arguments : List String) : IO UInt32 := do
  let report ← Command.executeArguments Main.disk arguments
  IO.print report.output
  IO.eprint report.complaint
  return report.exitCode.toUInt32
