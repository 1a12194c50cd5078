import SegmentedView.CommandLine.Program

/-!
# Command line

Connects the program to the operating system.
-/

set_option autoImplicit false

namespace SegmentedView.CommandLine

/-- The system's words for the failures to open a file that are met most. -/
def systemWords (code : UInt32) (text : String) : String :=
  match code with
  | 13 => "Permission denied"
  | 20 => "Not a directory"
  | 36 => "File name too long"
  | 40 => "Too many levels of symbolic links"
  | _ => text

/-- What it means that reading a path failed. Some failures come with the
negated number of the system. -/
def contentOfFailure : IO.Error → PathContent
  | .noFileOrDirectory _ _ _ => .nothing
  | .inappropriateType _ code text => numbered code text
  | .permissionDenied _ code text => numbered code text
  | .resourceExhausted _ code text => numbered code text
  | .invalidArgument _ code text => numbered code text
  | e => .refused (toString e)
where
  /-- The content for a failure with a number. -/
  numbered (code : UInt32) (text : String) : PathContent :=
    let code := if code < 4096 then code else 0 - code
    if code = 21 then .directory
    else .refused (systemWords code text ++ " (os error " ++ toString code ++ ")")

/-- What a path leads to on this system. -/
def lookUpFile (path : String) : IO PathContent := do
  try
    return .file (← IO.FS.readBinFile path)
  catch e =>
    return contentOfFailure e

end SegmentedView.CommandLine

/-- Runs the program with the arguments and the environment of the process. -/
def main (args : List String) : IO UInt32 := do
  let environment : SegmentedView.CommandLine.Environment := {
    config := ← IO.getEnv "TESSERA_CONFIG"
    log := ← IO.getEnv "RUST_LOG"
    logStyle := ← IO.getEnv "RUST_LOG_STYLE"
    noColour := ← IO.getEnv "NO_COLOR"
    forceColour := ← IO.getEnv "CLICOLOR_FORCE" }
  let finished ← SegmentedView.CommandLine.run SegmentedView.CommandLine.lookUpFile environment args
  IO.eprint finished.log
  IO.print finished.output.toText
  return finished.exit.toUInt32
