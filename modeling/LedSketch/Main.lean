import LedSketch.CommandLine

/-!
# The program

Reads the files that the command names, does the command, and writes what it says as soon as it is
said. While a sketch runs, the program sleeps whenever the time of the sketch moves on.
-/

namespace LedSketch.Main

open CommandLine

/-- What the system says about a file that cannot be read. -/
def problemOf : IO.Error → FileProblem
  | .noFileOrDirectory .. => .missing
  | .permissionDenied .. => .noPermission
  | .inappropriateType _ code _ => if code = 20 then .notADirectory else .isDirectory
  | _ => .isDirectory

/-- Reads the octets of a file. -/
def octetsOf (path : String) : IO (Except FileProblem (List UInt8)) :=
  try
    return .ok (← IO.FS.readBinFile path).toList
  catch e => return .error (problemOf e)

/-- Writes what a terminal holds, and empties it. -/
def flush (t : Terminal) : IO Terminal := do
  let out ← IO.getStdout
  let err ← IO.getStderr
  unless t.err.isEmpty do
    err.putStr t.err
    err.flush
  unless t.out.isEmpty do
    out.putStr t.out
    out.flush
  return { t with out := "", err := "" }

/-- Writes what the terminal of a timeline holds. -/
def flushTimeline (t : Timeline) : IO Timeline := do
  let terminal ← flush t.bench.terminal
  return onTerminal t fun _ => terminal

/-- Drives a run to its end. -/
partial def drive (run : Run) (t : Timeline) : IO Timeline := do
  let before := t.bench.now
  match t.step with
  | .idle => return t
  | .called label t => if label = run.label then return t else drive run t
  | .went t =>
    let t ← flushTimeline t
    IO.sleep ((t.bench.now - before) * 1000.0).toUInt32
    drive run t

/-- The exit status of a command. -/
def statusOf : Departure → IO UInt32
  | .returned status | .gaveUp status => return status.toUInt32
  | .crashed c => do
    (← IO.getStderr).putStrLn c.text
    return 1

/-- Does the command of some arguments. -/
def run (args : List String) : IO UInt32 := do
  let paths := (args.drop 1).take 2
  let found ← (paths ++ paths.map plainPath).mapM fun path => do return (path, ← octetsOf path)
  let files (path : String) := (found.lookup path).getD (.error .missing)
  let interactive ← (← IO.getStdout).isTty
  let debug := ((← IO.getEnv "LUMALAB_DEBUG").getD "") != ""
  match start files args { interactive, debug } with
  | .over d t =>
    let _ ← flush t
    statusOf d
  | .driving run t =>
    let (d, t) := run.finish (← drive run t)
    let _ ← flushTimeline t
    statusOf d

end LedSketch.Main

def main (args : List String) : IO UInt32 := LedSketch.Main.run args
