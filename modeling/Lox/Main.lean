import Lox.CommandLine
/-!
# `Main` — the program

Reads what a request needs from the world, has it performed, and writes the report. A session is
played line by line, so that an answer shows before the next line is read. All decisions are made by
`CommandLine` and `Session`.
-/
namespace Lox.Main

open CommandLine

/-- What the system says of a failed operation, unless the failure is not one of the system. The
number may come negated. -/
def readError? : IO.Error → Option ReadError
  | .alreadyExists _ code words | .otherError code words | .resourceBusy code words
  | .resourceVanished code words | .unsupportedOperation code words | .hardwareFault code words
  | .unsatisfiedConstraints code words | .illegalOperation code words | .protocolError code words
  | .timeExpired code words | .interrupted _ code words | .noFileOrDirectory _ code words
  | .invalidArgument _ code words | .permissionDenied _ code words | .resourceExhausted _ code words
  | .inappropriateType _ code words | .noSuchThing _ code words =>
    some ⟨min code.toNat (-code).toNat, words⟩
  | .unexpectedEof | .userError _ => none

/-- Reads a file as bytes. -/
def readFile (path : Path) : IO (Except ReadError (List UInt8)) := do
  try
    return .ok (← IO.FS.readBinFile path.text).toList
  catch e =>
    match readError? e with
    | some r => return .error r
    | none => throw e

/-- Is tracing switched on from outside? -/
def traceSwitch : IO Bool := do
  return Session.settingIsOn ((← IO.getEnv "LOX_DEBUG_PY_TRACE").map String.toList)

/-- Writes a report and gives its exit code. -/
def deliver : Except Breakdown Report → IO UInt32
  | .error e => throw (IO.userError e.message)
  | .ok r => do
    IO.print r.out
    IO.eprint r.err
    return r.code.number.toUInt32

/-- Writes what a session does. -/
def write (e : Session.Effects) : IO Unit := do
  for _ in [0:e.clears] do IO.print "\x1b[2J\x1b[H"
  IO.print e.out
  IO.eprint e.err
  (← IO.getStdout).flush

/-- Goes on with a session: `typed` holds the lines of an entry that is not complete yet. -/
partial def converse (s : Session) (typed : String) : IO Unit := do
  let line ← (← IO.getStdin).getLine
  if line.isEmpty then
    write Session.farewell
    return
  let stroke := Session.press (typed ++ String.ofList (line.toList.filter (· != '\n'))) .enter
  if stroke.actions.contains .submit then
    let (effects, s) := s.step (.line stroke.shown)
    write effects
    converse s ""
  else converse s stroke.kept

/-- Does what the arguments ask for. -/
def run (arguments : List String) : IO UInt32 := do
  let trace ← traceSwitch
  let request := Request.ofArguments arguments
  match request with
  | .run f tree .session =>
    write Session.banner
    converse ⟨f, ⟨tree, trace⟩⟩ ""
    return ExitCode.ok.number.toUInt32
  | .run _ _ .standardInput =>
    let bytes ← (← IO.getStdin).readBinToEnd
    deliver (request.perform ⟨fun _ => .error .missing, bytes.toList, [], trace⟩)
  | .run _ _ (.file path) =>
    let contents ← readFile (.ofText path)
    deliver (request.perform ⟨fun _ => contents, [], [], trace⟩)
  | _ => deliver (request.perform ⟨fun _ => .error .missing, [], [], trace⟩)

end Lox.Main

/-- The program. -/
def main (arguments : List String) : IO UInt32 := Lox.Main.run arguments
