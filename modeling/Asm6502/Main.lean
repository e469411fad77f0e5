import Asm6502.CommandLine
import Asm6502.Server.Handle

/-!
# The program

Reads arguments, files and the standard streams, and leaves everything else to the library. No other
program is started from here.
-/

namespace Asm6502.Main

def readFile (path : String) : IO (List (Text × Bytes)) := do
  try
    let contents ← IO.FS.readBinFile path
    return [(Text.ofString path, contents.data.toList)]
  catch _ => return []

/-- The files and variables that the arguments call for. -/
def environment (args : List String) : IO CommandLine.Environment := do
  let settingsPath := (← IO.getEnv "ASMLENS_CONFIG").getD ""
  let used := if settingsPath.isEmpty then Settings.fileName else settingsPath
  let files ← (used :: (args.drop 1).take 1).mapM readFile
  return { files := .ofFiles files.flatten, settingsPath }

def write (stream : IO.FS.Stream) (t : Text) : IO Unit := do
  stream.write (ByteArray.mk t.bytes.toArray)
  stream.flush

def giveUp (message : Text) : IO UInt32 := do
  write (← IO.getStderr) (message ++ [.char '\n'])
  return 1

def giveUpWith (f : Fault) : IO UInt32 :=
  giveUp (Text.ofString (match f with
    | .index i size => s!"index {i} out of range of {size}"
    | .slice start stop size => s!"slice {start} to {stop} out of range of {size}"))

/-! ## Interactive sessions -/

/-- Takes pieces of a line. The second part says whether the session ends. -/
def takePieces (output : IO.FS.Stream) (s : Session) :
    List Bytes → IO (Except Fault (Session × Bool))
  | [] => return .ok (s, false)
  | piece :: pieces => do
    match s.enter piece with
    | .error f => return .error f
    | .ok outcome =>
      write output outcome.printed
      if outcome.ends then return .ok (outcome.session, true)
      unless pieces.isEmpty do write output outcome.session.prompt
      takePieces output outcome.session pieces

partial def interact (input output : IO.FS.Stream) (s : Session) : IO UInt32 := do
  write output s.prompt
  let line := (Text.ofString (← input.getLine)).bytes
  if line.isEmpty then
    write output [.char '\n']
    return 0
  let ended := line.getLast? = some 0x0A
  match ← takePieces output s (Session.pieces ended (if ended then line.dropLast else line)) with
  | .error f => giveUpWith f
  | .ok (s, ends) => if ends then return 0 else interact input output s

/-! ## The language server -/

def lengthOf? (line : String) : Option Nat :=
  match line.splitOn ":" with
  | [name, value] =>
    if name.trimAscii.toString.toLower == "content-length" then value.trimAscii.toString.toNat?
    else none
  | _ => none

partial def readHeader (input : IO.FS.Stream) (length? : Option Nat) : IO (Option Nat) := do
  let line ← input.getLine
  if line.isEmpty then return none
  if line.trimAscii.isEmpty then return length?
  readHeader input (lengthOf? line <|> length?)

partial def readBody (input : IO.FS.Stream) (count : Nat) (read : ByteArray) :
    IO (Option ByteArray) := do
  if count ≤ read.size then return some read
  let more ← input.read (USize.ofNat (count - read.size))
  if more.isEmpty then return none
  readBody input count (read ++ more)

def readMessage (input : IO.FS.Stream) : IO (Option Message) := do
  let some length ← readHeader input none | return none
  let some body ← readBody input length .empty | return none
  return some ((Json.parse (Text.decode body.data.toList)).elim .malformed Message.ofJson)

def send (output : IO.FS.Stream) (message : Outgoing) : IO Unit := do
  let members := match message.toJson with
    | .object members => ("jsonrpc", .string "2.0") :: members
    | _ => []
  let body := (Json.object members).render
  output.putStr s!"Content-Length: {body.utf8ByteSize}\r\n\r\n{body}"
  output.flush

partial def serve (input output : IO.FS.Stream) (debug : Bool) (w : Workspace) : IO UInt32 := do
  let some message ← readMessage input | return 0
  match Server.receive w message with
  | .error f => giveUpWith f
  | .ok reaction =>
    if debug then reaction.logs.forM IO.eprintln
    reaction.sent.forM (send output)
    if reaction.closes then return 0 else serve input output debug reaction.workspace

/-! ## Commands -/

def finish (outcome : CommandLine.Outcome) : IO UInt32 := do
  write (← IO.getStdout) outcome.printed
  match outcome.ending with
  | .exit status => return UInt32.ofNat status
  | .fatal message => giveUp message
  | .fault f => giveUpWith f
  | .serve settings debug => serve (← IO.getStdin) (← IO.getStdout) debug { settings }
  | .listen =>
    giveUp (Text.ofString "Could not bind to address :2035: connections are not supported")

def runSession (env : CommandLine.Environment) (dialect? : Option String) : IO UInt32 := do
  match CommandLine.sessionDialect env dialect? with
  | .error message => giveUp message
  | .ok d => interact (← IO.getStdin) (← IO.getStdout) (.start d)

def run (args : List String) : IO UInt32 := do
  let env ← environment args
  match args with
  | ["repl"] => runSession env none
  | ["repl", dialect] => runSession env (some dialect)
  | _ => finish (CommandLine.run env args)

end Asm6502.Main

def main (args : List String) : IO UInt32 :=
  Asm6502.Main.run args
