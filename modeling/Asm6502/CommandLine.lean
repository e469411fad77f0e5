import Asm6502.Debug.ObjectFile
import Asm6502.Session
import Asm6502.Settings
import Asm6502.Text.Number
import Asm6502.Tool.Run

/-!
# The command line

## Main definitions

- `CommandLine.Environment`: the files, variables, input and programs that a command sees.
- `CommandLine.Outcome`: what a command prints and how it ends.
- `CommandLine.run`: carries out a command.
-/

namespace Asm6502.CommandLine

def programName : String := "asmlens"

/-- What a command sees of the world. -/
structure Environment where
  files : FileStore
  /-- The path of the settings, if it is not the usual one. -/
  settingsPath : String := ""
  input : Bytes := []
  /-- The programs that can be started, by name. -/
  program? : String → Option Tool.Program := fun _ => none

inductive Ending where
  | exit (status : Nat)
  | fatal (message : Text)
  | serve (settings : Settings) (debug : Bool)
  /-- The language server is to be started for connections from elsewhere. -/
  | listen
  | fault (f : Fault)

structure Outcome where
  printed : Text := []
  ending : Ending := .exit 0

def fatal (message : Text) : Outcome :=
  { ending := .fatal message }

def prints (t : Text) : Outcome :=
  { printed := t }

/-- A computation whose fault ends the program. -/
def ofChecked {α : Type} (result : Checked α) (behind : α → Outcome) : Outcome :=
  match result with
  | .ok a => behind a
  | .error f => { ending := .fault f }

/-- The settings in force: the built-in ones under those of the settings file, if it can be
read. -/
def settings (env : Environment) : Except Text Settings :=
  let path := if env.settingsPath.isEmpty then Settings.fileName else env.settingsPath
  match env.files.read (Text.ofString path) with
  | .error _ => .ok .builtin
  | .ok document =>
    match Settings.builtin.merge document with
    | some s => .ok s
    | none => .error (Text.ofString s!"Error unmarshalling {path}:")

def dialectNamed (name : String) : Except Text Dialect :=
  match Dialect.ofName? (Text.ofString name) with
  | some d => .ok d
  | none =>
    .error (Text.ofString s!"Unknown dialect {name}, expected one of {Dialect.listing}")

/-- Lists the index of a file. The dialect is that of its name unless one is given. -/
def parse (env : Environment) (path : String) (dialect? : Option String) : Outcome :=
  match env.files.read (Text.ofString path) with
  | .error e =>
    fatal (Text.ofString s!"Could not read file {path}: " ++ e.message (Text.ofString path))
  | .ok source =>
    let dialect : Except Text Dialect := do
      let s ← settings env
      match dialect? with
      | some name => dialectNamed name
      | none => pure (s.dialectFor path)
    match dialect with
    | .error message => fatal message
    | .ok d => prints ((SymbolIndex.parse d source).listing 0)

/-- The dialect of an interactive session: the usual one unless one is given. -/
def sessionDialect (env : Environment) (dialect? : Option String) : Except Text Dialect := do
  let s ← settings env
  match dialect? with
  | some name => dialectNamed name
  | none => pure s.fallback

/-- Holds an interactive session over the whole input. -/
def interact (env : Environment) (dialect? : Option String) : Outcome :=
  match sessionDialect env dialect? with
  | .error message => fatal message
  | .ok d => ofChecked (Session.run d env.input) prints

def offsetLine (index offset : Nat) : String :=
  let row := Text.padLeft 6 ' ' (toString index)
  s!"{row}  0x{Text.hexPadded 8 offset}\n"

def printTable (t : OffsetTable) : Outcome :=
  let header :=
    s!"version {t.header.version}, {t.header.format.width * 8}-bit, {t.size} offsets\n"
  let rows := t.offsets.zipIdx.map fun (offset, i) => offsetLine i offset
  prints ((header :: rows).flatMap Text.ofString)

def printOffset (t : OffsetTable) (operand : String) : Outcome :=
  match Number.parse 10 operand.toList with
  | .error e =>
    let shown := Text.quoted (Text.ofString operand)
    fatal (Text.ofString
      s!"Invalid index {operand}: strconv.Atoi: parsing {shown}: {e.message}")
  | .ok index =>
    match t.get? index with
    | none =>
      fatal (Text.ofString s!"Index {index} out of range, the table holds {t.size} offsets")
    | some offset => prints (Text.ofString s!"0x{Text.hex offset}\n")

/-- Prints the string offset table of an object file, or one of its offsets. -/
def stringOffsets (env : Environment) (path : String) (index? : Option String) : Outcome :=
  let place := Text.ofString path
  match OffsetTable.load env.files place with
  | .error (.table (.unsupportedVersion v)) =>
    fatal (Text.ofString s!"{path}: {(SectionError.unsupportedVersion v).message}")
  | .error e =>
    fatal (Text.ofString s!"Could not read string offsets of {path}: " ++ e.message place)
  | .ok t =>
    match index? with
    | some operand => printOffset t operand
    | none => printTable t

/-- Runs an assembler and prints its messages. -/
def wrapTool (env : Environment) (name : String) (operands : List String) : Outcome :=
  match Tool.run env.program? (name :: operands) with
  | .error e => fatal (Text.ofString s!"Could not run {name}: {e.message}")
  | .ok (messages, status) =>
    { printed := if messages.isEmpty then [] else messages ++ [.char '\n']
      ending := .exit status }

def run (env : Environment) (args : List String) : Outcome :=
  match args with
  | "languageServer" :: operands =>
    match settings env with
    | .error message => fatal message
    | .ok s => { ending := .serve s (operands.head? == some "debug") }
  | [] => { ending := .listen }
  | ["parse", path] => parse env path none
  | ["parse", path, dialect] => parse env path (some dialect)
  | ["repl"] => interact env none
  | ["repl", dialect] => interact env (some dialect)
  | ["strOffsets", path] => stringOffsets env path none
  | ["strOffsets", path, index] => stringOffsets env path (some index)
  | "tmpw" :: name :: operands => wrapTool env name operands
  | _ =>
    let shown := " ".intercalate (programName :: args)
    fatal (Text.ofString s!"Invalid arguments: [{shown}]")

end Asm6502.CommandLine
