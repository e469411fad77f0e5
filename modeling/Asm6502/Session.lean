import Asm6502.Index.Listing

/-!
# Interactive sessions

A session grows a text line by line and lists what each line adds. Lines that start with a colon are
commands to the session itself.

## Main definitions

- `Session`, `Session.start`: the text so far and its index.
- `Session.add`: another line of text.
- `Session.complete`: suggestions for the word at the end of a line.
- `Session.command`: a command.
- `Session.run`: a whole session, from its input to its output.
-/

namespace Asm6502

/-- The text entered so far and its index. -/
structure Session where
  dialect : Dialect
  source : Bytes
  index : SymbolIndex

namespace Session

def start (d : Dialect) : Session :=
  ⟨d, [], .parse d []⟩

def reset (s : Session) : Session :=
  start s.dialect

/-- Adds a line. The second part is the number of tokens there were before. -/
def add (s : Session) (line : Bytes) : Session × Nat :=
  let source := s.source ++ line ++ [0x0A]
  ({ s with source, index := .parse s.dialect source }, s.index.tokens.size)

/-! ## Completion -/

/-- Whether a word starts behind the glyph. -/
def isSeparator (g : Glyph) : Bool :=
  g.is ' ' || g.is '\t' || g.is ',' || g.is '('

/-- The keywords, mnemonics and symbols that start with `word`, in order. -/
def candidates (s : Session) (word : Text) : List Text :=
  let lower := Text.ofString (Text.lowercase word.shown)
  let mnemonics := (s.dialect.mnemonics.map Text.ofString).filter (·.startsWith lower)
  let symbols := s.index.definitions.keys.filter (·.startsWith word)
  (Keyword.search word ++ mnemonics ++ symbols).mergeSort fun a b => !b.precedes a

/-- The lines that the word at the end of `line` can be completed to; nothing is suggested without a
word. -/
def complete (s : Session) (line : Text) : Option (List Text) :=
  -- from behind, up to the nearest separator
  let word := (line.reverse.takeWhile (!isSeparator ·)).reverse
  let front := line.take (line.length - word.length)
  if word.isEmpty then none else some ((s.candidates word).map (front ++ ·))

/-! ## Commands -/

/-- The symbols by name, each with its kind. -/
def symbolLines (s : Session) : Checked Text := do
  let names := s.index.definitions.keys.mergeSort fun a b => !b.precedes a
  let lines ← names.mapM fun name => do
    let kind := ((← s.index.lookup name).bind Statement.definitionKind?).map DefinitionKind.name
    pure (Text.ofString (Text.padRight 8 ' ' (kind.getD "None") ++ " ") ++ name ++ [.char '\n'])
  pure lines.flatten

/-- The outcome of a command: the session behind it, whether the session ends, and what is
printed. -/
structure Outcome where
  session : Session
  ends : Bool := false
  printed : Text := []

def command (s : Session) (line : Text) : Checked Outcome :=
  match Text.fields line with
  | [] => .error (.index 0 0)
  | verb :: operands =>
    if verb == Text.ofString ":quit" then pure { session := s, ends := true }
    else if verb == Text.ofString ":reset" then pure { session := s.reset }
    else if verb == Text.ofString ":dialect" then
      match operands with
      | [name] =>
        match Dialect.ofName? name with
        | some d => pure { session := start d }
        | none => pure
            { session := s
              printed := Text.ofString "unknown dialect " ++ name ++
                Text.ofString s!", expected one of {Dialect.listing}\n" }
      | _ => pure
          { session := s, printed := Text.ofString s!"current dialect: {s.dialect.name}\n" }
    else if verb == Text.ofString ":symbols" then do
      pure { session := s, printed := ← s.symbolLines }
    else pure
      { session := s
        printed := Text.ofString "commands: :dialect [name], :symbols, :reset, :quit\n" }

/-- Takes a line of input: a command, text, or nothing. -/
def enter (s : Session) (line : Bytes) : Checked Outcome :=
  let trimmed := Text.trim (Text.decode line)
  match trimmed with
  | [] => pure { session := s }
  | g :: _ =>
    if g.is ':' then s.command trimmed
    else
      let (s, old) := s.add line
      pure { session := s, printed := s.index.listing old }

/-! ## Whole sessions -/

def prompt (s : Session) : Text :=
  Text.ofString s!"{s.dialect.name}> "

/-- What a session prints while it takes lines, up to the end of the input or of the session. -/
def transcript (s : Session) : List Bytes → Checked Text
  | [] => pure (s.prompt ++ [.char '\n'])
  | line :: lines => do
    let outcome ← s.enter line
    let front := s.prompt ++ outcome.printed
    if outcome.ends then pure front else pure (front ++ (← outcome.session.transcript lines))

/-- The most bytes of a line that are taken at once. -/
def lineLimit : Nat := 4096

/-- How much of a line that is too long is taken: a carriage return at the end waits for what
follows it. -/
def pieceSize (bytes : Bytes) : Nat :=
  if bytes[lineLimit - 1]? = some 0x0D then lineLimit - 1 else lineLimit

theorem pieceSize_pos (bytes : Bytes) : 0 < pieceSize bytes := by
  unfold pieceSize lineLimit
  split <;> omega

/-- A line in pieces that can be taken at once. A carriage return in front of the end of the line
belongs to the end; a line that the input breaks off has no end. -/
def pieces (ended : Bool) (line : Bytes) : List Bytes :=
  if line.length < lineLimit then
    if ended then [if line.getLast? = some 0x0D then line.dropLast else line]
    else if line.isEmpty then [] else [line]
  else
    let size := pieceSize line
    line.take size :: pieces ended (line.drop size)
termination_by line.length
decreasing_by
  have := pieceSize_pos line
  simp only [List.length_drop, lineLimit] at *
  omega

def inputLines (input : Bytes) : List Bytes :=
  let lines := input.splitOn 0x0A
  lines.dropLast.flatMap (pieces true) ++ pieces false (lines.getLast?.getD [])

/-- What a whole session under dialect `d` prints, given its input. -/
def run (d : Dialect) (input : Bytes) : Checked Text :=
  (start d).transcript (inputLines input)

end Session

end Asm6502
