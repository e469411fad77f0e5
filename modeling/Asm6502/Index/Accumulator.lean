import Asm6502.Statement
import Asm6502.Table

/-!
# Accumulating statements

Tokens arrive one at a time. Those of a line are gathered into a run, which a line break or a
comment closes; a closed run is classified at once, and the symbol it defines is entered into the
table of definitions.

## Main definitions

- `Accumulator`: what has been gathered so far.
- `Accumulator.emit`: the next token arrives.
- `Accumulator.flush`: the open run is closed.
-/

namespace Asm6502

/-- A symbol was defined by the statement `previous` and again by the statement `current`. -/
structure Redefinition where
  name : Text
  previous : Nat
  current : Nat
  deriving DecidableEq, Repr

/-- The tokens and statements so far. The open run is the `runCount` tokens from `runStart` on. -/
structure Accumulator where
  dialect : Dialect
  tokens : Array Token := #[]
  runStart : Nat := 0
  runCount : Nat := 0
  statements : Array Statement := #[]
  /-- For each symbol the index of the statement that defined it last. -/
  definitions : Table Text Nat := []
  /-- The indices of the statements that include a file. -/
  references : Array Nat := #[]
  redefinitions : Array Redefinition := #[]

namespace Accumulator

def tokenText (a : Accumulator) (i : Nat) : Text :=
  (a.tokens[i]?.map Token.text).getD []

def define (a : Accumulator) (name : Text) (index : Nat) : Accumulator :=
  { a with
    definitions := a.definitions.insert name index
    redefinitions := match a.definitions.find? name with
      | some previous => a.redefinitions.push ⟨name, previous, index⟩
      | none => a.redefinitions }

/-- Adds a statement and enters it into the tables. -/
def record (a : Accumulator) (s : Statement) : Accumulator :=
  -- the statement is entered under the index that it gets
  let index := a.statements.size
  let a := { a with statements := a.statements.push s }
  match s.role with
  | .comment => a
  | .definition _ name => a.define (a.tokenText name) index
  | .inclusion _ => { a with references := a.references.push index }

/-- Classifies the `count` tokens from `start` on. Nothing is recorded for a run that is empty or
reaches beyond the tokens. -/
def classify (a : Accumulator) (start count : Nat) : Accumulator :=
  if count < 1 ∨ a.tokens.size < start + count then a
  else match Statement.ofRun? a.dialect start (a.tokens.extract start (start + count)).toList with
    | some s => a.record s
    | none => a

def flush (a : Accumulator) : Accumulator :=
  let a := if 0 < a.runCount then a.classify a.runStart a.runCount else a
  { a with runStart := 0, runCount := 0 }

/-- Adds a token. A line break closes the run in front of it, and so does a comment, which is a
statement of its own. -/
def emit (a : Accumulator) (t : Token) : Accumulator :=
  let index := a.tokens.size
  let a := { a with tokens := a.tokens.push t }
  match t.kind with
  | .lineBreak => a.flush
  | .comment => a.flush.classify index 1
  | _ =>
    { a with
      runStart := if a.runCount = 0 then index else a.runStart
      runCount := a.runCount + 1 }

end Accumulator

end Asm6502
