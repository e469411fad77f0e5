import Asm6502.Text.Quoted
import Asm6502.Tool.Report

/-!
# Running tools

An external command is started with both of its output streams going to one place, and its output
is brought into the form that editors read. Which programs there are, and what they do, is up to the
system that the command is run on.

## Main definitions

- `Tool.Program`: a program that can be started.
- `Tool.RunError`: why a command cannot be started.
- `Tool.run`: the messages of a command and its exit status.
-/

namespace Asm6502.Tool

/-- A program at some path. Started with operands it writes bytes, and ends with a status. -/
structure Program where
  path : String
  start : List String → Bytes × Nat

inductive RunError where
  | noCommand
  | unnamed
  | notFound (name : String)
  | noSuchFile (path : String)
  /-- An operand holds a character that ends operands. -/
  | invalidOperand (path : String)
  deriving DecidableEq, Repr

def RunError.message : RunError → String
  | noCommand => "no command given"
  | unnamed => "exec: no command"
  | notFound name =>
    s!"exec: {Text.quoted (Text.ofString name)}: executable file not found in $PATH"
  | noSuchFile path => s!"fork/exec {path}: no such file or directory"
  | invalidOperand path => s!"fork/exec {path}: invalid argument"

/-- Runs a command, given the programs by name. The answer is its messages and its exit status. -/
def run (program? : String → Option Program) (command : List String) :
    Except RunError (Text × Nat) :=
  match command with
  | [] => .error .noCommand
  | name :: operands =>
    -- the name is looked up before the operands are looked at
    if name.isEmpty then .error .unnamed
    else match program? name with
      | none => .error (if name.contains '/' then .noSuchFile name else .notFound name)
      | some program =>
        if operands.any (·.contains '\x00') then .error (.invalidOperand program.path)
        else
          let (output, status) := program.start operands
          .ok (Report.clean (Text.decode output), status)

end Asm6502.Tool
