import Asm6502.Text.Blank
import Asm6502.Text.Lowercase

/-!
# Dialects

Four assemblers for the 6502 family, each with its own syntax. A text is read under one dialect
from beginning to end.

## Main definitions

- `Dialect`: the four dialects, and the dialect of which nothing is known.
- `Dialect.ofName?`: the dialect with a given name, canonical or not.
-/

namespace Asm6502

/-- The syntax a text is written in. Under `unknown` there are no instructions and no
directives. -/
inductive Dialect where
  | acme
  | kick
  | tmpx
  | llvm
  | unknown
  deriving DecidableEq, Repr

namespace Dialect

def name : Dialect → String
  | acme => "acme"
  | kick => "kick"
  | tmpx => "tmpx"
  | llvm => "llvm"
  | unknown => "unknown"

def all : List Dialect :=
  [acme, kick, tmpx, llvm]

/-- The names under which a dialect can be asked for. -/
def aliases : List (String × Dialect) :=
  [("acme", acme),
   ("kick", kick), ("kickass", kick), ("kickassembler", kick),
   ("tmpx", tmpx), ("tass", tmpx),
   ("llvm", llvm), ("llvm-mos", llvm), ("mos", llvm)]

/-- The dialect that goes by `name`. Case and surrounding blanks do not matter. -/
def ofName? (name : Text) : Option Dialect :=
  aliases.lookup (Text.lowercase (Text.trim name).shown)

/-- The dialect with the given number, in the order of `all`. -/
def ofCode (n : Int) : Dialect :=
  if n < 0 then unknown else all.getD n.toNat unknown

/-- The supported dialects as they are listed in messages. -/
def listing : String :=
  "[" ++ " ".intercalate (all.map name) ++ "]"

end Dialect

end Asm6502
