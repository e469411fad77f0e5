import Asm6502.Directive
import Asm6502.Mnemonic
import Asm6502.Token

/-!
# Statements

The tokens of a line form a run, and a run is at most one statement: a comment, the definition of a
symbol, or the inclusion of another file. All other runs are of no interest to the index.

## Main definitions

- `DefinitionKind`, `Role`, `Statement`: what a run says, and the run itself.
- `Statement.ofRun?`: the statement that a run makes.
-/

namespace Asm6502

inductive DefinitionKind where
  | label
  | constant
  | address
  | macroDef
  deriving DecidableEq, Repr

namespace DefinitionKind

def name : DefinitionKind → String
  | label => "Label"
  | constant => "Constant"
  | address => "Address"
  | macroDef => "Macro"

def all : List DefinitionKind :=
  [label, constant, address, macroDef]

/-- The name of the kind with the given number, counted from one in the order of `all`. -/
def nameOfCode (n : Int) : String :=
  if n < 1 then "None" else (all.map name).getD (n.toNat - 1) "None"

end DefinitionKind

/-- What a run of tokens says. `name` is the index of the token that names the symbol or the
file. -/
inductive Role where
  | comment
  | definition (kind : DefinitionKind) (name : Nat)
  | inclusion (name : Nat)
  deriving DecidableEq, Repr

namespace Role

/-- The names of the roles in order. The last one is reserved for runs of no interest. -/
def names : List String :=
  ["Comment", "Definition", "Include", "Plain"]

def name : Role → String
  | comment => "Comment"
  | definition .. => "Definition"
  | inclusion .. => "Include"

/-- The name of the role with the given number. -/
def nameOfCode (n : Int) : String :=
  if n < 0 then "Unknown" else names.getD n.toNat "Unknown"

end Role

/-- A classified run: the `count` tokens from index `start` on. -/
structure Statement where
  role : Role
  start : Nat
  count : Nat
  deriving DecidableEq, Repr

namespace Statement

def name? (s : Statement) : Option Nat :=
  match s.role with
  | .comment => none
  | .definition _ name => some name
  | .inclusion name => some name

def definitionKind? (s : Statement) : Option DefinitionKind :=
  match s.role with
  | .definition kind _ => some kind
  | _ => none

def isDefinition (s : Statement) : Bool :=
  s.definitionKind?.isSome

def isInclusion (s : Statement) : Bool :=
  match s.role with
  | .inclusion _ => true
  | _ => false

/-! ## Classification -/

/-- A directive that makes a statement out of its line: in `dialect`, the directive `keyword`
followed by a token of kind `parameter`, which names what `role` says. -/
structure Rule where
  dialect : Dialect
  keyword : String
  parameter : TokenKind
  role : Nat → Role

def rules : List Rule :=
  [⟨.acme, "!macro", .identifier, .definition .macroDef⟩,
   ⟨.acme, "!set", .identifier, .definition .constant⟩,
   ⟨.acme, "!addr", .identifier, .definition .address⟩,
   ⟨.acme, "!src", .string, .inclusion⟩,
   ⟨.kick, ".macro", .identifier, .definition .macroDef⟩,
   ⟨.kick, ".const", .identifier, .definition .constant⟩,
   ⟨.llvm, ".macro", .identifier, .definition .macroDef⟩,
   ⟨.tmpx, ".macro", .identifier, .definition .macroDef⟩,
   ⟨.tmpx, ".include", .string, .inclusion⟩]

def rule? (d : Dialect) (directive parameter : Token) : Option Rule :=
  rules.find? fun r =>
    r.dialect == d && Text.ofString r.keyword == directive.text && r.parameter == parameter.kind

/-- The role of a run that opens with a name: the definition of a constant if an equals sign
follows, and of a label otherwise. Mnemonics are not defined, and in LLVM a label stands alone. -/
def nameRole? (d : Dialect) (start : Nat) (first : Token) (others : List Token) : Option Role :=
  if d.isMnemonic first.text then none
  -- only the text is looked at, so that a string that reads like the sign counts as well
  else if others.head?.any (·.text == [.char '=']) then some (.definition .constant start)
  else if d != .llvm || others.isEmpty then some (.definition .label start)
  else none

def directiveRole? (d : Dialect) (start : Nat) (first : Token) (others : List Token) :
    Option Role :=
  others.head?.bind fun parameter => (rule? d first parameter).map (·.role (start + 1))

/-- The statement made by `run`, whose first token has the index `start`. -/
def ofRun? (d : Dialect) (start : Nat) (run : List Token) : Option Statement :=
  match run with
  | [] => none
  | first :: others =>
    let role? : Option Role := match first.kind with
      | .comment => some .comment
      | .identifier => nameRole? d start first others
      | .directive => directiveRole? d start first others
      | _ => none
    role?.map (⟨·, start, run.length⟩)

end Statement

end Asm6502
