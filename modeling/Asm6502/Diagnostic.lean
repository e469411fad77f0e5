import Asm6502.Text.Position

/-!
# Diagnostics

Remarks about a text, each with the stretch of text it is about. The wording of all of them is in
this module.

## Main definitions

- `Severity`, `Diagnostic`: a remark and its weight.
- `Diagnostic.unterminatedString`, `Diagnostic.redefinition`, `Diagnostic.interrupted`: the remarks
  that reading a text can give rise to.
-/

namespace Asm6502

inductive Severity where
  | error
  | warning
  | information
  deriving DecidableEq, Repr

/-- The number of a severity, the gravest first. -/
def Severity.code : Severity → Nat
  | error => 1
  | warning => 2
  | information => 3

structure Diagnostic where
  span : Span
  message : Text
  severity : Severity
  deriving DecidableEq, Repr

namespace Diagnostic

def source : String := "Parser"

def unterminatedString (span : Span) : Diagnostic :=
  ⟨span, Text.ofString "Unterminated string literal", .error⟩

/-- The symbol `name` is defined again; the definition before this one was on row `previous`,
counted from zero. -/
def redefinition (name : Text) (previous : Int) (span : Span) : Diagnostic :=
  ⟨span,
   Text.ofString "Symbol \"" ++ name ++
     Text.ofString s!"\" redefined, previous definition on line {previous + 1}",
   .warning⟩

/-- Reading was called off before it was done. The remark is about no stretch in particular. -/
def interrupted (filename : Text) : Diagnostic :=
  ⟨⟨.origin, .origin⟩,
   Text.ofString "Parsing of \"" ++ filename ++
     Text.ofString "\" was cancelled, results are incomplete",
   .information⟩

end Diagnostic

end Asm6502
