import Asm6502.Index.Navigation
import Asm6502.Uri

/-!
# Definitions and references

Where a symbol is defined, and where it occurs.

## Main definitions

- `Location`: a stretch of a document.
- `SymbolIndex.definitionAt`: the definition of the symbol, or the file, that a position names.
- `SymbolIndex.referencesAt`: the occurrences of the symbol that a position names.
-/

namespace Asm6502

structure Location where
  uri : String
  span : Span
  deriving DecidableEq, Repr

namespace SymbolIndex

def namesFile (ix : SymbolIndex) (i : Nat) : Checked Bool := do
  let s? ← ix.statementAt i
  return s?.any fun s => s.role == .inclusion i

/-- The start of the file that the document `uri` includes under `name`. -/
def inclusionTarget? (uri : String) (name : Text) : Option Location :=
  (Uri.resolve? uri name).map (⟨·, ⟨.origin, .origin⟩⟩)

/-- The definition of the symbol under `pos`, or the start of the file that is included there. The
index is that of the document `uri`. -/
def definitionAt (ix : SymbolIndex) (uri : String) (pos : Position) :
    Checked (Option Location) := do
  let some i ← ix.tokenAt pos | return none
  let t ← Checked.entry ix.tokens i
  if t.kind = .string then
    if ← ix.namesFile i then return inclusionTarget? uri t.text
    return none
  let some (name, _) ← ix.symbolAt pos | return none
  let some s ← ix.resolve name | return none
  return some ⟨uri, ← ix.spanOf (← ix.nameToken s)⟩

/-- The spellings of the symbol `name`. A label of Kick Assembler that is defined with an
exclamation mark in front is also written without it. -/
def spellings (ix : SymbolIndex) (name : Text) : Checked (List Text) := do
  if ix.dialect ≠ .kick then return [name]
  let base := if name.head?.any (·.is '!') then name.drop 1 else name
  let marked : Text := .char '!' :: base
  return if (← ix.lookup marked).isSome then [base, marked] else [name]

/-- The indices of the tokens that name the definitions of the given symbols. -/
def declarations (ix : SymbolIndex) (names : List Text) : Checked (List Nat) := do
  let statements ← names.mapM ix.lookup
  return statements.filterMap (·.bind Statement.name?)

/-- The occurrences of the symbol under `pos`, in order. -/
def referencesAt (ix : SymbolIndex) (uri : String) (pos : Position) (withDeclarations : Bool) :
    Checked (List Location) := do
  let some (name, _) ← ix.symbolAt pos | return []
  let names ← ix.spellings name
  let declared ← ix.declarations names
  -- the spellings are searched one after the other, and what is found is put in order of the text
  let indices := (names.flatMap ix.occurrences).mergeSort
  let wanted := indices.filter fun i => withDeclarations || !declared.contains i
  wanted.mapM fun (i : Nat) => do return ⟨uri, ← ix.spanOf (← Checked.entry ix.tokens i)⟩

end SymbolIndex

end Asm6502
