import Asm6502.Index.Navigation

/-!
# Outlines

## Main definitions

- `OutlineItem`: a definition in the outline of a document.
- `SymbolIndex.outline`: the definitions of a document in order.
-/

namespace Asm6502

/-- A definition: the stretch of its statement, and that of the name in it. -/
structure OutlineItem where
  name : Text
  kind : DefinitionKind
  span : Span
  selection : Span
  deriving DecidableEq, Repr

def DefinitionKind.symbolCode : DefinitionKind → Nat
  | label => 12
  | constant => 14
  | address => 13
  | macroDef => 6

namespace SymbolIndex

def definingStatements (ix : SymbolIndex) : List (Statement × DefinitionKind) :=
  ix.statements.toList.filterMap fun s => s.definitionKind?.map (s, ·)

def outlineItem (ix : SymbolIndex) (s : Statement) (kind : DefinitionKind) :
    Checked OutlineItem := do
  let first ← ix.spanOf (← Checked.entry ix.tokens s.start)
  let last ← ix.spanOf (← Checked.entry ix.tokens ((s.start : Int) + s.count - 1))
  let selection ← ix.spanOf (← ix.nameToken s)
  return { name := ix.statementName s, kind, span := ⟨first.start, last.stop⟩, selection }

def outline (ix : SymbolIndex) : Checked (List OutlineItem) :=
  ix.definingStatements.mapM fun (s, kind) => ix.outlineItem s kind

end SymbolIndex

end Asm6502
