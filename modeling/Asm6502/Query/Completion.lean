import Asm6502.Index.Navigation
import Asm6502.Text.Lines

/-!
# Completion

The word in front of the cursor is completed to keywords, mnemonics and symbols that start with it.

## Main definitions

- `Text.frontOfLine`, `Completion.word`: what stands in front of the cursor.
- `Suggestion`, `Completion.suggestions`: what a word can be completed to.
- `SymbolIndex.completeAt`: the suggestions at a position and the stretch that they replace.
-/

namespace Asm6502

/-- The part of a text in front of UTF-16 unit `count`. A character is not divided. -/
def Text.takeUnits (count : Int) : Text → Text
  | [] => []
  | g :: t => if count ≤ 0 then [] else g :: takeUnits (count - g.units) t

/-- The part of a line in front of a position, empty if there is no such line. -/
def Text.frontOfLine (t : Text) (pos : Position) : Text :=
  if pos.line < 0 then []
  else (((Text.lines t)[pos.line.toNat]?).map (Text.takeUnits pos.char)).getD []

inductive SuggestionKind where
  | directive
  | instruction
  | symbol (kind : Option DefinitionKind)
  deriving DecidableEq, Repr

namespace SuggestionKind

/-- The number under which editors know the kind of a suggestion. -/
def code : SuggestionKind → Nat
  | directive => 14
  | instruction => 14
  | symbol (some .label) => 3
  | symbol (some .constant) => 21
  | symbol (some .address) => 6
  | symbol (some .macroDef) => 2
  | symbol none => 0

/-- What is said about a suggestion. -/
def detail : SuggestionKind → String
  | directive => "directive"
  | instruction => "instruction"
  | symbol (some kind) => kind.name
  | symbol none => "None"

end SuggestionKind

structure Suggestion where
  label : Text
  kind : SuggestionKind
  deriving DecidableEq, Repr

namespace Completion

def isWordPart (g : Glyph) : Bool :=
  g.satisfies fun c => c.isAlphanum || c == '_'

def isSigil (g : Glyph) : Bool :=
  g.is '!' || g.is '.' || g.is '#'

/-- The word at the end of a line, with the sigil in front of it. -/
def word (front : Text) : Text :=
  let letters := front.reverse.takeWhile isWordPart
  let rest := front.reverse.dropWhile isWordPart
  (letters ++ (rest.take 1).filter isSigil).reverse

/-- Adds a suggestion unless there is one with the same label. -/
def suggest (found : List Suggestion) (s : Suggestion) : List Suggestion :=
  if found.any (·.label == s.label) then found else found ++ [s]

/-- The directives of LLVM, which are offered to its dialect only. -/
def ownDirectives (d : Dialect) (word : Text) : Checked (List Text) := do
  if d ≠ .llvm then return []
  let first ← Checked.entry word.toArray 0
  return if first.is '.' then
    d.catalog.directives.map fun name => .char '.' :: Text.ofString name else []

def keywords (d : Dialect) (word : Text) : Checked (List Suggestion) := do
  let special ← ownDirectives d word
  return (Keyword.search word ++ special.filter (Text.startsWith · word)).map (⟨·, .directive⟩)

/-- The mnemonics that start with `word` in any case. A word with a sigil is none. -/
def instructions (d : Dialect) (word : Text) : Checked (List Suggestion) := do
  let first ← Checked.entry word.toArray 0
  let lower := Text.ofString (Text.lowercase word.shown)
  return if isSigil first then [] else
    ((d.mnemonics.map Text.ofString).filter (·.startsWith lower)).map (⟨·, .instruction⟩)

/-- The symbols of `definitions` that start with `word` and go on. -/
def symbols (statements : Array Statement) (definitions : Table Text Nat) (word : Text) :
    Checked (List Suggestion) :=
  let wanted := definitions.filter fun (name, _) => name.startsWith word && name != word
  wanted.mapM fun (name, i) => do
    let s ← Checked.entry statements i
    return ⟨name, .symbol s.definitionKind?⟩

/-- What `word` can be completed to, by label, where the symbols are those of `definitions`. Of
suggestions with the same label a keyword comes before a mnemonic, and that before a symbol. -/
def suggestionsFrom (ix : SymbolIndex) (definitions : Table Text Nat) (word : Text) :
    Checked (List Suggestion) := do
  -- the sources below look at the first character of the word
  if word.isEmpty then return []
  let offered := (← keywords ix.dialect word) ++ (← instructions ix.dialect word) ++
    (← symbols ix.statements definitions word)
  return (offered.foldl suggest []).mergeSort fun a b => !b.label.precedes a.label

def suggestions (ix : SymbolIndex) (word : Text) : Checked (List Suggestion) :=
  suggestionsFrom ix ix.definitions word

end Completion

structure CompletionList where
  suggestions : List Suggestion := []
  replaced : Span := ⟨.origin, .origin⟩
  deriving DecidableEq, Repr

def SymbolIndex.completeAt (ix : SymbolIndex) (pos : Position) : Checked CompletionList := do
  let word := Completion.word ((Text.decode ix.source).frontOfLine pos)
  return { suggestions := ← Completion.suggestions ix word
           replaced := ⟨⟨pos.line, pos.char - word.size⟩, pos⟩ }

end Asm6502
