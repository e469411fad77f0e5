import Asm6502.Dialect

/-!
# Directives

Each dialect has a catalog of directives, written behind a sigil. The keyword search takes no
dialect: the sigil of the query alone selects the catalogs, so that keywords can be offered before
the dialect of a text is known.

## Main definitions

- `Catalog`, `Dialect.catalog`: the keywords of a dialect.
- `Dialect.isDirective`: whether a name is a directive.
- `Keyword.search`: the keywords that start with a query.
-/

namespace Asm6502

def acmeDirectives : List String :=
  ["fill", "fi", "align", "convtab", "ct", "text", "tx", "pet", "raw", "scr", "scrxor", "to",
   "source", "src", "binary", "bin", "zone", "zn", "sl", "svl", "sal", "pdb", "if", "ifdef", "for",
   "do", "endoffile", "warn", "error", "serious", "macro", "set", "initmem", "pseudopc", "cpu",
   "al", "as", "rl", "rs", "cbm", "subzone", "sz", "realpc", "previouscontext", "byte", "by",
   "word", "wo", "addr", "address"]

def kickDirectives : List String :=
  ["align", "assert", "asserterror", "break", "by", "byte", "const", "cpu", "define", "disk", "dw",
   "dword", "encoding", "enum", "error", "errorif", "eval", "file", "filemodify", "filenamespace",
   "fill", "fillword", "for", "function", "if", "import", "importonce", "label", "lohifill",
   "macro", "memblock", "modify", "namespace", "pc", "plugin", "print", "printnow", "pseudocommand",
   "pseudopc", "return", "segment", "segmentdef", "segmentout", "struct", "te", "text", "var",
   "while", "wo", "word", "zp"]

def kickPreprocessor : List String :=
  ["define", "elif", "else", "endif", "if", "import", "importif", "importonce", "undef"]

def tmpxDirectives : List String :=
  ["byte", "text", "screen", "include", "binary", "macro", "endm", "block", "bend", "var", "word",
   "rta", "null", "shift", "repeat", "if", "ifne", "ifeq", "ifpl", "ifmi", "ifdef", "ifndef",
   "endif", "lbl", "goto", "segment", "offs", "pron", "proff", "hidemac", "showmac", "eor", "end",
   "bounce"]

def llvmDirectives : List String :=
  ["byte", "word", "long", "ascii", "asciz", "section", "text", "data", "bss", "globl", "global",
   "local", "weak", "macro", "endm", "endr", "rept", "irp", "set", "equ", "include", "incbin",
   "org", "align", "balign", "p2align", "zero", "fill", "space", "type", "size", "if", "ifdef",
   "ifndef", "else", "elseif", "endif", "zeropage"]

/-- The keywords of a dialect, without sigils. -/
structure Catalog where
  /-- The character in front of a directive. -/
  sigil : Option Char := none
  directives : List String := []
  /-- The directives behind a number sign. -/
  preprocessor : List String := []

namespace Dialect

def catalog : Dialect → Catalog
  | acme => { sigil := '!', directives := acmeDirectives }
  | kick => { sigil := '.', directives := kickDirectives, preprocessor := kickPreprocessor }
  | tmpx => { sigil := '.', directives := tmpxDirectives }
  | llvm => { sigil := '.', directives := llvmDirectives }
  | unknown => {}

/-- Whether `name`, without its sigil, is a directive of the dialect. -/
def isDirective (d : Dialect) (name : Text) : Bool :=
  name.string?.any d.catalog.directives.contains

end Dialect

namespace Keyword

/-- The catalogs that a sigil selects. The dot is shared by two dialects, and both are offered. -/
def sources (sigil : Glyph) : List (List String) :=
  if sigil.is '!' then [acmeDirectives]
  else if sigil.is '.' then [kickDirectives, tmpxDirectives]
  else if sigil.is '#' then [kickPreprocessor]
  else []

/-- Adds `entry` at the end of `found`, unless it is there already or does not start with
`query`. -/
def offer (query : Text) (found : List Text) (entry : Text) : List Text :=
  if found.contains entry || !entry.startsWith query then found else found ++ [entry]

/-- The keywords, sigil included, that start with `query`, in the order of the catalogs and each
one once. -/
def search (query : Text) : List Text :=
  match query with
  | [] => []
  | sigil :: _ =>
    (sources sigil).flatten.foldl
      (fun found item => offer query found (sigil :: Text.ofString item)) []

end Keyword

end Asm6502
