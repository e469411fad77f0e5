import Asm6502.Dialect

/-!
# Mnemonics

The instruction set that a dialect accepts is put together from the documented instructions of the
6502, the additions of the 65C02 and the undocumented instructions of the 6502.

## Main definitions

- `Dialect.mnemonics`: the mnemonics of a dialect in alphabetical order.
- `Dialect.isMnemonic`: whether a word is a mnemonic, in either case.
-/

namespace Asm6502

def nmosMnemonics : List String :=
  ["adc", "and", "asl", "bcc", "bcs", "beq", "bit", "bmi", "bne", "bpl", "brk", "bvc", "bvs", "clc",
   "cld", "cli", "clv", "cmp", "cpx", "cpy", "dec", "dex", "dey", "eor", "inc", "inx", "iny", "jmp",
   "jsr", "lda", "ldx", "ldy", "lsr", "nop", "ora", "pha", "php", "pla", "plp", "rol", "ror", "rti",
   "rts", "sbc", "sec", "sed", "sei", "sta", "stx", "sty", "tax", "tay", "tsx", "txa", "txs", "tya"]

def cmosMnemonics : List String :=
  ["bra", "phx", "phy", "plx", "ply", "stz", "trb", "tsb", "stp", "wai", "bbr0", "bbr1", "bbr2",
   "bbr3", "bbr4", "bbr5", "bbr6", "bbr7", "bbs0", "bbs1", "bbs2", "bbs3", "bbs4", "bbs5", "bbs6",
   "bbs7", "rmb0", "rmb1", "rmb2", "rmb3", "rmb4", "rmb5", "rmb6", "rmb7", "smb0", "smb1", "smb2",
   "smb3", "smb4", "smb5", "smb6", "smb7"]

/-- The undocumented instructions of the 6502, by the names that assemblers accept. -/
def undocumentedMnemonics : List String :=
  ["slo", "rla", "sre", "rra", "sax", "lax", "dcp", "isc", "anc", "alr", "asr", "arr", "sbx", "axs",
   "las", "lae", "shx", "shy", "sha", "ahx", "tas", "shs", "xaa", "ane", "jam", "kil", "dop", "top",
   "isb", "lxa"]

namespace Dialect

/-- The mnemonics of the dialect, group by group. -/
def instructionSet : Dialect → List String
  | acme => nmosMnemonics ++ cmosMnemonics ++ undocumentedMnemonics
  | kick => nmosMnemonics ++ undocumentedMnemonics
  | tmpx => nmosMnemonics
  | llvm => nmosMnemonics ++ cmosMnemonics
  | unknown => []

def mnemonics (d : Dialect) : List String :=
  d.instructionSet.mergeSort

@[simp] theorem mem_mnemonics_iff {d : Dialect} {name : String} :
    name ∈ d.mnemonics ↔ name ∈ d.instructionSet :=
  List.mem_mergeSort

/-- Whether `word` is a mnemonic of the dialect. Case does not matter. -/
def isMnemonic (d : Dialect) (word : Text) : Bool :=
  d.instructionSet.contains (Text.lowercase word.shown)

end Dialect

end Asm6502
