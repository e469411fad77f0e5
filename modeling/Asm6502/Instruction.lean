/-!
# Descriptions of instructions

## Main definitions

- `Instruction.describe`: what the instruction with a given mnemonic does.
-/

namespace Asm6502.Instruction

def nmosDescriptions : List (String × String) :=
  [("adc", "Add with Carry.\n\n`A = A + M + C`"),
   ("and", "AND Memory with Accumulator.\n\n`A = A & M`"),
   ("asl", "Arithmetic Shift Left.\n\n`C <- [76543210] <- 0`"),
   ("bcc", "Branch on Carry Clear."),
   ("bcs", "Branch on Carry Set."),
   ("beq", "Branch on Result Zero."),
   ("bit",
     "Test Bits in Memory with Accumulator.\n\n`N = M7, V = M6, Z = (A & M) == 0`"),
   ("bmi", "Branch on Result Minus."),
   ("bne", "Branch on Result not Zero."),
   ("bpl", "Branch on Result Plus."),
   ("brk",
     "Force Break.\n\nPushes `PC+2` and `P`, then jumps through the IRQ vector at `$FFFE`."),
   ("bvc", "Branch on Overflow Clear."),
   ("bvs", "Branch on Overflow Set."),
   ("clc", "Clear Carry Flag."),
   ("cld", "Clear Decimal Mode."),
   ("cli", "Clear Interrupt Disable Bit."),
   ("clv", "Clear Overflow Flag."),
   ("cmp", "Compare Memory with Accumulator.\n\n`A - M`"),
   ("cpx", "Compare Memory and Index X.\n\n`X - M`"),
   ("cpy", "Compare Memory and Index Y.\n\n`Y - M`"),
   ("dec", "Decrement Memory by One.\n\n`M = M - 1`"),
   ("dex", "Decrement Index X by One.\n\n`X = X - 1`"),
   ("dey", "Decrement Index Y by One.\n\n`Y = Y - 1`"),
   ("eor", "Exclusive-OR Memory with Accumulator.\n\n`A = A ^ M`"),
   ("inc", "Increment Memory by One.\n\n`M = M + 1`"),
   ("inx", "Increment Index X by One.\n\n`X = X + 1`"),
   ("iny", "Increment Index Y by One.\n\n`Y = Y + 1`"),
   ("jmp", "Jump to New Location."),
   ("jsr", "Jump to New Location Saving Return Address.\n\nPushes `PC+2`."),
   ("lda", "Load Accumulator with Memory.\n\n`A = M`"),
   ("ldx", "Load Index X with Memory.\n\n`X = M`"),
   ("ldy", "Load Index Y with Memory.\n\n`Y = M`"),
   ("lsr", "Shift One Bit Right.\n\n`0 -> [76543210] -> C`"),
   ("nop", "No Operation."),
   ("ora", "OR Memory with Accumulator.\n\n`A = A | M`"),
   ("pha", "Push Accumulator on Stack."),
   ("php", "Push Processor Status on Stack."),
   ("pla", "Pull Accumulator from Stack."),
   ("plp", "Pull Processor Status from Stack."),
   ("rol", "Rotate One Bit Left.\n\n`C <- [76543210] <- C`"),
   ("ror", "Rotate One Bit Right.\n\n`C -> [76543210] -> C`"),
   ("rti", "Return from Interrupt."),
   ("rts", "Return from Subroutine."),
   ("sbc", "Subtract Memory from Accumulator with Borrow.\n\n`A = A - M - !C`"),
   ("sec", "Set Carry Flag."),
   ("sed", "Set Decimal Flag."),
   ("sei", "Set Interrupt Disable Status."),
   ("sta", "Store Accumulator in Memory.\n\n`M = A`"),
   ("stx", "Store Index X in Memory.\n\n`M = X`"),
   ("sty", "Store Index Y in Memory.\n\n`M = Y`"),
   ("tax", "Transfer Accumulator to Index X."),
   ("tay", "Transfer Accumulator to Index Y."),
   ("tsx", "Transfer Stack Pointer to Index X."),
   ("txa", "Transfer Index X to Accumulator."),
   ("txs", "Transfer Index X to Stack Register."),
   ("tya", "Transfer Index Y to Accumulator.")]

def cmosDescriptions : List (String × String) :=
  [("bra", "Branch Always. (65C02)"),
   ("phx", "Push Index X on Stack. (65C02)"),
   ("phy", "Push Index Y on Stack. (65C02)"),
   ("plx", "Pull Index X from Stack. (65C02)"),
   ("ply", "Pull Index Y from Stack. (65C02)"),
   ("stz", "Store Zero in Memory. (65C02)"),
   ("trb", "Test and Reset Memory Bits with Accumulator. (65C02)"),
   ("tsb", "Test and Set Memory Bits with Accumulator. (65C02)"),
   ("stp", "Stop the Processor. (65C02)"),
   ("wai", "Wait for Interrupt. (65C02)")]

def undocumentedDescriptions : List (String × String) :=
  [("slo", "Shift Left then OR. (undocumented)\n\n`M = M << 1, A = A | M`"),
   ("rla", "Rotate Left then AND. (undocumented)"),
   ("sre", "Shift Right then EOR. (undocumented)"),
   ("rra", "Rotate Right then ADC. (undocumented)"),
   ("sax", "Store A AND X. (undocumented)"),
   ("lax", "Load Accumulator and Index X. (undocumented)"),
   ("dcp", "Decrement then Compare. (undocumented)"),
   ("isc", "Increment then SBC. (undocumented)"),
   ("isb", "Increment then SBC. (undocumented)"),
   ("anc", "AND then copy N to C. (undocumented)"),
   ("alr", "AND then LSR. (undocumented)"),
   ("asr", "AND then LSR. (undocumented)"),
   ("arr", "AND then ROR. (undocumented)"),
   ("sbx", "`X = (A & X) - imm`. (undocumented)"),
   ("axs", "`X = (A & X) - imm`. (undocumented)"),
   ("jam", "Halts the processor. (undocumented)"),
   ("kil", "Halts the processor. (undocumented)")]

/-- What an instruction of a family does to the bit that the last character of its mnemonic
names. -/
def bitDescription? (family bit : String) : Option String :=
  match family with
  | "bbr" => some s!"Branch on Bit {bit} Reset. (65C02)"
  | "bbs" => some s!"Branch on Bit {bit} Set. (65C02)"
  | "rmb" => some s!"Reset Memory Bit {bit}. (65C02)"
  | "smb" => some s!"Set Memory Bit {bit}. (65C02)"
  | _ => none

def description? (key : String) : Option String :=
  (nmosDescriptions ++ cmosDescriptions ++ undocumentedDescriptions).lookup key

/-- The description of the instruction of four letters whose last letter names a bit. -/
def familyDescription? (key : String) : Option String :=
  match key.toList with
  | [a, b, c, bit] => bitDescription? (String.ofList [a, b, c]) bit.toString
  | _ => none

/-- What the instruction with the mnemonic `key`, in lower case, does. -/
def describe (key : String) : String :=
  ((description? key) <|> (familyDescription? key)).getD "Instruction."

end Asm6502.Instruction
