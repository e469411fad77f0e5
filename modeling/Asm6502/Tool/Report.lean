import Asm6502.Text.Blank
import Asm6502.Text.Lines

/-!
# Reports of assemblers

An editor wants one message per line. What an assembler prints is brought into that form by trimming
every line and leaving out the empty ones.

## Main definitions

- `Report.messages`: the trimmed lines that are not empty.
- `Report.clean`: those lines as one text.
-/

namespace Asm6502.Report

/-- The trimmed lines of a text that are not empty. -/
def messages (t : Text) : List Text :=
  (t.lines.map Text.trim).filter (!·.isEmpty)

/-- The messages in a text, one per line. -/
def clean (t : Text) : Text :=
  Text.unlines (messages t)

end Asm6502.Report
