import Asm6502.Debug.RoundTrip
import Asm6502.Main
import Asm6502.Proofs.AdjacentRanges
import Asm6502.Proofs.BoundedReads
import Asm6502.Proofs.CleanReports
import Asm6502.Proofs.CompletableNames
import Asm6502.Proofs.ConstantSigns
import Asm6502.Proofs.Independence
import Asm6502.Proofs.Interleaving
import Asm6502.Proofs.KeywordSearch
import Asm6502.Proofs.LeadingDigits
import Asm6502.Proofs.LineEndings
import Asm6502.Proofs.LineFronts
import Asm6502.Proofs.MarkedLabels
import Asm6502.Proofs.NumberLiterals
import Asm6502.Proofs.ReaderCalls
import Asm6502.Proofs.Redefinitions
import Asm6502.Proofs.ReferenceSigils
import Asm6502.Proofs.Responses
import Asm6502.Proofs.RunRows
import Asm6502.Proofs.SessionRemarks
import Asm6502.Proofs.SettingsOverlay
import Asm6502.Proofs.SymbolUses
import Asm6502.Proofs.UnitOutcomes
import Asm6502.Text.RoundTrip
