import Asm6502.Assembler
import Asm6502.Assembly
import Asm6502.Command.Address
import Asm6502.Command.Arguments
import Asm6502.Command.Assemble
import Asm6502.Command.Console
import Asm6502.Command.Disassemble
import Asm6502.Command.Fault
import Asm6502.Diagnostic
import Asm6502.Diagnostic.Report
import Asm6502.Event
import Asm6502.Files.Path
import Asm6502.Files.Tree
import Asm6502.Image.Form
import Asm6502.Image.Pass
import Asm6502.Image.Stub
import Asm6502.Isa.Cost
import Asm6502.Isa.Mnemonic
import Asm6502.Isa.Mode
import Asm6502.Isa.Opcode
import Asm6502.LabelTable
import Asm6502.Listing.Branch
import Asm6502.Listing.Entry
import Asm6502.Listing.Layout
import Asm6502.Listing.Names
import Asm6502.Main
import Asm6502.Settings
import Asm6502.Source.Line
import Asm6502.Source.Operand
import Asm6502.Source.Statement
import Asm6502.Text.Basic
import Asm6502.Text.Blank
import Asm6502.Text.Case
import Asm6502.Text.CaseTable
import Asm6502.Text.DecimalDigit
import Asm6502.Text.DigitLimit
import Asm6502.Text.Integer
import Asm6502.Text.Lines
import Asm6502.Text.Numeral
import Asm6502.Text.Printable
import Asm6502.Text.Quoted
import Asm6502.Text.Ranges
import Asm6502.Text.Similarity
import Asm6502.Text.Terminal
import Asm6502.Text.Utf8
import Asm6502.Proofs.Step
import Asm6502.Proofs.Active
import Asm6502.Proofs.Passes
import Asm6502.Proofs.PassInvariance
import Asm6502.Proofs.Operands
import Asm6502.Proofs.Meaning
import Asm6502.Proofs.Defects
import Asm6502.Proofs.Diagnosis
import Asm6502.Proofs.Endings
import Asm6502.Proofs.Verdict
import Asm6502.Proofs.Decoding
import Asm6502.Proofs.Coverage
import Asm6502.Proofs.InStep
import Asm6502.Proofs.Numerals
import Asm6502.Proofs.Written
import Asm6502.Proofs.Reassembly
import Asm6502.Proofs.Independence
import Asm6502.Proofs.Reachable
import Asm6502.Proofs.CodeRanges
import Asm6502.Proofs.Readback
import Asm6502.Proofs.Renumbering
import Asm6502.Proofs.SourceLayout
import Asm6502.Proofs.Relocation
import Asm6502.Proofs.Annotation
import Asm6502.Proofs.References
import Asm6502.Proofs.Interruption
import Asm6502.Proofs.Encoders
import Asm6502.Proofs.LineShape
import Asm6502.Proofs.Segmentation
import Asm6502.Proofs.FirstWins
import Asm6502.Proofs.SourceFiles
import Asm6502.Proofs.Places
import Asm6502.Proofs.Precedence
import Asm6502.Proofs.SourceKept
import Asm6502.Proofs.Addresses
import Asm6502.Proofs.Branches
import Asm6502.Proofs.Seams
import Asm6502.Proofs.Comments
import Asm6502.Proofs.StubDigits
