import Asm6502.Text.Case

/-! The fifty-six mnemonics of the processor. -/
namespace Asm6502

inductive Mnemonic
  | lda | ldx | ldy | sta | stx | sty | adc | sbc | and | ora | eor | cmp
  | cpx | cpy | bit | inc | dec | asl | lsr | rol | ror | jmp | jsr | rts
  | rti | brk | bpl | bmi | bvc | bvs | bcc | bcs | bne | beq | clc | sec
  | cli | sei | clv | cld | sed | tax | txa | tay | tya | tsx | txs | inx
  | dex | iny | dey | pha | pla | php | plp | nop
  deriving DecidableEq, Repr

namespace Mnemonic

def all : List Mnemonic :=
  [lda, ldx, ldy, sta, stx, sty, adc, sbc, and, ora, eor, cmp, cpx, cpy, bit, inc, dec, asl, lsr,
   rol, ror, jmp, jsr, rts, rti, brk, bpl, bmi, bvc, bvs, bcc, bcs, bne, beq, clc, sec, cli, sei,
   clv, cld, sed, tax, txa, tay, tya, tsx, txs, inx, dex, iny, dey, pha, pla, php, plp, nop]

def name : Mnemonic → Text
  | lda => ['L', 'D', 'A']
  | ldx => ['L', 'D', 'X']
  | ldy => ['L', 'D', 'Y']
  | sta => ['S', 'T', 'A']
  | stx => ['S', 'T', 'X']
  | sty => ['S', 'T', 'Y']
  | adc => ['A', 'D', 'C']
  | sbc => ['S', 'B', 'C']
  | and => ['A', 'N', 'D']
  | ora => ['O', 'R', 'A']
  | eor => ['E', 'O', 'R']
  | cmp => ['C', 'M', 'P']
  | cpx => ['C', 'P', 'X']
  | cpy => ['C', 'P', 'Y']
  | bit => ['B', 'I', 'T']
  | inc => ['I', 'N', 'C']
  | dec => ['D', 'E', 'C']
  | asl => ['A', 'S', 'L']
  | lsr => ['L', 'S', 'R']
  | rol => ['R', 'O', 'L']
  | ror => ['R', 'O', 'R']
  | jmp => ['J', 'M', 'P']
  | jsr => ['J', 'S', 'R']
  | rts => ['R', 'T', 'S']
  | rti => ['R', 'T', 'I']
  | brk => ['B', 'R', 'K']
  | bpl => ['B', 'P', 'L']
  | bmi => ['B', 'M', 'I']
  | bvc => ['B', 'V', 'C']
  | bvs => ['B', 'V', 'S']
  | bcc => ['B', 'C', 'C']
  | bcs => ['B', 'C', 'S']
  | bne => ['B', 'N', 'E']
  | beq => ['B', 'E', 'Q']
  | clc => ['C', 'L', 'C']
  | sec => ['S', 'E', 'C']
  | cli => ['C', 'L', 'I']
  | sei => ['S', 'E', 'I']
  | clv => ['C', 'L', 'V']
  | cld => ['C', 'L', 'D']
  | sed => ['S', 'E', 'D']
  | tax => ['T', 'A', 'X']
  | txa => ['T', 'X', 'A']
  | tay => ['T', 'A', 'Y']
  | tya => ['T', 'Y', 'A']
  | tsx => ['T', 'S', 'X']
  | txs => ['T', 'X', 'S']
  | inx => ['I', 'N', 'X']
  | dex => ['D', 'E', 'X']
  | iny => ['I', 'N', 'Y']
  | dey => ['D', 'E', 'Y']
  | pha => ['P', 'H', 'A']
  | pla => ['P', 'L', 'A']
  | php => ['P', 'H', 'P']
  | plp => ['P', 'L', 'P']
  | nop => ['N', 'O', 'P']

def ofName? (t : Text) : Option Mnemonic := all.find? fun m => m.name == t

/-- The mnemonic that a text names in letters of either case. -/
def ofText? (t : Text) : Option Mnemonic := ofName? t.capitals

theorem mem_all (m : Mnemonic) : m ∈ all := by cases m <;> decide

theorem ofName?_name (m : Mnemonic) : ofName? m.name = some m := by cases m <;> decide

theorem name_eq_of_ofName? {t : Text} {m : Mnemonic} (h : ofName? t = some m) : m.name = t := by
  simpa using List.find?_some h

end Mnemonic
end Asm6502
