import Asm6502.Text.Basic

/-! The twelve addressing modes of the processor. -/
namespace Asm6502

inductive Mode
  | immediate
  | zeroPage
  | zeroPageX
  | zeroPageY
  | absolute
  | absoluteX
  | absoluteY
  | indirect
  | indirectX
  | indirectY
  | single
  | branch
  deriving DecidableEq, Repr

namespace Mode

def all : List Mode :=
  [immediate, zeroPage, zeroPageX, zeroPageY, absolute, absoluteX, absoluteY, indirect,
   indirectX, indirectY, single, branch]

def name : Mode → Text
  | immediate => "immediate"
  | zeroPage => "zero page"
  | zeroPageX => "zero page x"
  | zeroPageY => "zero page y"
  | absolute => "absolute"
  | absoluteX => "absolute x"
  | absoluteY => "absolute y"
  | indirect => "indirect"
  | indirectX => "indirect x"
  | indirectY => "indirect y"
  | single => "single"
  | branch => "branch"

/-- How many operand bytes follow the opcode. -/
def operandSize : Mode → Nat
  | single => 0
  | absolute | absoluteX | absoluteY | indirect => 2
  | _ => 1

theorem operandSize_le_two (m : Mode) : m.operandSize ≤ 2 := by cases m <;> decide

end Mode
end Asm6502
