import Asm6502.Isa.Cost
import Asm6502.Isa.Mnemonic
import Asm6502.Isa.Mode

/-! The instruction set: which opcode and cost a mnemonic has in which mode, read
forwards by the assembler and backwards by the disassembler. -/
namespace Asm6502

/-- The encoding of a mnemonic in one mode. -/
structure Slot where
  opcode : UInt8
  cost : Cost
  deriving DecidableEq, Repr

namespace Slot

def fixed (opcode : UInt8) (cycles : Nat) : Slot := ⟨opcode, cycles, .fixed⟩

def paged (opcode : UInt8) (cycles : Nat) : Slot := ⟨opcode, cycles, .pageCross⟩

def relative (opcode : UInt8) : Slot := ⟨opcode, 2, .branchAndPage⟩

def describe (opcode bits : Int) : Text :=
  "OpcodeSlot(opcode=$" ++ Text.hex 2 opcode ++ ", cycles=" ++ Cost.textOfBits bits false ++ ")"

end Slot

namespace Mnemonic

/-- The modes that a mnemonic has, in the order of `Mode.all`. -/
def slots : Mnemonic → List (Mode × Slot)
  | lda =>
    [(.immediate, .fixed 0xA9 2), (.zeroPage, .fixed 0xA5 3), (.zeroPageX, .fixed 0xB5 4),
     (.absolute, .fixed 0xAD 4), (.absoluteX, .paged 0xBD 4), (.absoluteY, .paged 0xB9 4),
     (.indirectX, .fixed 0xA1 6), (.indirectY, .paged 0xB1 5)]
  | ldx =>
    [(.immediate, .fixed 0xA2 2), (.zeroPage, .fixed 0xA6 3), (.zeroPageY, .fixed 0xB6 4),
     (.absolute, .fixed 0xAE 4), (.absoluteY, .paged 0xBE 4)]
  | ldy =>
    [(.immediate, .fixed 0xA0 2), (.zeroPage, .fixed 0xA4 3), (.zeroPageX, .fixed 0xB4 4),
     (.absolute, .fixed 0xAC 4), (.absoluteX, .paged 0xBC 4)]
  | sta =>
    [(.zeroPage, .fixed 0x85 3), (.zeroPageX, .fixed 0x95 4), (.absolute, .fixed 0x8D 4),
     (.absoluteX, .fixed 0x9D 5), (.absoluteY, .fixed 0x99 5), (.indirectX, .fixed 0x81 6),
     (.indirectY, .fixed 0x91 6)]
  | stx =>
    [(.zeroPage, .fixed 0x86 3), (.zeroPageY, .fixed 0x96 4), (.absolute, .fixed 0x8E 4)]
  | sty =>
    [(.zeroPage, .fixed 0x84 3), (.zeroPageX, .fixed 0x94 4), (.absolute, .fixed 0x8C 4)]
  | adc =>
    [(.immediate, .fixed 0x69 2), (.zeroPage, .fixed 0x65 3), (.zeroPageX, .fixed 0x75 4),
     (.absolute, .fixed 0x6D 4), (.absoluteX, .paged 0x7D 4), (.absoluteY, .paged 0x79 4),
     (.indirectX, .fixed 0x61 6), (.indirectY, .paged 0x71 5)]
  | sbc =>
    [(.immediate, .fixed 0xE9 2), (.zeroPage, .fixed 0xE5 3), (.zeroPageX, .fixed 0xF5 4),
     (.absolute, .fixed 0xED 4), (.absoluteX, .paged 0xFD 4), (.absoluteY, .paged 0xF9 4),
     (.indirectX, .fixed 0xE1 6), (.indirectY, .paged 0xF1 5)]
  | and =>
    [(.immediate, .fixed 0x29 2), (.zeroPage, .fixed 0x25 3), (.zeroPageX, .fixed 0x35 4),
     (.absolute, .fixed 0x2D 4), (.absoluteX, .paged 0x3D 4), (.absoluteY, .paged 0x39 4),
     (.indirectX, .fixed 0x21 6), (.indirectY, .paged 0x31 5)]
  | ora =>
    [(.immediate, .fixed 0x09 2), (.zeroPage, .fixed 0x05 3), (.zeroPageX, .fixed 0x15 4),
     (.absolute, .fixed 0x0D 4), (.absoluteX, .paged 0x1D 4), (.absoluteY, .paged 0x19 4),
     (.indirectX, .fixed 0x01 6), (.indirectY, .paged 0x11 5)]
  | eor =>
    [(.immediate, .fixed 0x49 2), (.zeroPage, .fixed 0x45 3), (.zeroPageX, .fixed 0x55 4),
     (.absolute, .fixed 0x4D 4), (.absoluteX, .paged 0x5D 4), (.absoluteY, .paged 0x59 4),
     (.indirectX, .fixed 0x41 6), (.indirectY, .paged 0x51 5)]
  | cmp =>
    [(.immediate, .fixed 0xC9 2), (.zeroPage, .fixed 0xC5 3), (.zeroPageX, .fixed 0xD5 4),
     (.absolute, .fixed 0xCD 4), (.absoluteX, .paged 0xDD 4), (.absoluteY, .paged 0xD9 4),
     (.indirectX, .fixed 0xC1 6), (.indirectY, .paged 0xD1 5)]
  | cpx =>
    [(.immediate, .fixed 0xE0 2), (.zeroPage, .fixed 0xE4 3), (.absolute, .fixed 0xEC 4)]
  | cpy =>
    [(.immediate, .fixed 0xC0 2), (.zeroPage, .fixed 0xC4 3), (.absolute, .fixed 0xCC 4)]
  | bit =>
    [(.zeroPage, .fixed 0x24 3), (.absolute, .fixed 0x2C 4)]
  | inc =>
    [(.zeroPage, .fixed 0xE6 5), (.zeroPageX, .fixed 0xF6 6), (.absolute, .fixed 0xEE 6),
     (.absoluteX, .fixed 0xFE 7)]
  | dec =>
    [(.zeroPage, .fixed 0xC6 5), (.zeroPageX, .fixed 0xD6 6), (.absolute, .fixed 0xCE 6),
     (.absoluteX, .fixed 0xDE 7)]
  | asl =>
    [(.zeroPage, .fixed 0x06 5), (.zeroPageX, .fixed 0x16 6), (.absolute, .fixed 0x0E 6),
     (.absoluteX, .fixed 0x1E 7), (.single, .fixed 0x0A 2)]
  | lsr =>
    [(.zeroPage, .fixed 0x46 5), (.zeroPageX, .fixed 0x56 6), (.absolute, .fixed 0x4E 6),
     (.absoluteX, .fixed 0x5E 7), (.single, .fixed 0x4A 2)]
  | rol =>
    [(.zeroPage, .fixed 0x26 5), (.zeroPageX, .fixed 0x36 6), (.absolute, .fixed 0x2E 6),
     (.absoluteX, .fixed 0x3E 7), (.single, .fixed 0x2A 2)]
  | ror =>
    [(.zeroPage, .fixed 0x66 5), (.zeroPageX, .fixed 0x76 6), (.absolute, .fixed 0x6E 6),
     (.absoluteX, .fixed 0x7E 7), (.single, .fixed 0x6A 2)]
  | jmp =>
    [(.absolute, .fixed 0x4C 3), (.indirect, .fixed 0x6C 5)]
  | jsr => [(.absolute, .fixed 0x20 6)]
  | rts => [(.single, .fixed 0x60 6)]
  | rti => [(.single, .fixed 0x40 6)]
  | brk => [(.single, .fixed 0x00 7)]
  | bpl => [(.branch, .relative 0x10)]
  | bmi => [(.branch, .relative 0x30)]
  | bvc => [(.branch, .relative 0x50)]
  | bvs => [(.branch, .relative 0x70)]
  | bcc => [(.branch, .relative 0x90)]
  | bcs => [(.branch, .relative 0xB0)]
  | bne => [(.branch, .relative 0xD0)]
  | beq => [(.branch, .relative 0xF0)]
  | clc => [(.single, .fixed 0x18 2)]
  | sec => [(.single, .fixed 0x38 2)]
  | cli => [(.single, .fixed 0x58 2)]
  | sei => [(.single, .fixed 0x78 2)]
  | clv => [(.single, .fixed 0xB8 2)]
  | cld => [(.single, .fixed 0xD8 2)]
  | sed => [(.single, .fixed 0xF8 2)]
  | tax => [(.single, .fixed 0xAA 2)]
  | txa => [(.single, .fixed 0x8A 2)]
  | tay => [(.single, .fixed 0xA8 2)]
  | tya => [(.single, .fixed 0x98 2)]
  | tsx => [(.single, .fixed 0xBA 2)]
  | txs => [(.single, .fixed 0x9A 2)]
  | inx => [(.single, .fixed 0xE8 2)]
  | dex => [(.single, .fixed 0xCA 2)]
  | iny => [(.single, .fixed 0xC8 2)]
  | dey => [(.single, .fixed 0x88 2)]
  | pha => [(.single, .fixed 0x48 3)]
  | pla => [(.single, .fixed 0x68 4)]
  | php => [(.single, .fixed 0x08 3)]
  | plp => [(.single, .fixed 0x28 4)]
  | nop => [(.single, .fixed 0xEA 2)]

def slot? (m : Mnemonic) (mode : Mode) : Option Slot := m.slots.lookup mode

def modes (m : Mnemonic) : List Mode := m.slots.map Prod.fst

def isBranch (m : Mnemonic) : Bool := (m.slot? .branch).isSome

def sorted : List Mnemonic := all.mergeSort fun a b => String.ofList a.name ≤ String.ofList b.name

end Mnemonic

structure Operation where
  mnemonic : Mnemonic
  mode : Mode
  slot : Slot
  deriving DecidableEq, Repr

namespace Operation

def all : List Operation :=
  Mnemonic.all.flatMap fun m => m.slots.map fun s => ⟨m, s.1, s.2⟩

def ofOpcode? (opcode : UInt8) : Option Operation := all.find? fun o => o.slot.opcode == opcode

/-- The operation of an opcode given as a number; numbers beyond a byte have none. -/
def ofNumber? (n : Int) : Option Operation :=
  if 0 ≤ n ∧ n < 256 then ofOpcode? (UInt8.ofNat n.toNat) else none

end Operation
end Asm6502
