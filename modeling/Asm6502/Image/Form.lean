import Asm6502.Image.Stub
import Asm6502.Isa.Opcode
import Asm6502.LabelTable
import Asm6502.Source.Operand

/-! Encoded forms. Which form an instruction takes, and hence its size, follows from the
line alone; only the address in a reference needs the label table. -/
namespace Asm6502

inductive Form
  /-- The opcode alone. -/
  | single (opcode : UInt8)
  | immediate (opcode : UInt8) (value : Nat)
  | absolute (opcode : UInt8) (address : Nat)
  /-- The address of a label. -/
  | reference (opcode : UInt8) (symbol : Text)
  deriving DecidableEq, Repr

namespace Form

def single? (m : Mnemonic) (operand : Option Text) : Option Form :=
  match m.slot? .single with
  | none => none
  | some slot =>
    if operand.all Operand.isAccumulator then some (.single slot.opcode) else none

def immediate? (m : Mnemonic) (operand : Option Text) :
    Except Text.DigitOverflow (Option Form) :=
  match m.slot? .immediate, operand with
  | some slot, some operand =>
    match Operand.immediate operand with
    | .error e => .error e
    | .ok (some value) => .ok (if value ≤ 0xFF then some (.immediate slot.opcode value) else none)
    | .ok none => .ok none
  | _, _ => .ok none

def absolute? (m : Mnemonic) (operand : Option Text) :
    Except Text.DigitOverflow (Option Form) :=
  match m.slot? .absolute, operand with
  | some slot, some operand =>
    match Operand.number operand with
    | .error e => .error e
    | .ok (some value) => .ok (if value ≤ 0xFFFF then some (.absolute slot.opcode value) else none)
    | .ok none => .ok ((Operand.symbol? operand).map (.reference slot.opcode))
  | _, _ => .ok none

/-- The form that an instruction takes: single, else immediate, else absolute. -/
def choose (m : Mnemonic) (operand : Option Text) : Except Text.DigitOverflow (Option Form) :=
  match single? m operand with
  | some form => .ok (some form)
  | none =>
    match immediate? m operand with
    | .error e => .error e
    | .ok (some form) => .ok (some form)
    | .ok none => absolute? m operand

def size : Form → Nat
  | single _ => 1
  | immediate _ _ => 2
  | absolute _ _ => 3
  | reference _ _ => 3

/-- The address of a label, or zero in its place as long as it is not defined. -/
def addressOf (labels : LabelTable) (symbol : Text) : Int :=
  match labels.find? symbol with
  | some label => label.address
  | none => 0

def bytes (labels : LabelTable) : Form → List UInt8
  | single opcode => [opcode]
  | immediate opcode value => [opcode, lowByte value]
  | absolute opcode address => opcode :: wordBytes address
  | reference opcode symbol => opcode :: wordBytes (addressOf labels symbol)

def missing? (labels : LabelTable) : Form → Option Text
  | reference _ symbol => if labels.contains symbol then none else some symbol
  | _ => none

theorem length_bytes (labels : LabelTable) (f : Form) : (f.bytes labels).length = f.size := by
  cases f <;> rfl

end Form
end Asm6502
