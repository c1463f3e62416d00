import Asm6502.Isa.Opcode
import Asm6502.Listing.Branch

/-! Decoding: a program file taken apart into instructions and runs of other bytes. Every
byte ends up in exactly one entry, and no input fails. -/
namespace Asm6502

structure Instruction where
  address : Int
  bytes : List UInt8
  mnemonic : Text
  mode : Mode
  operand : Text
  cycles : Text
  label : Option Text := none
  deriving DecidableEq, Repr

namespace Instruction

def size (i : Instruction) : Nat := i.bytes.length

def text (i : Instruction) : Text :=
  if i.operand.isEmpty then i.mnemonic else i.mnemonic ++ [' '] ++ i.operand

end Instruction

inductive Entry
  | instruction (i : Instruction)
  /-- Bytes that are not decoded, and the address of the first. -/
  | run (address : Int) (bytes : List UInt8)
  deriving DecidableEq, Repr

namespace Listing

def littleEndian (bytes : List UInt8) : Nat := bytes.foldr (fun b n => b.toNat + 256 * n) 0

/-- An operand as one would write it. For a branch `value` is its target. -/
def operandText (mode : Mode) (value : Int) : Text :=
  match mode with
  | .immediate => ['#', '$'] ++ Text.hex 2 value
  | .zeroPage => ['$'] ++ Text.hex 2 value
  | .zeroPageX => ['$'] ++ Text.hex 2 value ++ [',', 'X']
  | .zeroPageY => ['$'] ++ Text.hex 2 value ++ [',', 'Y']
  | .absolute => ['$'] ++ Text.hex 4 value
  | .absoluteX => ['$'] ++ Text.hex 4 value ++ [',', 'X']
  | .absoluteY => ['$'] ++ Text.hex 4 value ++ [',', 'Y']
  | .indirect => ['(', '$'] ++ Text.hex 4 value ++ [')']
  | .indirectX => ['(', '$'] ++ Text.hex 2 value ++ [',', 'X', ')']
  | .indirectY => ['(', '$'] ++ Text.hex 2 value ++ [')', ',', 'Y']
  | .single => []
  | .branch => ['$'] ++ Text.hex 4 value

/-- The name that labels give to an address. Of several the latest counts. -/
def nameAt (labels : List (Text × Int)) (address : Int) : Option Text :=
  labels.foldl (fun name l => if l.2 % 65536 = address then some l.1 else name) none

def instruction (labels : List (Text × Int)) (address : Int) (o : Operation)
    (operand : List UInt8) : Instruction :=
  let value :=
    if o.mode = .branch then branchTarget address (littleEndian operand)
    else littleEndian operand
  { address
    bytes := o.slot.opcode :: operand
    mnemonic := o.mnemonic.name
    mode := o.mode
    operand := operandText o.mode value
    cycles := o.slot.cost.text (o.mode = .branch && crossesPage address value)
    label := nameAt labels address }

/-- Entries found so far, latest first, and the run that is still open, its bytes latest
first too. -/
structure Progress where
  entries : List Entry := []
  pending : Option (Int × List UInt8) := none

namespace Progress

def close (p : Progress) : List Entry :=
  match p.pending with
  | none => p.entries
  | some (address, bytes) => .run address bytes.reverse :: p.entries

def finish (p : Progress) : List Entry := p.close.reverse

/-- Adds a byte at an address to the open run, or opens one with it. -/
def addByte (p : Progress) (address : Int) (b : UInt8) : Progress :=
  match p.pending with
  | none => { p with pending := some (address, [b]) }
  | some (start, bytes) => { p with pending := some (start, b :: bytes) }

def addBytes (p : Progress) (address : Int) (bytes : List UInt8) : Progress :=
  bytes.foldl (fun p b => p.addByte address b) p

def addInstruction (p : Progress) (i : Instruction) : Progress :=
  { entries := .instruction i :: p.close }

end Progress

def advance (address : Int) (n : Nat) : Int := (address + n) % 65536

def operationAt? (isCode : Int → Bool) (address : Int) (opcode : UInt8) : Option Operation :=
  if isCode address then Operation.ofOpcode? opcode else none

/- An instruction that does not fit the bytes left makes all of them data. -/
def decodeFrom (isCode : Int → Bool) (labels : List (Text × Int)) (address : Int)
    (p : Progress) : List UInt8 → List Entry
  | [] => p.finish
  | b :: rest =>
    match operationAt? isCode address b with
    | none => decodeFrom isCode labels (advance address 1) (p.addByte address b) rest
    | some o =>
      match o.mode.operandSize, rest with
      | 0, rest =>
        decodeFrom isCode labels (advance address 1)
          (p.addInstruction (instruction labels address o [])) rest
      | 1, x :: rest =>
        decodeFrom isCode labels (advance address 2)
          (p.addInstruction (instruction labels address o [x])) rest
      | 2, x :: y :: rest =>
        decodeFrom isCode labels (advance address 3)
          (p.addInstruction (instruction labels address o [x, y])) rest
      | _, rest => (p.addBytes address (b :: rest)).finish

def decode (isCode : Int → Bool) (labels : List (Text × Int)) (address : Int)
    (bytes : List UInt8) : List Entry :=
  decodeFrom isCode labels address {} bytes

/-- A program file without a whole load address loads at zero. -/
def loadAddressOf : List UInt8 → Int
  | lo :: hi :: _ => littleEndian [lo, hi]
  | _ => 0

/-- The entries of a program file, which begins with its load address. -/
def decodeProgram (isCode : Int → Bool) (labels : List (Text × Int)) (file : List UInt8) :
    List Entry :=
  decode isCode labels (loadAddressOf file) (file.drop 2)

def inCodeRanges (ranges : List (Int × Int)) (address : Int) : Bool :=
  ranges.any fun r => r.1 ≤ address && address ≤ r.2

end Listing
end Asm6502
