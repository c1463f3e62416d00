import Asm6502.Image.Stub

/-! The state of one pass over the source: the bytes so far and the address of the next. -/
namespace Asm6502

def labelPass : Int := 0

def emitPass : Int := 1

structure Pass where
  number : Int
  pc : Int := loadAddress
  code : Array UInt8 := #[]
  deriving DecidableEq, Repr

namespace Pass

def isLabelPass (p : Pass) : Bool := p.number == labelPass

/-- Appends one byte; addresses wrap around after the last one. -/
def emitByte (p : Pass) (b : UInt8) : Pass :=
  match p with
  | ⟨number, pc, code⟩ => ⟨number, (pc + 1) % 65536, code.push b⟩

def emit (p : Pass) (bytes : List UInt8) : Pass := bytes.foldl emitByte p

@[simp] theorem number_emit (p : Pass) (bytes : List UInt8) : (p.emit bytes).number = p.number := by
  induction bytes generalizing p with
  | nil => rfl
  | cons b rest ih => exact ih (p.emitByte b)

@[simp] theorem toList_code_emit (p : Pass) (bytes : List UInt8) :
    (p.emit bytes).code.toList = p.code.toList ++ bytes := by
  induction bytes generalizing p with
  | nil => simp [emit]
  | cons b rest ih =>
    have h : (p.emit (b :: rest)).code.toList = (p.emitByte b).code.toList ++ rest :=
      ih (p.emitByte b)
    rw [h]
    simp [emitByte]

theorem pc_emit (p : Pass) (bytes : List UInt8) (h : p.pc % 65536 = p.pc) :
    (p.emit bytes).pc = (p.pc + bytes.length) % 65536 := by
  induction bytes generalizing p with
  | nil => simpa [emit] using h.symm
  | cons b rest ih =>
    have hpc : (p.emitByte b).pc = (p.pc + 1) % 65536 := rfl
    have hr : (p.emit (b :: rest)).pc = ((p.emitByte b).pc + rest.length) % 65536 :=
      ih (p.emitByte b) (by rw [hpc]; omega)
    rw [hr, hpc, List.length_cons]
    omega

def start (number : Int) : Pass := emit { number } stub

end Pass
end Asm6502
