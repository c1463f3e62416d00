/-! Relative branches: where they lead, and whether that is on another page. -/
namespace Asm6502

/-- A displacement as the processor takes it: from 128 on it counts backwards. -/
def signedDisplacement (d : Int) : Int := if 0x80 ≤ d then d - 0x100 else d

/-- Where a branch at an address leads. The displacement counts from the instruction
after the branch. -/
def branchTarget (address displacement : Int) : Int :=
  (address + 2 + signedDisplacement displacement) % 65536

def pageOf (address : Int) : Int := address / 256 % 256

/-- The target lies on another page than the instruction after the branch. -/
def crossesPage (address target : Int) : Bool := pageOf (address + 2) != pageOf target

end Asm6502
