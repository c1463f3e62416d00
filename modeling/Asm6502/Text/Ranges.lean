import Asm6502.Text.Basic

/-! Sets of code points given by their ranges, both ends included. -/
namespace Asm6502.Text

def inRanges (ranges : List (Nat × Nat)) (c : Char) : Bool :=
  ranges.any fun r => r.1 ≤ c.toNat && c.toNat ≤ r.2

end Asm6502.Text
