import Asm6502.Text.DigitLimit

/-! The cycle cost of an instruction: a base count, and what may come on top of it.
Both are also packed into one number, the base in its six low bits. -/
namespace Asm6502

inductive Penalty
  /-- Never. -/
  | fixed
  /-- One cycle if an indexed access crosses a page. -/
  | pageCross
  /-- One cycle if a branch is taken. -/
  | branchTaken
  /-- One cycle if a branch is taken, and one more if it lands on another page. -/
  | branchAndPage
  deriving DecidableEq, Repr

namespace Penalty

def all : List Penalty := [fixed, pageCross, branchTaken, branchAndPage]

def code : Penalty → Nat
  | fixed => 0
  | pageCross => 1
  | branchTaken => 2
  | branchAndPage => 3

def ofCode? (n : Int) : Option Penalty := all.find? fun p => p.code == n

end Penalty

structure Cost where
  base : Nat
  penalty : Penalty := .fixed
  deriving DecidableEq, Repr

namespace Cost

/-- The two counts that a listing shows for an instruction that may take one cycle more. -/
def orOneMore (n : Nat) : Text := Text.decimal n ++ ['/'] ++ Text.decimal (n + 1)

/-- The cost as a listing shows it. `crossing` says whether a branch target lies on
another page. -/
def text (c : Cost) (crossing : Bool) : Text :=
  match c.penalty with
  | .fixed => Text.decimal c.base
  | .pageCross | .branchTaken => orOneMore c.base
  | .branchAndPage => if crossing then orOneMore (c.base + 1) else orOneMore c.base

def bits (c : Cost) : Int := c.base + 64 * c.penalty.code

def baseOfBits (bits : Int) : Nat := (bits % 64).toNat

def penaltyCodeOfBits (bits : Int) : Int := bits / 64

/-- A packed number whose upper part names no penalty. -/
structure UnknownPenalty where
  code : Int
  deriving DecidableEq, Repr

def UnknownPenalty.message (e : UnknownPenalty) : Text :=
  if Text.writable e.code then Text.decimal e.code ++ " is not a valid CycleModifier"
  else Text.DigitOverflow.writing.message

def ofBits (bits : Int) : Except UnknownPenalty Cost :=
  match Penalty.ofCode? (penaltyCodeOfBits bits) with
  | some p => .ok ⟨baseOfBits bits, p⟩
  | none => .error ⟨penaltyCodeOfBits bits⟩

/-- A packed cost as a listing shows it; an unknown penalty adds nothing. -/
def textOfBits (bits : Int) (crossing : Bool) : Text :=
  match ofBits bits with
  | .ok c => c.text crossing
  | .error _ => Text.decimal (baseOfBits bits)

end Cost
end Asm6502
