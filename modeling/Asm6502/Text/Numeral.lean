import Asm6502.Text.Basic

/-! Numbers as text: decimal for counts and line numbers, hexadecimal for bytes and
addresses. -/
namespace Asm6502.Text

def decimal : Int → Text
  | .ofNat n => Nat.toDigits 10 n
  | .negSucc n => '-' :: Nat.toDigits 10 (n + 1)

def hexDigits (n : Nat) : Text := (Nat.toDigits 16 n).map Char.toUpper

/-- Hexadecimal in at least `width` places. The sign of a negative number is one of
them and stands before the zeros. -/
def hex (width : Nat) (v : Int) : Text :=
  if v < 0 then '-' :: padZeros (width - 1) (hexDigits v.natAbs)
  else padZeros width (hexDigits v.natAbs)

def smallHex (width n : Nat) : Text := padZeros width (Nat.toDigits 16 n)

/-- The value of an ASCII digit in bases up to sixteen. -/
def digitValue? (c : Char) : Option Nat :=
  let n := c.toNat
  if 48 ≤ n ∧ n ≤ 57 then some (n - 48)
  else if 65 ≤ n ∧ n ≤ 70 then some (n - 55)
  else if 97 ≤ n ∧ n ≤ 102 then some (n - 87)
  else none

def isDigitOf (base : Nat) (c : Char) : Bool :=
  match digitValue? c with
  | some d => decide (d < base)
  | none => false

/-- The number that digits spell, the most significant first. -/
def positional (base : Nat) (digits : List Nat) : Nat :=
  digits.foldl (fun n d => n * base + d) 0

def valueOf (base : Nat) (t : Text) : Nat :=
  positional base (t.filterMap digitValue?)

end Asm6502.Text
