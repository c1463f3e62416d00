import Asm6502.Text.Numeral

/-! Decimal numerals are read and written up to a fixed number of digits, so that the
effort stays small. -/
namespace Asm6502.Text

def digitLimit : Nat := 4300

/-- The least number with more than `digitLimit` digits. It stays folded: its digits are never
of use. -/
@[irreducible] def digitBound : Nat := Nat.pow 10 digitLimit

inductive DigitOverflow
  /-- A numeral of `digits` digits that was to be read. -/
  | reading (digits : Nat)
  /-- A number that was to be written. -/
  | writing
  deriving DecidableEq, Repr

def DigitOverflow.message : DigitOverflow → Text
  | reading digits =>
    "Exceeds the limit (4300 digits) for integer string conversion: value has " ++
      decimal digits ++ " digits; use sys.set_int_max_str_digits() to increase the limit"
  | writing =>
    "Exceeds the limit (4300 digits) for integer string conversion; " ++
      "use sys.set_int_max_str_digits() to increase the limit"

/-- Whether a number can be written; its sign does not count. -/
def writable (v : Int) : Bool := v.natAbs < digitBound

theorem writable_zero : writable 0 = true := by decide +kernel

theorem writable_one : writable 1 = true := by decide +kernel

end Asm6502.Text
