import Asm6502.Source.Statement
import Asm6502.Text.Integer

/-! Operands: literals, immediate literals, symbols, and the accumulator. -/
namespace Asm6502.Operand

/-- A literal: decimal digits, or `$` and hexadecimal digits. -/
def number (t : Text) : Except Text.DigitOverflow (Option Nat) :=
  match t with
  | '$' :: t =>
    let digits := t.takeWhile (Text.isDigitOf 16)
    if !digits.isEmpty && Text.atEnd (t.dropWhile (Text.isDigitOf 16)) then
      .ok (some (Text.valueOf 16 digits))
    else .ok none
  | t =>
    let digits := t.takeWhile (Text.isDigitOf 10)
    if !digits.isEmpty && Text.atEnd (t.dropWhile (Text.isDigitOf 10)) then
      if Text.digitLimit < digits.length then .error (.reading digits.length)
      else .ok (some (Text.valueOf 10 digits))
    else .ok none

/-- A literal after `#`, with blanks between. -/
def immediate (t : Text) : Except Text.DigitOverflow (Option Nat) :=
  match t with
  | '#' :: t =>
    match Text.onlyLine? (t.dropWhile Text.isBlank) with
    | some literal => number literal
    | none => .ok none
  | _ => .ok none

def isSymbolStart (c : Char) : Bool := c.isAlpha || c == '_'

/-- A reference to a label: a word that does not start with a digit. -/
def symbol? (t : Text) : Option Text :=
  match t with
  | c :: rest =>
    if isSymbolStart c && Text.atEnd (rest.dropWhile isWordChar) then some t else none
  | [] => none

def isAccumulator (t : Text) : Bool := t == ['A'] || t == ['a']

end Asm6502.Operand
