import Asm6502.Text.Blank
import Asm6502.Text.DecimalDigit
import Asm6502.Text.DigitLimit
import Asm6502.Text.Quoted

/-! Integers as people type them: blanks around, a sign, single underscores between
digits, digits of any script, and `0x` before hexadecimal ones. -/
namespace Asm6502.Text

inductive IntegerFault
  | overflow (e : DigitOverflow)
  | notInteger (base : Nat) (text : Text)
  deriving DecidableEq, Repr

/-- The text is quoted, and the quotation is cut off after 200 characters. -/
def IntegerFault.message : IntegerFault → Text
  | .overflow e => e.message
  | .notInteger base text =>
    "invalid literal for int() with base " ++ decimal base ++ ": " ++ (quoted text).take 200

/-- One character of an integer in its ASCII form. Blanks and digits of other scripts
have one; anything else beyond ASCII has none and is marked. -/
def asciiForm (c : Char) : Char :=
  if c.toNat < 127 then c
  else if isBlank c then ' '
  else match decimalDigit? c with
    | some d => Char.ofNat (48 + d)
    | none => '?'

/-- No underscore at either end, and never two in a row. -/
def wellSpaced : Text → Bool
  | [] => false
  | ['_'] => false
  | '_' :: _ => false
  | [_] => true
  | _ :: '_' :: rest => wellSpaced rest
  | _ :: rest => wellSpaced rest

/-- The digits after the sign. Nothing but blanks may follow them. -/
def readMagnitude (base : Nat) (t : Text) : Except (Option DigitOverflow) Nat :=
  let inNumeral := fun c => isDigitOf base c || c == '_'
  let numeral := t.takeWhile inNumeral
  let digits := numeral.filter (· != '_')
  if !wellSpaced numeral then .error none
  else if base = 10 ∧ digitLimit < digits.length then .error (some (.reading digits.length))
  else if (t.dropWhile inNumeral).all isAsciiBlank then .ok (valueOf base digits)
  else .error none

/-- A hexadecimal numeral may have `0x` before it, and one underscore after that. -/
def dropRadix (base : Nat) : Text → Text
  | '0' :: x :: rest =>
    if base = 16 ∧ (x = 'x' ∨ x = 'X') then
      match rest with
      | '_' :: rest => rest
      | rest => rest
    else '0' :: x :: rest
  | t => t

def readSigned (base : Nat) : Text → Except (Option DigitOverflow) Int
  | '-' :: rest => (readMagnitude base (dropRadix base rest)).map fun n => -(n : Int)
  | '+' :: rest => (readMagnitude base (dropRadix base rest)).map Int.ofNat
  | t => (readMagnitude base (dropRadix base t)).map Int.ofNat

/-- Reads an integer in the given base. In a text of ASCII alone only ASCII blanks may
surround it. -/
def readInteger (base : Nat) (t : Text) : Except IntegerFault Int :=
  let plain := if t.all (·.toNat < 128) then t else t.map asciiForm
  match readSigned base (plain.dropWhile isAsciiBlank) with
  | .ok v => .ok v
  | .error (some e) => .error (.overflow e)
  | .error none => .error (.notInteger base t)

end Asm6502.Text
