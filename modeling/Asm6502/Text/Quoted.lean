import Asm6502.Text.Numeral
import Asm6502.Text.Printable

/-! Quoted text for messages: any text on one line of printable characters. -/
namespace Asm6502.Text

/-- Single quotes, unless the text holds one and no double quote. -/
def quoteMark (t : Text) : Char :=
  if t.contains '\'' && !t.contains '"' then '"' else '\''

def escaped (mark c : Char) : Text :=
  if c = mark ∨ c = '\\' then ['\\', c]
  else if c = '\n' then ['\\', 'n']
  else if c = '\r' then ['\\', 'r']
  else if c = '\t' then ['\\', 't']
  else if isPrintable c then [c]
  else if c.toNat < 0x100 then '\\' :: 'x' :: smallHex 2 c.toNat
  else if c.toNat < 0x10000 then '\\' :: 'u' :: smallHex 4 c.toNat
  else '\\' :: 'U' :: smallHex 8 c.toNat

/-- The text between quotes, with everything that could be misread escaped. -/
def quoted (t : Text) : Text :=
  let mark := quoteMark t
  mark :: t.flatMap (escaped mark) ++ [mark]

end Asm6502.Text
