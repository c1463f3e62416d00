import Asm6502.Text.Blank
import Asm6502.Text.Lines

/-! The shape of a line: an optional label with its colon, then an optional mnemonic
with an optional operand. Words and the blanks between them are ASCII. -/
namespace Asm6502

def isWordChar (c : Char) : Bool := c.isAlphanum || c == '_'

/-- The label that a line defines, and what stands after it. A text without a label is
handed back whole. -/
def splitLabel (t : Text) : Option Text × Text :=
  match t.takeWhile isWordChar, t.dropWhile isWordChar with
  | c :: word, ':' :: rest =>
    match Text.onlyLine? (rest.dropWhile Text.isAsciiBlank) with
    | some rest => (some (c :: word), rest)
    | none => (none, t)
  | _, _ => (none, t)

inductive Statement
  | empty
  /-- A word in capitals, and an operand that is not empty. -/
  | instruction (mnemonic : Text) (operand : Option Text)
  | malformed (text : Text)
  deriving DecidableEq, Repr

namespace Statement

def operand? : Text → Option Text
  | [] => none
  | c :: rest => some (c :: rest)

def parse (t : Text) : Statement :=
  if t.isEmpty then .empty
  else
    match t.takeWhile isWordChar, t.dropWhile isWordChar with
    | [], _ => .malformed t
    | word, [] => .instruction (word.map Char.toUpper) none
    | word, c :: rest =>
      if Text.isAsciiBlank c then
        match Text.onlyLine? (rest.dropWhile Text.isAsciiBlank) with
        | some operand => .instruction (word.map Char.toUpper) (operand? operand)
        | none => .malformed t
      else .malformed t

end Statement
end Asm6502
