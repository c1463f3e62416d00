import Asm6502.Text.Basic

/-! Lines of a text. A source text breaks at more characters than the newline; inside
one line only the newline matters, and one newline at the very end is forgiven. -/
namespace Asm6502.Text

def isLineBreak (c : Char) : Bool :=
  let n := c.toNat
  (0x0A ≤ n && n ≤ 0x0D) || (0x1C ≤ n && n ≤ 0x1E) || n == 0x85 || n == 0x2028 || n == 0x2029

/- Finished lines and the open line are both kept latest first. A line that is still
empty when the text ends was not opened by any character, so it does not count. -/
def linesFrom (done : List Text) (line : Text) : Text → List Text
  | [] => (if line.isEmpty then done else line.reverse :: done).reverse
  | '\r' :: '\n' :: rest => linesFrom (line.reverse :: done) [] rest
  | c :: rest =>
    if isLineBreak c then linesFrom (line.reverse :: done) [] rest
    else linesFrom done (c :: line) rest

/-- The lines of a source text; a carriage return and its newline are one break. -/
def lines (t : Text) : List Text := linesFrom [] [] t

def unifyBreaksFrom (done : Text) : Text → Text
  | [] => done.reverse
  | '\r' :: '\n' :: rest => unifyBreaksFrom ('\n' :: done) rest
  | c :: rest => unifyBreaksFrom ((if c = '\r' then '\n' else c) :: done) rest

/-- Carriage returns, with or without their newline, turned into newlines. -/
def unifyBreaks (t : Text) : Text := unifyBreaksFrom [] t

def atEnd : Text → Bool
  | [] => true
  | ['\n'] => true
  | _ => false

/-- The one line that the text consists of. A newline may stand at its very end and is
left out; one anywhere else makes it more than one line. -/
def onlyLine? (t : Text) : Option Text :=
  if atEnd (t.dropWhile (· != '\n')) then some (t.takeWhile (· != '\n')) else none

end Asm6502.Text
