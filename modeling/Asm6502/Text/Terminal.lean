import Asm6502.Text.Basic

/-! Control sequences of a terminal: an escape and a bracket, then parameters, then
intermediate characters, then one final character. Text that does not go to a terminal is
shown without them. -/
namespace Asm6502.Text

def isParameter (c : Char) : Bool := 0x30 ≤ c.toNat && c.toNat ≤ 0x3F

def isIntermediate (c : Char) : Bool := 0x20 ≤ c.toNat && c.toNat ≤ 0x2F

def isFinal (c : Char) : Bool := 0x40 ≤ c.toNat && c.toNat ≤ 0x7E

def escape : Char := '\x1b'

/-- Length of the control sequence that a text begins with, zero if there is none. One
without its final character is no control sequence. -/
def controlLength : Text → Nat
  | c :: '[' :: rest =>
    let parameters := rest.takeWhile isParameter
    let rest := rest.dropWhile isParameter
    let intermediates := rest.takeWhile isIntermediate
    match rest.dropWhile isIntermediate with
    | last :: _ =>
      if c = escape ∧ isFinal last = true then parameters.length + intermediates.length + 3 else 0
    | [] => 0
  | _ => 0

/- The characters so far are in `done`, latest first; the next `skip` belong to a control
sequence. -/
def plainFrom (done : Text) (skip : Nat) : Text → Text
  | [] => done.reverse
  | c :: rest =>
    match skip with
    | n + 1 => plainFrom done n rest
    | 0 =>
      if c = escape then
        match controlLength (c :: rest) with
        | n + 1 => plainFrom done n rest
        | 0 => plainFrom (c :: done) 0 rest
      else plainFrom (c :: done) 0 rest

/-- The text without its control sequences. What becomes one only when others are taken
out stays. -/
def plain (t : Text) : Text := plainFrom [] 0 t

end Asm6502.Text
