import Asm6502.Text.DigitLimit

/-! Diagnostics: what is wrong with a source line, where it stands, and what to do about
it. -/
namespace Asm6502

structure Location where
  file : Text
  line : Int
  deriving DecidableEq, Repr

def Location.text (l : Location) : Text := l.file ++ ":" ++ Text.decimal l.line

inductive Cause
  /-- A failure that is described by its message alone. -/
  | general (message : Text) (hint : Option Text)
  /-- The line does not have the shape of an instruction. -/
  | malformed (message : Text) (hint : Option Text)
  /-- A reference to a label that is nowhere defined; `similar` are defined names that
  may be meant. -/
  | undefined (symbol : Text) (similar : List Text) (hint : Option Text)
  /-- A label that has a definition already. -/
  | duplicate (symbol : Text) (firstLine : Int)
  /-- A word that is no mnemonic. -/
  | unknown (mnemonic : Text)
  /-- An operand that no encoded mode takes; `modes` are those with an opcode. -/
  | unencodable (mnemonic : Text) (operand : Option Text) (modes : List Text)
  deriving DecidableEq, Repr

namespace Cause

def notInstruction (t : Text) : Cause :=
  malformed ("syntax error: " ++ t) (some "expected 'MNEMONIC' or 'MNEMONIC operand'")

def message : Cause → Text
  | general message _ => message
  | malformed message _ => message
  | undefined symbol _ _ => "undefined label '" ++ symbol ++ "'"
  | duplicate symbol firstLine =>
    "label '" ++ symbol ++ "' already defined on line " ++ Text.decimal firstLine
  | unknown mnemonic => "unknown instruction '" ++ mnemonic ++ "'"
  | unencodable mnemonic operand _ =>
    match operand with
    | none | some [] => "'" ++ mnemonic ++ "' requires an operand"
    | some operand => "cannot encode '" ++ mnemonic ++ " " ++ operand ++ "'"

/-- The hint for an undefined label: the one given, unless that is empty and there are
similar names, of which three are shown. -/
def undefinedHint (similar : List Text) (given : Option Text) : Option Text :=
  if (given.getD []).isEmpty && !similar.isEmpty then
    some ("did you mean " ++ Text.quotedList (similar.take 3) ++ "?")
  else given

def hint : Cause → Option Text
  | general _ hint => hint
  | malformed _ hint => hint
  | undefined _ similar hint => undefinedHint similar hint
  | duplicate _ _ => none
  | unknown _ => none
  | unencodable mnemonic _ modes =>
    if modes.isEmpty then none
    else some (mnemonic ++ " has opcodes for: " ++ List.intercalate ", " modes)

def writable : Cause → Bool
  | duplicate _ firstLine => Text.writable firstLine
  | _ => true

def isDuplicate : Cause → Bool
  | duplicate _ _ => true
  | _ => false

end Cause

structure Diagnostic where
  cause : Cause
  location : Option Location := none
  sourceLine : Option Text := none
  deriving DecidableEq, Repr

namespace Diagnostic

/-- A diagnostic, unless it has a number that cannot be written. -/
def make (cause : Cause) (location : Option Location) (sourceLine : Option Text) :
    Except Text.DigitOverflow Diagnostic :=
  if cause.writable && location.all fun l => Text.writable l.line then
    .ok ⟨cause, location, sourceLine⟩
  else .error .writing

def line? (d : Diagnostic) : Option Int := d.location.map Location.line

def headline (d : Diagnostic) : Text :=
  match d.location with
  | some l => l.text ++ ": error: " ++ d.cause.message
  | none => "error: " ++ d.cause.message

/-- The headline, the source line set in by four places, and the hint unless empty. -/
def text (d : Diagnostic) : Text :=
  d.headline ++
    (match d.sourceLine with
      | some line => "\n    " ++ line
      | none => []) ++
    (match d.cause.hint with
      | none | some [] => []
      | some hint => "\nhint: " ++ hint)

end Diagnostic
end Asm6502
