import Asm6502.Text.Blank
import Asm6502.Text.Integer

/-! Addresses, labels and code ranges as they are typed on a command line. -/
namespace Asm6502.Command

inductive AddressFault
  | integer (e : Text.IntegerFault)
  | outOfRange (text : Text)
  deriving DecidableEq, Repr

def AddressFault.message : AddressFault → Text
  | .integer e => e.message
  | .outOfRange text => "address out of range: " ++ text

/-- The number of a trimmed text: hexadecimal after `$` or `0x`, else decimal. -/
def addressNumber (t : Text) : Except Text.IntegerFault Int :=
  match t with
  | '$' :: rest => Text.readInteger 16 rest
  | '0' :: x :: rest =>
    if x = 'x' ∨ x = 'X' then Text.readInteger 16 rest else Text.readInteger 10 t
  | t => Text.readInteger 10 t

def parseAddress (t : Text) : Except AddressFault Int :=
  match addressNumber t.trim with
  | .error e => .error (.integer e)
  | .ok v => if 0 ≤ v ∧ v ≤ 0xFFFF then .ok v else .error (.outOfRange t.trim)

inductive DefinitionFault
  /-- It does not have the form that is asked for. -/
  | shape (form text : Text)
  | address (text : Text)
  deriving DecidableEq, Repr

def DefinitionFault.message : DefinitionFault → Text
  | .shape form text => "expected " ++ form ++ ", got '" ++ text ++ "'"
  | .address text => "invalid address in '" ++ text ++ "'"

def parseLabel (t : Text) : Except DefinitionFault (Text × Int) :=
  match Text.splitAt? '=' t with
  | none => .error (.shape "NAME=ADDR" t)
  | some (name, address) =>
    if name.trim.isEmpty then .error (.shape "NAME=ADDR" t)
    else
      match parseAddress address with
      | .ok a => .ok (name.trim, a)
      | .error _ => .error (.address t)

def parseRange (t : Text) : Except DefinitionFault (Int × Int) :=
  match Text.splitAt? '-' t with
  | none => .error (.shape "START-END" t)
  | some (first, last) =>
    match parseAddress first, parseAddress last with
    | .ok a, .ok b => .ok (a, b)
    | _, _ => .error (.address t)

/-- Every text of a list in turn; the first fault counts. -/
def parseEach (parse : Text → Except DefinitionFault α) : List Text →
    Except DefinitionFault (List α)
  | [] => .ok []
  | t :: rest =>
    match parse t with
    | .error e => .error e
    | .ok a =>
      match parseEach parse rest with
      | .error e => .error e
      | .ok as => .ok (a :: as)

end Asm6502.Command
