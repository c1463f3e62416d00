import Asm6502.Assembler

/-! How a tool ends: its exit status, and what it says about a fault. -/
namespace Asm6502.Command

inductive ExitStatus
  | success
  | buildError
  | invalidArguments
  | internalError
  deriving DecidableEq, Repr

namespace ExitStatus

def all : List ExitStatus := [success, buildError, invalidArguments, internalError]

def code : ExitStatus → Nat
  | success => 0
  | buildError => 1
  | invalidArguments => 2
  | internalError => 3

end ExitStatus

inductive Fault
  /-- A fault of the program that is worked on. -/
  | program (text : Text)
  /-- An argument that cannot be used. -/
  | argument (text : Text)
  /-- A file that is not there or not open to the tool. -/
  | unavailable (text : Text)
  /-- Anything that was not to be expected. -/
  | unexpected (text : Text)
  deriving DecidableEq, Repr

namespace Fault

def ofDiagnostic (d : Diagnostic) : Fault := program d.text

def ofName (name : Text) : Fault := unexpected (Text.quoted name)

def ofFile (e : FileFault) : Fault :=
  match e.fault with
  | .missing | .denied => unavailable e.message
  | _ => unexpected e.message

def ofRun : RunFault → Fault
  | .file e => ofFile e
  | .overflow e => unexpected e.message
  | .encoding e => unexpected e.message

def status : Fault → ExitStatus
  | program _ => .buildError
  | argument _ => .invalidArguments
  | unavailable _ => .invalidArguments
  | unexpected _ => .internalError

/-- The lines for the error stream. `activity` is what the tool was doing, if that is to
be told; a talkative tool announces the trace of an unexpected fault. -/
def text (verbose : Bool) (activity : Text) : Fault → Text
  | program text =>
    (if activity.isEmpty then "Error: ".toList else activity ++ " error: ") ++ text ++ ['\n']
  | argument text => "Error: " ++ text ++ ['\n']
  | unavailable text => "Error: " ++ text ++ ['\n']
  | unexpected text =>
    "Internal error: " ++ text ++ ['\n'] ++
      (if verbose then "Traceback (most recent call last):\n".toList else [])

end Fault
end Asm6502.Command
