import Asm6502.Diagnostic
import Asm6502.Source.Line
import Asm6502.Text.Quoted

/-! What a run has to tell about itself, besides its results. -/
namespace Asm6502

inductive Level
  | debug
  | info
  | warning
  deriving DecidableEq, Repr

def Level.name : Level → Text
  | .debug => "DEBUG"
  | .info => "INFO"
  | .warning => "WARNING"

inductive Event
  | passStarted (number : Int)
  | lineTaken (line : SourceLine)
  | recorded (diagnostic : Diagnostic)
  | passEnded (number : Int) (size : Nat) (pc : Int)
  | runStarted (file : Text) (lines : Nat)
  | runFailed (file : Text) (count : Nat)
  | runEnded (size labels : Nat)
  | fileWritten (size : Nat) (path : Text)
  | limitIgnored (value : Text)
  deriving DecidableEq, Repr

namespace Event

def level : Event → Level
  | passStarted _ | lineTaken _ | recorded _ | passEnded _ _ _ => .debug
  | runStarted _ _ | runFailed _ _ | runEnded _ _ | fileWritten _ _ => .info
  | limitIgnored _ => .warning

def message : Event → Text
  | passStarted number => "Starting pass " ++ Text.decimal number
  | lineTaken line => "assembling line " ++ Text.decimal line.number ++ ": " ++ line.text
  | recorded diagnostic => "collected: " ++ diagnostic.text
  | passEnded number size pc =>
    "Pass " ++ Text.decimal number ++ " done: " ++ Text.decimal size ++ " bytes, pc=$" ++
      Text.hex 4 pc
  | runStarted file lines =>
    "Assembling " ++ file ++ " (" ++ Text.decimal lines ++ " lines)"
  | runFailed file count => file ++ ": " ++ Text.decimal count ++ " error(s)"
  | runEnded size labels =>
    "Generated " ++ Text.decimal size ++ " bytes, " ++ Text.decimal labels ++ " labels"
  | fileWritten size path => "Wrote " ++ Text.decimal size ++ " bytes to " ++ path
  | limitIgnored value => "Ignoring invalid C64_SDK_MAX_ERRORS=" ++ Text.quoted value

end Event
end Asm6502
