import Asm6502.Event
import Asm6502.Text.Blank
import Asm6502.Text.Case
import Asm6502.Text.Integer

/-! Settings of an assembler, by default or from the environment. -/
namespace Asm6502

structure Settings where
  /-- How many diagnostics a report keeps; no limit where there is none. -/
  limit : Option Int := none
  /-- Tell about the progress of a run. -/
  verbose : Bool := false
  deriving DecidableEq, Repr

namespace Settings

def isYes (t : Text) : Bool :=
  let word := t.trim.lower
  word == ['1'] || word == ['t', 'r', 'u', 'e'] || word == ['y', 'e', 's']

/-- The limit that a variable asks for. An empty value asks for nothing, and a value
that is no integer is ignored, of which the event tells. -/
def limitOf : Option Text → Option Int × List Event
  | none | some [] => (none, [])
  | some value =>
    match Text.readInteger 10 value with
    | .ok limit => (some limit, [])
    | .error _ => (none, [.limitIgnored value])

def limitVariable : Text := "C64_SDK_MAX_ERRORS"

def verboseVariable : Text := "C64_SDK_VERBOSE"

def ofEnvironment (environment : Text → Option Text) : Settings × List Event :=
  let (limit, events) := limitOf (environment limitVariable)
  (⟨limit, (environment verboseVariable).any isYes⟩, events)

end Settings
end Asm6502
