import Asm6502.Command.Fault
import Asm6502.Text.Terminal

/-! What a tool can reach while it runs: the files and its two output streams. What it says
there is plain text; only events are logged as they are. -/
namespace Asm6502.Command

structure Console where
  files : FileTree
  out : Text := []
  err : Text := []
  deriving DecidableEq, Repr

namespace Console

def print (c : Console) (t : Text) : Console := { c with out := c.out ++ t.plain }

def warn (c : Console) (t : Text) : Console := { c with err := c.err ++ t.plain }

def log (c : Console) (t : Text) : Console := { c with err := c.err ++ t }

/-- A line, said only by a talkative tool. -/
def sayIf (c : Console) (condition : Bool) (t : Text) : Console :=
  if condition then c.print (t ++ ['\n']) else c

def warnIf (c : Console) (condition : Bool) (t : Text) : Console :=
  if condition then c.warn (t ++ ['\n']) else c

def eventLine (e : Event) : Text := e.level.name ++ [':', ' '] ++ e.message ++ ['\n']

def logIf (c : Console) (condition : Bool) (events : List Event) : Console :=
  if condition then c.log (events.flatMap eventLine) else c

/-- Events that come before it is known how much to tell. -/
def logBare (c : Console) (events : List Event) : Console :=
  c.log (events.flatMap fun e => e.message ++ ['\n'])

def fail (c : Console) (verbose : Bool) (activity : Text) (fault : Fault) :
    Console × ExitStatus :=
  (c.warn (fault.text verbose activity), fault.status)

end Console
end Asm6502.Command
