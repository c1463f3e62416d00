import Asm6502.Diagnostic

/-! A report gathers diagnostics. Beyond its limit they are only counted. -/
namespace Asm6502

structure Report where
  limit : Option Int := none
  kept : Array Diagnostic := #[]
  dropped : Nat := 0
  deriving DecidableEq, Repr

namespace Report

def isFull (r : Report) : Bool :=
  match r.limit with
  | none => false
  | some limit => limit ≤ r.kept.size

def add (r : Report) (d : Diagnostic) : Report :=
  if r.isFull then { r with dropped := r.dropped + 1 }
  else { r with kept := r.kept.push d }

/-- Some diagnostic was kept. -/
def hasErrors (r : Report) : Bool := !r.kept.isEmpty

/-- All diagnostics, the dropped ones included. -/
def count (r : Report) : Nat := r.kept.size + r.dropped

def summary (r : Report) : Text :=
  "\n" ++ Text.decimal r.count ++ (if r.count = 1 then " error" else " errors")

/-- Each kept diagnostic with an empty line after it, then the number of those left out,
then the total. -/
def text (r : Report) : Text :=
  List.intercalate ['\n']
    ((r.kept.toList.flatMap fun d => [d.text, []]) ++
      (if r.dropped = 0 then []
        else ["(" ++ Text.decimal r.dropped ++ " more errors not shown)"]) ++
      [r.summary])

end Report
end Asm6502
