import Asm6502.Diagnostic
import Asm6502.Text.Case

/-! Labels with their addresses. The first definition of a name stays; names that differ
in case are different names. -/
namespace Asm6502

structure Label where
  name : Text
  address : Int
  line : Int
  deriving DecidableEq, Repr

structure LabelTable where
  labels : Array Label := #[]
  deriving DecidableEq, Repr

namespace LabelTable

def find? (t : LabelTable) (name : Text) : Option Label := t.labels.find? fun l => l.name == name

def contains (t : LabelTable) (name : Text) : Bool := (t.find? name).isSome

/-- Defines a label, or gives the earlier definition that stands in its way. -/
def define (t : LabelTable) (label : Label) : Except Label LabelTable :=
  match t.find? label.name with
  | some earlier => .error earlier
  | none => .ok ⟨t.labels.push label⟩

def toList (t : LabelTable) : List Label := t.labels.toList

theorem find?_eq_find?_toList (t : LabelTable) (name : Text) :
    t.find? name = t.toList.find? fun l => l.name == name := by
  simp [find?, toList]

theorem define_eq_error_iff {t : LabelTable} {label earlier : Label} :
    t.define label = .error earlier ↔ t.find? label.name = some earlier := by
  unfold define
  cases t.find? label.name <;> simp

theorem define_eq_ok_iff {t t' : LabelTable} {label : Label} :
    t.define label = .ok t' ↔ t.find? label.name = none ∧ t' = ⟨t.labels.push label⟩ := by
  unfold define
  cases t.find? label.name with
  | none => simp [eq_comm]
  | some earlier => simp

theorem toList_of_define {t t' : LabelTable} {label : Label} (h : t.define label = .ok t') :
    t'.toList = t.toList ++ [label] := by
  obtain ⟨_, rfl⟩ := define_eq_ok_iff.1 h
  simp [toList]

theorem find?_of_define {t t' : LabelTable} {label : Label} (h : t.define label = .ok t')
    (name : Text) :
    t'.find? name = if label.name = name then some label else t.find? name := by
  have hn : t.find? label.name = none := (define_eq_ok_iff.1 h).1
  rw [find?_eq_find?_toList, toList_of_define h, List.find?_append, ← find?_eq_find?_toList]
  split
  case isTrue e => subst e; simp [hn]
  case isFalse e => simp [e]

/-- A label to be defined, and what the message shows if its name is taken. -/
structure Request where
  label : Label
  location : Option Location := none
  sourceLine : Option Text := none
  deriving DecidableEq, Repr

/-- What comes of a request for a name that is taken. -/
inductive Refusal
  | duplicate (diagnostic : Diagnostic)
  /-- The diagnostic has a number that cannot be written. -/
  | overflow (e : Text.DigitOverflow)
  deriving DecidableEq, Repr

/-- Defines a label on request. A refusal leaves the table as it is. -/
def add (t : LabelTable) (r : Request) : LabelTable × Except Refusal Label :=
  match t.define r.label with
  | .ok t => (t, .ok r.label)
  | .error earlier =>
    match Diagnostic.make (.duplicate r.label.name earlier.line) r.location r.sourceLine with
    | .ok d => (t, .error (.duplicate d))
    | .error e => (t, .error (.overflow e))

def symbols (t : LabelTable) : List (Text × Int) := t.toList.map fun l => (l.name, l.address)

/-- The items before place `stop`, which counts from the far end when it is negative. -/
def before (stop : Int) (names : List Text) : List Text :=
  if 0 ≤ stop then names.take stop.toNat else names.take (names.length - stop.natAbs)

/-- Defined names that are `name` but for case, at most `limit` of them. -/
def similar (t : LabelTable) (name : Text) (limit : Int) : List Text :=
  let small := name.lower
  before limit ((t.toList.map Label.name).filter fun n => n.lower == small && n != name)

end LabelTable
end Asm6502
