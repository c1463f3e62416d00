import Asm6502.Diagnostic.Report
import Asm6502.Event
import Asm6502.Image.Form
import Asm6502.Image.Pass

/-! The assembly of one source: a pass that collects the labels, then a pass over the
same lines that puts their addresses in. A defective line is reported and the next line
is taken; only a number that is too long to read or to write ends a pass early. -/
namespace Asm6502

/-- The state between two lines. -/
structure Assembly where
  file : Text
  labels : LabelTable := {}
  report : Report := {}
  pass : Pass := { number := labelPass }
  /-- What happened so far, latest first. -/
  log : List Event := []
  deriving DecidableEq, Repr

inductive Outcome
  | done
  | defect (diagnostic : Diagnostic)
  | stopped (overflow : Text.DigitOverflow)
  deriving DecidableEq, Repr

namespace Assembly

def code (a : Assembly) : List UInt8 := a.pass.code.toList

def events (a : Assembly) : List Event := a.log.reverse

def note (a : Assembly) (e : Event) : Assembly := { a with log := e :: a.log }

def diagnose (a : Assembly) (line : SourceLine) (cause : Cause) : Diagnostic :=
  ⟨cause, some ⟨a.file, line.number⟩, some line.text⟩

/-- Begins a pass; the labels and the report stay. -/
def openPass (a : Assembly) (number : Int) : Assembly :=
  { a.note (.passStarted number) with pass := Pass.start number }

/-- Begins a pass of any number that can be told. -/
def startPass (a : Assembly) (number : Int) : Except Text.DigitOverflow Assembly :=
  if Text.writable number then .ok (a.openPass number) else .error .writing

theorem startPass_labelPass (a : Assembly) :
    a.startPass labelPass = .ok (a.openPass labelPass) := if_pos Text.writable_zero

def emit (a : Assembly) (bytes : List UInt8) : Assembly :=
  match a with
  | ⟨file, labels, report, pass, log⟩ => ⟨file, labels, report, pass.emit bytes, log⟩

/-- The label table after the label of a line. The label pass defines the label here. On
any other pass a label whose definition stands on another line makes the line one that
was rejected before, and it is passed over. -/
def enterLabel (a : Assembly) (line : SourceLine) (name : Text) : Except Outcome LabelTable :=
  if a.pass.isLabelPass then
    match a.labels.define ⟨name, a.pass.pc, line.number⟩ with
    | .ok labels => .ok labels
    | .error first => .error (.defect (a.diagnose line (.duplicate name first.line)))
  else
    match a.labels.find? name with
    | some first => if first.line = line.number then .ok a.labels else .error .done
    | none => .ok a.labels

/-- Emits a form. A reference to an undefined label is a defect except on the label pass,
and keeps its place all the same. -/
def assembleForm (a : Assembly) (line : SourceLine) (form : Form) : Assembly × Outcome :=
  let missing := if a.pass.isLabelPass then none else form.missing? a.labels
  match missing with
  | none => (a.emit (form.bytes a.labels), .done)
  | some symbol =>
    (a.emit (form.bytes a.labels),
      .defect (a.diagnose line (.undefined symbol (a.labels.similar symbol 3) none)))

def assembleStatement (a : Assembly) (line : SourceLine) : Statement → Assembly × Outcome
  | .empty => (a, .done)
  | .malformed text => (a, .defect (a.diagnose line (.notInstruction text)))
  | .instruction name operand =>
    match Mnemonic.ofName? name with
    | none => (a, .defect (a.diagnose line (.unknown name)))
    | some m =>
      match Form.choose m operand with
      | .error e => (a, .stopped e)
      | .ok none =>
        (a, .defect (a.diagnose line (.unencodable name operand (m.modes.map Mode.name))))
      | .ok (some form) => a.assembleForm line form

def takeLine (a : Assembly) (line : SourceLine) : Assembly × Outcome :=
  let a := a.note (.lineTaken line)
  match splitLabel line.text with
  | (none, rest) => a.assembleStatement line (.parse rest)
  | (some name, rest) =>
    match a.enterLabel line name with
    | .ok labels => assembleStatement { a with labels } line (.parse rest)
    | .error outcome => (a, outcome)

def assembleLine (a : Assembly) (line : SourceLine) : Assembly × Outcome :=
  if Text.writable line.number then a.takeLine line else (a, .stopped .writing)

/-- Only the label pass sees duplicates, and everything else would be seen twice, so the
rest is recorded on the emission pass alone. -/
def record (a : Assembly) (d : Diagnostic) : Assembly :=
  if a.pass.number == emitPass || d.cause.isDuplicate then
    { a.note (.recorded d) with report := a.report.add d }
  else a

def runLines (a : Assembly) : List SourceLine → Assembly × Option Text.DigitOverflow
  | [] => (a, none)
  | line :: rest =>
    match a.assembleLine line with
    | (a, .done) => runLines a rest
    | (a, .defect d) => runLines (a.record d) rest
    | (a, .stopped e) => (a, some e)

def runPass (a : Assembly) (number : Int) (lines : List SourceLine) :
    Assembly × Option Text.DigitOverflow :=
  match a.startPass number with
  | .error e => (a, some e)
  | .ok a =>
    match a.runLines lines with
    | (a, none) => (a.note (.passEnded number a.pass.code.size a.pass.pc), none)
    | (a, some e) => (a, some e)

/-- Both passes, from an empty label table. -/
def generate (a : Assembly) (lines : List SourceLine) : Assembly × Option Text.DigitOverflow :=
  match { a with labels := {} }.runPass labelPass lines with
  | (a, none) => a.runPass emitPass lines
  | (a, some e) => (a, some e)

end Assembly
end Asm6502
