import Asm6502.Assembly

/-! What one line does in a pass. The form of a line, and with it the number of its bytes,
follows from its text alone. The pass decides under which label table the line is assembled,
and whether it is assembled at all. -/
namespace Asm6502

namespace Statement

def form : Statement → Except Text.DigitOverflow (Option Form)
  | .instruction name operand =>
    match Mnemonic.ofName? name with
    | some m => Form.choose m operand
    | none => .ok none
  | _ => .ok none

def bytes (labels : LabelTable) (s : Statement) : List UInt8 :=
  match s.form with
  | .ok (some form) => form.bytes labels
  | _ => []

def overflow? (s : Statement) : Option Text.DigitOverflow :=
  match s.form with
  | .error e => some e
  | .ok _ => none

def size (s : Statement) : Nat :=
  match s.form with
  | .ok (some form) => form.size
  | _ => 0

theorem length_bytes (labels : LabelTable) (s : Statement) : (s.bytes labels).length = s.size := by
  unfold bytes size
  split
  · exact Form.length_bytes labels _
  · rfl

end Statement

namespace SourceLine

def label? (line : SourceLine) : Option Text := (splitLabel line.text).1

def statement (line : SourceLine) : Statement := .parse (splitLabel line.text).2

def bytes (labels : LabelTable) (line : SourceLine) : List UInt8 := line.statement.bytes labels

/-- How many bytes a line encodes; no table is needed to tell. -/
def size (line : SourceLine) : Nat := line.statement.size

theorem length_bytes (labels : LabelTable) (line : SourceLine) :
    (line.bytes labels).length = line.size := Statement.length_bytes labels line.statement

end SourceLine

def Outcome.stop? : Outcome → Option Text.DigitOverflow
  | .stopped e => some e
  | _ => none

namespace Assembly

@[simp] theorem labels_note (a : Assembly) (e : Event) : (a.note e).labels = a.labels := rfl

@[simp] theorem pass_emit (a : Assembly) (bytes : List UInt8) :
    (a.emit bytes).pass = a.pass.emit bytes := rfl

@[simp] theorem labels_record (a : Assembly) (d : Diagnostic) : (a.record d).labels = a.labels := by
  unfold record
  split <;> rfl

@[simp] theorem pass_record (a : Assembly) (d : Diagnostic) : (a.record d).pass = a.pass := by
  unfold record
  split <;> rfl

/-- The label table under which a line is assembled; none where the line is passed over. -/
def entered (a : Assembly) (line : SourceLine) : Option LabelTable :=
  match line.label? with
  | none => some a.labels
  | some name => (a.enterLabel line name).toOption

theorem stop?_of_enterLabel {a : Assembly} {line : SourceLine} {name : Text} {outcome : Outcome}
    (h : a.enterLabel line name = .error outcome) : outcome.stop? = none := by
  unfold enterLabel at h
  split at h
  · split at h
    · cases h
    · cases h; rfl
  · split at h
    · split at h
      · cases h
      · cases h; rfl
    · cases h

theorem assembleForm_eq (a : Assembly) (line : SourceLine) (form : Form) :
    (a.assembleForm line form).1 = a.emit (form.bytes a.labels) ∧
      (a.assembleForm line form).2.stop? = none := by
  unfold assembleForm
  dsimp only
  generalize (if a.pass.isLabelPass then none else form.missing? a.labels) = missing
  cases missing <;> exact ⟨rfl, rfl⟩

theorem assembleStatement_eq (a : Assembly) (line : SourceLine) (s : Statement) :
    (a.assembleStatement line s).1 = a.emit (s.bytes a.labels) ∧
      (a.assembleStatement line s).2.stop? = s.overflow? := by
  cases s with
  | empty => exact ⟨rfl, rfl⟩
  | malformed text => exact ⟨rfl, rfl⟩
  | instruction name operand =>
    simp only [assembleStatement, Statement.bytes, Statement.overflow?, Statement.form]
    cases Mnemonic.ofName? name with
    | none => exact ⟨rfl, rfl⟩
    | some m =>
      dsimp only
      cases Form.choose m operand with
      | error e => exact ⟨rfl, rfl⟩
      | ok chosen =>
        cases chosen with
        | none => exact ⟨rfl, rfl⟩
        | some form => exact assembleForm_eq a line form

theorem takeLine_eq_of_entered {a : Assembly} {line : SourceLine} {labels : LabelTable}
    (h : a.entered line = some labels) :
    a.takeLine line =
      assembleStatement { a.note (.lineTaken line) with labels } line line.statement := by
  unfold entered SourceLine.label? at h
  unfold takeLine SourceLine.statement
  dsimp only
  rcases hs : splitLabel line.text with ⟨_ | name, rest⟩
  · rw [hs] at h
    cases Option.some.inj h
    rfl
  · rw [hs] at h
    have he : (a.note (.lineTaken line)).enterLabel line name = .ok labels := by
      change a.enterLabel line name = .ok labels
      dsimp only at h
      cases hl : a.enterLabel line name with
      | ok t => rw [hl] at h; exact congrArg Except.ok (Option.some.inj h)
      | error o => rw [hl] at h; cases h
    simp only [he]

/-- A line that is passed over is only told of; its label decides how it ends. -/
theorem takeLine_eq_of_passed_over {a : Assembly} {line : SourceLine} (h : a.entered line = none) :
    ∃ name outcome, line.label? = some name ∧ a.enterLabel line name = .error outcome ∧
      a.takeLine line = (a.note (.lineTaken line), outcome) := by
  unfold entered SourceLine.label? at h
  unfold takeLine SourceLine.label?
  dsimp only
  rcases hs : splitLabel line.text with ⟨_ | name, rest⟩
  · rw [hs] at h
    cases h
  · rw [hs] at h
    dsimp only at h
    cases hl : a.enterLabel line name with
    | ok t => rw [hl] at h; cases h
    | error o =>
      have he : (a.note (.lineTaken line)).enterLabel line name = .error o := hl
      exact ⟨name, o, rfl, hl, by simp only [he]⟩

theorem takeLine_of_entered {a : Assembly} {line : SourceLine} {labels : LabelTable}
    (h : a.entered line = some labels) :
    (a.takeLine line).1.labels = labels ∧
      (a.takeLine line).1.pass = a.pass.emit (line.bytes labels) ∧
      (a.takeLine line).2.stop? = line.statement.overflow? := by
  have e := assembleStatement_eq { a.note (.lineTaken line) with labels } line line.statement
  rw [takeLine_eq_of_entered h, e.1, e.2]
  exact ⟨rfl, rfl, rfl⟩

theorem takeLine_of_passed_over {a : Assembly} {line : SourceLine} (h : a.entered line = none) :
    (a.takeLine line).1.labels = a.labels ∧ (a.takeLine line).1.pass = a.pass ∧
      (a.takeLine line).2.stop? = none := by
  obtain ⟨name, outcome, _, he, taken⟩ := takeLine_eq_of_passed_over h
  rw [taken]
  exact ⟨rfl, rfl, stop?_of_enterLabel he⟩

theorem entered_labelPass {a : Assembly} (h : a.pass.isLabelPass = true) (line : SourceLine) :
    a.entered line =
      match line.label? with
      | none => some a.labels
      | some name =>
        match a.labels.find? name with
        | none => some ⟨a.labels.labels.push ⟨name, a.pass.pc, line.number⟩⟩
        | some _ => none := by
  unfold entered
  split
  · rfl
  · rename_i name _
    rw [enterLabel, if_pos h]
    unfold LabelTable.define
    dsimp only
    cases a.labels.find? name <;> rfl

/-- On any other pass the table stays, and a line is passed over if its name was defined on
another line. -/
theorem entered_of_not_labelPass {a : Assembly} (h : a.pass.isLabelPass = false)
    (line : SourceLine) :
    a.entered line =
      match line.label? with
      | none => some a.labels
      | some name =>
        match a.labels.find? name with
        | none => some a.labels
        | some first => if first.line = line.number then some a.labels else none := by
  unfold entered
  split
  · rfl
  · rename_i name _
    rw [enterLabel, if_neg (by simp [h])]
    cases a.labels.find? name with
    | none => rfl
    | some first =>
      dsimp only
      split <;> rfl

/-- The state after a line, a defect recorded; none where the line ends the pass. -/
def next? (a : Assembly) (line : SourceLine) : Option Assembly :=
  match a.assembleLine line with
  | (b, .done) => some b
  | (b, .defect d) => some (b.record d)
  | (_, .stopped _) => none

/-- A line goes through if its number can be told and it has no literal beyond the limit;
the literals of a line that is passed over are not read. -/
theorem next?_isSome_iff (a : Assembly) (line : SourceLine) :
    (a.next? line).isSome ↔
      Text.writable line.number = true ∧
        ∀ labels, a.entered line = some labels → line.statement.overflow? = none := by
  unfold next? assembleLine
  by_cases hw : Text.writable line.number = true
  · rw [if_pos hw]
    have stop : (a.takeLine line).2.stop? =
        if (a.entered line).isSome then line.statement.overflow? else none := by
      cases he : a.entered line with
      | none => exact (takeLine_of_passed_over he).2.2
      | some labels => exact (takeLine_of_entered he).2.2
    rcases ht : a.takeLine line with ⟨b, outcome⟩
    rw [ht] at stop
    cases he : a.entered line with
    | none =>
      rw [he] at stop
      cases outcome <;> simp_all [Outcome.stop?]
    | some labels =>
      rw [he] at stop
      have hs : outcome.stop? = line.statement.overflow? := stop
      rw [← hs]
      cases outcome <;> simp [hw, Outcome.stop?]
  · simp [hw]

theorem next?_eq_some {a b : Assembly} {line : SourceLine} (h : a.next? line = some b) :
    (∃ labels, a.entered line = some labels ∧ b.labels = labels ∧
        b.pass = a.pass.emit (line.bytes labels)) ∨
      (a.entered line = none ∧ b.labels = a.labels ∧ b.pass = a.pass) := by
  have hw : Text.writable line.number = true :=
    ((next?_isSome_iff a line).mp (by rw [h]; rfl)).1
  have settled : b.labels = (a.takeLine line).1.labels ∧ b.pass = (a.takeLine line).1.pass := by
    unfold next? assembleLine at h
    rw [if_pos hw] at h
    rcases ht : a.takeLine line with ⟨c, outcome⟩
    rw [ht] at h
    cases outcome with
    | done => cases Option.some.inj h; exact ⟨rfl, rfl⟩
    | defect d => cases Option.some.inj h; simp
    | stopped e => cases h
  rw [settled.1, settled.2]
  cases he : a.entered line with
  | none =>
    have t := takeLine_of_passed_over he
    exact .inr ⟨rfl, t.1, t.2.1⟩
  | some labels =>
    have t := takeLine_of_entered he
    exact .inl ⟨labels, rfl, t.1, t.2.1⟩

theorem runLines_eq_foldlM (a : Assembly) (lines : List SourceLine) (b : Assembly) :
    a.runLines lines = (b, none) ↔ lines.foldlM next? a = some b := by
  induction lines generalizing a with
  | nil => simp [runLines]
  | cons line rest ih =>
    simp only [runLines, List.foldlM_cons, next?]
    rcases a.assembleLine line with ⟨c, outcome⟩
    cases outcome with
    | done => simpa using ih c
    | defect d => simpa using ih (c.record d)
    | stopped e => simp

theorem runPass_eq_foldlM {a b : Assembly} {number : Int} {lines : List SourceLine}
    (hn : Text.writable number = true) :
    a.runPass number lines = (b, none) ↔
      ∃ c, lines.foldlM next? (a.openPass number) = some c ∧
        b = c.note (.passEnded number c.pass.code.size c.pass.pc) := by
  unfold runPass startPass
  rw [if_pos hn]
  dsimp only
  constructor
  · intro h
    rcases hr : (a.openPass number).runLines lines with ⟨c, _ | e⟩
    · rw [hr] at h
      exact ⟨c, (runLines_eq_foldlM _ _ _).mp hr, (Prod.mk.inj h).1.symm⟩
    · rw [hr] at h
      cases (Prod.mk.inj h).2
  · rintro ⟨c, hc, rfl⟩
    rw [(runLines_eq_foldlM _ _ _).mpr hc]

end Assembly
end Asm6502
