import Asm6502.Proofs.Diagnosis

/-! Two runs over one source, the one in an assembly that has seen other sources, the other in a
new one. What a line does hangs on the file, the labels and the pass and on nothing else, and a
run sets the labels and the pass before it begins. So the two stay abreast, and the report of the
first grows by just what the second gathers. -/
namespace Asm6502

namespace Report

@[simp] theorem limit_gather (r : Report) (ds : List Diagnostic) :
    (r.gather ds).limit = r.limit := by
  induction ds generalizing r with
  | nil => rfl
  | cons d ds ih =>
    have step : (r.add d).limit = r.limit := by
      unfold add
      split <;> rfl
    exact (ih (r.add d)).trans step

theorem dropped_gather (r : Report) (ds : List Diagnostic) :
    (r.gather ds).dropped = r.dropped + (ds.length - (r.fitting ds).length) := by
  have count := count_gather r ds
  have kept := congrArg List.length (kept_gather r ds)
  have fewer : (r.fitting ds).length ≤ ds.length := by
    unfold fitting
    split
    · exact Nat.le_refl _
    · exact List.length_take_le' _ _
  rw [List.length_append, Array.length_toList, Array.length_toList] at kept
  unfold Report.count at count
  omega

theorem add_of_unlimited {r : Report} (h : r.limit = none) (d : Diagnostic) :
    r.add d = { r with kept := r.kept.push d } := by
  simp [add, isFull, h]

end Report

namespace Assembly

/- The same source at the same place. The report of the first began as `r`, that of the second as
an empty one without a limit. -/
structure Abreast (r : Report) (a b : Assembly) : Prop where
  file : a.file = b.file
  labels : a.labels = b.labels
  pass : a.pass = b.pass
  unlimited : b.report.limit = none
  complete : b.report.dropped = 0
  report : a.report = r.gather b.report.kept.toList

section Line

variable {r : Report} {a b : Assembly}

theorem diagnose_congr (file : a.file = b.file) (line : SourceLine) (cause : Cause) :
    a.diagnose line cause = b.diagnose line cause := by
  simp only [diagnose, file]

theorem assembleForm_congr (file : a.file = b.file) (labels : a.labels = b.labels)
    (pass : a.pass = b.pass) (line : SourceLine) (form : Form) :
    (a.assembleForm line form).2 = (b.assembleForm line form).2 := by
  simp only [assembleForm, labels, pass, diagnose_congr file]
  split <;> rfl

theorem assembleStatement_congr (file : a.file = b.file) (labels : a.labels = b.labels)
    (pass : a.pass = b.pass) (line : SourceLine) (s : Statement) :
    (a.assembleStatement line s).2 = (b.assembleStatement line s).2 := by
  cases s with
  | empty => rfl
  | malformed text => simp only [assembleStatement, diagnose_congr file]
  | instruction name operand =>
    simp only [assembleStatement, diagnose_congr file]
    cases Mnemonic.ofName? name with
    | none => rfl
    | some m =>
      dsimp only
      cases Form.choose m operand with
      | error e => rfl
      | ok chosen =>
        cases chosen with
        | none => rfl
        | some form => exact assembleForm_congr file labels pass line form

theorem enterLabel_congr (file : a.file = b.file) (labels : a.labels = b.labels)
    (pass : a.pass = b.pass) (line : SourceLine) (name : Text) :
    a.enterLabel line name = b.enterLabel line name := by
  simp only [enterLabel, labels, pass, diagnose_congr file]

theorem Abreast.takeLine (h : Abreast r a b) (line : SourceLine) :
    (a.takeLine line).2 = (b.takeLine line).2 ∧
      Abreast r (a.takeLine line).1 (b.takeLine line).1 := by
  have enters : ∀ name, a.enterLabel line name = b.enterLabel line name :=
    enterLabel_congr h.file h.labels h.pass line
  have entered : a.entered line = b.entered line := by
    simp only [Assembly.entered, h.labels, enters]
  obtain ⟨fileA, reportA, -⟩ := takeLine_keeps a line
  obtain ⟨fileB, reportB, -⟩ := takeLine_keeps b line
  have file : (a.takeLine line).1.file = (b.takeLine line).1.file := by
    rw [fileA, fileB, h.file]
  have report : (a.takeLine line).1.report = r.gather (b.takeLine line).1.report.kept.toList := by
    rw [reportA, reportB, h.report]
  have unlimited : (b.takeLine line).1.report.limit = none := by rw [reportB, h.unlimited]
  have complete : (b.takeLine line).1.report.dropped = 0 := by rw [reportB, h.complete]
  cases passed : a.entered line with
  | none =>
    obtain ⟨name, outcome, label, ended, taken⟩ := takeLine_eq_of_passed_over passed
    obtain ⟨name', outcome', label', ended', taken'⟩ :=
      takeLine_eq_of_passed_over (entered.symm.trans passed)
    cases Option.some.inj (label.symm.trans label')
    have same : outcome = outcome' := by
      rw [enters] at ended
      exact Except.error.inj (ended.symm.trans ended')
    refine ⟨by rw [taken, taken', same], file, ?_, ?_, unlimited, complete, report⟩
    · rw [taken, taken']
      exact h.labels
    · rw [taken, taken']
      exact h.pass
  | some labels =>
    have passed' := entered.symm.trans passed
    obtain ⟨labelsA, passA, -⟩ := takeLine_of_entered passed
    obtain ⟨labelsB, passB, -⟩ := takeLine_of_entered passed'
    refine ⟨?_, file, by rw [labelsA, labelsB], by rw [passA, passB, h.pass], unlimited, complete,
      report⟩
    rw [takeLine_eq_of_entered passed, takeLine_eq_of_entered passed']
    apply assembleStatement_congr
    · exact h.file
    · rfl
    · exact h.pass

theorem Abreast.assembleLine (h : Abreast r a b) (line : SourceLine) :
    (a.assembleLine line).2 = (b.assembleLine line).2 ∧
      Abreast r (a.assembleLine line).1 (b.assembleLine line).1 := by
  unfold Assembly.assembleLine
  split
  · exact h.takeLine line
  · exact ⟨rfl, h⟩

theorem Abreast.record (h : Abreast r a b) (d : Diagnostic) :
    Abreast r (a.record d) (b.record d) := by
  unfold Assembly.record
  rw [h.pass]
  split
  · refine ⟨h.file, h.labels, h.pass, ?_, ?_, ?_⟩ <;>
      simp only [Report.add_of_unlimited h.unlimited]
    · exact h.unlimited
    · exact h.complete
    · rw [h.report, Array.toList_push, Report.gather_append]
      rfl
  · exact h

end Line

section Run

variable {r : Report} {a b : Assembly}

theorem Abreast.runLines (h : Abreast r a b) (lines : List SourceLine) :
    (a.runLines lines).2 = (b.runLines lines).2 ∧
      Abreast r (a.runLines lines).1 (b.runLines lines).1 := by
  induction lines generalizing a b with
  | nil => exact ⟨rfl, h⟩
  | cons line rest ih =>
    obtain ⟨outcome, next⟩ := h.assembleLine line
    unfold Assembly.runLines
    rcases taken : a.assembleLine line with ⟨c, ended⟩
    rcases taken' : b.assembleLine line with ⟨d, ended'⟩
    rw [taken, taken'] at outcome next
    cases outcome
    cases ended with
    | done => exact ih next
    | defect diagnostic => exact ih (next.record diagnostic)
    | stopped e => exact ⟨rfl, next⟩

/-- A pass begins anew, so all that has to agree before it is the file, the labels and the
reports. -/
theorem Abreast.runPass {number : Int} (begun : Abreast r (a.openPass number) (b.openPass number))
    (writable : Text.writable number = true) (lines : List SourceLine) :
    (a.runPass number lines).2 = (b.runPass number lines).2 ∧
      Abreast r (a.runPass number lines).1 (b.runPass number lines).1 := by
  obtain ⟨ended, same⟩ := begun.runLines lines
  unfold Assembly.runPass startPass
  simp only [writable, if_true]
  rcases ran : (a.openPass number).runLines lines with ⟨c, e⟩
  rcases ran' : (b.openPass number).runLines lines with ⟨d, e'⟩
  rw [ran, ran'] at ended same
  cases ended
  cases e with
  | none => exact ⟨rfl, same.file, same.labels, same.pass, same.unlimited, same.complete,
      same.report⟩
  | some e => exact ⟨rfl, same⟩

theorem Abreast.openPass (h : Abreast r a b) (number : Int) :
    Abreast r (a.openPass number) (b.openPass number) :=
  ⟨h.file, h.labels, rfl, h.unlimited, h.complete, h.report⟩

theorem abreast_generate (a : Assembly) (lines : List SourceLine) :
    (a.generate lines).2 = (generate { file := a.file } lines).2 ∧
      Abreast a.report (a.generate lines).1 (generate { file := a.file } lines).1 := by
  have begun : Abreast a.report (openPass { a with labels := {} } labelPass)
      (openPass { file := a.file } labelPass) := ⟨rfl, rfl, rfl, rfl, rfl, rfl⟩
  obtain ⟨ended, same⟩ := begun.runPass Text.writable_zero lines
  unfold generate
  rcases ran : { a with labels := {} }.runPass labelPass lines with ⟨c, e⟩
  rcases ran' : ({ file := a.file } : Assembly).runPass labelPass lines with ⟨d, e'⟩
  rw [ran, ran'] at ended same
  rw [ran]
  cases ended
  cases e with
  | none => exact (same.openPass emitPass).runPass Text.writable_one lines
  | some e => exact ⟨rfl, same⟩

/-- Whatever an assembly has seen before and whatever its report holds, a run leaves the image and
the labels that it leaves in a new assembly. The diagnostics of that run are what the report gets,
and the limit decides only how many of them it keeps. -/
theorem generate_carries_nothing_over (a : Assembly) (lines : List SourceLine) :
    let fresh := generate { file := a.file } lines
    let result := a.generate lines
    let new := fresh.1.report.kept.toList
    let fitting :=
      match a.report.limit with
      | none => new
      | some limit => new.take (max 0 (limit - a.report.kept.size)).toNat
    result.2 = fresh.2 ∧ result.1.code = fresh.1.code ∧ result.1.labels = fresh.1.labels ∧
      fresh.1.report.dropped = 0 ∧ result.1.report = new.foldl Report.add a.report ∧
      result.1.report.limit = a.report.limit ∧
      result.1.report.kept.toList = a.report.kept.toList ++ fitting ∧
      result.1.report.dropped = a.report.dropped + (new.length - fitting.length) ∧
      result.1.report.count = a.report.count + new.length := by
  intro fresh result new fitting
  obtain ⟨ended, same⟩ := abreast_generate a lines
  have code : result.1.code = fresh.1.code := by simp only [Assembly.code, result, fresh, same.pass]
  have fits : fitting = a.report.fitting new := by
    unfold fitting Report.fitting
    cases a.report.limit with
    | none => rfl
    | some limit =>
      have room : (max 0 (limit - a.report.kept.size)).toNat =
          (limit - a.report.kept.size).toNat := by omega
      simp only [room]
  refine ⟨ended, code, same.labels, same.complete, same.report, ?_, ?_, ?_, ?_⟩ <;>
    rw [same.report]
  · exact Report.limit_gather a.report new
  · rw [fits]
    exact Report.kept_gather a.report new
  · rw [fits]
    exact Report.dropped_gather a.report new
  · exact Report.count_gather a.report new

end Run

end Assembly
end Asm6502
