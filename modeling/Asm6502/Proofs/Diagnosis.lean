import Asm6502.Proofs.Defects

/-! The diagnostics of a run. Lines that repeat a label are reported by the label pass, all other
defects by the emission pass; so the report has the repeated labels first, then what is wrong
with the lines that count, both in the order of the lines. -/
namespace Asm6502

namespace Report

def gather (r : Report) (ds : List Diagnostic) : Report := ds.foldl add r

def fitting (r : Report) (ds : List Diagnostic) : List Diagnostic :=
  match r.limit with
  | none => ds
  | some limit => ds.take (limit - r.kept.size).toNat

theorem gather_append (r : Report) (ds es : List Diagnostic) :
    r.gather (ds ++ es) = (r.gather ds).gather es := List.foldl_append

theorem count_gather (r : Report) (ds : List Diagnostic) :
    (r.gather ds).count = r.count + ds.length := by
  induction ds generalizing r with
  | nil => rfl
  | cons d ds ih =>
    have step : (r.add d).count = r.count + 1 := by
      unfold add count
      split
      · rfl
      · simp only [Array.size_push]
        omega
    have rest : (r.gather (d :: ds)).count = (r.add d).count + ds.length := ih (r.add d)
    rw [rest, step, List.length_cons]
    omega

theorem kept_gather (r : Report) (ds : List Diagnostic) :
    (r.gather ds).kept.toList = r.kept.toList ++ r.fitting ds := by
  induction ds generalizing r with
  | nil =>
    cases hl : r.limit <;> simp [gather, fitting, hl]
  | cons d ds ih =>
    have rest : (r.gather (d :: ds)).kept.toList = (r.add d).kept.toList ++ (r.add d).fitting ds :=
      ih (r.add d)
    rw [rest]
    -- Whether `d` is kept is decided by how many were kept before it, and then there is room for
    -- one less.
    cases hl : r.limit with
    | none => simp [add, isFull, fitting, hl]
    | some limit =>
      by_cases full : limit ≤ r.kept.size
      · have none : (limit - r.kept.size).toNat = 0 := by omega
        simp [add, isFull, fitting, hl, full, none]
      · have more : (limit - r.kept.size).toNat =
            (limit - (r.kept.size + 1 : Nat)).toNat + 1 := by omega
        simp [add, isFull, fitting, hl, full, more]

end Report

open SourceLine

def Outcome.diagnostic? : Outcome → Option Diagnostic
  | .defect d => some d
  | _ => none

namespace Assembly

section Line

variable {a b : Assembly} {line : SourceLine}

theorem diagnostic?_of_emission (h : a.pass.isLabelPass = false) (s : Statement) :
    (a.assembleStatement line s).2.diagnostic? =
      (s.defect? a.labels).map (line.diagnostic a.file) := by
  cases s with
  | empty => rfl
  | malformed text => rfl
  | instruction name operand =>
    simp only [assembleStatement, Statement.defect?]
    cases Mnemonic.ofName? name with
    | none => rfl
    | some m =>
      dsimp only
      cases Form.choose m operand with
      | error e => rfl
      | ok chosen =>
        cases chosen with
        | none => rfl
        | some form =>
          simp only [assembleForm, h]
          cases form.missing? a.labels <;> rfl

theorem not_duplicate_of_statement {s : Statement} {d : Diagnostic}
    (h : (a.assembleStatement line s).2.diagnostic? = some d) : d.cause.isDuplicate = false := by
  cases s with
  | empty => cases h
  | malformed text => cases h; rfl
  | instruction name operand =>
    simp only [assembleStatement] at h
    split at h
    · cases h; rfl
    · split at h
      · cases h
      · cases h; rfl
      · unfold assembleForm at h
        dsimp only at h
        split at h
        · cases h
        · cases h; rfl

/-- A line leaves the report alone; what it ends with is recorded afterwards. -/
theorem takeLine_keeps (a : Assembly) (line : SourceLine) :
    (a.takeLine line).1.file = a.file ∧ (a.takeLine line).1.report = a.report ∧
      (a.takeLine line).1.pass.number = a.pass.number := by
  cases he : a.entered line with
  | none =>
    obtain ⟨_, _, _, _, taken⟩ := takeLine_eq_of_passed_over he
    rw [taken]
    exact ⟨rfl, rfl, rfl⟩
  | some labels =>
    rw [takeLine_eq_of_entered he, (assembleStatement_eq _ _ _).1]
    exact ⟨rfl, rfl, Pass.number_emit _ _⟩

def records (number : Int) (d : Diagnostic) : Bool := number == emitPass || d.cause.isDuplicate

theorem record_keeps (a : Assembly) (d : Diagnostic) :
    (a.record d).file = a.file ∧
      (a.record d).report = a.report.gather ((some d).filter (records a.pass.number)).toList := by
  have cases : a.record d =
      if records a.pass.number d = true then
        { a.note (.recorded d) with report := a.report.add d }
      else a := rfl
  rw [cases, Option.filter_some]
  by_cases recorded : records a.pass.number d = true
  · rw [if_pos recorded, if_pos recorded]
    exact ⟨rfl, rfl⟩
  · rw [if_neg recorded, if_neg recorded]
    exact ⟨rfl, rfl⟩

theorem next?_report (h : a.next? line = some b) :
    b.file = a.file ∧ b.pass.number = a.pass.number ∧
      b.report = a.report.gather
        ((a.takeLine line).2.diagnostic?.filter (records a.pass.number)).toList := by
  obtain ⟨file, report, number⟩ := takeLine_keeps a line
  unfold next? assembleLine at h
  split at h
  · rename_i c ht
    split at ht
    · rw [ht] at file report number ⊢
      cases Option.some.inj h
      exact ⟨file, number, report⟩
    · cases ht
  · rename_i c d ht
    split at ht
    · rw [ht] at file report number ⊢
      cases Option.some.inj h
      obtain ⟨file', report'⟩ := record_keeps c d
      rw [file', report', pass_record, ← file, ← report, ← number]
      exact ⟨rfl, rfl, rfl⟩
    · cases ht
  · cases h

end Line

section Pass

variable {labels : LabelTable} {lines done rest : List SourceLine} {a b : Assembly}
  {line : SourceLine}

theorem duplicate_of_enterLabel {name : Text} {label : Label} (h : a.pass.isLabelPass = true)
    (found : a.labels.find? name = some label) :
    a.enterLabel line name = .error (.defect (a.diagnose line (.duplicate name label.line))) := by
  have taken : a.labels.define ⟨name, a.pass.pc, line.number⟩ = .error label :=
    LabelTable.define_eq_error_iff.mpr found
  rw [enterLabel, if_pos h]
  simp only [taken]

theorem Collecting.report_step (h : Collecting labels done a) (hb : a.next? line = some b) :
    b.report = a.report.gather ((repeat? done line).map (line.diagnostic a.file)).toList := by
  have number : a.pass.number = Asm6502.labelPass := by simpa [Pass.isLabelPass] using h.labelPass
  have only : ∀ d : Diagnostic, records a.pass.number d = d.cause.isDuplicate := by
    intro d
    rw [number]
    rfl
  rw [(next?_report hb).2.2]
  congr 2
  by_cases hr : Redefines done line
  · -- The table has a label from the first line with it, and that is the line to be named.
    obtain ⟨cause, hc⟩ := Option.isSome_iff_exists.mp ((repeat?_isSome_iff done line).mpr hr)
    obtain ⟨name, first, hl, found, rfl⟩ := repeat?_eq_some_iff.mp hc
    obtain ⟨label, defined, same⟩ := line_of_first h.table found
    obtain ⟨name', outcome, hl', ended, taken⟩ := takeLine_eq_of_passed_over (h.passed_over hr)
    cases Option.some.inj (hl.symm.trans hl')
    rw [duplicate_of_enterLabel h.labelPass defined] at ended
    cases ended
    rw [taken, hc, same, Outcome.diagnostic?, Option.filter_some, only]
    rfl
  · have none : repeat? done line = none := by
      rw [← Option.not_isSome_iff_eq_none, repeat?_isSome_iff]
      exact hr
    rw [none, takeLine_eq_of_entered (h.entered hr), Option.map_none, Option.filter_eq_none_iff]
    intro d hd
    rw [only, not_duplicate_of_statement hd]
    decide

theorem Emitting.report_step (h : Emitting labels done a)
    (number : a.pass.number = Asm6502.emitPass)
    (complete : labels.toList = definitions labels lines)
    (distinct : (lines.map SourceLine.number).Nodup) (split : lines = done ++ line :: rest)
    (hb : a.next? line = some b) :
    b.report = a.report.gather
      (if Redefines done line then [] else defects a.file labels [line]) := by
  have every : ∀ d : Diagnostic, records a.pass.number d = true := by
    intro d
    rw [number]
    rfl
  have entered := h.entered_eq complete distinct split
  rw [(next?_report hb).2.2]
  congr 1
  by_cases hr : Redefines done line
  · -- The label pass has told of this line; the emission pass goes by without a word.
    rw [if_pos hr] at entered ⊢
    obtain ⟨name, outcome, _, ended, taken⟩ := takeLine_eq_of_passed_over entered
    rw [enterLabel, if_neg (by simp [h.emitPass])] at ended
    rw [taken]
    split at ended
    · split at ended
      · cases ended
      · cases ended
        rfl
    · cases ended
  · rw [if_neg hr] at entered ⊢
    have found : (assembleStatement { a.note (.lineTaken line) with labels } line
        line.statement).2.diagnostic? =
          (line.statement.defect? labels).map (line.diagnostic a.file) :=
      diagnostic?_of_emission (a := { a.note (.lineTaken line) with labels }) h.emitPass _
    rw [takeLine_eq_of_entered entered, found]
    cases hc : line.statement.defect? labels with
    | none => simp [defects, hc]
    | some cause => simp [defects, hc, every]

theorem report_of_labelPass (empty : a.labels = {})
    (h : lines.foldlM next? (a.openPass Asm6502.labelPass) = some b) :
    b.file = a.file ∧ b.report = a.report.gather (repeats a.file lines) := by
  have kept : Collecting {} lines b ∧ b.file = a.file ∧
      b.report = a.report.gather (repeats a.file lines) := by
    refine run_keeps (I := fun done c => Collecting {} done c ∧ c.file = a.file ∧
      c.report = a.report.gather (repeats a.file done)) h
      ⟨collecting_openPass {} empty, rfl, rfl⟩ ?_
    rintro done line rest c d - ⟨collecting, file, report⟩ hd
    refine ⟨collecting.step hd, (next?_report hd).1.trans file, ?_⟩
    rw [collecting.report_step hd, report, repeats_concat, Report.gather_append, file]
  exact kept.2

theorem report_of_emitPass (complete : a.labels.toList = definitions a.labels lines)
    (distinct : (lines.map SourceLine.number).Nodup)
    (h : lines.foldlM next? (a.openPass Asm6502.emitPass) = some b) :
    b.report = a.report.gather (defects a.file a.labels (active lines)) := by
  have kept : Emitting a.labels lines b ∧ b.pass.number = Asm6502.emitPass ∧ b.file = a.file ∧
      b.report = a.report.gather (defects a.file a.labels (active lines)) := by
    refine run_keeps (I := fun done c => Emitting a.labels done c ∧
      c.pass.number = Asm6502.emitPass ∧ c.file = a.file ∧
      c.report = a.report.gather (defects a.file a.labels (active done))) h
      ⟨emitting_openPass a, Pass.number_start _, rfl, rfl⟩ ?_
    rintro done line rest c d split ⟨emitting, number, file, report⟩ hd
    obtain ⟨file', number', -⟩ := next?_report hd
    refine ⟨emitting.step complete distinct split hd, number'.trans number, file'.trans file, ?_⟩
    rw [emitting.report_step number complete distinct split hd, report, file]
    by_cases hr : Redefines done line
    · rw [if_pos hr, active_concat_of_redefines hr]
      rfl
    · rw [if_neg hr, active_concat hr, defects, defects, defects, List.filterMap_append,
        Report.gather_append]
  exact kept.2.2.2

end Pass

theorem report_of_generate {a c : Assembly} {lines : List SourceLine}
    (distinct : (lines.map SourceLine.number).Nodup) (h : a.generate lines = (c, none)) :
    c.report =
      a.report.gather (repeats a.file lines ++ defects a.file c.labels (active lines)) := by
  obtain ⟨p, q, run, run', rfl⟩ := generate_eq_foldlM.mp h
  have collecting := collecting_of_run p.labels rfl run
  have table : q.labels = p.labels :=
    (emitting_of_run (a := p.note _) collecting.table distinct run').table
  obtain ⟨file, first⟩ := report_of_labelPass rfl run
  have second := report_of_emitPass (a := p.note _) collecting.table distinct run'
  change q.report = a.report.gather (repeats a.file lines ++ defects a.file q.labels _)
  rw [second, Report.gather_append, table]
  change p.report.gather (defects p.file p.labels _) = _
  rw [file, first]

end Assembly

namespace Assembler

/-- The report of a run: the lines that repeat a label, then the defects of those that count. -/
theorem report_of_finished {s : Assembler} {raw : List Text} {file : Text}
    (finished : (s.assemble raw file).2 = none) :
    let a := (s.assemble raw file).1.assembly
    a.report = Report.gather { limit := s.settings.limit }
      (repeats file (ofRaw raw) ++ defects file a.labels (active (ofRaw raw))) := by
  obtain ⟨c, run, result⟩ := generate_of_finished finished
  have report := Assembly.report_of_generate (nodup_number_ofRaw raw) run
  have labels : (conclude s.settings c).labels = c.labels := by simp [conclude]
  have kept : (conclude s.settings c).report = c.report := by simp [conclude]
  have file' : (started s raw file).file = file := by simp [started, fresh]
  have empty : (started s raw file).report = { limit := s.settings.limit } := by
    simp [started, fresh]
  rw [result]
  dsimp only
  rw [kept, labels, report, file', empty]

/-- Every defective line has one diagnostic, which names the line and its text. -/
theorem diagnostics_of_assemble (s : Assembler) (raw : List Text) (file : Text)
    (unlimited : s.settings.limit = none) (finished : (s.assemble raw file).2 = none) :
    let lines := ofRaw raw
    let a := (s.assemble raw file).1.assembly
    ∃ D E, a.report.kept.toList = D ++ E ∧
      (D.map Diagnostic.line?).Sublist (lines.map fun l => some l.number) ∧
      (∀ d, d ∈ D ↔ ∃ line name first, Repeats lines line name first ∧
        d = ⟨.duplicate name first.number, some ⟨file, line.number⟩, some line.text⟩) ∧
      (E.map Diagnostic.line?).Sublist ((active lines).map fun l => some l.number) ∧
      (∀ d, d ∈ E ↔ ∃ line ∈ active lines, ∃ cause,
        Defective lines a.labels line.statement cause ∧
        d = ⟨cause, some ⟨file, line.number⟩, some line.text⟩) ∧
      ((D ++ E).map Diagnostic.line?).Nodup ∧
      ∀ line ∈ active lines, ∀ cause, Defective lines a.labels line.statement cause →
        line.bytes a.labels = [] ∨ ∃ opcode symbol similar,
          cause = .undefined symbol similar none ∧ line.bytes a.labels = [opcode, 0, 0] := by
  intro lines a
  obtain ⟨-, complete, -⟩ := assemble_eq_none finished
  have distinct := nodup_number_ofRaw raw
  have numbers : (lines.map fun l => some l.number).Nodup := by
    have h := List.Nodup.map (fun _ _ => Option.some.inj) distinct
    rwa [List.map_map] at h
  have ordered := lines_repeatsFrom file [] lines
  have ordered' := lines_defects file a.labels (active lines)
  have counting : ((active lines).map fun l => some l.number).Nodup :=
    numbers.sublist ((activeFrom_sublist [] lines).map _)
  refine ⟨repeats file lines, defects file a.labels (active lines), ?_, ordered,
    fun d => mem_repeats_iff, ordered', fun d => mem_defects_iff complete, ?_, ?_⟩
  · rw [report_of_finished finished, Report.kept_gather]
    simp [Report.fitting, unlimited, lines, a]
  · rw [List.map_append, List.nodup_append]
    refine ⟨numbers.sublist ordered, counting.sublist ordered', ?_⟩
    rintro n hn m hm rfl
    obtain ⟨d, hd, rfl⟩ := List.mem_map.mp hn
    obtain ⟨line, name, first, repeated, rfl⟩ := mem_repeats_iff.mp hd
    obtain ⟨l, counts, same⟩ := List.mem_map.mp (ordered'.subset hm)
    exact number_ne_of_repeats distinct repeated l counts (Option.some.inj same)
  · intro line _ cause defective
    exact bytes_of_defective complete defective

/-- A label that is repeated on a line with an unknown word, a missing symbol that differs from a
label by its case, a line that is no instruction, an unknown word, a missing operand, and two
lines without a defect. -/
theorem diagnostics_of_assemble_five :
    let raw : List Text :=
      [['l', ':', 'J', 'M', 'P', ' ', 'L'], ['?'], ['l', ':', 'f', 'o', 'o'], ['n', 'o', 'p'],
       ['f', 'o', 'o'], ['S', 'T', 'A'], ['J', 'M', 'P', ' ', 'l', ';', 'o', 'k']]
    let r := (new {}).assemble raw ['s']
    let a := r.1.assembly
    r.2 = none ∧
      (∃ D E, a.report.kept.toList = D ++ E ∧
        (∀ d, d ∈ E ↔ ∃ line ∈ active (ofRaw raw), ∃ cause,
          Defective (ofRaw raw) a.labels line.statement cause ∧
          d = ⟨cause, some ⟨['s'], line.number⟩, some line.text⟩) ∧
        ((D ++ E).map Diagnostic.line?).Nodup) ∧
      a.report.kept.toList.map (fun d => (d.line?, d.cause)) =
        [(some 3, .duplicate ['l'] 1), (some 1, .undefined ['L'] [['l']] none),
         (some 2, .notInstruction ['?']), (some 5, .unknown ['F', 'O', 'O']),
         (some 6, .unencodable ['S', 'T', 'A'] none (Mnemonic.sta.modes.map Mode.name))] := by
  intro raw r a
  have finished : r.2 = none := by decide +kernel
  obtain ⟨D, E, kept, -, -, -, members, once, -⟩ :=
    diagnostics_of_assemble (new {}) raw ['s'] rfl finished
  exact ⟨finished, ⟨D, E, kept, members, once⟩, by decide +kernel⟩

end Assembler

end Asm6502
