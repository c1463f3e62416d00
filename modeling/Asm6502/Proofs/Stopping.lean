import Asm6502.Proofs.Endings

/-! What a run leaves that is cut short. The label pass does not get past the first line that
counts and has a literal beyond the limit: the label of that line is entered, its statement is
not, and of the emission pass there is nothing. -/
namespace Asm6502

open SourceLine

namespace SourceLine

/-- The line ends a run after the lines `done`, whatever comes behind it. -/
structure Stops (done : List SourceLine) (line : SourceLine) (e : Text.DigitOverflow) : Prop where
  readable : Readable done
  counts : ¬ Redefines done line
  number : Text.writable line.number = true
  literal : line.statement.overflow? = some e

theorem exists_unreadable {lines : List SourceLine} (h : ¬ Readable lines) :
    ∃ done line rest, lines = done ++ line :: rest ∧ Readable done ∧
      ¬ Readable (done ++ [line]) := by
  induction lines using List.reverseRecOn with
  | nil =>
    apply absurd _ h
    constructor <;> intro line member <;> cases member
  | append_singleton before last ih =>
    by_cases readable : Readable before
    · exact ⟨before, last, [], rfl, readable, h⟩
    · obtain ⟨done, line, rest, rfl, first⟩ := ih readable
      exact ⟨done, line, rest ++ [last], by simp, first⟩

theorem stops_of_unreadable {done : List SourceLine} {line : SourceLine} (readable : Readable done)
    (number : Text.writable line.number = true) (h : ¬ Readable (done ++ [line])) :
    ∃ e, Stops done line e := by
  have ends : ¬ (¬ Redefines done line → line.statement.overflow? = none) :=
    fun literal => h (readable.concat number literal)
  obtain ⟨counts, literal⟩ := Classical.not_imp.mp ends
  obtain ⟨e, he⟩ := Option.ne_none_iff_exists'.mp literal
  exact ⟨e, readable, counts, number, he⟩

theorem exists_stop {lines : List SourceLine}
    (numbers : ∀ line ∈ lines, Text.writable line.number = true) (h : ¬ Readable lines) :
    ∃ done line rest e, lines = done ++ line :: rest ∧ Stops done line e := by
  obtain ⟨done, line, rest, rfl, readable, halts⟩ := exists_unreadable h
  obtain ⟨e, stops⟩ := stops_of_unreadable readable (numbers line (by simp)) halts
  exact ⟨done, line, rest, e, rfl, stops⟩

theorem bytes_of_overflow {line : SourceLine} {e : Text.DigitOverflow}
    (h : line.statement.overflow? = some e) (labels : LabelTable) : line.bytes labels = [] := by
  unfold Statement.overflow? at h
  unfold bytes Statement.bytes
  split at h
  · rename_i literal
    rw [literal]
  · cases h

end SourceLine

namespace Assembly

variable {labels : LabelTable} {done rest : List SourceLine} {line : SourceLine}
  {e : Text.DigitOverflow}

/- The label is entered before the statement is read, so the table has it and the pass has
nothing new. -/
theorem Collecting.stop {a : Assembly} (h : Collecting labels done a) (stops : Stops done line e) :
    ∃ b, a.assembleLine line = (b, .stopped e) ∧ b.labels = tableOf labels (done ++ [line]) ∧
      b.pass = a.pass ∧ b.report = a.report := by
  obtain ⟨table, pass, ended⟩ := takeLine_of_entered (h.entered stops.counts)
  obtain ⟨-, report, -⟩ := takeLine_keeps a line
  rw [bytes_of_overflow stops.literal] at pass
  rw [stops.literal] at ended
  refine ⟨(a.takeLine line).1, ?_, table, pass, report⟩
  rw [assembleLine, if_pos stops.number]
  rcases taken : a.takeLine line with ⟨b, outcome⟩
  rw [taken] at ended
  cases outcome with
  | done => cases ended
  | defect d => cases ended
  | stopped e' =>
    cases Option.some.inj ended
    rfl

theorem runLines_append {a b : Assembly} (h : done.foldlM next? a = some b)
    (rest : List SourceLine) : a.runLines (done ++ rest) = b.runLines rest := by
  induction done generalizing a with
  | nil =>
    cases Option.some.inj h
    rfl
  | cons line done ih =>
    rw [List.foldlM_cons] at h
    obtain ⟨c, first, later⟩ := Option.bind_eq_some_iff.mp h
    rw [List.cons_append, runLines]
    unfold next? at first
    rcases taken : a.assembleLine line with ⟨d, outcome⟩
    rw [taken] at first
    cases outcome with
    | done =>
      cases Option.some.inj first
      exact ih later
    | defect diagnostic =>
      cases Option.some.inj first
      exact ih later
    | stopped e => cases first

/-- What there is of a run that got through the lines `done` of the label pass and no further. -/
structure Halted (a : Assembly) (done : List SourceLine) (c : Assembly) : Prop where
  pass : c.pass.number = Asm6502.labelPass
  code : c.code = stub ++ draft {} done
  report : c.report = a.report.gather (repeats a.file done)

theorem generate_of_halt (a : Assembly) (readable : Readable done) :
    ∃ b, Collecting {} done b ∧ ∀ line rest c e, b.assembleLine line = (c, .stopped e) →
      c.pass = b.pass → c.report = b.report →
      a.generate (done ++ line :: rest) = (c, some e) ∧ Halted a done c := by
  obtain ⟨b, run, collecting⟩ := collecting_of_readable (a := { a with labels := {} }) rfl readable
  have gathered := (report_of_labelPass (a := { a with labels := {} }) rfl run).2
  refine ⟨b, collecting, ?_⟩
  intro line rest c e ended pass report
  constructor
  · have cut : runPass { a with labels := {} } Asm6502.labelPass (done ++ line :: rest) =
        (c, some e) := by
      rw [runPass, startPass_labelPass]
      dsimp only
      rw [runLines_append run, runLines, ended]
    rw [generate, cut]
  · constructor
    · simpa [pass, Pass.isLabelPass] using collecting.labelPass
    · rw [Assembly.code, pass]
      exact collecting.code
    · exact report.trans gathered

theorem generate_of_stops (a : Assembly) (stops : Stops done line e) (rest : List SourceLine) :
    ∃ c, a.generate (done ++ line :: rest) = (c, some e) ∧
      c.labels = tableOf {} (done ++ [line]) ∧ Halted a done c := by
  obtain ⟨b, collecting, ends⟩ := generate_of_halt a stops.readable
  obtain ⟨c, ended, table, pass, report⟩ := collecting.stop stops
  obtain ⟨run, halted⟩ := ends line rest c e ended pass report
  exact ⟨c, run, table, halted⟩

/-- A line whose number cannot be told is not looked at, nor is its label. -/
theorem generate_of_unwritable (a : Assembly) (readable : Readable done)
    (number : Text.writable line.number = false) (rest : List SourceLine) :
    ∃ c, a.generate (done ++ line :: rest) = (c, some .writing) ∧ c.labels = tableOf {} done ∧
      Halted a done c := by
  obtain ⟨b, collecting, ends⟩ := generate_of_halt a readable
  have ended : b.assembleLine line = (b, .stopped .writing) := by
    rw [assembleLine, number]
    rfl
  obtain ⟨run, halted⟩ := ends line rest b .writing ended rfl rfl
  exact ⟨b, run, eq_tableOf collecting.table, halted⟩

end Assembly

namespace Assembler

theorem assemble_of_halted {s : Assembler} {raw : List Text} {file : Text}
    {done : List SourceLine} {c : Assembly} {e : Text.DigitOverflow}
    (run : (started s raw file).generate (ofRaw raw) = (c, some e))
    (halted : Assembly.Halted (started s raw file) done c) :
    let r := s.assemble raw file
    r.2 = some (.overflow e) ∧ r.1.assembly.labels = c.labels ∧
      r.1.assembly.pass.number = labelPass ∧ r.1.code = stub ++ draft {} done ∧
      r.1.assembly.report = Report.gather { limit := s.settings.limit } (repeats file done) := by
  intro r
  have result : r = (⟨s.settings, c⟩, some (.overflow e)) := by
    unfold r
    rw [assemble_eq, run]
  have report := halted.report
  simp only [started, report_noteIf, file_noteIf, fresh] at report
  rw [result]
  exact ⟨rfl, rfl, halted.pass, halted.code, report⟩

theorem assemble_of_stops (s : Assembler) {raw : List Text} (file : Text)
    {done rest : List SourceLine} {line : SourceLine} {e : Text.DigitOverflow}
    (split : ofRaw raw = done ++ line :: rest) (stops : Stops done line e) :
    let r := s.assemble raw file
    r.2 = some (.overflow e) ∧ r.1.assembly.labels = tableOf {} (done ++ [line]) ∧
      r.1.code = stub ++ draft {} done ∧
      r.1.assembly.report = Report.gather { limit := s.settings.limit } (repeats file done) := by
  intro r
  obtain ⟨c, run, table, halted⟩ := (started s raw file).generate_of_stops stops rest
  rw [← split] at run
  obtain ⟨ended, labels, -, left⟩ := assemble_of_halted run halted
  exact ⟨ended, labels.trans table, left⟩

end Assembler

end Asm6502
