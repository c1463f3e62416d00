import Asm6502.Proofs.SourceLayout

/-! Runs that do not finish. A decimal literal beyond the limit is met in the label pass, on the
first line that counts and would take it. The emission pass reads the same operands again, so it
has nothing left to stumble over. -/
namespace Asm6502

open SourceLine

namespace SourceLine

theorem readable_iff (lines : List SourceLine) :
    Readable lines ↔
      (∀ line ∈ lines, Text.writable line.number = true) ∧
        ∀ line ∈ active lines, ¬ Overlong line.statement := by
  constructor
  · intro h
    exact ⟨h.numbers, fun line member => (overflow?_eq_none_iff line).mp (h.literals line member)⟩
  · rintro ⟨numbers, literals⟩
    constructor
    · exact numbers
    · intro line member
      exact (overflow?_eq_none_iff line).mpr (literals line member)

theorem Stops.overlong {done : List SourceLine} {line : SourceLine} {e : Text.DigitOverflow}
    (h : Stops done line e) : Overlong line.statement ∧ ∃ n, 4300 < n ∧ e = .reading n := by
  have long : Overlong line.statement := by
    by_contra short
    cases h.literal.symm.trans ((overflow?_eq_none_iff line).mpr short)
  obtain ⟨n, digits, ends⟩ := long.overflow?
  exact ⟨long, n, digits, Option.some.inj (h.literal.symm.trans ends)⟩

end SourceLine

namespace Assembler

/-- A run does not finish exactly if some line that counts has a decimal literal of more than 4300
digits in a place where it would be read; more lines than can be numbered is all that can take its
part. Then it is the label pass that ends, on the first such line, with the label of that line
entered and nothing else of it done. -/
theorem assemble_interrupted_iff (s : Assembler) (raw : List Text) (file : Text) :
    let lines := ofRaw raw
    let r := s.assemble raw file
    let a := r.1.assembly
    (r.2 ≠ none ↔
        (∃ line ∈ active lines, Overlong line.statement) ∨
          ∃ line ∈ lines, Text.writable line.number = false) ∧
      (raw.length < Text.digitBound → ∀ line ∈ lines, Text.writable line.number = true) ∧
      (r.2 ≠ none → ∃ done line rest repeated, lines = done ++ line :: rest ∧
        (∀ l ∈ active done, ¬ Overlong l.statement) ∧
        (∀ l ∈ done, Text.writable l.number = true) ∧
        a.pass.number = labelPass ∧ a.code = stub ++ draft {} done ∧
        a.report = Report.gather { limit := s.settings.limit } repeated ∧
        (repeated.map Diagnostic.line?).Sublist (done.map fun l => some l.number) ∧
        (∀ d, d ∈ repeated ↔ ∃ l name first, Repeats done l name first ∧
          d = ⟨.duplicate name first.number, some ⟨file, l.number⟩, some l.text⟩) ∧
        ((Text.writable line.number = true ∧ ¬ Redefines done line ∧ Overlong line.statement ∧
            (∃ n, 4300 < n ∧ r.2 = some (.overflow (.reading n))) ∧
            a.labels.toList = definitions {} (done ++ [line])) ∨
          (Text.writable line.number = false ∧ r.2 = some (.overflow .writing) ∧
            a.labels.toList = definitions {} done))) := by
  intro lines r a
  have ends : r.2 ≠ none ↔ ¬ Readable lines := not_congr (finished_iff s raw file)
  refine ⟨?_, writable_of_short, ?_⟩
  · rw [ends, readable_iff, not_and_or]
    push Not
    simp only [Bool.not_eq_true]
    exact or_comm
  · intro unfinished
    obtain ⟨done, line, rest, split, readable, halts⟩ := exists_unreadable (ends.mp unfinished)
    obtain ⟨numbers, literals⟩ := (readable_iff done).mp readable
    refine ⟨done, line, rest, repeats file done, split, literals, numbers, ?_⟩
    have ordered := lines_repeatsFrom file [] done
    cases number : Text.writable line.number with
    | true =>
      obtain ⟨e, stops⟩ := stops_of_unreadable readable number halts
      obtain ⟨long, n, digits, rfl⟩ := stops.overlong
      obtain ⟨c, run, table, halted⟩ := (started s raw file).generate_of_stops stops rest
      rw [← split] at run
      obtain ⟨ended, labels, pass, code, report⟩ := assemble_of_halted run halted
      refine ⟨pass, code, report, ordered, fun d => mem_repeats_iff, .inl ?_⟩
      refine ⟨rfl, stops.counts, long, ⟨n, digits, ended⟩, ?_⟩
      rw [labels, table, toList_tableOf]
    | false =>
      obtain ⟨c, run, table, halted⟩ :=
        (started s raw file).generate_of_unwritable readable number rest
      rw [← split] at run
      obtain ⟨ended, labels, pass, code, report⟩ := assemble_of_halted run halted
      refine ⟨pass, code, report, ordered, fun d => mem_repeats_iff, .inr ⟨rfl, ended, ?_⟩⟩
      rw [labels, table, toList_tableOf]

/-- A jump forward, a repeated label, a line that is no instruction, and then a literal of 4301
digits on a line with a label. That label is there and the one after it is not; the repeated label
is reported and the other defect is not; the jump has still to be given its address. -/
theorem assemble_interrupted_iff_labelled :
    let raw : List Text :=
      [['a', ':', 'J', 'M', 'P', ' ', 'c'], ['a', ':', 'R', 'T', 'S'], ['?'],
       ['b', ':', 'L', 'D', 'A', ' ', '#', ' '] ++ List.replicate 4301 '1', ['c', ':']]
    let r := (new {}).assemble raw []
    let a := r.1.assembly
    r.2 ≠ none ∧
      (∃ line ∈ active (ofRaw raw), Overlong line.statement) ∧
      (∃ done line rest, ofRaw raw = done ++ line :: rest ∧ a.pass.number = labelPass ∧
        a.code = stub ++ draft {} done ∧ a.labels.toList = definitions {} (done ++ [line])) ∧
      r.2 = some (.overflow (.reading 4301)) ∧ a.code = stub ++ [0x4C, 0x00, 0x00] ∧
      a.labels.toList = [⟨['a'], 0x080D, 1⟩, ⟨['b'], 0x0810, 4⟩] ∧
      a.report.kept.toList.map (fun d => (d.line?, d.cause)) =
        [(some 2, .duplicate ['a'] 1)] := by
  intro raw r a
  have run : r.2 = some (.overflow (.reading 4301)) ∧ a.code = stub ++ [0x4C, 0x00, 0x00] ∧
      a.labels.toList = [⟨['a'], 0x080D, 1⟩, ⟨['b'], 0x0810, 4⟩] ∧
      a.report.kept.toList.map (fun d => (d.line?, d.cause)) =
        [(some 2, .duplicate ['a'] 1)] := by decide +kernel
  have ended := run.1
  have unfinished : r.2 ≠ none := by simp [ended]
  obtain ⟨why, numbers, left⟩ := assemble_interrupted_iff (new {}) raw []
  -- Names in place of the run, so that it is not evaluated once more for each of the facts.
  have named : (new {}).assemble raw [] = r := rfl
  have named' : r.1.assembly = a := rfl
  rw [named] at why left
  rw [named'] at left
  have short : raw.length < Text.digitBound := (Text.writable_natCast _).mp (by decide +kernel)
  have long : ∃ line ∈ active (ofRaw raw), Overlong line.statement := by
    rcases why.mp unfinished with long | ⟨line, member, number⟩
    · exact long
    · cases (numbers short line member).symm.trans number
  obtain ⟨done, line, rest, -, split, -, -, pass, code, -, -, -, first⟩ := left unfinished
  refine ⟨unfinished, long, ⟨done, line, rest, split, pass, code, ?_⟩, run⟩
  rcases first with ⟨-, -, -, -, table⟩ | ⟨-, unwritable, -⟩
  · exact table
  · cases ended.symm.trans unwritable

end Assembler

end Asm6502
