import Asm6502.Proofs.Diagnosis
import Mathlib.Data.List.TakeWhile

/-! What ends a run early. A line can be as defective as it likes; only a decimal literal with more
digits than are read stops a run, and only on a line that counts and under a mnemonic that would
take the literal. Without such a line both passes go through to the last line. -/
namespace Asm6502

namespace Text

theorem newline_not_mem_of_onlyLine? {t r : Text} (h : onlyLine? t = some r) : '\n' ∉ r := by
  unfold onlyLine? at h
  split at h
  · cases Option.some.inj h
    intro hm
    simpa using List.mem_takeWhile_imp hm
  · cases h

theorem eq_nil_of_atEnd {t : Text} (h : atEnd t = true) (line : '\n' ∉ t) : t = [] := by
  unfold atEnd at h
  split at h
  · rfl
  · simp at line
  · cases h

end Text

namespace Operand

/-- A decimal numeral with more digits than are read. -/
def Overlong (t : Text) : Prop := (∀ c ∈ t, Text.isDigitOf 10 c = true) ∧ 4300 < t.length

section Overlong

variable {t : Text} {e : Text.DigitOverflow}

theorem Overlong.head (h : Overlong t) :
    ∃ c rest, t = c :: rest ∧ 48 ≤ c.toNat ∧ c.toNat ≤ 57 := by
  cases t with
  | nil => exact absurd h.2 (by decide)
  | cons c rest => exact ⟨c, rest, rfl, (isDigitOf_ten_iff c).mp (h.1 c (by simp))⟩

theorem Overlong.one_line (h : Overlong t) : '\n' ∉ t := by
  intro hm
  cases h.1 _ hm

theorem number_of_overlong (h : Overlong t) : number t = .error (.reading t.length) := by
  obtain ⟨c, rest, rfl, -⟩ := h.head
  rw [number_digits (.inl rfl) (by simp) h.1, if_pos h.2]

theorem overlong_of_number (line : '\n' ∉ t) (h : number t = .error e) : Overlong t := by
  unfold number at h
  split at h
  · dsimp only at h
    split at h <;> cases h
  · dsimp only at h
    split at h
    · rename_i shape
      have rest : '\n' ∉ t.dropWhile (Text.isDigitOf 10) :=
        fun hm => line ((List.dropWhile_sublist _).subset hm)
      have nothing := Text.eq_nil_of_atEnd (Bool.and_eq_true_iff.mp shape).2 rest
      have digits := List.dropWhile_eq_nil_iff.mp nothing
      split at h
      · rename_i long
        rw [List.takeWhile_eq_self_iff.mpr digits] at long
        exact ⟨digits, long⟩
      · cases h
    · cases h

theorem immediate_of_overlong {blanks : Text} (hb : ∀ c ∈ blanks, Text.isBlank c = true)
    (h : Overlong t) : immediate ('#' :: (blanks ++ t)) = .error (.reading t.length) := by
  have read := number_of_overlong h
  rw [immediate_blanks hb h.one_line (by simp [read]), read]

theorem overlong_of_immediate (line : '\n' ∉ t) (h : immediate t = .error e) :
    ∃ blanks digits, t = '#' :: (blanks ++ digits) ∧ (∀ c ∈ blanks, Text.isBlank c = true) ∧
      Overlong digits := by
  obtain ⟨blanks, digits, shape, hb, inside, same⟩ :=
    exists_number_of_immediate line (by simp [h])
  exact ⟨blanks, digits, shape, hb, overlong_of_number inside (same.symm.trans h)⟩

end Overlong

end Operand

namespace Form

variable {m : Mnemonic} {slot : Slot} {e : Text.DigitOverflow}

theorem immediate?_eq_error {operand : Option Text} (h : immediate? m operand = .error e) :
    ∃ slot t, m.slot? .immediate = some slot ∧ operand = some t ∧
      Operand.immediate t = .error e := by
  unfold immediate? at h
  split at h
  · rename_i slot t hs
    split at h
    · rename_i hv
      cases h
      exact ⟨slot, t, hs, rfl, hv⟩
    · cases h
    · cases h
  · cases h

theorem absolute?_eq_error {operand : Option Text} (h : absolute? m operand = .error e) :
    ∃ slot t, m.slot? .absolute = some slot ∧ operand = some t ∧ Operand.number t = .error e := by
  unfold absolute? at h
  split at h
  · rename_i slot t hs
    split at h
    · rename_i hv
      cases h
      exact ⟨slot, t, hs, rfl, hv⟩
    · cases h
    · cases h
  · cases h

theorem choose_eq_error {operand : Option Text} (h : choose m operand = .error e) :
    immediate? m operand = .error e ∨ absolute? m operand = .error e := by
  unfold choose at h
  split at h
  · cases h
  · split at h
    · rename_i hi
      cases h
      exact .inl hi
    · cases h
    · exact .inr h

theorem choose_of_overlong_immediate {blanks digits : Text}
    (hs : m.slot? .immediate = some slot) (hb : ∀ c ∈ blanks, Text.isBlank c = true)
    (h : Operand.Overlong digits) :
    choose m (some ('#' :: (blanks ++ digits))) = .error (.reading digits.length) := by
  have other : single? m (some ('#' :: (blanks ++ digits))) = none := single?_eq_none (.inr rfl)
  simp [choose, other, immediate?, hs, Operand.immediate_of_overlong hb h]

theorem choose_of_overlong_absolute {digits : Text} (hs : m.slot? .absolute = some slot)
    (h : Operand.Overlong digits) :
    choose m (some digits) = .error (.reading digits.length) := by
  have literal := Operand.number_of_overlong h
  obtain ⟨c, rest, rfl, low, high⟩ := h.head
  have not : ∀ d : Char, d.toNat < 48 ∨ 57 < d.toNat → c ≠ d := by
    rintro d hd rfl
    omega
  have accumulator : Operand.isAccumulator (c :: rest) = false := by
    rw [Bool.eq_false_iff, ne_eq, Operand.isAccumulator_iff]
    rintro (e | e)
    · exact not 'A' (by decide) (List.cons.inj e).1
    · exact not 'a' (by decide) (List.cons.inj e).1
  rw [choose_of_not_single (single?_eq_none (.inr accumulator))
    (Operand.immediate_of_ne (not '#' (by decide)))]
  simp [absolute?, hs, literal]

end Form

/-- The statement has a literal that is too long to be read, in a place where it would be read. -/
inductive Overlong : Statement → Prop where
  | immediate {name blanks digits : Text} {m : Mnemonic} {slot : Slot} :
      Mnemonic.ofName? name = some m → m.slot? .immediate = some slot →
      (∀ c ∈ blanks, Text.isBlank c = true) → Operand.Overlong digits →
      Overlong (.instruction name (some ('#' :: (blanks ++ digits))))
  | absolute {name digits : Text} {m : Mnemonic} {slot : Slot} :
      Mnemonic.ofName? name = some m → m.slot? .absolute = some slot →
      Operand.Overlong digits → Overlong (.instruction name (some digits))

theorem Overlong.overflow? {s : Statement} (h : Overlong s) :
    ∃ n, 4300 < n ∧ s.overflow? = some (.reading n) := by
  cases h with
  | @immediate name blanks digits m slot hm hs hb long =>
    refine ⟨digits.length, long.2, ?_⟩
    simp [Statement.overflow?, Statement.form, hm, Form.choose_of_overlong_immediate hs hb long]
  | @absolute name digits m slot hm hs long =>
    refine ⟨digits.length, long.2, ?_⟩
    simp [Statement.overflow?, Statement.form, hm, Form.choose_of_overlong_absolute hs long]

theorem newline_not_mem_operand {t name operand : Text}
    (h : Statement.parse t = .instruction name (some operand)) : '\n' ∉ operand := by
  have one : ∀ {line : Text}, '\n' ∉ line → Statement.operand? line = some operand →
      '\n' ∉ operand := by
    intro line hl ho
    cases line with
    | nil => cases ho
    | cons c rest => cases Option.some.inj ho; exact hl
  unfold Statement.parse at h
  split at h
  · cases h
  · split at h
    · cases h
    · cases h
    · split at h
      · split at h
        · rename_i hline
          obtain ⟨-, ho⟩ := Statement.instruction.inj h
          exact one (Text.newline_not_mem_of_onlyLine? hline) ho
        · cases h
      · cases h

theorem SourceLine.overflow?_eq_none_iff (line : SourceLine) :
    line.statement.overflow? = none ↔ ¬ Overlong line.statement := by
  constructor
  · intro h long
    obtain ⟨n, -, ends⟩ := long.overflow?
    cases h.symm.trans ends
  · intro h
    cases hs : line.statement with
    | empty => rfl
    | malformed text => rfl
    | instruction name operand =>
      rw [hs] at h
      cases hm : Mnemonic.ofName? name with
      | none => simp [Statement.overflow?, Statement.form, hm]
      | some m =>
        cases hc : Form.choose m operand with
        | ok form => simp [Statement.overflow?, Statement.form, hm, hc]
        | error e =>
          exfalso
          apply h
          rcases Form.choose_eq_error hc with hi | ha
          · obtain ⟨slot, t, hslot, rfl, hv⟩ := Form.immediate?_eq_error hi
            obtain ⟨blanks, digits, rfl, hb, long⟩ :=
              Operand.overlong_of_immediate (newline_not_mem_operand hs) hv
            exact .immediate hm hslot hb long
          · obtain ⟨slot, t, hslot, rfl, hv⟩ := Form.absolute?_eq_error ha
            exact .absolute hm hslot
              (Operand.overlong_of_number (newline_not_mem_operand hs) hv)

open SourceLine

namespace Assembly

theorem collecting_of_readable {a : Assembly} {lines : List SourceLine} (empty : a.labels = {})
    (readable : Readable lines) :
    ∃ b, lines.foldlM next? (a.openPass Asm6502.labelPass) = some b ∧ Collecting {} lines b := by
  apply run_exists (collecting_openPass {} empty)
  rintro done line rest c rfl hi
  have through : (c.next? line).isSome := by
    apply hi.next?_isSome_iff.mpr
    refine ⟨readable.numbers line (by simp), fun hr => readable.literals line ?_⟩
    simp [active_append, activeFrom, hr]
  obtain ⟨d, hd⟩ := Option.isSome_iff_exists.mp through
  exact ⟨d, hd, hi.step hd⟩

theorem generate_of_readable (a : Assembly) {lines : List SourceLine}
    (distinct : (lines.map SourceLine.number).Nodup) (readable : Readable lines) :
    ∃ c, a.generate lines = (c, none) := by
  obtain ⟨p, first, -⟩ := collecting_of_readable (a := { a with labels := {} }) rfl readable
  have table := (collecting_of_run p.labels rfl first).table
  have whole : Readable (lines ++ []) := by rwa [List.append_nil]
  obtain ⟨q, second, -⟩ := emitting_of_readable (a := p.note _)
    (by rw [List.append_nil]; exact table) (by rwa [List.append_nil]) whole
  exact ⟨_, generate_eq_foldlM.mpr ⟨p, q, first, second, rfl⟩⟩

end Assembly

namespace Assembler

theorem finished_iff (s : Assembler) (raw : List Text) (file : Text) :
    (s.assemble raw file).2 = none ↔ Readable (ofRaw raw) := by
  constructor
  · intro finished
    exact (assemble_eq_none finished).1
  · intro readable
    obtain ⟨c, run⟩ :=
      (started s raw file).generate_of_readable (nodup_number_ofRaw raw) readable
    rw [assemble_eq, run]

/-- A run yields its image and reports every defect exactly if no line that counts has a decimal
literal of more than 4300 digits. Such a literal, or more lines than can be numbered, is all that
ends a run early. -/
theorem assemble_completes_iff (s : Assembler) (raw : List Text) (file : Text) :
    let lines := ofRaw raw
    let r := s.assemble raw file
    let a := r.1.assembly
    (r.2 = none ∨ ∃ e, r.2 = some (.overflow e)) ∧
      ((r.2 = none ∧ a.code = stub ++ image a.labels (active lines) ∧
          a.report = Report.gather { limit := s.settings.limit }
            (repeats file lines ++ defects file a.labels (active lines))) ↔
        (∀ line ∈ lines, Text.writable line.number = true) ∧
          ∀ line ∈ active lines, ¬ Overlong line.statement) := by
  intro lines r a
  constructor
  · unfold r
    rw [assemble_eq]
    rcases (started s raw file).generate (ofRaw raw) with ⟨c, _ | e⟩
    · exact .inl rfl
    · exact .inr ⟨e, rfl⟩
  · constructor
    · rintro ⟨finished, -, -⟩
      have readable := (finished_iff s raw file).mp finished
      refine ⟨readable.numbers, fun line hl => ?_⟩
      exact (overflow?_eq_none_iff line).mp (readable.literals line hl)
    · rintro ⟨numbers, literals⟩
      have readable : Readable lines :=
        ⟨numbers, fun line hl => (overflow?_eq_none_iff line).mpr (literals line hl)⟩
      have finished := (finished_iff s raw file).mpr readable
      exact ⟨finished, (assemble_eq_none finished).2.2, report_of_finished finished⟩

/-- A literal of 4301 digits ends the run on its line: the line is not reported, the line after
it is not assembled, and all that there is of the image is the stub. -/
theorem assemble_stops_at_long_literal :
    let raw : List Text :=
      [['L', 'D', 'A', ' '] ++ List.replicate 4301 '1', ['N', 'O', 'P']]
    let r := (new {}).assemble raw []
    r.2 = some (.overflow (.reading 4301)) ∧ r.1.code = stub ∧
      r.1.assembly.report.count = 0 := by
  decide +kernel

end Assembler

end Asm6502
