import Asm6502.Proofs.Meaning
import Asm6502.Proofs.Written

/-! A listing taken as a source. In the three modes that can be encoded an instruction comes
back byte by byte, and an operand in the zero page comes back as an absolute one. In the other
modes the operand is one that no form takes. -/
namespace Asm6502

theorem Operand.immediate_of_spells {t : Text} {n : Nat} (h : Text.Spells t n) :
    immediate ('#' :: '$' :: t) = .ok (some n) := by
  have read := number_of_spells h
  have line : '\n' ∉ '$' :: t := by
    intro member
    rcases List.mem_cons.mp member with newline | member
    · cases newline
    · cases h.digits _ member
  have alone : immediate ('#' :: ([] ++ '$' :: t)) = number ('$' :: t) :=
    immediate_blanks (by simp) line (by simp [read])
  exact alone.trans read

namespace Form

variable {m : Mnemonic} {t : Text} {n : Nat}

theorem choose_indexed (h : Text.Spells t n) (register : Text) :
    choose m (some ('$' :: (t ++ ',' :: register))) = .ok none := by
  rw [choose_of_not_single (single?_eq_none (.inr rfl)) (Operand.immediate_of_ne (by decide))]
  exact absolute?_eq_none (Operand.number_of_spells_append h register)
    (Operand.symbol?_of_not_start (by decide))

theorem choose_parenthesised (rest : Text) : choose m (some ('(' :: rest)) = .ok none := by
  rw [choose_of_not_single (single?_eq_none (.inr rfl)) (Operand.immediate_of_ne (by decide))]
  exact absolute?_eq_none (Operand.number_of_ne (by decide) (by decide))
    (Operand.symbol?_of_not_start (by decide))

theorem choose_of_no_slot (single : m.slot? .single = none) (immediate : m.slot? .immediate = none)
    (absolute : m.slot? .absolute = none) (operand : Option Text) :
    choose m operand = .ok none := by
  simp [choose, single?, immediate?, absolute?, single, immediate, absolute]

end Form

namespace Operation

theorem slots_of_branch : ∀ o ∈ all, o.mode = .branch → o.mnemonic.slot? .single = none ∧
    o.mnemonic.slot? .immediate = none ∧ o.mnemonic.slot? .absolute = none := by decide +kernel

theorem absolute_of_zeroPage : ∀ o ∈ all, o.mode = .zeroPage →
    (o.mnemonic.slot? .absolute).isSome = true := by decide +kernel

end Operation

def Mode.Encoded (mode : Mode) : Prop := mode = .single ∨ mode = .immediate ∨ mode = .absolute

instance (mode : Mode) : Decidable mode.Encoded :=
  inferInstanceAs (Decidable (mode = .single ∨ mode = .immediate ∨ mode = .absolute))

theorem operand?_of_ne_nil {t : Text} (h : t ≠ []) : Statement.operand? t = some t := by
  obtain ⟨c, rest, rfl⟩ := List.exists_cons_of_ne_nil h
  rfl

section Instruction

variable (labels : List (Text × Int)) (address : Int) {o : Operation} {operand : List UInt8}

theorem choose_encoded (known : o ∈ Operation.all) (size : operand.length = o.mode.operandSize)
    (mode : o.mode.Encoded) :
    let i := Listing.instruction labels address o operand
    ∃ form, Form.choose o.mnemonic (Statement.operand? i.operand) = .ok (some form) ∧
      ∀ table, form.missing? table = none ∧ form.bytes table = i.bytes := by
  intro i
  have slot := Operation.slot?_of_mem o known
  obtain ⟨m, _, s⟩ := o
  rcases mode with mode | mode | mode <;> cases mode
  · cases List.eq_nil_of_length_eq_zero size
    have written : i.operand = [] := rfl
    refine ⟨.single s.opcode, ?_, fun _ => ⟨rfl, rfl⟩⟩
    rw [written, Statement.operand?, Form.choose, Form.single?_of_operand slot (.inl rfl)]
  · obtain ⟨x, rfl⟩ := List.length_eq_one_iff.mp size
    have written : i.operand = '#' :: '$' :: Text.hex 2 (Listing.littleEndian [x]) := rfl
    have bound := Listing.littleEndian_byte_lt x
    refine ⟨.immediate s.opcode (Listing.littleEndian [x]), ?_, fun _ => ⟨rfl, ?_⟩⟩
    · rw [written]
      exact Form.choose_of_immediate slot (Operand.immediate_of_spells (Text.spells_hex 2 _))
        (by omega)
    · rw [Form.bytes, Listing.lowByte_littleEndian]
      rfl
  · obtain ⟨x, y, rfl⟩ := List.length_eq_two.mp size
    have written : i.operand = '$' :: Text.hex 4 (Listing.littleEndian [x, y]) := rfl
    have bound := Listing.littleEndian_word_lt x y
    refine ⟨.absolute s.opcode (Listing.littleEndian [x, y]), ?_, fun _ => ⟨rfl, ?_⟩⟩
    · rw [written]
      exact Form.choose_of_number slot (Operand.number_of_spells (Text.spells_hex 4 _))
        (by omega)
    · rw [Form.bytes, Listing.wordBytes_littleEndian]
      rfl

/-- Two digits are an address like any other, so the form is the absolute one. -/
theorem choose_zeroPage (known : o ∈ Operation.all) (size : operand.length = o.mode.operandSize)
    (mode : o.mode = .zeroPage) :
    let i := Listing.instruction labels address o operand
    ∃ slot x, o.mnemonic.slot? .absolute = some slot ∧ operand = [x] ∧
      ∃ form, Form.choose o.mnemonic (Statement.operand? i.operand) = .ok (some form) ∧
        ∀ table, form.missing? table = none ∧ form.bytes table = [slot.opcode, x, 0] := by
  intro i
  obtain ⟨slot, hslot⟩ := Option.isSome_iff_exists.mp (Operation.absolute_of_zeroPage o known mode)
  obtain ⟨m, _, s⟩ := o
  cases mode
  obtain ⟨x, rfl⟩ := List.length_eq_one_iff.mp size
  have written : i.operand = '$' :: Text.hex 2 (Listing.littleEndian [x]) := rfl
  have bound := Listing.littleEndian_byte_lt x
  -- A byte is a word whose high byte is zero.
  have page : Listing.littleEndian [x] = Listing.littleEndian [x, 0] := rfl
  refine ⟨slot, x, hslot, rfl, .absolute slot.opcode (Listing.littleEndian [x]), ?_,
    fun _ => ⟨rfl, ?_⟩⟩
  · rw [written]
    exact Form.choose_of_number hslot (Operand.number_of_spells (Text.spells_hex 2 _))
      (by omega)
  · rw [Form.bytes, page, Listing.wordBytes_littleEndian]

/-- No form takes an indexed or indirect operand, and a branch has no form at all. -/
theorem choose_other (known : o ∈ Operation.all) (encoded : ¬ o.mode.Encoded)
    (zeroPage : o.mode ≠ .zeroPage) :
    let i := Listing.instruction labels address o operand
    Form.choose o.mnemonic (Statement.operand? i.operand) = .ok none := by
  intro i
  have branch := Operation.slots_of_branch o known
  have indexed : ∀ width register, Form.choose o.mnemonic
      (some ('$' :: (Text.hex width (Listing.littleEndian operand) ++ ',' :: register))) =
        .ok none :=
    fun width => Form.choose_indexed (Text.spells_hex width _)
  obtain ⟨m, mode, s⟩ := o
  cases mode with
  | immediate => exact absurd (.inr (.inl rfl)) encoded
  | zeroPage => exact absurd rfl zeroPage
  | absolute => exact absurd (.inr (.inr rfl)) encoded
  | single => exact absurd (.inl rfl) encoded
  | zeroPageX | zeroPageY => exact indexed 2 _
  | absoluteX | absoluteY => exact indexed 4 _
  | indirect | indirectX | indirectY => exact Form.choose_parenthesised _
  | branch =>
    obtain ⟨single, immediate, absolute⟩ := branch rfl
    exact Form.choose_of_no_slot single immediate absolute _

end Instruction

namespace Assembly

section Line

variable {t : Text} {m : Mnemonic} {operand : Option Text} {n : Int}

theorem assembleLine_eq (a : Assembly) (reads : ReadsAs t m operand) (hn : Text.writable n = true) :
    a.assembleLine ⟨n, t⟩ =
      (a.note (.lineTaken ⟨n, t⟩)).assembleStatement ⟨n, t⟩ (.instruction m.name operand) := by
  rw [assembleLine, if_pos hn, takeLine]
  simp only [reads.unlabelled, reads.parsed]

theorem assembleLine_of_form (a : Assembly) (reads : ReadsAs t m operand)
    (hn : Text.writable n = true) {form : Form} (chosen : Form.choose m operand = .ok (some form))
    (present : form.missing? a.labels = none) :
    a.assembleLine ⟨n, t⟩ =
      ((a.note (.lineTaken ⟨n, t⟩)).emit (form.bytes a.labels), .done) := by
  rw [assembleLine_eq a reads hn, assembleStatement, m.ofName?_name]
  simp [chosen, assembleForm, present]

theorem assembleLine_of_no_form (a : Assembly) (reads : ReadsAs t m operand)
    (hn : Text.writable n = true) (chosen : Form.choose m operand = .ok none) :
    a.assembleLine ⟨n, t⟩ =
      (a.note (.lineTaken ⟨n, t⟩), .defect (a.diagnose ⟨n, t⟩
        (.unencodable m.name operand (m.modes.map Mode.name)))) := by
  rw [assembleLine_eq a reads hn, assembleStatement, m.ofName?_name]
  simp only [chosen]
  rfl

end Line

/-- The instruction is assembled to its bytes, in any state and on any line. -/
def Reassembles (i : Instruction) : Prop :=
  ∀ (a : Assembly) (n : Int), Text.writable n = true →
    a.assembleLine ⟨n, i.text⟩ = ((a.note (.lineTaken ⟨n, i.text⟩)).emit i.bytes, .done)

theorem reassembles_of_encoded {labels : List (Text × Int)} {i : Instruction}
    (decoded : Listing.Decoded labels i) (mode : i.mode.Encoded) : Reassembles i := by
  obtain ⟨address, o, operand, known, size, rfl⟩ := decoded
  intro a n hn
  obtain ⟨form, chosen, exact⟩ := choose_encoded labels address known size mode
  rw [assembleLine_of_form a (readsAs_text labels address o operand) hn chosen (exact a.labels).1,
    (exact a.labels).2]

theorem assembleLine_zeroPage {labels : List (Text × Int)} {i : Instruction}
    (decoded : Listing.Decoded labels i) (mode : i.mode = .zeroPage) (a : Assembly) {n : Int}
    (hn : Text.writable n = true) :
    ∃ (m : Mnemonic) (slot : Slot) (opcode x : UInt8),
      m.name = i.mnemonic ∧ m.slot? .absolute = some slot ∧ i.bytes = [opcode, x] ∧
      a.assembleLine ⟨n, i.text⟩ =
        ((a.note (.lineTaken ⟨n, i.text⟩)).emit [slot.opcode, x, 0x00], .done) := by
  obtain ⟨address, o, operand, known, size, rfl⟩ := decoded
  obtain ⟨slot, x, hslot, rfl, form, chosen, exact⟩ :=
    choose_zeroPage labels address known size mode
  refine ⟨o.mnemonic, slot, o.slot.opcode, x, rfl, hslot, rfl, ?_⟩
  rw [← (exact a.labels).2]
  exact assembleLine_of_form a (readsAs_text labels address o [x]) hn chosen (exact a.labels).1

theorem assembleLine_other {labels : List (Text × Int)} {i : Instruction}
    (decoded : Listing.Decoded labels i) (encoded : ¬ i.mode.Encoded)
    (zeroPage : i.mode ≠ .zeroPage) (a : Assembly) {n : Int} (hn : Text.writable n = true) :
    ∃ m : Mnemonic, m.name = i.mnemonic ∧
      a.assembleLine ⟨n, i.text⟩ =
        (a.note (.lineTaken ⟨n, i.text⟩), .defect (a.diagnose ⟨n, i.text⟩
          (.unencodable i.mnemonic (some i.operand) (m.modes.map Mode.name)))) := by
  obtain ⟨address, o, operand, known, size, rfl⟩ := decoded
  have nonempty : (Listing.instruction labels address o operand).operand ≠ [] :=
    Listing.operandText_ne_nil (fun single => encoded (.inl single)) _
  refine ⟨o.mnemonic, rfl, ?_⟩
  rw [← operand?_of_ne_nil nonempty]
  exact assembleLine_of_no_form a (readsAs_text labels address o operand) hn
    (choose_other labels address known encoded zeroPage)

end Assembly

/-- A line that stays as it is and is not dropped. -/
def SourceLine.Verbatim (t : Text) : Prop := t ≠ [] ∧ content t = t

theorem verbatim_of_decoded {labels : List (Text × Int)} {i : Instruction}
    (decoded : Listing.Decoded labels i) : SourceLine.Verbatim i.text := by
  obtain ⟨address, o, operand, -, -, rfl⟩ := decoded
  have reads := readsAs_text labels address o operand
  exact ⟨reads.nonempty, reads.content⟩

def linesFrom (n : Nat) (is : List Instruction) : List SourceLine :=
  (is.zipIdx n).map fun p => ⟨p.2, p.1.text⟩

theorem ofRaw_texts {is : List Instruction}
    (whole : ∀ i ∈ is, SourceLine.Verbatim i.text) :
    SourceLine.ofRaw (is.map Instruction.text) = linesFrom 1 is := by
  unfold SourceLine.ofRaw linesFrom
  generalize 1 = n
  induction is generalizing n with
  | nil => rfl
  | cons i rest ih =>
    obtain ⟨nonempty, content⟩ := whole i (by simp)
    have kept : i.text.isEmpty = false := by simpa using nonempty
    have step := ih (fun j hj => whole j (by simp [hj])) (n + 1)
    simp only [List.map_cons, List.zipIdx_cons, List.filterMap_cons, content, kept,
      Bool.false_eq_true, if_false]
    rw [step]

theorem Text.writable_natCast (n : Nat) : writable n = true ↔ n < digitBound := by
  simp [writable]

namespace Assembly

theorem runLines_linesFrom {is : List Instruction} (plain : ∀ i ∈ is, Reassembles i) (n : Nat)
    (short : n + is.length ≤ Text.digitBound) (a : Assembly) :
    ∃ b, a.runLines (linesFrom n is) = (b, none) ∧ b.report = a.report ∧
      b.code = a.code ++ is.flatMap Instruction.bytes := by
  induction is generalizing n a with
  | nil => exact ⟨a, rfl, rfl, by simp⟩
  | cons i rest ih =>
    -- The line number is below the bound as there are more lines to come.
    rw [List.length_cons] at short
    have number : Text.writable n = true := (Text.writable_natCast n).mpr (by omega)
    have first := plain i (by simp) a n number
    obtain ⟨b, run, report, code⟩ := ih (fun j hj => plain j (by simp [hj])) (n + 1) (by omega)
      ((a.note (.lineTaken ⟨n, i.text⟩)).emit i.bytes)
    refine ⟨b, ?_, report, ?_⟩
    · have split : linesFrom n (i :: rest) = ⟨n, i.text⟩ :: linesFrom (n + 1) rest := rfl
      rw [split, runLines, first]
      exact run
    · rw [code, List.flatMap_cons, ← List.append_assoc]
      congr 1
      exact Pass.toList_code_emit _ _

theorem runPass_linesFrom {is : List Instruction} (plain : ∀ i ∈ is, Reassembles i)
    (short : is.length < Text.digitBound) {number : Int} (hn : Text.writable number = true)
    (a : Assembly) :
    ∃ b, a.runPass number (linesFrom 1 is) = (b, none) ∧ b.report = a.report ∧
      b.code = stub ++ is.flatMap Instruction.bytes := by
  obtain ⟨b, run, report, code⟩ := runLines_linesFrom plain 1 (by omega) (a.openPass number)
  refine ⟨b.note (.passEnded number b.pass.code.size b.pass.pc), ?_, report, ?_⟩
  · exact (runPass_eq_foldlM hn).mpr ⟨b, (runLines_eq_foldlM _ _ _).mp run, rfl⟩
  · have start : (a.openPass number).code = stub := Pass.toList_code_start number
    rw [← start]
    exact code

theorem generate_linesFrom {is : List Instruction} (plain : ∀ i ∈ is, Reassembles i)
    (short : is.length < Text.digitBound) (a : Assembly) :
    ∃ b, a.generate (linesFrom 1 is) = (b, none) ∧ b.report = a.report ∧
      b.code = stub ++ is.flatMap Instruction.bytes := by
  obtain ⟨b, run, report, _⟩ :=
    runPass_linesFrom plain short Text.writable_zero { a with labels := {} }
  obtain ⟨c, run', report', code⟩ := runPass_linesFrom plain short Text.writable_one b
  have first : { a with labels := {} }.runPass labelPass (linesFrom 1 is) = (b, none) := run
  refine ⟨c, ?_, report'.trans report, code⟩
  rw [generate, first]
  exact run'

end Assembly

namespace Assembler

theorem assemble_texts (s : Assembler) {is : List Instruction}
    (plain : ∀ i ∈ is, Assembly.Reassembles i)
    (whole : ∀ i ∈ is, SourceLine.Verbatim i.text)
    (short : is.length < Text.digitBound) (file : Text) :
    let r := s.assemble (is.map Instruction.text) file
    r.2 = none ∧ r.1.assembly.report.count = 0 ∧
      r.1.code = stub ++ is.flatMap Instruction.bytes := by
  obtain ⟨b, run, report, code⟩ := Assembly.generate_linesFrom plain short
    (noteIf (fresh s.settings file) s.settings.verbose
      (.runStarted file (linesFrom 1 is).length))
  have result : s.assemble (is.map Instruction.text) file =
      (⟨s.settings, conclude s.settings b⟩, none) := by
    rw [assemble, ofRaw_texts whole]
    simp only [run]
  rw [result]
  refine ⟨rfl, ?_, ?_⟩
  · simp [conclude, report, fresh, Report.count]
  · rw [← code]
    simp [conclude, Assembler.code]

/-- A line of every number is taken, so the last of them can be told of. -/
theorem length_lt_of_finished (s : Assembler) {is : List Instruction}
    (whole : ∀ i ∈ is, SourceLine.Verbatim i.text) {file : Text}
    (finished : (s.assemble (is.map Instruction.text) file).2 = none) :
    is.length < Text.digitBound := by
  obtain ⟨readable, -, -⟩ := assemble_eq_none finished
  rw [ofRaw_texts whole] at readable
  rcases List.eq_nil_or_concat is with rfl | ⟨before, last, rfl⟩
  · exact (Text.writable_natCast 0).mp Text.writable_zero
  · rw [List.concat_eq_append] at readable ⊢
    refine (Text.writable_natCast _).mp (readable.numbers ⟨_, last.text⟩ ?_)
    simp [linesFrom, List.zipIdx_append, Nat.add_comm]

/-- What the texts of a listing are assembled to: one of them in any state, and all of them as
a source. A source may have as many lines as can be numbered. -/
theorem assemble_listing (isCode : Int → Bool) (labels : List (Text × Int)) (file : List UInt8) :
    let entries := Listing.decodeProgram isCode labels file
    (∀ i, .instruction i ∈ entries → ∀ (a : Assembly) (n : Int), Text.writable n = true →
      let line : SourceLine := ⟨n, i.text⟩
      let taken := a.note (.lineTaken line)
      (i.mode.Encoded → a.assembleLine line = (taken.emit i.bytes, .done)) ∧
      (i.mode = .zeroPage → ∃ (m : Mnemonic) (slot : Slot) (opcode x : UInt8),
        m.name = i.mnemonic ∧ m.slot? .absolute = some slot ∧ i.bytes = [opcode, x] ∧
        a.assembleLine line = (taken.emit [slot.opcode, x, 0x00], .done)) ∧
      (¬ i.mode.Encoded → i.mode ≠ .zeroPage → ∃ m : Mnemonic, m.name = i.mnemonic ∧
        a.assembleLine line = (taken, .defect (a.diagnose line
          (.unencodable i.mnemonic (some i.operand) (m.modes.map Mode.name)))))) ∧
    ∀ is : List Instruction, entries = is.map .instruction → (∀ i ∈ is, i.mode.Encoded) →
      ∀ (s : Assembler) (name : Text),
        let r := s.assemble (is.map Instruction.text) name
        (r.2 = none ↔ is.length < Text.digitBound) ∧
        (is.length < Text.digitBound →
          r.1.assembly.report.count = 0 ∧ r.1.code = stub ++ file.drop 2) := by
  intro entries
  constructor
  · intro i hi a n hn line taken
    have decoded := Listing.decoded_of_mem_decode hi
    exact ⟨fun mode => Assembly.reassembles_of_encoded decoded mode a n hn,
      fun mode => Assembly.assembleLine_zeroPage decoded mode a hn,
      fun encoded zeroPage => Assembly.assembleLine_other decoded encoded zeroPage a hn⟩
  · intro is all encoded s name r
    have decoded : ∀ i ∈ is, Listing.Decoded labels i := by
      intro i hi
      have member : .instruction i ∈ entries := by
        rw [all]
        exact List.mem_map_of_mem hi
      exact Listing.decoded_of_mem_decode member
    have plain : ∀ i ∈ is, Assembly.Reassembles i := fun i hi =>
      Assembly.reassembles_of_encoded (decoded i hi) (encoded i hi)
    have whole : ∀ i ∈ is, SourceLine.Verbatim i.text := fun i hi =>
      verbatim_of_decoded (decoded i hi)
    have bytes : is.flatMap Instruction.bytes = file.drop 2 := by
      have kept : entries.flatMap Entry.bytes = file.drop 2 :=
        Listing.bytes_decodeFrom isCode labels _ {} (file.drop 2)
      rw [← kept, all, List.flatMap_map]
      rfl
    rw [← bytes]
    have run := assemble_texts s plain whole
    exact ⟨⟨length_lt_of_finished s whole, fun short => (run short name).1⟩,
      fun short => (run short name).2⟩

/-- Three instructions that come back as they were, one that comes back longer, and a branch
that does not come back. -/
theorem assemble_listing_instructions :
    let loop : List Instruction :=
      [Listing.instruction [] 0xC000 ⟨.lda, .immediate, .fixed 0xA9 2⟩ [0x05],
       Listing.instruction [] 0xC002 ⟨.jmp, .absolute, .fixed 0x4C 3⟩ [0x00, 0xC0],
       Listing.instruction [] 0xC005 ⟨.asl, .single, .fixed 0x0A 2⟩ []]
    let load := Listing.instruction [] 0xC000 ⟨.lda, .zeroPage, .fixed 0xA5 3⟩ [0x10]
    let branch := Listing.instruction [] 0xC002 ⟨.bne, .branch, .relative 0xD0⟩ [0xFE]
    let a := fresh {} []
    let r := (new {}).assemble (loop.map Instruction.text) []
    (r.2 = none ∧ r.1.assembly.report.count = 0 ∧
      r.1.code = stub ++ [0xA9, 0x05, 0x4C, 0x00, 0xC0, 0x0A]) ∧
    (∃ (m : Mnemonic) (slot : Slot) (opcode x : UInt8),
      m.name = load.mnemonic ∧ m.slot? .absolute = some slot ∧ load.bytes = [opcode, x] ∧
      a.assembleLine ⟨1, load.text⟩ =
        ((a.note (.lineTaken ⟨1, load.text⟩)).emit [slot.opcode, x, 0x00], .done)) ∧
    ∃ m : Mnemonic, m.name = branch.mnemonic ∧ a.assembleLine ⟨1, branch.text⟩ =
      (a.note (.lineTaken ⟨1, branch.text⟩), .defect (a.diagnose ⟨1, branch.text⟩
        (.unencodable branch.mnemonic (some branch.operand) (m.modes.map Mode.name)))) := by
  intro loop load branch a r
  have short : loop.length < Text.digitBound :=
    (Text.writable_natCast loop.length).mp (by decide +kernel)
  have whole := (assemble_listing (fun _ => true) []
    [0x00, 0xC0, 0xA9, 0x05, 0x4C, 0x00, 0xC0, 0x0A]).2 loop (by decide +kernel)
    (by decide) (new {}) []
  have single := (assemble_listing (fun _ => true) [] [0x00, 0xC0, 0xA5, 0x10, 0xD0, 0xFE]).1
  refine ⟨⟨whole.1.mpr short, whole.2 short⟩, ?_, ?_⟩
  · exact (single load (by decide +kernel) a 1 Text.writable_one).2.1 rfl
  · exact (single branch (by decide +kernel) a 1 Text.writable_one).2.2 (by decide) (by decide)

end Assembler
end Asm6502
