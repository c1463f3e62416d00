import Asm6502.Proofs.Reachable
import Asm6502.Proofs.Relocation

/-! Which labels can be jumped to. A label is any word, but an operand is first read as a literal,
and a symbol does not begin with a digit. So a label whose name does is out of reach, unless the
name happens to be its own address. -/
namespace Asm6502

open SourceLine

/-- A jump to the name goes to the label. -/
def Label.Referable (l : Label) : Prop :=
  (∀ c ∈ l.name.head?, Text.isDigitOf 10 c = false) ∨
    (∀ c ∈ l.name, Text.isDigitOf 10 c = true) ∧ l.name.length ≤ 4300 ∧
      (Text.valueOf 10 l.name : Int) = l.address

theorem Text.isVisible_of_isWordChar {c : Char} (h : isWordChar c = true) :
    isVisible c = true := by
  have range := (Operand.isWordChar_iff c).mp h
  refine isVisible_iff.mpr ⟨by omega, ?_⟩
  rintro rfl
  exact absurd h (by decide)

namespace Operand

variable {c : Char} {rest t : Text}

theorem symbol?_of_word (start : isSymbolStart c = true)
    (word : ∀ d ∈ rest, isWordChar d = true) : symbol? (c :: rest) = some (c :: rest) := by
  have whole : rest.dropWhile isWordChar = [] := List.dropWhile_eq_nil_iff.mpr word
  simp [symbol?, start, whole, Text.atEnd]

theorem isSymbolStart_of_not_digit (word : isWordChar c = true)
    (other : Text.isDigitOf 10 c = false) : isSymbolStart c = true := by
  have digit := isDigitOf_ten_iff c
  rw [other] at digit
  rw [isSymbolStart_iff]
  rw [isWordChar_iff] at word
  have none : ¬ (48 ≤ c.toNat ∧ c.toNat ≤ 57) := fun range => Bool.noConfusion (digit.mpr range)
  exact word.resolve_left none

theorem number_of_decimal (nonempty : t ≠ []) (digits : ∀ d ∈ t, Text.isDigitOf 10 d = true)
    (short : t.length ≤ 4300) : number t = .ok (some (Text.valueOf 10 t)) := by
  rw [number_digits (.inl rfl) nonempty digits, if_neg (Nat.not_lt.mpr short)]

/-- Of the words that begin with a digit only numerals are literals. -/
theorem number_of_mixed (word : ∀ d ∈ t, isWordChar d = true)
    (mixed : ¬ ∀ d ∈ t, Text.isDigitOf 10 d = true) : number t = .ok none := by
  have ends : Text.atEnd (t.dropWhile (Text.isDigitOf 10)) = false := by
    rw [Bool.eq_false_iff]
    intro done
    have line : '\n' ∉ t.dropWhile (Text.isDigitOf 10) := by
      intro member
      cases word _ ((List.dropWhile_sublist _).subset member)
    exact mixed (List.dropWhile_eq_nil_iff.mp (Text.eq_nil_of_atEnd done line))
  unfold number
  split
  · cases word '$' (by simp)
  · simp [ends]

end Operand

namespace Form

theorem slot?_jmp : Mnemonic.jmp.slot? .absolute = some (.fixed 0x4C 3) := rfl

theorem choose_jmp {c : Char} {rest : Text} (word : isWordChar c = true) :
    choose .jmp (some (c :: rest)) = absolute? .jmp (some (c :: rest)) := by
  apply choose_of_not_single
  · exact single?_eq_none (.inl rfl)
  · apply Operand.immediate_of_ne
    rintro rfl
    cases word

end Form

def Statement.jump (name : Text) : Statement := .instruction Mnemonic.jmp.name (some name)

namespace Statement

theorem form_jump (name : Text) : (jump name).form = Form.choose .jmp (some name) := by
  rw [jump, form, Mnemonic.ofName?_name]

variable {table : LabelTable} {label : Label}

theorem jump_of_referable (nonempty : label.name ≠ [])
    (word : ∀ c ∈ label.name, isWordChar c = true) (high : label.address < 65536)
    (found : table.find? label.name = some label) (referable : label.Referable) :
    (jump label.name).overflow? = none ∧ (jump label.name).defect? table = none ∧
      (jump label.name).bytes table = 0x4C :: wordBytes label.address := by
  -- Only the form matters, and there are two that lead to the label.
  suffices ∃ form, Form.choose .jmp (some label.name) = .ok (some form) ∧
      form.missing? table = none ∧ form.bytes table = 0x4C :: wordBytes label.address by
    obtain ⟨form, chosen, present, bytes⟩ := this
    have taken : (jump label.name).form = .ok (some form) := (form_jump _).trans chosen
    refine ⟨by simp [overflow?, taken], ?_, by simp [Statement.bytes, taken, bytes]⟩
    simp [jump, defect?, Mnemonic.ofName?_name, chosen, present]
  rcases referable with other | ⟨digits, short, value⟩
  · obtain ⟨c, rest, named⟩ := List.exists_cons_of_ne_nil nonempty
    have start : Operand.isSymbolStart c = true :=
      Operand.isSymbolStart_of_not_digit (word c (by simp [named])) (other c (by simp [named]))
    have symbol : Operand.symbol? label.name = some label.name := by
      rw [named]
      apply Operand.symbol?_of_word start
      intro d member
      exact word d (by simp [named, member])
    have literal := (Operand.literals_of_symbol? symbol).1
    refine ⟨.reference 0x4C label.name, ?_, ?_, ?_⟩
    · exact Form.choose_of_symbol (Form.single?_eq_none (.inl rfl))
        (Form.immediate?_eq_none literal) Form.slot?_jmp symbol
    · simp [Form.missing?, LabelTable.contains, found]
    · simp [Form.bytes, Form.addressOf, found]
  · refine ⟨.absolute 0x4C (Text.valueOf 10 label.name), ?_, rfl, ?_⟩
    · exact Form.choose_of_number Form.slot?_jmp
        (Operand.number_of_decimal nonempty digits short) (by omega)
    · rw [Form.bytes, value]

theorem referable_of_jump (nonempty : label.name ≠ [])
    (word : ∀ c ∈ label.name, isWordChar c = true)
    (range : 0 ≤ label.address ∧ label.address < 65536)
    (read : (jump label.name).overflow? = none)
    (bytes : (jump label.name).bytes table = 0x4C :: wordBytes label.address) :
    label.Referable := by
  -- A form that is none would leave no bytes.
  have taken : Form.choose .jmp (some label.name) ≠ .ok none := by
    intro none
    simp [Statement.bytes, form_jump, none] at bytes
  obtain ⟨c, rest, named⟩ := List.exists_cons_of_ne_nil nonempty
  have absolute : Form.choose .jmp (some label.name) = Form.absolute? .jmp (some label.name) := by
    rw [named]
    exact Form.choose_jmp (word c (by simp [named]))
  cases digit : Text.isDigitOf 10 c with
  | false =>
    left
    intro d head
    rw [named, List.head?_cons, Option.mem_some_iff] at head
    rwa [← head]
  | true =>
    right
    by_cases digits : ∀ d ∈ label.name, Text.isDigitOf 10 d = true
    · have short : label.name.length ≤ 4300 := by
        apply Nat.not_lt.mp
        intro long
        have stops := Form.choose_of_overlong_absolute Form.slot?_jmp ⟨digits, long⟩
        simp [overflow?, form_jump, stops] at read
      refine ⟨digits, short, ?_⟩
      have number := Operand.number_of_decimal nonempty digits short
      have fits : Text.valueOf 10 label.name ≤ 65535 := by
        apply Nat.not_lt.mp
        intro large
        apply taken
        simp [absolute, Form.absolute?, Form.slot?_jmp, number, large]
      have chosen := Form.choose_of_number Form.slot?_jmp number fits
      have spelt : (jump label.name).bytes table =
          0x4C :: wordBytes (Text.valueOf 10 label.name) := by
        simp only [Statement.bytes, form_jump, chosen]
        rfl
      have same := (List.cons.inj (spelt.symm.trans bytes)).2
      rw [← Listing.littleEndian_wordBytes range.1 range.2, ← same]
      exact (Listing.littleEndian_wordBytes (by omega) (by omega)).symm
    · have start : Operand.isSymbolStart c = false := by
        rw [Bool.eq_false_iff, ne_eq, Operand.isSymbolStart_iff]
        have decimal := (Operand.isDigitOf_ten_iff c).mp digit
        omega
      have symbol : Operand.symbol? label.name = none := by
        rw [named]
        exact Operand.symbol?_of_not_start start
      rw [absolute] at taken
      exact absurd (Form.absolute?_eq_none (Operand.number_of_mixed word digits) symbol) taken

end Statement

namespace SourceLine

theorem find?_of_mem {table labels : LabelTable} {lines : List SourceLine} {label : Label}
    (complete : table.toList = definitions labels lines) (member : label ∈ table.toList) :
    table.find? label.name = some label := by
  have distinct : (table.toList.map Label.name).Nodup := by
    rw [complete, definitions, map_name_definitionsFrom]
    exact nodup_active_labels lines
  have some : (table.toList.find? fun l => l.name == label.name).isSome :=
    List.find?_isSome.mpr ⟨label, member, by simp⟩
  obtain ⟨other, found⟩ := Option.isSome_iff_exists.mp some
  have named : other.name = label.name := by simpa using List.find?_some found
  have same : other = label :=
    List.inj_on_of_nodup_map distinct (List.mem_of_find?_eq_some found) member named
  rw [LabelTable.find?_eq_find?_toList, found, same]

theorem ofRaw_concat (raw : List Text) {t : Text} (whole : Verbatim t) :
    ofRaw (raw ++ [t]) = ofRaw raw ++ [⟨(raw.length + 1 : Nat), t⟩] := by
  have single : ofRaw [t] = [⟨1, t⟩] := by
    simp [ofRaw, whole.1, whole.2]
  rw [ofRaw_append, single]
  simp [renumber, Int.add_comm]

section Concat

variable {lines : List SourceLine} {line : SourceLine} (unlabelled : line.label? = none)
include unlabelled

theorem active_concat_unlabelled : active (lines ++ [line]) = active lines ++ [line] :=
  active_concat (not_redefines_of_unlabelled unlabelled lines)

theorem tableOf_concat (labels : LabelTable) :
    tableOf labels (lines ++ [line]) = tableOf labels lines := by
  have alone : ∀ l ∈ [line], l.label? = none := by simpa using unlabelled
  simp [tableOf, definitions, active_concat_unlabelled unlabelled, definitionsFrom_append,
    definitionsFrom_unlabelled alone]

theorem findings_concat (sound : line.statement.defect? (tableOf {} lines) = none) (file : Text) :
    findings file (lines ++ [line]) = findings file lines := by
  have new : repeat? lines line = none := by simp [repeat?, unlabelled]
  simp [findings, repeats_concat, new, tableOf_concat unlabelled,
    active_concat_unlabelled unlabelled, defects, sound]

end Concat

end SourceLine

namespace Assembler

theorem assemble_concat {s : Assembler} {raw : List Text} {file t : Text} {m : Mnemonic}
    {operand : Option Text} (finished : (s.assemble raw file).2 = none)
    (reads : ReadsAs t m operand) :
    let r := (s.assemble raw file).1
    let r' := s.assemble (raw ++ [t]) file
    let new := Statement.instruction m.name operand
    (r'.2 = none ↔ new.overflow? = none ∧ raw.length + 1 < Text.digitBound) ∧
      (r'.2 = none → r'.1.assembly.labels = r.assembly.labels ∧
        r'.1.code = r.code ++ new.bytes r.assembly.labels ∧
        (new.defect? r.assembly.labels = none →
          r'.1.assembly.report = r.assembly.report)) := by
  intro r r' new
  let line : SourceLine := ⟨(raw.length + 1 : Nat), t⟩
  have lines : ofRaw (raw ++ [t]) = ofRaw raw ++ [line] :=
    ofRaw_concat raw ⟨reads.nonempty, reads.content⟩
  have unlabelled : line.label? = none := congrArg Prod.fst reads.unlabelled
  have stated : line.statement = new := by
    rw [statement, reads.unlabelled]
    exact reads.parsed
  have table : r.assembly.labels = tableOf {} (ofRaw raw) := labels_of_finished finished
  constructor
  · rw [finished_iff, lines, ← Text.writable_natCast, ← stated]
    constructor
    · intro readable
      exact ⟨readable.literals line (by simp [active_concat_unlabelled unlabelled]),
        readable.numbers line (by simp)⟩
    · rintro ⟨literal, number⟩
      exact ((finished_iff s raw file).mp finished).concat number fun _ => literal
  · intro finished'
    refine ⟨?_, ?_, ?_⟩
    · rw [labels_of_finished finished', lines, tableOf_concat unlabelled, table]
    · rw [code_of_finished finished', lines, tableOf_concat unlabelled,
        active_concat_unlabelled unlabelled, image_concat, code_of_finished finished, table,
        List.append_assoc, SourceLine.bytes, stated]
    · rw [table, ← stated]
      intro sound
      rw [findings_of_finished finished', lines, findings_concat unlabelled sound,
        findings_of_finished finished]

/-- A jump to a label of the source, on a line behind it. It is assembled to the address of the
label, and nothing else changes, exactly if the name does not begin with a digit or is a numeral
for that address, and the number of the new line can be written. -/
theorem jump_reaches_iff (s : Assembler) (raw : List Text) (file : Text)
    (finished : (s.assemble raw file).2 = none) (label : Label)
    (defined : label ∈ (s.assemble raw file).1.assembly.labels.toList) :
    let r := (s.assemble raw file).1
    let r' := s.assemble (raw ++ [['J', 'M', 'P', ' '] ++ label.name]) file
    (r'.2 = none ∧ r'.1.assembly.report = r.assembly.report ∧
        r'.1.assembly.labels = r.assembly.labels ∧
        r'.1.code = r.code ++ [0x4C, UInt8.ofNat (label.address % 256).toNat,
          UInt8.ofNat (label.address / 256).toNat]) ↔
      label.Referable ∧ raw.length + 1 < Text.digitBound := by
  intro r r'
  have complete : r.assembly.labels.toList = definitions {} (ofRaw raw) := by
    rw [labels_of_finished finished, toList_tableOf]
  have member : label ∈ definitions {} (ofRaw raw) := complete ▸ defined
  have found := find?_of_mem complete defined
  have range := address_of_mem_definitionsFrom member
  obtain ⟨l, -, named, -⟩ := exists_line_of_mem_definitionsFrom member
  obtain ⟨nonempty, word⟩ := word_of_splitLabel named
  have operand : [0x4C, UInt8.ofNat (label.address % 256).toNat,
      UInt8.ofNat (label.address / 256).toNat] = 0x4C :: wordBytes label.address := by
    have small : label.address / 256 % 256 = label.address / 256 := by omega
    rw [wordBytes, lowByte, lowByte, small]
  have reads : ReadsAs (['J', 'M', 'P', ' '] ++ label.name) .jmp (some label.name) :=
    readsAs_operand .jmp (fun c inside => Text.isVisible_of_isWordChar (word c inside)) nonempty
  obtain ⟨ends, adds⟩ := assemble_concat finished reads
  rw [operand]
  constructor
  · rintro ⟨finished', -, -, code⟩
    obtain ⟨literal, number⟩ := ends.mp finished'
    obtain ⟨-, code', -⟩ := adds finished'
    have bytes := List.append_cancel_left (code'.symm.trans code)
    exact ⟨Statement.referable_of_jump nonempty word range literal bytes, number⟩
  · rintro ⟨referable, number⟩
    obtain ⟨literal, sound, bytes⟩ :=
      Statement.jump_of_referable nonempty word range.2 found referable
    have finished' := ends.mpr ⟨literal, number⟩
    obtain ⟨labels', code', report'⟩ := adds finished'
    exact ⟨finished', report' sound, labels', code'.trans (congrArg (r.code ++ ·) bytes)⟩

/-- A label that begins with an underscore and one that is named like its own address. -/
theorem jump_reaches_iff_names :
    let raw : List Text := [['2', '0', '6', '1', ':', 'N', 'O', 'P'], ['_', '1', ':']]
    let r := (new {}).assemble raw []
    r.2 = none ∧ r.1.assembly.report.count = 0 ∧
      r.1.assembly.labels.toList = [⟨['2', '0', '6', '1'], 0x080D, 1⟩, ⟨['_', '1'], 0x080E, 2⟩] ∧
      ((new {}).assemble (raw ++ [['J', 'M', 'P', ' ', '2', '0', '6', '1']]) []).1.code =
        r.1.code ++ [0x4C, 0x0D, 0x08] ∧
      ((new {}).assemble (raw ++ [['J', 'M', 'P', ' ', '_', '1']]) []).1.code =
        r.1.code ++ [0x4C, 0x0E, 0x08] := by
  intro raw r
  have finished : r.2 = none := by decide +kernel
  have labels : r.1.assembly.labels.toList =
      [⟨['2', '0', '6', '1'], 0x080D, 1⟩, ⟨['_', '1'], 0x080E, 2⟩] := by decide +kernel
  have short : raw.length + 1 < Text.digitBound := (Text.writable_natCast _).mp (by decide +kernel)
  have numeral : Label.Referable ⟨['2', '0', '6', '1'], 0x080D, 1⟩ := by
    right
    exact ⟨List.all_eq_true.mp rfl, by decide, by decide⟩
  have symbol : Label.Referable ⟨['_', '1'], 0x080E, 2⟩ := by
    left
    rintro c ⟨⟩
    rfl
  have first := (jump_reaches_iff (new {}) raw [] finished ⟨['2', '0', '6', '1'], 0x080D, 1⟩
    (by rw [labels]; simp)).mpr ⟨numeral, short⟩
  have second := (jump_reaches_iff (new {}) raw [] finished ⟨['_', '1'], 0x080E, 2⟩
    (by rw [labels]; simp)).mpr ⟨symbol, short⟩
  exact ⟨finished, by decide +kernel, labels, first.2.2.2, second.2.2.2⟩

/-- A sound source with the label `1`, and a jump to it: that is a jump to address one. -/
theorem jump_misses_label_one :
    let raw : List Text := [['1', ':', ' ', 'N', 'O', 'P']]
    let r := (new {}).assemble raw []
    let r' := (new {}).assemble (raw ++ [['J', 'M', 'P', ' '] ++ ['1']]) []
    r.2 = none ∧ r.1.assembly.report.count = 0 ∧
      r.1.assembly.labels.toList = [⟨['1'], 0x080D, 1⟩] ∧ r'.2 = none ∧
      r'.1.assembly.report.count = 0 ∧ r'.1.code = r.1.code ++ [0x4C, 0x01, 0x00] ∧
      r'.1.code ≠ r.1.code ++ [0x4C, 0x0D, 0x08] := by
  decide +kernel

end Assembler

end Asm6502
