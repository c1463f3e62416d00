import Asm6502.Assembler
import Asm6502.Proofs.Operands
import Asm6502.Proofs.Passes

/-! What a source means, said in one go. The rules below give the bytes of a statement under a
label table; the labels are those of the lines that count, each where the bytes before it end.
An assembly that no number ends early yields just that. -/
namespace Asm6502

/-- The bytes that a statement stands for, one rule for each form. A symbol that the table
does not have stands for address zero, and the accumulator is no symbol where the mnemonic has
the single form. -/
inductive Encodes (labels : LabelTable) : Statement → List UInt8 → Prop where
  | single {name : Text} {operand : Option Text} {m : Mnemonic} {slot : Slot} :
      Mnemonic.ofName? name = some m → m.slot? .single = some slot →
      operand = none ∨ operand = some ['A'] ∨ operand = some ['a'] →
      Encodes labels (.instruction name operand) [slot.opcode]
  | immediate {name text : Text} {m : Mnemonic} {slot : Slot} {value : Nat} :
      Mnemonic.ofName? name = some m → m.slot? .immediate = some slot →
      Operand.immediate text = .ok (some value) → value ≤ 255 →
      Encodes labels (.instruction name (some text)) [slot.opcode, UInt8.ofNat value]
  | literal {name text : Text} {m : Mnemonic} {slot : Slot} {value : Nat} :
      Mnemonic.ofName? name = some m → m.slot? .absolute = some slot →
      Operand.number text = .ok (some value) → value ≤ 65535 →
      Encodes labels (.instruction name (some text))
        [slot.opcode, UInt8.ofNat (value % 256), UInt8.ofNat (value / 256)]
  | symbol {name text symbol : Text} {m : Mnemonic} {slot : Slot} {label : Label} :
      Mnemonic.ofName? name = some m → m.slot? .absolute = some slot →
      m.slot? .single = none ∨ (text ≠ ['A'] ∧ text ≠ ['a']) →
      Operand.symbol? text = some symbol → labels.find? symbol = some label →
      Encodes labels (.instruction name (some text))
        [slot.opcode, lowByte label.address, lowByte (label.address / 256)]
  | missing {name text symbol : Text} {m : Mnemonic} {slot : Slot} :
      Mnemonic.ofName? name = some m → m.slot? .absolute = some slot →
      m.slot? .single = none ∨ (text ≠ ['A'] ∧ text ≠ ['a']) →
      Operand.symbol? text = some symbol → labels.find? symbol = none →
      Encodes labels (.instruction name (some text)) [slot.opcode, 0, 0]

/-- The bytes of a statement: those of the rule that applies, and none if no rule does. -/
def Means (labels : LabelTable) (s : Statement) (bytes : List UInt8) : Prop :=
  Encodes labels s bytes ∨ (bytes = [] ∧ ∀ others, ¬ Encodes labels s others)

theorem encodes_of_form {labels : LabelTable} {s : Statement} {form : Form}
    (h : s.form = .ok (some form)) : Encodes labels s (form.bytes labels) := by
  unfold Statement.form at h
  split at h
  · rename_i name operand
    split at h
    · rename_i m hm
      rcases Form.choose_eq_some h with hs | ⟨hs, hi | ⟨_, ha⟩⟩
      · obtain ⟨slot, hslot, rfl, ho⟩ := Form.single?_eq_some hs
        exact .single hm hslot ho
      · obtain ⟨slot, t, value, hslot, rfl, hv, le, rfl⟩ := Form.immediate?_eq_some hi
        rw [Form.bytes, lowByte_natCast]
        exact .immediate hm hslot hv le
      · obtain ⟨slot, t, hslot, rfl, ⟨value, hv, le, rfl⟩ | ⟨symbol, hy, rfl⟩⟩ :=
          Form.absolute?_eq_some ha
        · rw [Form.bytes, wordBytes_natCast]
          exact .literal hm hslot hv le
        · have other : m.slot? .single = none ∨ (t ≠ ['A'] ∧ t ≠ ['a']) := by
            cases hsingle : m.slot? .single with
            | none => exact .inl rfl
            | some single =>
              refine .inr ⟨?_, ?_⟩ <;> rintro rfl <;> simp [Form.single?, hsingle] at hs <;>
                cases hs
          rw [Form.bytes, Form.addressOf]
          cases hf : labels.find? symbol with
          | none => exact .missing hm hslot other hy hf
          | some label => exact .symbol hm hslot other hy hf
    · cases h
  · cases h

theorem bytes_of_symbol (labels : LabelTable) {name text symbol : Text} {m : Mnemonic} {slot : Slot}
    (hm : Mnemonic.ofName? name = some m) (hslot : m.slot? .absolute = some slot)
    (other : m.slot? .single = none ∨ (text ≠ ['A'] ∧ text ≠ ['a']))
    (hy : Operand.symbol? text = some symbol) :
    (Statement.instruction name (some text)).bytes labels =
      slot.opcode :: wordBytes (Form.addressOf labels symbol) := by
  obtain ⟨hi, hv⟩ := Operand.literals_of_symbol? hy
  have hs : Form.single? m (some text) = none := by
    apply Form.single?_eq_none
    rcases other with other | other
    · exact .inl other
    · refine .inr (Bool.eq_false_iff.mpr fun acc => ?_)
      rcases (Operand.isAccumulator_iff text).mp acc with rfl | rfl
      · exact other.1 rfl
      · exact other.2 rfl
  simp [Statement.bytes, Statement.form, hm, Form.choose_of_not_single hs hi, Form.absolute?,
    hslot, hv, hy, Form.bytes]

theorem bytes_of_encodes {labels : LabelTable} {s : Statement} {b : List UInt8}
    (h : Encodes labels s b) : s.bytes labels = b := by
  cases h with
  | single hm hslot ho =>
    simp [Statement.bytes, Statement.form, hm, Form.choose, Form.single?_of_operand hslot ho,
      Form.bytes]
  | immediate hm hslot hv le =>
    simp [Statement.bytes, Statement.form, hm, Form.choose_of_immediate hslot hv le, Form.bytes,
      lowByte_natCast]
  | literal hm hslot hv le =>
    simp [Statement.bytes, Statement.form, hm, Form.choose_of_number hslot hv le, Form.bytes,
      wordBytes_natCast]
  | symbol hm hslot other hy hf =>
    rw [bytes_of_symbol labels hm hslot other hy, Form.addressOf, hf]
    rfl
  | missing hm hslot other hy hf =>
    rw [bytes_of_symbol labels hm hslot other hy, Form.addressOf, hf]
    rfl

theorem bytes_of_not_encodes {labels : LabelTable} {s : Statement}
    (h : ∀ b, ¬ Encodes labels s b) : s.bytes labels = [] := by
  unfold Statement.bytes
  split
  · rename_i form hf
    exact absurd (encodes_of_form hf) (h _)
  · rfl

/-- The rules give one answer, and it is the one that the passes emit. -/
theorem means_iff (labels : LabelTable) (s : Statement) (b : List UInt8) :
    Means labels s b ↔ b = s.bytes labels := by
  constructor
  · rintro (h | ⟨rfl, none⟩)
    · exact (bytes_of_encodes h).symm
    · exact (bytes_of_not_encodes none).symm
  · rintro rfl
    by_cases rule : ∃ others, Encodes labels s others
    · obtain ⟨others, h⟩ := rule
      exact .inl (bytes_of_encodes h ▸ h)
    · have none : ∀ others, ¬ Encodes labels s others := fun others h => rule ⟨others, h⟩
      exact .inr ⟨bytes_of_not_encodes none, none⟩

namespace SourceLine

theorem pairwise_number_ofRaw (raw : List Text) :
    (ofRaw raw).Pairwise fun a b => a.number < b.number := by
  have rising : (raw.zipIdx 1).Pairwise fun a b => a.2 < b.2 := by
    have h := List.pairwise_lt_range' (s := 1) (n := raw.length)
    rwa [← List.zipIdx_map_snd, List.pairwise_map] at h
  unfold ofRaw
  rw [List.pairwise_filterMap]
  refine rising.imp ?_
  rintro ⟨x, i⟩ ⟨y, j⟩ hlt a ha b hb
  dsimp only at ha hb hlt
  split at ha
  · cases ha
  · split at hb
    · cases hb
    · cases Option.some.inj ha
      cases Option.some.inj hb
      dsimp only
      omega

theorem nodup_number_ofRaw (raw : List Text) : ((ofRaw raw).map number).Nodup := by
  rw [List.Nodup, List.pairwise_map]
  exact (pairwise_number_ofRaw raw).imp fun h => Int.ne_of_lt h

end SourceLine

namespace Assembler

open SourceLine

@[simp] theorem labels_noteIf (a : Assembly) (condition : Bool) (e : Event) :
    (noteIf a condition e).labels = a.labels := by
  unfold noteIf
  split <;> rfl

@[simp] theorem pass_noteIf (a : Assembly) (condition : Bool) (e : Event) :
    (noteIf a condition e).pass = a.pass := by
  unfold noteIf
  split <;> rfl

@[simp] theorem report_noteIf (a : Assembly) (condition : Bool) (e : Event) :
    (noteIf a condition e).report = a.report := by
  unfold noteIf
  split <;> rfl

@[simp] theorem file_noteIf (a : Assembly) (condition : Bool) (e : Event) :
    (noteIf a condition e).file = a.file := by
  unfold noteIf
  split <;> rfl

@[simp] theorem code_noteIf (a : Assembly) (condition : Bool) (e : Event) :
    (noteIf a condition e).code = a.code := by
  unfold noteIf
  split <;> rfl

def started (s : Assembler) (raw : List Text) (file : Text) : Assembly :=
  noteIf (fresh s.settings file) s.settings.verbose (.runStarted file (ofRaw raw).length)

theorem assemble_eq (s : Assembler) (raw : List Text) (file : Text) :
    s.assemble raw file =
      match (started s raw file).generate (ofRaw raw) with
      | (a, none) => (⟨s.settings, conclude s.settings a⟩, none)
      | (a, some e) => (⟨s.settings, a⟩, some (.overflow e)) := rfl

theorem generate_of_finished {s : Assembler} {raw : List Text} {file : Text}
    (h : (s.assemble raw file).2 = none) :
    ∃ c, (started s raw file).generate (ofRaw raw) = (c, none) ∧
      (s.assemble raw file).1 = ⟨s.settings, conclude s.settings c⟩ := by
  rw [assemble_eq] at h ⊢
  rcases run : (started s raw file).generate (ofRaw raw) with ⟨c, _ | e⟩
  · exact ⟨c, rfl, rfl⟩
  · rw [run] at h
    cases h

theorem assemble_eq_none {s : Assembler} {raw : List Text} {file : Text}
    (h : (s.assemble raw file).2 = none) :
    Readable (ofRaw raw) ∧
      (s.assemble raw file).1.assembly.labels.toList =
        definitions (s.assemble raw file).1.assembly.labels (ofRaw raw) ∧
      (s.assemble raw file).1.code =
        stub ++ image (s.assemble raw file).1.assembly.labels (active (ofRaw raw)) := by
  obtain ⟨c, run, result⟩ := generate_of_finished h
  obtain ⟨readable, table, code⟩ := Assembly.generate_eq_none (nodup_number_ofRaw raw) run
  have labels : (conclude s.settings c).labels = c.labels := by simp [conclude]
  have kept : (conclude s.settings c).code = c.code := by simp [conclude]
  rw [result]
  refine ⟨readable, ?_, ?_⟩
  · change (conclude s.settings c).labels.toList = definitions (conclude s.settings c).labels _
    rw [labels, table]
  · change (conclude s.settings c).code = stub ++ image (conclude s.settings c).labels _
    rw [labels, kept, code]

/-- Both passes together give a source its meaning: one label for each name, from the first
line that has it and placed behind the bytes of the lines before, and the bytes of the lines
that count, under that very table. -/
theorem assemble_meaning (s : Assembler) (raw : List Text) (file : Text)
    (finished : (s.assemble raw file).2 = none) :
    let lines := ofRaw raw
    let table := (s.assemble raw file).1.assembly.labels
    table.toList = definitions table lines ∧
      (table.toList.map Label.name).Nodup ∧
      (∀ name, name ∈ table.toList.map Label.name ↔ ∃ line ∈ lines, line.label? = some name) ∧
      (∀ done line rest name, lines = done ++ line :: rest → line.label? = some name →
        (∀ l ∈ done, l.label? ≠ some name) →
        table.find? name =
          some ⟨name, (0x080D + (image table (active done)).length) % 65536, line.number⟩) ∧
      (s.assemble raw file).1.code = stub ++ image table (active lines) ∧
      ∀ line ∈ lines, ∀ b, Means table line.statement b ↔ b = line.bytes table := by
  intro lines table
  obtain ⟨-, labels, code⟩ := assemble_eq_none finished
  refine ⟨labels, ?_, ?_, ?_, code, ?_⟩
  · rw [labels, definitions, map_name_definitionsFrom]
    exact nodup_active_labels lines
  · intro name
    rw [labels, List.mem_map]
    exact exists_mem_definitions_iff table lines name
  · intro done line rest name split hl first
    have here : table.toList = definitions table (done ++ line :: rest) := by
      rw [← split]
      exact labels
    refine find?_of_first here hl fun hr => ?_
    obtain ⟨l, hm, e⟩ := (redefines_iff hl).mp hr
    exact first l hm e
  · intro line _ b
    exact means_iff table line.statement b

/-- A jump forward, a jump back to the first of two definitions, and a jump to its own line. -/
theorem assemble_meaning_jumps :
    let raw : List Text :=
      [['l', ':', 'J', 'M', 'P', ' ', 'e', ';', '?'], [],
       ['e', ':', 'l', 'd', 'a', ' ', '#', '5'], ['l', ':', 'N', 'O', 'P'],
       ['m', ':', 'J', 'S', 'R', ' ', 'm'], ['J', 'M', 'P', ' ', 'l']]
    let r := (new {}).assemble raw []
    r.2 = none ∧ r.1.code = stub ++ image r.1.assembly.labels (active (ofRaw raw)) ∧
      r.1.code.drop 12 =
        [0x4C, 0x10, 0x08, 0xA9, 0x05, 0x20, 0x12, 0x08, 0x4C, 0x0D, 0x08] := by
  intro raw r
  have finished : r.2 = none := by decide +kernel
  obtain ⟨-, -, -, -, code, -⟩ := assemble_meaning (new {}) raw [] finished
  exact ⟨finished, code, by decide +kernel⟩

end Assembler
end Asm6502
