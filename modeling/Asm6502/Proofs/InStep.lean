import Asm6502.Listing.Layout
import Asm6502.Proofs.Decoding
import Asm6502.Proofs.Meaning
import Asm6502.Proofs.Numerals

/-! Decoding an assembled program meets every line again. The stub is read as instructions and
runs, as if it were code, but its last byte ends an instruction; from there on the decoder
starts where each line starts. -/
namespace Asm6502

open SourceLine

namespace Form

def mode : Form → Mode
  | single _ => .single
  | immediate _ _ => .immediate
  | absolute _ _ => .absolute
  | reference _ _ => .absolute

def operandText (labels : LabelTable) : Form → Text
  | single _ => []
  | immediate _ value => '#' :: '$' :: Text.hex 2 value
  | absolute _ address => '$' :: Text.hex 4 address
  | reference _ symbol => '$' :: Text.hex 4 (addressOf labels symbol)

end Form

/-- A decoded instruction shows a line whose bytes start `offset` bytes into the image. -/
structure Shows (table : LabelTable) (offset : Nat) (line : SourceLine) (i : Instruction) :
    Prop where
  bytes : i.bytes = line.bytes table
  address : i.address = (0x0801 + offset) % 65536
  mnemonic : i.mnemonic = ((splitLabel line.text).2.takeWhile isWordChar).map Char.toUpper
  form : ∃ form, line.statement.form = .ok (some form) ∧ i.mode = form.mode ∧
    i.operand = form.operandText table

/-- Entries that show just the lines that have bytes, in their order. -/
inductive InStep (table : LabelTable) : Nat → List SourceLine → List Entry → Prop where
  | nil {offset : Nat} : InStep table offset [] []
  | silent {offset : Nat} {line : SourceLine} {rest : List SourceLine} {entries : List Entry} :
      line.bytes table = [] → InStep table offset rest entries →
      InStep table offset (line :: rest) entries
  | shown {offset : Nat} {line : SourceLine} {rest : List SourceLine} {i : Instruction}
      {entries : List Entry} :
      line.bytes table ≠ [] → Shows table offset line i →
      InStep table (offset + (line.bytes table).length) rest entries →
      InStep table offset (line :: rest) (.instruction i :: entries)

/-- The addresses of a table, and the zero for a missing symbol, fit a word. -/
def InRange (table : LabelTable) : Prop :=
  ∀ symbol, 0 ≤ Form.addressOf table symbol ∧ Form.addressOf table symbol < 65536

theorem exists_operation {table : LabelTable} (range : InRange table) {s : Statement} {form : Form}
    (h : s.form = .ok (some form)) :
    ∃ (m : Mnemonic) (operand : Option Text) (slot : Slot) (payload : List UInt8),
      s = .instruction m.name operand ∧
      m.slot? form.mode = some slot ∧ form.bytes table = slot.opcode :: payload ∧
      payload.length = form.mode.operandSize ∧
      Listing.operandText form.mode (Listing.littleEndian payload) = form.operandText table := by
  unfold Statement.form at h
  split at h
  · rename_i name operand
    split at h
    · rename_i m hm
      obtain rfl := Mnemonic.name_eq_of_ofName? hm
      rcases Form.choose_eq_some h with hs | ⟨_, hi | ⟨_, ha⟩⟩
      · obtain ⟨slot, hslot, rfl, _⟩ := Form.single?_eq_some hs
        exact ⟨m, operand, slot, [], rfl, hslot, rfl, rfl, rfl⟩
      · obtain ⟨slot, t, value, hslot, rfl, _, le, rfl⟩ := Form.immediate?_eq_some hi
        refine ⟨m, some t, slot, [lowByte value], rfl, hslot, rfl, rfl, ?_⟩
        rw [Listing.littleEndian_lowByte (by omega) (by omega)]
        rfl
      · obtain ⟨slot, t, hslot, rfl, ⟨value, _, le, rfl⟩ | ⟨symbol, _, rfl⟩⟩ :=
          Form.absolute?_eq_some ha
        · refine ⟨m, some t, slot, wordBytes value, rfl, hslot, rfl, rfl, ?_⟩
          rw [Listing.littleEndian_wordBytes (by omega) (by omega)]
          rfl
        · refine ⟨m, some t, slot, wordBytes (Form.addressOf table symbol), rfl, hslot, rfl, rfl,
            ?_⟩
          rw [Listing.littleEndian_wordBytes (range symbol).1 (range symbol).2]
          rfl
    · cases h
  · cases h

theorem mnemonic_of_parse {t name : Text} {operand : Option Text}
    (h : Statement.parse t = .instruction name operand) :
    name = (t.takeWhile isWordChar).map Char.toUpper := by
  unfold Statement.parse at h
  split at h
  · cases h
  · split at h
    · cases h
    · cases h
      rfl
    · split at h
      · split at h
        · cases h
          rfl
        · cases h
      · cases h

theorem exists_form {table : LabelTable} {line : SourceLine} (h : line.bytes table ≠ []) :
    ∃ form, line.statement.form = .ok (some form) ∧ line.bytes table = form.bytes table := by
  unfold SourceLine.bytes Statement.bytes at h ⊢
  split at h
  · rename_i form hf
    exact ⟨form, hf, rfl⟩
  · exact absurd rfl h

namespace Listing

variable {table : LabelTable} (labels : List (Text × Int))

theorem advance_mod (address : Int) (n : Nat) :
    advance (address % 65536) n = (address + n) % 65536 := by
  unfold advance
  omega

theorem decodeFrom_line {isCode : Int → Bool} (range : InRange table) {line : SourceLine}
    (emits : line.bytes table ≠ []) (offset : Nat)
    (code : isCode ((0x0801 + offset) % 65536) = true) (p : Progress) (rest : List UInt8) :
    ∃ i, Shows table offset line i ∧
      decodeFrom isCode labels ((0x0801 + offset) % 65536) p (line.bytes table ++ rest) =
        decodeFrom isCode labels
          ((0x0801 + (offset + (line.bytes table).length : Nat)) % 65536) (p.addInstruction i)
          rest := by
  obtain ⟨form, hf, hb⟩ := exists_form emits
  obtain ⟨m, operand, slot, payload, hs, hslot, bytes, size, text⟩ := exists_operation range hf
  have found : operationAt? isCode ((0x0801 + offset) % 65536) slot.opcode =
      some ⟨m, form.mode, slot⟩ := by
    rw [operationAt?, if_pos code]
    exact Operation.ofOpcode?_of_slot? hslot
  -- Only a branch shows a target in place of its operand, and no form is one.
  have straight : form.mode ≠ .branch := by cases form <;> simp [Form.mode]
  refine ⟨instruction labels ((0x0801 + offset) % 65536) ⟨m, form.mode, slot⟩ payload,
    ⟨?_, rfl, mnemonic_of_parse hs, form, hf, rfl, ?_⟩, ?_⟩
  · rw [hb, bytes]
    rfl
  · rw [← text]
    simp [instruction, straight]
  · rw [hb, bytes, List.cons_append, decodeFrom_code found size, advance_mod]
    congr 1
    simp only [List.length_cons]
    push_cast
    omega

theorem decodeFrom_image_of_code {isCode : Int → Bool} (range : InRange table)
    (lines : List SourceLine) (offset : Nat)
    (code : ∀ n < (image table lines).length, isCode ((0x0801 + (offset + n : Nat)) % 65536) = true)
    (p : Progress) :
    ∃ entries, InStep table offset lines entries ∧
      decodeFrom isCode labels ((0x0801 + offset) % 65536) p (image table lines) =
        p.finish ++ entries := by
  induction lines generalizing offset p with
  | nil => exact ⟨[], .nil, by simp [image, decodeFrom]⟩
  | cons line rest ih =>
    rw [image_cons, List.length_append] at code
    rw [image_cons]
    by_cases emits : line.bytes table = []
    · rw [emits, List.length_nil, Nat.zero_add] at code
      obtain ⟨entries, step, he⟩ := ih offset code p
      exact ⟨entries, .silent emits step, by rw [emits]; exact he⟩
    · have some := List.length_pos_iff.mpr emits
      have behind : ∀ n < (image table rest).length,
          isCode ((0x0801 + (offset + (line.bytes table).length + n : Nat)) % 65536) = true := by
        intro n inside
        rw [Nat.add_assoc]
        exact code _ (by omega)
      obtain ⟨i, shows, hd⟩ :=
        decodeFrom_line labels range emits offset (code 0 (by omega)) p (image table rest)
      obtain ⟨entries, step, he⟩ :=
        ih (offset + (line.bytes table).length) behind (p.addInstruction i)
      refine ⟨.instruction i :: entries, .shown emits shows step, ?_⟩
      rw [hd, he, Progress.finish_addInstruction, List.append_assoc]
      rfl

theorem decodeFrom_image (range : InRange table) (lines : List SourceLine) (offset : Nat)
    (p : Progress) :
    ∃ entries, InStep table offset lines entries ∧
      decodeFrom (fun _ => true) labels ((0x0801 + offset) % 65536) p (image table lines) =
        p.finish ++ entries :=
  decodeFrom_image_of_code labels range lines offset (fun _ _ => rfl) p

/-- From an address on the decoder takes `xs` whole, whatever comes after them. -/
def Takes (address : Int) (p : Progress) (xs : List UInt8) (p' : Progress) : Prop :=
  p'.bytes = p.bytes ++ xs ∧ ∀ rest,
    decodeFrom (fun _ => true) labels address p (xs ++ rest) =
      decodeFrom (fun _ => true) labels (advance address xs.length) p' rest

theorem Takes.trans {labels : List (Text × Int)} {address : Int} {p q r : Progress}
    {xs ys : List UInt8} (h : Takes labels address p xs q)
    (h' : Takes labels (advance address xs.length) q ys r) :
    Takes labels address p (xs ++ ys) r := by
  refine ⟨by rw [h'.1, h.1, List.append_assoc], fun rest => ?_⟩
  rw [List.append_assoc, h.2, h'.2]
  congr 1
  simp only [advance, List.length_append]
  push_cast
  omega

theorem takes_other (address : Int) (p : Progress) (b : UInt8) (h : Operation.ofOpcode? b = none) :
    Takes labels address p [b] (p.addByte address b) :=
  ⟨Progress.bytes_addByte p address b, fun _ => decodeFrom_data h⟩

theorem takes_operation (address : Int) (p : Progress) (o : Operation) (operand : List UInt8)
    (h : o ∈ Operation.all) (size : operand.length = o.mode.operandSize) :
    Takes labels address p (o.slot.opcode :: operand)
      (p.addInstruction (instruction labels address o operand)) := by
  have found : operationAt? (fun _ => true) address o.slot.opcode = some o :=
    Operation.ofOpcode?_of_mem o h
  refine ⟨Progress.bytes_addInstruction p _, fun rest => ?_⟩
  rw [List.cons_append, decodeFrom_code found size, List.length_cons, Nat.add_comm]

/-- The stub is taken apart as if it were code, and nothing of it is left open. -/
theorem takes_stub : ∃ p, Takes labels 0x0801 {} stub p := by
  rw [stub_eq]
  exact ⟨_, (takes_other labels _ _ 0x0C (by decide)).trans <|
    (takes_operation labels _ _ ⟨.php, .single, .fixed 0x08 3⟩ [] (by decide) rfl).trans <|
    (takes_operation labels _ _ ⟨.brk, .single, .fixed 0x00 7⟩ [] (by decide) rfl).trans <|
    (takes_operation labels _ _ ⟨.brk, .single, .fixed 0x00 7⟩ [] (by decide) rfl).trans <|
    (takes_other labels _ _ 0x9E (by decide)).trans <|
    (takes_other labels _ _ 0x32 (by decide)).trans <|
    (takes_operation labels _ _ ⟨.bmi, .branch, .relative 0x30⟩ [0x36] (by decide) rfl).trans <|
    (takes_operation labels _ _ ⟨.and, .indirectY, .paged 0x31 5⟩ [0x00] (by decide) rfl).trans <|
    (takes_operation labels _ _ ⟨.brk, .single, .fixed 0x00 7⟩ [] (by decide) rfl).trans <|
    takes_operation labels _ _ ⟨.brk, .single, .fixed 0x00 7⟩ [] (by decide) rfl⟩

end Listing

theorem inRange_of_definitions {table labels : LabelTable} {lines : List SourceLine}
    (h : table.toList = definitions labels lines) : InRange table := by
  intro symbol
  unfold Form.addressOf
  split
  · rename_i label hf
    rw [LabelTable.find?_eq_find?_toList, h] at hf
    exact address_of_mem_definitionsFrom (List.mem_of_find?_eq_some hf)
  · decide

namespace Assembler

/-- The listing of an assembled program: entries for the stub, then one instruction for each
line that has bytes, and nothing else. -/
theorem decode_assembled (s : Assembler) (raw : List Text) (file : Text)
    (finished : (s.assemble raw file).2 = none) (labels : List (Text × Int))
    (o : Listing.Options) (everywhere : o.isCode = none) :
    let r := (s.assemble raw file).1
    Listing.loadAddressOf r.program = 0x0801 ∧
      ∃ head body, Listing.decodeProgram o.decodes labels r.program = head ++ body ∧
        head.flatMap Entry.bytes = stub ∧
        InStep r.assembly.labels stub.length (active (ofRaw raw)) body := by
  intro r
  obtain ⟨-, table, code⟩ := assemble_eq_none finished
  have load : Listing.loadAddressOf r.program = 0x0801 := rfl
  have bytes : r.program.drop 2 = stub ++ image r.assembly.labels (active (ofRaw raw)) := code
  have decodes : o.decodes = fun _ => true := by simp [Listing.Options.decodes, everywhere]
  obtain ⟨p, covers, after⟩ := Listing.takes_stub labels
  obtain ⟨body, step, he⟩ := Listing.decodeFrom_image labels (inRange_of_definitions table)
    (active (ofRaw raw)) stub.length p
  refine ⟨load, p.finish, body, ?_, covers, step⟩
  rw [Listing.decodeProgram, load, bytes, decodes, Listing.decode, after]
  exact he

/-- A loop with a line in it that is no instruction: nine entries for the stub, then two. -/
theorem decode_assembled_loop :
    let raw : List Text :=
      [['l', ':', 'l', 'd', 'a', ' ', '#', '5'], ['?'], ['J', 'M', 'P', ' ', 'l']]
    let r := (new {}).assemble raw []
    let entries := Listing.decodeProgram (Listing.Options.decodes {}) [] r.1.program
    r.2 = none ∧
      (∃ head body, entries = head ++ body ∧ head.flatMap Entry.bytes = stub ∧
        InStep r.1.assembly.labels stub.length (active (ofRaw raw)) body) ∧
      (entries.drop 9).map Entry.bytes = [[0xA9, 0x05], [0x4C, 0x0D, 0x08]] := by
  intro raw r entries
  have finished : r.2 = none := by decide +kernel
  exact ⟨finished, (decode_assembled (new {}) raw [] finished [] {} rfl).2, by decide +kernel⟩

end Assembler
end Asm6502
