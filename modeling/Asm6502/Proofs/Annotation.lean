import Asm6502.Proofs.Coverage
import Asm6502.Proofs.InStep
import Asm6502.Proofs.PassInvariance

/-! A listing of an assembled program with its own labels. Where only the code is decoded, the stub
is one run and every line with bytes is one instruction. A label stands at an instruction or behind
the last of them, so the names in the listing are those of the source. -/
namespace Asm6502

open SourceLine

namespace Listing

theorem nameAt_from (labels : List (Text × Int)) (address : Int) (name : Option Text) :
    labels.foldl (fun name l => if l.2 % 65536 = address then some l.1 else name) name =
      (((labels.filter fun l => l.2 % 65536 = address).getLast?).map Prod.fst).or name := by
  induction labels generalizing name with
  | nil => rfl
  | cons l rest ih =>
    rw [List.foldl_cons, ih, List.filter_cons]
    by_cases here : l.2 % 65536 = address
    · rw [if_pos here, if_pos (decide_eq_true here), List.getLast?_cons]
      cases (rest.filter fun l => l.2 % 65536 = address).getLast? <;> rfl
    · rw [if_neg here, if_neg (by simpa using here)]

theorem nameAt_eq (labels : List (Text × Int)) (address : Int) :
    nameAt labels address =
      ((labels.filter fun l => l.2 % 65536 = address).getLast?).map Prod.fst := by
  rw [nameAt, nameAt_from, Option.or_none]

theorem nameAt_symbols {table : LabelTable}
    (range : ∀ l ∈ table.toList, 0 ≤ l.address ∧ l.address < 65536) (address : Int) :
    nameAt table.symbols address =
      ((table.toList.filter fun l => l.address = address).getLast?).map Label.name := by
  have same : table.toList.filter (fun l => decide (l.address % 65536 = address)) =
      table.toList.filter fun l => decide (l.address = address) := by
    apply List.filter_congr
    intro l member
    have bounds := range l member
    rw [Int.emod_eq_of_lt bounds.1 bounds.2]
  rw [nameAt_eq, LabelTable.symbols, List.filter_map, List.getLast?_map, Option.map_map, ← same]
  rfl

theorem label_of_mem_decodeProgram {table : LabelTable} {isCode : Int → Bool} {file : List UInt8}
    {i : Instruction} (range : ∀ l ∈ table.toList, 0 ≤ l.address ∧ l.address < 65536)
    (member : .instruction i ∈ decodeProgram isCode table.symbols file) :
    i.label = ((table.toList.filter fun l => l.address = i.address).getLast?).map Label.name := by
  obtain ⟨address, operation, operand, -, -, rfl⟩ := found_of_mem_decode member
  exact nameAt_symbols range address

section Runs

variable {isCode : Int → Bool} (labels : List (Text × Int)) (base start : Int)
  (entries : List Entry) (rest : List UInt8)

theorem decodeFrom_open_run (k : Nat) (bytes xs : List UInt8)
    (outside : ∀ n < xs.length, isCode (advance base (k + n)) = false) :
    decodeFrom isCode labels (advance base k) ⟨entries, some (start, bytes)⟩ (xs ++ rest) =
      decodeFrom isCode labels (advance base (k + xs.length))
        ⟨entries, some (start, xs.reverse ++ bytes)⟩ rest := by
  induction xs generalizing k bytes with
  | nil => rfl
  | cons x xs ih =>
    have data : operationAt? isCode (advance base k) x = none := by
      have here := outside 0 (by simp)
      rw [Nat.add_zero] at here
      simp [operationAt?, here]
    have behind : ∀ n < xs.length, isCode (advance base (k + 1 + n)) = false := by
      intro n inside
      rw [Nat.add_assoc, Nat.add_comm 1 n]
      apply outside
      rw [List.length_cons]
      omega
    rw [List.cons_append, decodeFrom_data data, advance_advance]
    refine (ih (k + 1) (x :: bytes) behind).trans ?_
    rw [List.length_cons, Nat.add_assoc, Nat.add_comm 1, List.reverse_cons, List.append_assoc]
    rfl

theorem decodeFrom_run (xs : List UInt8) (some : xs ≠ [])
    (outside : ∀ n < xs.length, isCode (advance base n) = false) :
    decodeFrom isCode labels (advance base 0) {} (xs ++ rest) =
      decodeFrom isCode labels (advance base xs.length)
        ⟨[], .some (advance base 0, xs.reverse)⟩ rest := by
  obtain ⟨x, xs, rfl⟩ := List.exists_cons_of_ne_nil some
  have data : operationAt? isCode (advance base 0) x = none := by
    simp [operationAt?, outside 0 (by simp)]
  have behind : ∀ n < xs.length, isCode (advance base (1 + n)) = false := by
    intro n inside
    apply outside
    rw [List.length_cons]
    omega
  rw [List.cons_append, decodeFrom_data data, advance_advance]
  refine (decodeFrom_open_run labels base (advance base 0) [] rest 1 [x] xs behind).trans ?_
  rw [List.length_cons, Nat.add_comm 1, List.reverse_cons]

end Runs

end Listing

namespace InStep

variable {table : LabelTable} {offset : Nat} {lines : List SourceLine} {entries : List Entry}

theorem exists_instructions (h : InStep table offset lines entries) :
    ∃ is : List Instruction, entries = is.map .instruction ∧
      is.length = lines.countP fun l => !(l.bytes table).isEmpty := by
  induction h with
  | nil => exact ⟨[], rfl, rfl⟩
  | silent empty _ ih =>
    obtain ⟨is, rfl, count⟩ := ih
    exact ⟨is, rfl, by simp [count, empty]⟩
  | @shown _ _ _ i _ emits _ _ ih =>
    obtain ⟨is, rfl, count⟩ := ih
    exact ⟨i :: is, rfl, by simp [count, emits]⟩

theorem exists_line {i : Instruction} (h : InStep table offset lines entries)
    (member : .instruction i ∈ entries) :
    ∃ before line after, lines = before ++ line :: after ∧
      Shows table (offset + (image table before).length) line i := by
  induction h with
  | nil => cases member
  | @silent offset line rest entries empty _ ih =>
    obtain ⟨before, l, after, rfl, shows⟩ := ih member
    refine ⟨line :: before, l, after, rfl, ?_⟩
    rwa [image_cons, empty, List.nil_append]
  | @shown offset line rest j entries emits first _ ih =>
    rcases List.mem_cons.mp member with here | later
    · cases here
      exact ⟨[], line, rest, rfl, first⟩
    · obtain ⟨before, l, after, rfl, shows⟩ := ih later
      refine ⟨line :: before, l, after, rfl, ?_⟩
      rw [Nat.add_assoc, ← List.length_append] at shows
      exact shows

theorem exists_shown {before after : List SourceLine} {line : SourceLine}
    (h : InStep table offset lines entries) (split : lines = before ++ line :: after)
    (emits : line.bytes table ≠ []) :
    ∃ i, .instruction i ∈ entries ∧
      Shows table (offset + (image table before).length) line i := by
  induction h generalizing before with
  | nil => cases before <;> cases split
  | @silent offset l rest entries empty _ ih =>
    cases before with
    | nil =>
      cases split
      exact absurd empty emits
    | cons head before =>
      cases split
      obtain ⟨i, member, shows⟩ := ih rfl
      refine ⟨i, member, ?_⟩
      rwa [image_cons, empty, List.nil_append]
  | @shown offset l rest j entries _ first _ ih =>
    cases before with
    | nil =>
      cases split
      exact ⟨j, List.mem_cons_self, first⟩
    | cons head before =>
      cases split
      obtain ⟨i, member, shows⟩ := ih rfl
      refine ⟨i, List.mem_cons_of_mem _ member, ?_⟩
      rw [Nat.add_assoc, ← List.length_append] at shows
      exact shows

end InStep

theorem Shows.operand_of_reference {table : LabelTable} {offset : Nat} {line : SourceLine}
    {i : Instruction} {opcode : UInt8} {symbol : Text} {label : Label}
    (shows : Shows table offset line i)
    (form : line.statement.form = .ok (some (.reference opcode symbol)))
    (found : table.find? symbol = some label) : i.operand = '$' :: Text.hex 4 label.address := by
  obtain ⟨other, same, -, operand⟩ := shows.form
  cases form.symm.trans same
  rw [operand, Form.operandText, Form.addressOf, found]

namespace SourceLine

variable {labels : LabelTable} {offset : Nat} {lines : List SourceLine}

theorem exists_split_of_mem_definitionsFrom {label : Label}
    (h : label ∈ definitionsFrom labels offset lines) :
    ∃ before after, lines = before ++ after ∧
      label.address = (startAddress + (offset + (image labels before).length : Nat)) % 65536 := by
  induction lines generalizing offset with
  | nil => cases h
  | cons line rest ih =>
    rcases List.mem_append.mp h with here | later
    · obtain ⟨name, -, rfl⟩ := Option.map_eq_some_iff.mp (Option.mem_toList.mp here)
      exact ⟨[], line :: rest, rfl, rfl⟩
    · obtain ⟨before, after, rfl, place⟩ := ih later
      refine ⟨line :: before, after, rfl, ?_⟩
      rw [Nat.add_assoc, ← List.length_append] at place
      exact place

theorem exists_next (table : LabelTable) (lines : List SourceLine) :
    image table lines = [] ∨ ∃ silent line rest, lines = silent ++ line :: rest ∧
      image table silent = [] ∧ line.bytes table ≠ [] := by
  induction lines with
  | nil => exact .inl rfl
  | cons line rest ih =>
    by_cases empty : line.bytes table = []
    · have skip : ∀ ls, image table (line :: ls) = image table ls := by
        intro ls
        rw [image_cons, empty, List.nil_append]
      rcases ih with none | ⟨silent, l, after, rfl, quiet, emits⟩
      · exact .inl ((skip rest).trans none)
      · exact .inr ⟨line :: silent, l, after, rfl, (skip silent).trans quiet, emits⟩
    · exact .inr ⟨[], line, rest, rfl, rfl, empty⟩

theorem not_inside_of_splits (table : LabelTable) {line : SourceLine}
    {before after before' after' : List SourceLine}
    (split : lines = before ++ after) (split' : lines = before' ++ line :: after') :
    (image table before).length ≤ (image table before').length ∨
      (image table before').length + (line.bytes table).length ≤ (image table before).length := by
  have same : before ++ after = before' ++ line :: after' := split.symm.trans split'
  rcases List.append_eq_append_iff.mp same with ⟨more, rfl, -⟩ | ⟨more, rfl, rest⟩
  · left
    rw [image_append, List.length_append]
    exact Nat.le_add_right _ _
  · cases more with
    | nil =>
      left
      rw [List.append_nil]
    | cons head more =>
      right
      cases rest
      rw [image_append, image_cons, List.length_append, List.length_append]
      omega

end SourceLine

theorem length_stub : stub.length = 12 := by decide

theorem Listing.decode_ranged {table : LabelTable} (range : InRange table)
    (labels : List (Text × Int)) {lines : List SourceLine}
    (fits : (stub ++ image table lines).length ≤ 0xF7FF) :
    ∃ entries, InStep table stub.length lines entries ∧
      decode (inCodeRanges [(0x080D, 0xFFFF)]) labels 0x0801 (stub ++ image table lines) =
        .run 0x0801 stub :: entries := by
  rw [List.length_append, length_stub] at fits
  have outside : ∀ n < stub.length,
      inCodeRanges [(0x080D, 0xFFFF)] (advance 0x0801 n) = false := by
    intro n inside
    have below : ¬ 0x080D ≤ advance 0x0801 n := by
      rw [length_stub] at inside
      unfold advance
      omega
    simp [inCodeRanges, below]
  have code : ∀ n < (image table lines).length,
      inCodeRanges [(0x080D, 0xFFFF)] ((0x0801 + (stub.length + n : Nat)) % 65536) = true := by
    intro n inside
    rw [length_stub]
    simp only [inCodeRanges, List.any_cons, List.any_nil, Bool.or_false, Bool.and_eq_true_iff,
      decide_eq_true_eq]
    omega
  have dumped := decodeFrom_run labels 0x0801 (image table lines) stub (by decide) outside
  obtain ⟨entries, step, rest⟩ := decodeFrom_image_of_code labels range lines stub.length code
    ⟨[], some (0x0801, stub.reverse)⟩
  refine ⟨entries, step, (dumped.trans rest).trans ?_⟩
  simp [Progress.finish, Progress.close]

/-- A label stands at an instruction or behind the last one, and never inside one. -/
theorem InStep.label_place {table : LabelTable} {lines : List SourceLine} {entries : List Entry}
    {label : Label} (step : InStep table stub.length lines entries)
    (fits : (stub ++ image table lines).length ≤ 0xF7FF)
    (defined : label ∈ definitionsFrom table 0 lines) :
    ((∃ i, .instruction i ∈ entries ∧ i.address = label.address) ∨
        label.address = (0x0801 + (stub ++ image table lines).length) % 65536) ∧
      ∀ i, .instruction i ∈ entries →
        ¬ (i.address < label.address ∧ label.address < i.address + i.bytes.length) := by
  rw [List.length_append, length_stub] at fits
  obtain ⟨before, after, split, place⟩ := exists_split_of_mem_definitionsFrom defined
  have place : label.address = (0x0801 + (12 + (image table before).length : Nat)) % 65536 := by
    rw [place, startAddress]
    omega
  have whole : image table lines = image table before ++ image table after := by
    rw [split, image_append]
  constructor
  · rcases exists_next table after with none | ⟨silent, line, rest, next, quiet, emits⟩
    · right
      rw [place, List.length_append, length_stub, whole, none, List.append_nil]
    · left
      have later : lines = (before ++ silent) ++ line :: rest := by simp [split, next]
      obtain ⟨i, member, shows⟩ := step.exists_shown later emits
      refine ⟨i, member, ?_⟩
      have same : image table (before ++ silent) = image table before := by
        rw [image_append, quiet, List.append_nil]
      rw [shows.address, place, length_stub, same]
  · intro i member
    obtain ⟨before', line, after', split', shows⟩ := step.exists_line member
    have apart := not_inside_of_splits table split split'
    have ends : (image table before).length ≤ (image table lines).length := by
      rw [whole, List.length_append]
      exact Nat.le_add_right _ _
    have ends' : (image table before').length + (line.bytes table).length ≤
        (image table lines).length := by
      rw [split', image_append, image_cons, List.length_append, List.length_append]
      omega
    rw [shows.address, shows.bytes, place, length_stub]
    omega

namespace Assembler

/-- The listing of an assembled program with its labels, where the code alone is decoded and the
image ends within the memory. It has the stub as one run and then an instruction for each line with
bytes. Each label stands at an instruction or behind the last of them, each instruction has the
last of the labels that stand there, and a reference shows the address of its label. -/
theorem listing_annotated (s : Assembler) (raw : List Text) (file : Text)
    (finished : (s.assemble raw file).2 = none)
    (fits : (s.assemble raw file).1.code.length ≤ 0xF7FF) (o : Listing.Options)
    (ranged : o.isCode = some (Listing.inCodeRanges [(0x080D, 0xFFFF)])) :
    let r := (s.assemble raw file).1
    let table := r.assembly.labels
    let lines := active (ofRaw raw)
    ∃ is : List Instruction,
      Listing.decodeProgram o.decodes table.symbols r.program =
        .run 0x0801 stub :: is.map .instruction ∧
      InStep table stub.length lines (is.map .instruction) ∧
      is.length = lines.countP (fun l => !(l.bytes table).isEmpty) ∧
      (∀ label ∈ table.toList,
        ((∃ i ∈ is, i.address = label.address) ∨
          label.address = (0x0801 + r.code.length) % 65536) ∧
        ∀ i ∈ is, ¬ (i.address < label.address ∧ label.address < i.address + i.bytes.length)) ∧
      (∀ i ∈ is, i.label =
        ((table.toList.filter fun l => l.address = i.address).getLast?).map Label.name) ∧
      ∀ before line after opcode symbol label, lines = before ++ line :: after →
        line.statement.form = .ok (some (.reference opcode symbol)) →
        table.find? symbol = some label →
        ∃ i ∈ is, Shows table (stub.length + (image table before).length) line i ∧
          i.operand = '$' :: Text.hex 4 label.address := by
  intro r table lines
  obtain ⟨-, complete, code⟩ := assemble_eq_none finished
  have code : r.code = stub ++ image table lines := code
  have fits : (stub ++ image table lines).length ≤ 0xF7FF := code ▸ fits
  have range : ∀ l ∈ table.toList, 0 ≤ l.address ∧ l.address < 65536 := by
    rw [complete]
    intro l
    exact address_of_mem_definitionsFrom
  obtain ⟨entries, step, listed⟩ :=
    Listing.decode_ranged (inRange_of_definitions complete) table.symbols fits
  obtain ⟨is, rfl, count⟩ := step.exists_instructions
  have member : ∀ i, Entry.instruction i ∈ is.map Entry.instruction ↔ i ∈ is := by simp
  have decoded : Listing.decodeProgram o.decodes table.symbols r.program =
      .run 0x0801 stub :: is.map .instruction := by
    have payload : r.program.drop 2 = stub ++ image table lines := code
    have decodes : o.decodes = Listing.inCodeRanges [(0x080D, 0xFFFF)] := by
      simp [Listing.Options.decodes, ranged]
    rw [Listing.decodeProgram, payload, decodes]
    exact listed
  refine ⟨is, decoded, step, count, ?_, ?_, ?_⟩
  · intro label defined
    rw [complete] at defined
    have place := step.label_place fits defined
    simp only [member] at place
    rwa [code]
  · intro i inside
    apply Listing.label_of_mem_decodeProgram range
    rw [decoded]
    exact List.mem_cons_of_mem _ ((member i).mpr inside)
  · intro before line after opcode symbol label split form found
    have emits : line.bytes table ≠ [] := by simp [bytes_of_reference form]
    obtain ⟨i, entry, shows⟩ := step.exists_shown split emits
    exact ⟨i, (member i).mp entry, shows, shows.operand_of_reference form found⟩

/-- Two labels at one address, of which the later is shown, one on a line without bytes, and one
behind the last line. -/
theorem listing_annotated_loop :
    let raw : List Text :=
      [['a', ':'], ['b', ':', 'J', 'M', 'P', ' ', 'e'], ['?'], ['N', 'O', 'P'],
       ['J', 'M', 'P', ' ', 'a'], ['e', ':']]
    let o : Listing.Options := { isCode := some (Listing.inCodeRanges [(0x080D, 0xFFFF)]) }
    let r := (new {}).assemble raw []
    let entries := Listing.decodeProgram o.decodes r.1.assembly.labels.symbols r.1.program
    r.2 = none ∧ r.1.code.length ≤ 0xF7FF ∧
      (∃ is : List Instruction, entries = .run 0x0801 stub :: is.map .instruction ∧
        ∀ i ∈ is, i.label =
          ((r.1.assembly.labels.toList.filter fun l => l.address = i.address).getLast?).map
            Label.name) ∧
      r.1.assembly.labels.symbols = [(['a'], 0x080D), (['b'], 0x080D), (['e'], 0x0814)] ∧
      entries.filterMap (fun e => match e with
        | .instruction i => some (i.address, i.text, i.label)
        | .run _ _ => none) =
        [(0x080D, ['J', 'M', 'P', ' ', '$', '0', '8', '1', '4'], some ['b']),
         (0x0810, ['N', 'O', 'P'], none),
         (0x0811, ['J', 'M', 'P', ' ', '$', '0', '8', '0', 'D'], none)] := by
  intro raw o r entries
  have finished : r.2 = none := by decide +kernel
  have fits : r.1.code.length ≤ 0xF7FF := by decide +kernel
  obtain ⟨is, decoded, -, -, -, named, -⟩ := listing_annotated (new {}) raw [] finished fits o rfl
  exact ⟨finished, fits, ⟨is, decoded, named⟩, by decide +kernel⟩

end Assembler

end Asm6502
