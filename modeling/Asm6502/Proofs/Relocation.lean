import Asm6502.Proofs.PassInvariance
import Asm6502.Proofs.SourceLayout

/-! Lines in front of a source that have no label and nothing wrong with them. They move the
source: its labels stand further on by as many bytes as the lines have, and every reference to a
label of the source follows it. No other byte changes. -/
namespace Asm6502

open SourceLine

def Label.move (k : Nat) (l : Label) : Label := { l with address := (l.address + k) % 65536 }

namespace SourceLine

section Lead

variable {lead : List SourceLine} (unlabelled : ∀ l ∈ lead, l.label? = none)
include unlabelled

theorem redefines_behind (earlier : List SourceLine) (line : SourceLine) :
    Redefines (lead ++ earlier) line ↔ Redefines earlier line := by
  cases named : line.label? with
  | none => simp [Redefines, named]
  | some name =>
    rw [redefines_iff named, redefines_iff named]
    constructor
    · rintro ⟨l, member, same⟩
      rcases List.mem_append.mp member with front | member
      · rw [unlabelled l front] at same
        cases same
      · exact ⟨l, member, same⟩
    · rintro ⟨l, member, same⟩
      exact ⟨l, List.mem_append_right _ member, same⟩

theorem activeFrom_behind (earlier lines : List SourceLine) :
    activeFrom (lead ++ earlier) lines = activeFrom earlier lines := by
  induction lines generalizing earlier with
  | nil => rfl
  | cons line rest ih =>
    simp only [activeFrom, List.append_assoc, ih, redefines_behind unlabelled]

theorem activeFrom_unlabelled (earlier : List SourceLine) : activeFrom earlier lead = lead := by
  induction lead generalizing earlier with
  | nil => rfl
  | cons line rest ih =>
    have counts := not_redefines_of_unlabelled (unlabelled line List.mem_cons_self) earlier
    rw [activeFrom, if_neg counts, ih fun l member => unlabelled l (List.mem_cons_of_mem _ member)]

theorem active_behind (lines : List SourceLine) :
    active (lead ++ lines) = lead ++ active lines := by
  have behind := activeFrom_behind unlabelled [] lines
  rw [List.append_nil] at behind
  rw [active_append, behind, active, activeFrom_unlabelled unlabelled]
  rfl

theorem repeat?_behind (earlier : List SourceLine) (line : SourceLine) :
    repeat? (lead ++ earlier) line = repeat? earlier line := by
  unfold repeat?
  cases line.label? with
  | none => rfl
  | some name =>
    have front : lead.find? (fun l => l.label? == some name) = none := by
      rw [List.find?_eq_none]
      intro l member
      simp [unlabelled l member]
    simp only [Option.bind_some, List.find?_append, front, Option.none_or]

theorem repeatsFrom_behind (file : Text) (earlier lines : List SourceLine) :
    repeatsFrom file (lead ++ earlier) lines = repeatsFrom file earlier lines := by
  induction lines generalizing earlier with
  | nil => rfl
  | cons line rest ih =>
    simp only [repeatsFrom, List.append_assoc, ih, repeat?_behind unlabelled]

theorem repeatsFrom_unlabelled (file : Text) (earlier : List SourceLine) :
    repeatsFrom file earlier lead = [] := by
  induction lead generalizing earlier with
  | nil => rfl
  | cons line rest ih =>
    have new : repeat? earlier line = none := by
      simp [repeat?, unlabelled line List.mem_cons_self]
    rw [repeatsFrom, new, ih fun l member => unlabelled l (List.mem_cons_of_mem _ member)]
    rfl

theorem repeats_behind (file : Text) (lines : List SourceLine) :
    repeats file (lead ++ lines) = repeats file lines := by
  have behind := repeatsFrom_behind unlabelled file [] lines
  rw [List.append_nil] at behind
  rw [repeats, repeatsFrom_append, repeatsFrom_unlabelled unlabelled, List.nil_append,
    List.nil_append, behind]
  rfl

theorem definitionsFrom_unlabelled (labels : LabelTable) (offset : Nat) :
    definitionsFrom labels offset lead = [] := by
  apply List.map_eq_nil_iff.mp
  rw [map_name_definitionsFrom, List.filterMap_eq_nil_iff]
  exact unlabelled

end Lead

theorem definitionsFrom_move (labels : LabelTable) (offset k : Nat) (lines : List SourceLine) :
    definitionsFrom labels (k + offset) lines =
      (definitionsFrom labels offset lines).map (Label.move k) := by
  induction lines generalizing offset with
  | nil => rfl
  | cons line rest ih =>
    rw [definitionsFrom, definitionsFrom, Nat.add_assoc, ih, List.map_append]
    congr 1
    cases line.label? with
    | none => rfl
    | some name =>
      simp only [Option.map_some, Option.toList_some, List.map_cons, List.map_nil, Label.move]
      congr 2
      omega

theorem tableOf_behind {lead : List SourceLine} (unlabelled : ∀ l ∈ lead, l.label? = none)
    (labels : LabelTable) (lines : List SourceLine) :
    tableOf labels (lead ++ lines) =
      (tableOf labels lines).map (Label.move (image labels lead).length) := by
  have moved := definitionsFrom_move labels 0 (image labels lead).length (active lines)
  simp [tableOf, LabelTable.map, definitions, active_behind unlabelled, definitionsFrom_append,
    definitionsFrom_unlabelled unlabelled, ← moved]

theorem findings_behind {lead : List SourceLine} (unlabelled : ∀ l ∈ lead, l.label? = none)
    (sound : ∀ l ∈ lead, ∀ table, l.statement.defect? table = none) (file : Text)
    (lines : List SourceLine) : findings file (lead ++ lines) = findings file lines := by
  have names : (tableOf {} (lead ++ lines)).toList.map Label.name =
      (tableOf {} lines).toList.map Label.name := by
    simp [tableOf_behind unlabelled, Label.move]
  have front : defects file (tableOf {} (lead ++ lines)) lead = [] := by
    rw [defects, List.filterMap_eq_nil_iff]
    intro l member
    rw [sound l member]
    rfl
  have rest : defects file (tableOf {} (lead ++ lines)) (active lines) =
      defects file (tableOf {} lines) (active lines) := by
    simp only [defects, Statement.defect?_of_names names]
  rw [findings, repeats_behind unlabelled, active_behind unlabelled, defects,
    List.filterMap_append]
  rw [defects] at front rest
  rw [front, rest]
  rfl

/-- The operand of a reference to a label in the table begins at byte `n` of the image. -/
def LinkedAt (table : LabelTable) (lines : List SourceLine) (n : Nat) : Prop :=
  ∃ before line after opcode symbol, lines = before ++ line :: after ∧
    line.statement.form = .ok (some (.reference opcode symbol)) ∧
    (table.find? symbol).isSome ∧ n = (image table before).length + 1

section Move

variable {table : LabelTable} {lines : List SourceLine} {line : SourceLine} {n : Nat} (k : Nat)

theorem find?_move (symbol : Text) :
    (table.map (Label.move k)).find? symbol = (table.find? symbol).map (Label.move k) :=
  LabelTable.find?_map (g := Label.move k) (fun _ => rfl) table symbol

theorem bytes_move_or_linked (table : LabelTable) (line : SourceLine) :
    line.bytes (table.map (Label.move k)) = line.bytes table ∨
      ∃ opcode symbol, line.statement.form = .ok (some (.reference opcode symbol)) ∧
        (table.find? symbol).isSome := by
  unfold bytes Statement.bytes
  split
  · rename_i form chosen
    cases form with
    | single opcode => exact .inl rfl
    | immediate opcode value => exact .inl rfl
    | absolute opcode address => exact .inl rfl
    | reference opcode symbol =>
      cases found : table.find? symbol with
      | some label => exact .inr ⟨opcode, symbol, chosen, by simp [found]⟩
      | none => simp [Form.bytes, Form.addressOf, find?_move, found]
  · exact .inl rfl

theorem length_image_move (lines : List SourceLine) :
    (image (table.map (Label.move k)) lines).length = (image table lines).length := by
  simp [image, List.length_flatMap, length_bytes]

theorem word_of_linkedAt (range : ∀ l ∈ table.toList, 0 ≤ l.address ∧ l.address < 65536)
    (linked : LinkedAt table lines n) :
    ∃ w : Int, 0 ≤ w ∧ w < 65536 ∧ ((image table lines).drop n).take 2 = wordBytes w ∧
      ((image (table.map (Label.move k)) lines).drop n).take 2 =
        wordBytes ((w + k) % 65536) := by
  obtain ⟨before, line, after, opcode, symbol, rfl, form, defined, rfl⟩ := linked
  obtain ⟨label, found⟩ := Option.isSome_iff_exists.mp defined
  have bounds : 0 ≤ label.address ∧ label.address < 65536 := by
    apply range
    rw [LabelTable.find?_eq_find?_toList] at found
    exact List.mem_of_find?_eq_some found
  -- In any table the operand stands behind the lines before and the opcode.
  have operand : ∀ t : LabelTable, ((image t (before ++ line :: after)).drop
      ((image t before).length + 1)).take 2 = wordBytes (Form.addressOf t symbol) := by
    intro t
    have spelt : image t (before ++ line :: after) =
        (image t before ++ [opcode]) ++ (wordBytes (Form.addressOf t symbol) ++ image t after) := by
      simp [image_append, image_cons, bytes_of_reference form]
    have place : (image t before).length + 1 = (image t before ++ [opcode]).length := by simp
    rw [spelt, place, List.drop_left]
    rfl
  refine ⟨label.address, bounds.1, bounds.2, ?_, ?_⟩
  · rw [operand, Form.addressOf, found]
  · rw [← length_image_move k, operand, Form.addressOf, find?_move, found]
    rfl

theorem getElem?_image_move
    (unlinked : ∀ m, LinkedAt table lines m → n ≠ m ∧ n ≠ m + 1) :
    (image (table.map (Label.move k)) lines)[n]? = (image table lines)[n]? := by
  induction lines generalizing n with
  | nil => rfl
  | cons line rest ih =>
    have size : (line.bytes (table.map (Label.move k))).length = (line.bytes table).length := by
      rw [length_bytes, length_bytes]
    rw [image_cons, image_cons]
    by_cases inside : n < (line.bytes table).length
    · rw [List.getElem?_append_left inside, List.getElem?_append_left (size ▸ inside)]
      rcases bytes_move_or_linked k table line with same | ⟨opcode, symbol, form, defined⟩
      · rw [same]
      · have here := unlinked 1 ⟨[], line, rest, opcode, symbol, rfl, form, defined, rfl⟩
        rw [bytes_of_reference form] at inside
        rw [bytes_of_reference form, bytes_of_reference form]
        match n, inside with
        | 0, _ => rfl
        | 1, _ => exact absurd rfl here.1
        | 2, _ => exact absurd rfl here.2
        | n + 3, inside => exact absurd inside (by simp [wordBytes])
    · have behind := Nat.le_of_not_lt inside
      rw [List.getElem?_append_right behind, List.getElem?_append_right (size ▸ behind), size]
      apply ih
      rintro m ⟨before, l, after, opcode, symbol, rfl, form, defined, rfl⟩
      have here := unlinked ((image table (line :: before)).length + 1)
        ⟨line :: before, l, after, opcode, symbol, rfl, form, defined, rfl⟩
      rw [image_cons, List.length_append] at here
      omega

end Move

section Idling

variable {k : Nat} {line : SourceLine}

theorem text_of_mem_idling (h : line ∈ ofRaw (List.replicate k ['N', 'O', 'P'])) :
    line.text = ['N', 'O', 'P'] := by
  have texts := map_text_ofRaw (List.replicate k ['N', 'O', 'P'])
  have member := List.mem_map_of_mem (f := text) h
  rw [texts, List.mem_filter, List.map_replicate] at member
  exact List.eq_of_mem_replicate member.1

theorem length_idling (k : Nat) : (ofRaw (List.replicate k ['N', 'O', 'P'])).length = k := by
  have texts := map_text_ofRaw (List.replicate k ['N', 'O', 'P'])
  have whole : content ['N', 'O', 'P'] = ['N', 'O', 'P'] := (readsAs_mnemonic .nop).content
  have lengths := congrArg List.length texts
  simpa [whole] using lengths

theorem unlabelled_idling :
    ∀ l ∈ ofRaw (List.replicate k ['N', 'O', 'P']), l.label? = none := by
  rintro ⟨n, t⟩ member
  cases text_of_mem_idling member
  rfl

theorem statement_idling : ∀ l ∈ ofRaw (List.replicate k ['N', 'O', 'P']),
    l.statement = .instruction ['N', 'O', 'P'] none := by
  rintro ⟨n, t⟩ member
  cases text_of_mem_idling member
  rfl

theorem sound_idling : ∀ l ∈ ofRaw (List.replicate k ['N', 'O', 'P']),
    ∀ table, l.statement.defect? table = none := by
  intro l member table
  rw [statement_idling l member]
  rfl

theorem image_idling (labels : LabelTable) (k : Nat) :
    image labels (ofRaw (List.replicate k ['N', 'O', 'P'])) = List.replicate k 0xEA := by
  have each : ∀ l ∈ ofRaw (List.replicate k ['N', 'O', 'P']), l.bytes labels = [0xEA] := by
    intro l member
    rw [bytes, statement_idling l member]
    rfl
  have same : image labels (ofRaw (List.replicate k ['N', 'O', 'P'])) =
      (ofRaw (List.replicate k ['N', 'O', 'P'])).flatMap fun _ => [0xEA] := List.flatMap_congr each
  rw [same, ← List.map_eq_flatMap, List.map_const', length_idling]

end Idling

section Moved

variable (k : Nat) (raw : List Text)

theorem ofRaw_moved :
    ofRaw (List.replicate k ['N', 'O', 'P'] ++ raw) =
      ofRaw (List.replicate k ['N', 'O', 'P']) ++ (ofRaw raw).map (renumber (· + k)) := by
  have split := ofRaw_append (List.replicate k ['N', 'O', 'P']) raw
  rwa [List.length_replicate] at split

/-- Nothing in front of the source could stop a run, so only the numbers matter. -/
theorem readable_moved_iff (readable : Readable (ofRaw raw)) :
    Readable (ofRaw (List.replicate k ['N', 'O', 'P'] ++ raw)) ↔
      ∀ l ∈ ofRaw (List.replicate k ['N', 'O', 'P'] ++ raw),
        Text.writable l.number = true := by
  constructor
  · exact Readable.numbers
  · intro numbers
    refine ⟨numbers, ?_⟩
    rw [ofRaw_moved, active_behind unlabelled_idling, active_renumber]
    intro l member
    rcases List.mem_append.mp member with front | behind
    · rw [statement_idling l front]
      rfl
    · obtain ⟨old, counts, rfl⟩ := List.mem_map.mp behind
      exact readable.literals old counts

theorem tableOf_moved :
    tableOf {} (ofRaw (List.replicate k ['N', 'O', 'P'] ++ raw)) =
      ((tableOf {} (ofRaw raw)).map (Label.move k)).map (Label.renumber (· + k)) := by
  rw [ofRaw_moved, tableOf_behind unlabelled_idling, image_idling, List.length_replicate,
    tableOf_renumber]
  simp only [LabelTable.map, Array.map_map]
  rfl

theorem image_moved :
    image (tableOf {} (ofRaw (List.replicate k ['N', 'O', 'P'] ++ raw)))
        (active (ofRaw (List.replicate k ['N', 'O', 'P'] ++ raw))) =
      List.replicate k 0xEA ++
        image ((tableOf {} (ofRaw raw)).map (Label.move k)) (active (ofRaw raw)) := by
  rw [tableOf_moved, ofRaw_moved, active_behind unlabelled_idling, active_renumber,
    image_map_renumber, image_append, image_idling, image_renumber]

theorem findings_moved (file : Text) :
    findings file (ofRaw (List.replicate k ['N', 'O', 'P'] ++ raw)) =
      (findings file (ofRaw raw)).map (Diagnostic.renumber (· + k)) := by
  rw [ofRaw_moved, findings_behind unlabelled_idling sound_idling, findings_renumber]

end Moved

end SourceLine

namespace Assembler

/-- A source behind `k` lines that do nothing. Its labels stand `k` bytes further on, modulo the
size of the memory, and so do the operands of its references to them; its other bytes and its
defects stay as they were, with the line numbers behind the `k` lines. The run ends early only
where a line number has too many digits to be written. -/
theorem relocated (s : Assembler) (raw : List Text) (file : Text) (k : Nat)
    (finished : (s.assemble raw file).2 = none) :
    let moved := List.replicate k ['N', 'O', 'P'] ++ raw
    let r := (s.assemble raw file).1
    let r' := (s.assemble moved file).1
    let linked := LinkedAt r.assembly.labels (active (ofRaw raw))
    ((s.assemble moved file).2 = none ↔ ∀ l ∈ ofRaw moved, Text.writable l.number = true) ∧
      (k + raw.length < Text.digitBound → (s.assemble moved file).2 = none) ∧
      ((s.assemble moved file).2 = none →
        r'.assembly.labels.toList = r.assembly.labels.toList.map
          (fun l => ⟨l.name, (l.address + k) % 65536, l.line + k⟩) ∧
        (∃ body body', r.code = stub ++ body ∧
          r'.code = stub ++ (List.replicate k 0xEA ++ body') ∧ body'.length = body.length ∧
          (∀ n, linked n → ∃ w : Int, 0 ≤ w ∧ w < 65536 ∧ (body.drop n).take 2 = wordBytes w ∧
            (body'.drop n).take 2 = wordBytes ((w + k) % 65536)) ∧
          ∀ n, (∀ m, linked m → n ≠ m ∧ n ≠ m + 1) → body'[n]? = body[n]?) ∧
        r'.assembly.report.kept.toList =
          r.assembly.report.kept.toList.map (Diagnostic.renumber (· + k)) ∧
        r'.assembly.report.dropped = r.assembly.report.dropped) := by
  intro moved r r' linked
  have table : r.assembly.labels = tableOf {} (ofRaw raw) := labels_of_finished finished
  have ends : (s.assemble moved file).2 = none ↔
      ∀ l ∈ ofRaw moved, Text.writable l.number = true := by
    rw [finished_iff]
    exact readable_moved_iff k raw ((finished_iff s raw file).mp finished)
  refine ⟨ends, ?_, ?_⟩
  · intro short
    apply ends.mpr
    apply writable_of_short
    rwa [List.length_append, List.length_replicate]
  · intro finished'
    have report : r'.assembly.report = r.assembly.report.renumber (· + k) := by
      rw [findings_of_finished finished', findings_moved, findings_of_finished finished,
        Report.renumber_gather, Report.renumber_empty]
    refine ⟨?_, ⟨image r.assembly.labels (active (ofRaw raw)),
      image (r.assembly.labels.map (Label.move k)) (active (ofRaw raw)), ?_, ?_, ?_, ?_, ?_⟩, ?_⟩
    · rw [labels_of_finished finished', tableOf_moved, ← table, LabelTable.toList_map,
        LabelTable.toList_map, List.map_map]
      rfl
    · rw [code_of_finished finished, table]
    · rw [code_of_finished finished', image_moved, table]
    · exact length_image_move k _
    · intro n
      apply word_of_linkedAt
      rw [table, toList_tableOf]
      intro l
      exact address_of_mem_definitionsFrom
    · intro n
      exact getElem?_image_move k
    · rw [report]
      exact ⟨Array.toList_map, rfl⟩

/-- A jump forward and one to nowhere, behind two lines that do nothing. -/
theorem relocated_jump :
    let raw : List Text :=
      [['l', ':', 'J', 'M', 'P', ' ', 'e'], ['l', ':', 'N', 'O', 'P'], ['J', 'M', 'P', ' ', 'x'],
       ['e', ':']]
    let r := (new {}).assemble raw []
    let r' := (new {}).assemble (List.replicate 2 ['N', 'O', 'P'] ++ raw) []
    r.2 = none ∧ r'.2 = none ∧
      r'.1.assembly.report.kept.toList =
        r.1.assembly.report.kept.toList.map (Diagnostic.renumber (· + 2)) ∧
      r.1.assembly.labels.toList = [⟨['l'], 0x080D, 1⟩, ⟨['e'], 0x0813, 4⟩] ∧
      r'.1.assembly.labels.toList = [⟨['l'], 0x080F, 3⟩, ⟨['e'], 0x0815, 6⟩] ∧
      r.1.code = stub ++ [0x4C, 0x13, 0x08, 0x4C, 0x00, 0x00] ∧
      r'.1.code = stub ++ [0xEA, 0xEA, 0x4C, 0x15, 0x08, 0x4C, 0x00, 0x00] := by
  intro raw r r'
  have finished : r.2 = none := by decide +kernel
  obtain ⟨-, ends, same⟩ := relocated (new {}) raw [] 2 finished
  have finished' : r'.2 = none := ends ((Text.writable_natCast _).mp (by decide +kernel))
  obtain ⟨table, -, kept, -⟩ := same finished'
  have labels : r.1.assembly.labels.toList = [⟨['l'], 0x080D, 1⟩, ⟨['e'], 0x0813, 4⟩] := by
    decide +kernel
  refine ⟨finished, finished', kept, labels, ?_, by decide +kernel⟩
  rw [table, labels]
  decide +kernel

end Assembler

end Asm6502
