import Asm6502.Proofs.Meaning
import Mathlib.Data.List.Nodup

/-! What is wrong with the lines of a source. No pass is run here. A line that repeats a label
has that fault and no other; every other line has the first of the faults that the rules name,
or none. -/
namespace Asm6502

/-- What is wrong with a statement of the source `lines`, whose labels are in `table`. -/
inductive Defective (lines : List SourceLine) (table : LabelTable) : Statement → Cause → Prop where
  | malformed {text : Text} : Defective lines table (.malformed text) (.notInstruction text)
  | unknown {name : Text} {operand : Option Text} :
      Mnemonic.ofName? name = none →
      Defective lines table (.instruction name operand) (.unknown name)
  | undefined {name text symbol : Text} {m : Mnemonic} {slot : Slot} :
      Mnemonic.ofName? name = some m → Form.single? m (some text) = none →
      Form.immediate? m (some text) = .ok none → m.slot? .absolute = some slot →
      Operand.symbol? text = some symbol → (∀ l ∈ lines, l.label? ≠ some symbol) →
      Defective lines table (.instruction name (some text))
        (.undefined symbol (table.similar symbol 3) none)
  | unencodable {name : Text} {operand : Option Text} {m : Mnemonic} :
      Mnemonic.ofName? name = some m → Form.single? m operand = none →
      Form.immediate? m operand = .ok none → Form.absolute? m operand = .ok none →
      Defective lines table (.instruction name operand)
        (.unencodable name operand (m.modes.map Mode.name))

def Statement.defect? (table : LabelTable) : Statement → Option Cause
  | .empty => none
  | .malformed text => some (.notInstruction text)
  | .instruction name operand =>
    match Mnemonic.ofName? name with
    | none => some (.unknown name)
    | some m =>
      match Form.choose m operand with
      | .error _ => none
      | .ok none => some (.unencodable name operand (m.modes.map Mode.name))
      | .ok (some form) =>
        (form.missing? table).map fun symbol => .undefined symbol (table.similar symbol 3) none

namespace Form

theorem choose_eq_none_iff {m : Mnemonic} {operand : Option Text} :
    choose m operand = .ok none ↔
      single? m operand = none ∧ immediate? m operand = .ok none ∧
        absolute? m operand = .ok none := by
  unfold choose
  constructor
  · intro h
    split at h
    · cases h
    · rename_i hs
      split at h
      · cases h
      · cases h
      · rename_i hi
        exact ⟨hs, hi, h⟩
  · rintro ⟨hs, hi, ha⟩
    rw [hs, hi]
    exact ha

theorem missing?_eq_some {table : LabelTable} {form : Form} {symbol : Text}
    (h : form.missing? table = some symbol) :
    ∃ opcode, form = .reference opcode symbol ∧ table.find? symbol = none := by
  unfold missing? at h
  split at h
  · rename_i opcode name
    split at h
    · cases h
    · rename_i absent
      cases Option.some.inj h
      exact ⟨opcode, rfl, by simpa [LabelTable.contains] using absent⟩
  · cases h

theorem choose_eq_reference {m : Mnemonic} {operand : Option Text} {opcode : UInt8} {symbol : Text}
    (h : choose m operand = .ok (some (.reference opcode symbol))) :
    ∃ text slot, operand = some text ∧ single? m operand = none ∧
      immediate? m operand = .ok none ∧ m.slot? .absolute = some slot ∧ opcode = slot.opcode ∧
      Operand.symbol? text = some symbol := by
  rcases choose_eq_some h with hs | ⟨hs, hi | ⟨hi, ha⟩⟩
  · obtain ⟨_, _, other, _⟩ := single?_eq_some hs
    cases other
  · obtain ⟨_, _, _, _, _, _, _, other⟩ := immediate?_eq_some hi
    cases other
  · obtain ⟨slot, text, hslot, ho, ⟨_, _, _, other⟩ | ⟨_, hy, same⟩⟩ := absolute?_eq_some ha
    · cases other
    · cases same
      exact ⟨text, slot, ho, hs, hi, hslot, rfl, hy⟩

theorem choose_of_symbol {m : Mnemonic} {text symbol : Text} {slot : Slot}
    (hs : single? m (some text) = none) (hi : immediate? m (some text) = .ok none)
    (hslot : m.slot? .absolute = some slot) (hy : Operand.symbol? text = some symbol) :
    choose m (some text) = .ok (some (.reference slot.opcode symbol)) := by
  have number := (Operand.literals_of_symbol? hy).2
  simp [choose, hs, hi, absolute?, hslot, number, hy]

end Form

theorem defect?_eq_some_iff {lines : List SourceLine} {table labels : LabelTable}
    (complete : table.toList = SourceLine.definitions labels lines) {s : Statement}
    {cause : Cause} : s.defect? table = some cause ↔ Defective lines table s cause := by
  constructor
  · intro h
    cases s with
    | empty => cases h
    | malformed text =>
      cases Option.some.inj h
      exact .malformed
    | instruction name operand =>
      simp only [Statement.defect?] at h
      split at h
      · rename_i hm
        cases Option.some.inj h
        exact .unknown hm
      · rename_i m hm
        split at h
        · cases h
        · rename_i hc
          cases Option.some.inj h
          obtain ⟨hs, hi, ha⟩ := Form.choose_eq_none_iff.mp hc
          exact .unencodable hm hs hi ha
        · rename_i form hc
          obtain ⟨symbol, missing, rfl⟩ := Option.map_eq_some_iff.mp h
          obtain ⟨opcode, rfl, absent⟩ := Form.missing?_eq_some missing
          obtain ⟨text, slot, rfl, hs, hi, hslot, _, hy⟩ := Form.choose_eq_reference hc
          exact .undefined hm hs hi hslot hy ((SourceLine.find?_eq_none_iff complete).mp absent)
  · intro h
    cases h with
    | malformed => rfl
    | unknown hm => simp [Statement.defect?, hm]
    | undefined hm hs hi hslot hy unseen =>
      have absent := (SourceLine.find?_eq_none_iff complete).mpr unseen
      simp [Statement.defect?, hm, Form.choose_of_symbol hs hi hslot hy, Form.missing?,
        LabelTable.contains, absent]
    | unencodable hm hs hi ha =>
      simp [Statement.defect?, hm, Form.choose_eq_none_iff.mpr ⟨hs, hi, ha⟩]

/-- Of the statements with a defect only those with a missing symbol have bytes. -/
theorem bytes_of_defective {lines : List SourceLine} {table labels : LabelTable}
    (complete : table.toList = SourceLine.definitions labels lines) {s : Statement}
    {cause : Cause} (h : Defective lines table s cause) :
    s.bytes table = [] ∨ ∃ opcode symbol similar, cause = .undefined symbol similar none ∧
      s.bytes table = [opcode, 0, 0] := by
  cases h with
  | malformed => exact .inl rfl
  | unknown hm => exact .inl (by simp [Statement.bytes, Statement.form, hm])
  | @undefined name text symbol m slot hm hs hi hslot hy unseen =>
    have absent := (SourceLine.find?_eq_none_iff complete).mpr unseen
    refine .inr ⟨slot.opcode, symbol, _, rfl, ?_⟩
    simp only [Statement.bytes, Statement.form, hm, Form.choose_of_symbol hs hi hslot hy,
      Form.bytes, Form.addressOf, absent]
    rfl
  | unencodable hm hs hi ha =>
    left
    simp [Statement.bytes, Statement.form, hm, Form.choose_eq_none_iff.mpr ⟨hs, hi, ha⟩]

namespace SourceLine

def diagnostic (file : Text) (line : SourceLine) (cause : Cause) : Diagnostic :=
  ⟨cause, some ⟨file, line.number⟩, some line.text⟩

/-- The cause that the label pass finds: the name is taken, and `earlier` tells since when. -/
def repeat? (earlier : List SourceLine) (line : SourceLine) : Option Cause :=
  line.label?.bind fun name =>
    (earlier.find? fun l => l.label? == some name).map fun first => .duplicate name first.number

def repeatsFrom (file : Text) (earlier : List SourceLine) : List SourceLine → List Diagnostic
  | [] => []
  | line :: rest =>
    ((repeat? earlier line).map (line.diagnostic file)).toList ++
      repeatsFrom file (earlier ++ [line]) rest

def repeats (file : Text) (lines : List SourceLine) : List Diagnostic := repeatsFrom file [] lines

def defects (file : Text) (table : LabelTable) (lines : List SourceLine) : List Diagnostic :=
  lines.filterMap fun line => (line.statement.defect? table).map (line.diagnostic file)

/-- The line has the label `name`, and so has `first`, the first of the lines before with it. -/
def Repeats (lines : List SourceLine) (line : SourceLine) (name : Text) (first : SourceLine) :
    Prop :=
  ∃ done rest, lines = done ++ line :: rest ∧ line.label? = some name ∧
    done.find? (fun l => l.label? == some name) = some first

theorem repeatsFrom_append (file : Text) (earlier xs ys : List SourceLine) :
    repeatsFrom file earlier (xs ++ ys) =
      repeatsFrom file earlier xs ++ repeatsFrom file (earlier ++ xs) ys := by
  induction xs generalizing earlier with
  | nil => simp [repeatsFrom]
  | cons line rest ih => simp [repeatsFrom, ih]

theorem repeats_concat (file : Text) (done : List SourceLine) (line : SourceLine) :
    repeats file (done ++ [line]) =
      repeats file done ++ ((repeat? done line).map (line.diagnostic file)).toList := by
  simp [repeats, repeatsFrom_append, repeatsFrom]

theorem repeat?_isSome_iff (earlier : List SourceLine) (line : SourceLine) :
    (repeat? earlier line).isSome ↔ Redefines earlier line := by
  unfold repeat?
  cases hl : line.label? with
  | none => simp [Redefines, hl]
  | some name => simp [redefines_iff hl]

theorem repeat?_eq_some_iff {earlier : List SourceLine} {line : SourceLine} {cause : Cause} :
    repeat? earlier line = some cause ↔
      ∃ name first, line.label? = some name ∧
        earlier.find? (fun l => l.label? == some name) = some first ∧
        cause = .duplicate name first.number := by
  unfold repeat?
  constructor
  · intro h
    obtain ⟨name, hl, hf⟩ := Option.bind_eq_some_iff.mp h
    obtain ⟨first, found, rfl⟩ := Option.map_eq_some_iff.mp hf
    exact ⟨name, first, hl, found, rfl⟩
  · rintro ⟨name, first, hl, found, rfl⟩
    simp [hl, found]

theorem line_of_first {table labels : LabelTable} {lines : List SourceLine} {name : Text}
    {first : SourceLine} (complete : table.toList = definitions labels lines)
    (found : lines.find? (fun l => l.label? == some name) = some first) :
    ∃ label, table.find? name = some label ∧ label.line = first.number := by
  obtain ⟨named, before, after, rfl, none⟩ := List.find?_eq_some_iff_append.mp found
  have hl : first.label? = some name := by simpa using named
  have new : ¬ Redefines before first := by
    rw [redefines_iff hl]
    rintro ⟨l, hm, e⟩
    have other := none l hm
    simp [e] at other
  exact ⟨_, find?_of_first complete hl new, rfl⟩

theorem mem_repeatsFrom_iff {file : Text} {earlier lines : List SourceLine} {d : Diagnostic} :
    d ∈ repeatsFrom file earlier lines ↔
      ∃ done line rest cause, lines = done ++ line :: rest ∧
        repeat? (earlier ++ done) line = some cause ∧ d = line.diagnostic file cause := by
  induction lines generalizing earlier with
  | nil => simp [repeatsFrom]
  | cons line rest ih =>
    simp only [repeatsFrom, List.mem_append, Option.mem_toList, Option.map_eq_some_iff, ih]
    constructor
    · rintro (⟨cause, hc, rfl⟩ | ⟨done, l, after, cause, rfl, hc, rfl⟩)
      · exact ⟨[], line, rest, cause, rfl, by simpa using hc, rfl⟩
      · exact ⟨line :: done, l, after, cause, rfl, by simpa using hc, rfl⟩
    · rintro ⟨done, l, after, cause, split, hc, rfl⟩
      cases done with
      | nil =>
        cases split
        exact .inl ⟨cause, by simpa using hc, rfl⟩
      | cons head done =>
        cases split
        exact .inr ⟨done, l, after, cause, rfl, by simpa using hc, rfl⟩

theorem mem_repeats_iff {file : Text} {lines : List SourceLine} {d : Diagnostic} :
    d ∈ repeats file lines ↔
      ∃ line name first, Repeats lines line name first ∧
        d = line.diagnostic file (.duplicate name first.number) := by
  unfold repeats
  rw [mem_repeatsFrom_iff]
  constructor
  · rintro ⟨done, line, rest, cause, split, hc, rfl⟩
    obtain ⟨name, first, hl, found, rfl⟩ := repeat?_eq_some_iff.mp hc
    exact ⟨line, name, first, ⟨done, rest, split, hl, found⟩, rfl⟩
  · rintro ⟨line, name, first, ⟨done, rest, split, hl, found⟩, rfl⟩
    exact ⟨done, line, rest, _, split, repeat?_eq_some_iff.mpr ⟨name, first, hl, found, rfl⟩, rfl⟩

/-- A line that repeats a label does not count, and no line that counts has its number. -/
theorem number_ne_of_repeats {lines : List SourceLine} {line first : SourceLine} {name : Text}
    (distinct : (lines.map number).Nodup) (h : Repeats lines line name first) :
    ∀ l ∈ active lines, l.number ≠ line.number := by
  obtain ⟨done, rest, rfl, hl, found⟩ := h
  have redefines : Redefines done line := by
    apply (redefines_iff hl).mpr
    exact ⟨first, List.mem_of_find?_eq_some found, by simpa using List.find?_some found⟩
  rw [active_append, activeFrom, if_pos redefines]
  rw [List.map_append, List.map_cons, List.nodup_middle, List.nodup_cons] at distinct
  intro l hm same
  apply distinct.1
  rw [← same]
  rcases List.mem_append.mp hm with hm | hm
  · exact List.mem_append_left _ (List.mem_map_of_mem (mem_of_mem_active hm))
  · exact List.mem_append_right _ (List.mem_map_of_mem ((activeFrom_sublist _ rest).subset hm))

theorem lines_repeatsFrom (file : Text) (earlier lines : List SourceLine) :
    ((repeatsFrom file earlier lines).map Diagnostic.line?).Sublist
      (lines.map fun l => some l.number) := by
  induction lines generalizing earlier with
  | nil => exact List.Sublist.refl _
  | cons line rest ih =>
    simp only [repeatsFrom, List.map_append, List.map_cons]
    cases repeat? earlier line with
    | none => exact (ih (earlier ++ [line])).cons _
    | some cause => exact (ih (earlier ++ [line])).cons_cons _

theorem mem_defects_iff {file : Text} {table labels : LabelTable} {all lines : List SourceLine}
    (complete : table.toList = definitions labels all) {d : Diagnostic} :
    d ∈ defects file table lines ↔
      ∃ line ∈ lines, ∃ cause, Defective all table line.statement cause ∧
        d = line.diagnostic file cause := by
  simp only [defects, List.mem_filterMap, Option.map_eq_some_iff, defect?_eq_some_iff complete,
    @eq_comm _ d]

theorem lines_defects (file : Text) (table : LabelTable) (lines : List SourceLine) :
    ((defects file table lines).map Diagnostic.line?).Sublist
      (lines.map fun l => some l.number) := by
  unfold defects
  induction lines with
  | nil => exact List.Sublist.refl _
  | cons line rest ih =>
    rw [List.filterMap_cons]
    cases line.statement.defect? table with
    | none => exact ih.cons _
    | some cause => exact ih.cons_cons _

end SourceLine

end Asm6502
