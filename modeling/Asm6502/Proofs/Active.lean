import Asm6502.Proofs.Step
import Mathlib.Data.List.Induction

/-! The lines of a source that count, and the labels that they define. No pass is run here.
A line counts unless a line before it has the same label, and a label stands where the bytes
of the lines that count before it end. -/
namespace Asm6502.SourceLine

def Redefines (earlier : List SourceLine) (line : SourceLine) : Prop :=
  line.label?.isSome ∧ ∃ l ∈ earlier, l.label? = line.label?

instance (earlier : List SourceLine) (line : SourceLine) : Decidable (Redefines earlier line) :=
  inferInstanceAs (Decidable (_ ∧ _))

/- `earlier` are the lines before, those that do not count included. -/
def activeFrom (earlier : List SourceLine) : List SourceLine → List SourceLine
  | [] => []
  | line :: rest =>
    if Redefines earlier line then activeFrom (earlier ++ [line]) rest
    else line :: activeFrom (earlier ++ [line]) rest

def active (lines : List SourceLine) : List SourceLine := activeFrom [] lines

/-- The bytes of lines one after another, their symbols looked up in `labels`. -/
def image (labels : LabelTable) (lines : List SourceLine) : List UInt8 :=
  lines.flatMap (bytes labels)

/-- The labels of lines, when `offset` bytes stand between the start of the code and the
first of them. -/
def definitionsFrom (labels : LabelTable) (offset : Nat) : List SourceLine → List Label
  | [] => []
  | line :: rest =>
    (line.label?.map fun name => ⟨name, (startAddress + offset) % 65536, line.number⟩).toList ++
      definitionsFrom labels (offset + (line.bytes labels).length) rest

def definitions (labels : LabelTable) (lines : List SourceLine) : List Label :=
  definitionsFrom labels 0 (active lines)

def tableOf (labels : LabelTable) (lines : List SourceLine) : LabelTable :=
  ⟨(definitions labels lines).toArray⟩

theorem redefines_iff {earlier : List SourceLine} {line : SourceLine} {name : Text}
    (h : line.label? = some name) :
    Redefines earlier line ↔ ∃ l ∈ earlier, l.label? = some name := by
  simp [Redefines, h]

theorem not_redefines_of_unlabelled {line : SourceLine} (h : line.label? = none)
    (earlier : List SourceLine) : ¬ Redefines earlier line := by
  simp [Redefines, h]

theorem activeFrom_append (earlier xs ys : List SourceLine) :
    activeFrom earlier (xs ++ ys) = activeFrom earlier xs ++ activeFrom (earlier ++ xs) ys := by
  induction xs generalizing earlier with
  | nil => simp [activeFrom]
  | cons line rest ih =>
    simp only [List.cons_append, activeFrom, ih, List.append_assoc, List.nil_append]
    split <;> rfl

theorem active_append (xs ys : List SourceLine) :
    active (xs ++ ys) = active xs ++ activeFrom xs ys := activeFrom_append [] xs ys

theorem active_concat_of_redefines {done : List SourceLine} {line : SourceLine}
    (h : Redefines done line) : active (done ++ [line]) = active done := by
  simp [active_append, activeFrom, h]

theorem active_concat {done : List SourceLine} {line : SourceLine} (h : ¬ Redefines done line) :
    active (done ++ [line]) = active done ++ [line] := by
  simp [active_append, activeFrom, h]

theorem activeFrom_sublist (earlier lines : List SourceLine) :
    (activeFrom earlier lines).Sublist lines := by
  induction lines generalizing earlier with
  | nil => exact List.Sublist.refl _
  | cons line rest ih =>
    unfold activeFrom
    split
    · exact (ih _).cons _
    · exact (ih _).cons_cons _

theorem mem_of_mem_active {lines : List SourceLine} {line : SourceLine}
    (h : line ∈ active lines) : line ∈ lines := (activeFrom_sublist [] lines).subset h

theorem exists_active_label_iff (lines : List SourceLine) (name : Text) :
    (∃ l ∈ active lines, l.label? = some name) ↔ ∃ l ∈ lines, l.label? = some name := by
  induction lines using List.reverseRecOn with
  | nil => rfl
  | append_singleton done last ih =>
    by_cases hr : Redefines done last
    · rw [active_concat_of_redefines hr, ih]
      constructor
      · rintro ⟨l, hl, hn⟩
        exact ⟨l, List.mem_append_left _ hl, hn⟩
      · rintro ⟨l, hl, hn⟩
        rcases List.mem_append.mp hl with hl | hl
        · exact ⟨l, hl, hn⟩
        · cases List.mem_singleton.mp hl
          exact (redefines_iff hn).mp hr
    · simp only [active_concat hr, List.mem_append, or_and_right, exists_or, ih]

theorem nodup_active_labels (lines : List SourceLine) :
    ((active lines).filterMap label?).Nodup := by
  induction lines using List.reverseRecOn with
  | nil => exact List.nodup_nil
  | append_singleton done last ih =>
    by_cases hr : Redefines done last
    · rw [active_concat_of_redefines hr]
      exact ih
    · rw [active_concat hr, List.filterMap_append]
      cases hl : last.label? with
      | none => simpa [hl] using ih
      | some name =>
        have fresh : name ∉ (active done).filterMap label? := by
          intro hm
          have hex := List.mem_filterMap.mp hm
          exact hr ((redefines_iff hl).mpr ((exists_active_label_iff done name).mp hex))
        have single : [last].filterMap label? = [name] := by simp [hl]
        rw [single]
        exact List.nodup_append.mpr ⟨ih, by simp, fun a ha b hb => by
          cases List.mem_singleton.mp hb
          exact fun e => fresh (e ▸ ha)⟩

theorem definitionsFrom_append (labels : LabelTable) (offset : Nat) (xs ys : List SourceLine) :
    definitionsFrom labels offset (xs ++ ys) =
      definitionsFrom labels offset xs ++
        definitionsFrom labels (offset + (image labels xs).length) ys := by
  induction xs generalizing offset with
  | nil => simp [definitionsFrom, image]
  | cons line rest ih =>
    simp only [List.cons_append, definitionsFrom, ih, List.append_assoc]
    simp [image, Nat.add_assoc]

theorem map_name_definitionsFrom (labels : LabelTable) (offset : Nat) (lines : List SourceLine) :
    (definitionsFrom labels offset lines).map Label.name = lines.filterMap label? := by
  induction lines generalizing offset with
  | nil => rfl
  | cons line rest ih =>
    simp only [definitionsFrom, List.map_append, ih]
    cases hl : line.label? <;> simp [hl]

theorem exists_line_of_mem_definitionsFrom {labels : LabelTable} {offset : Nat}
    {lines : List SourceLine} {label : Label} (h : label ∈ definitionsFrom labels offset lines) :
    ∃ l ∈ lines, l.label? = some label.name ∧ label.line = l.number := by
  induction lines generalizing offset with
  | nil => cases h
  | cons line rest ih =>
    rcases List.mem_append.mp h with h | h
    · cases hl : line.label? with
      | none => simp [hl] at h
      | some name =>
        simp only [hl, Option.map_some, Option.toList_some, List.mem_singleton] at h
        subst h
        exact ⟨line, List.mem_cons_self, hl, rfl⟩
    · obtain ⟨l, hl, he⟩ := ih h
      exact ⟨l, List.mem_cons_of_mem _ hl, he⟩

theorem address_of_mem_definitionsFrom {labels : LabelTable} {offset : Nat}
    {lines : List SourceLine} {label : Label} (h : label ∈ definitionsFrom labels offset lines) :
    0 ≤ label.address ∧ label.address < 65536 := by
  induction lines generalizing offset with
  | nil => cases h
  | cons line rest ih =>
    rcases List.mem_append.mp h with h | h
    · cases hl : line.label? with
      | none => simp [hl] at h
      | some name =>
        simp only [hl, Option.map_some, Option.toList_some, List.mem_singleton] at h
        subst h
        dsimp only
        omega
    · exact ih h

theorem definitions_append (labels : LabelTable) (xs ys : List SourceLine) :
    definitions labels (xs ++ ys) =
      definitions labels xs ++
        definitionsFrom labels (image labels (active xs)).length (activeFrom xs ys) := by
  simp only [definitions, active_append, definitionsFrom_append, Nat.zero_add]

theorem exists_mem_definitions_iff (labels : LabelTable) (lines : List SourceLine) (name : Text) :
    (∃ label ∈ definitions labels lines, label.name = name) ↔
      ∃ l ∈ lines, l.label? = some name := by
  rw [← List.mem_map, definitions, map_name_definitionsFrom, List.mem_filterMap]
  exact exists_active_label_iff lines name

/-- Where labels stand does not hang on the table, for it does not change the size of a line. -/
theorem definitionsFrom_eq (labels others : LabelTable) (offset : Nat) (lines : List SourceLine) :
    definitionsFrom labels offset lines = definitionsFrom others offset lines := by
  induction lines generalizing offset with
  | nil => rfl
  | cons line rest ih => simp only [definitionsFrom, length_bytes, ih]

theorem tableOf_eq (labels others : LabelTable) (lines : List SourceLine) :
    tableOf labels lines = tableOf others lines := by
  unfold tableOf definitions
  rw [definitionsFrom_eq labels others]

section Table

variable {table labels : LabelTable} {done rest : List SourceLine} {name : Text}

@[simp] theorem toList_tableOf (labels : LabelTable) (lines : List SourceLine) :
    (tableOf labels lines).toList = definitions labels lines := by
  simp [tableOf, LabelTable.toList]

theorem eq_tableOf (h : table.toList = definitions labels done) : table = tableOf labels done := by
  rw [tableOf, ← h]
  simp [LabelTable.toList]

theorem find?_eq_none_iff (h : table.toList = definitions labels done) :
    table.find? name = none ↔ ∀ l ∈ done, l.label? ≠ some name := by
  have hex := exists_mem_definitions_iff labels done name
  rw [LabelTable.find?_eq_find?_toList, h, List.find?_eq_none]
  constructor
  · intro hn l hl e
    obtain ⟨label, hm, heq⟩ := hex.mpr ⟨l, hl, e⟩
    exact hn label hm (by simpa using heq)
  · intro hn label hm heq
    obtain ⟨l, hl, e⟩ := hex.mp ⟨label, hm, by simpa using heq⟩
    exact hn l hl e

theorem find?_of_first {line : SourceLine}
    (h : table.toList = definitions labels (done ++ line :: rest)) (hl : line.label? = some name)
    (first : ¬ Redefines done line) :
    table.find? name =
      some ⟨name, (startAddress + (image labels (active done)).length) % 65536, line.number⟩ := by
  have before : (definitions labels done).find? (fun l => l.name == name) = none := by
    rw [List.find?_eq_none]
    intro label hm heq
    refine first ((redefines_iff hl).mpr ?_)
    exact (exists_mem_definitions_iff labels done name).mp ⟨label, hm, by simpa using heq⟩
  rw [LabelTable.find?_eq_find?_toList, h, definitions_append, List.find?_append, before,
    activeFrom, if_neg first, definitionsFrom, hl]
  simp

theorem find?_of_earlier (h : table.toList = definitions labels (done ++ rest))
    (earlier : ∃ l ∈ done, l.label? = some name) :
    ∃ first, table.find? name = some first ∧ ∃ l ∈ done, first.line = l.number := by
  obtain ⟨label, hm, heq⟩ := (exists_mem_definitions_iff labels done name).mpr earlier
  have found : ((definitions labels done).find? fun l => l.name == name).isSome :=
    List.find?_isSome.mpr ⟨label, hm, by simpa using heq⟩
  obtain ⟨first, hf⟩ := Option.isSome_iff_exists.mp found
  refine ⟨first, ?_, ?_⟩
  · rw [LabelTable.find?_eq_find?_toList, h, definitions_append, List.find?_append, hf]
    rfl
  · obtain ⟨l, hl, _, hn⟩ := exists_line_of_mem_definitionsFrom (List.mem_of_find?_eq_some hf)
    exact ⟨l, mem_of_mem_active hl, hn⟩

end Table

end Asm6502.SourceLine
