import Asm6502.Proofs.Stopping
import Asm6502.Proofs.Verdict

/-! Line numbers are names for lines and nothing else. A source whose lines are numbered otherwise
is assembled as before, though the emission pass goes by the numbers to tell a repeated label from
its first definition. The table and the diagnostics show the new numbers. -/
namespace Asm6502

open SourceLine

namespace LabelTable

def map (g : Label → Label) (t : LabelTable) : LabelTable := ⟨t.labels.map g⟩

@[simp] theorem toList_map (g : Label → Label) (t : LabelTable) :
    (t.map g).toList = t.toList.map g := by
  simp [map, toList]

theorem find?_map {g : Label → Label} (named : ∀ l, (g l).name = l.name) (t : LabelTable)
    (name : Text) : (t.map g).find? name = (t.find? name).map g := by
  rw [find?_eq_find?_toList, toList_map, List.find?_map, find?_eq_find?_toList]
  congr 2
  funext l
  simp [named]

theorem contains_iff (t : LabelTable) (name : Text) :
    t.contains name = true ↔ name ∈ t.toList.map Label.name := by
  rw [contains, find?_eq_find?_toList, List.find?_isSome, List.mem_map]
  simp

end LabelTable

/- What is wrong with a statement hangs on the names in the table, not on where they stand. -/
theorem Statement.defect?_of_names {t t' : LabelTable}
    (names : t'.toList.map Label.name = t.toList.map Label.name) (s : Statement) :
    s.defect? t' = s.defect? t := by
  have contains : ∀ name, t'.contains name = t.contains name := by
    intro name
    apply Bool.eq_iff_iff.mpr
    rw [LabelTable.contains_iff, LabelTable.contains_iff, names]
  have similar : ∀ name limit, t'.similar name limit = t.similar name limit := by
    intro name limit
    simp only [LabelTable.similar, names]
  have missing : ∀ form : Form, form.missing? t' = form.missing? t := by
    intro form
    cases form <;> simp only [Form.missing?, contains]
  cases s with
  | empty => rfl
  | malformed text => rfl
  | instruction name operand => simp only [defect?, missing, similar]

theorem Statement.not_duplicate_of_defect? {t : LabelTable} {s : Statement} {cause : Cause}
    (h : s.defect? t = some cause) : cause.isDuplicate = false := by
  unfold defect? at h
  split at h
  · cases h
  · cases Option.some.inj h
    rfl
  · split at h
    · cases Option.some.inj h
      rfl
    · split at h
      · cases h
      · cases Option.some.inj h
        rfl
      · obtain ⟨symbol, -, rfl⟩ := Option.map_eq_some_iff.mp h
        rfl

def Label.renumber (f : Int → Int) (l : Label) : Label := { l with line := f l.line }

/-- A repeated label is told of with the line of its first definition, so that follows too. -/
def Cause.renumber (f : Int → Int) : Cause → Cause
  | .duplicate symbol firstLine => .duplicate symbol (f firstLine)
  | cause => cause

def Diagnostic.renumber (f : Int → Int) (d : Diagnostic) : Diagnostic :=
  ⟨d.cause.renumber f, d.location.map fun l => { l with line := f l.line }, d.sourceLine⟩

def Report.renumber (f : Int → Int) (r : Report) : Report :=
  { r with kept := r.kept.map (Diagnostic.renumber f) }

def SourceLine.renumber (f : Int → Int) (line : SourceLine) : SourceLine :=
  { line with number := f line.number }

theorem Cause.renumber_of_not_duplicate {cause : Cause} (h : cause.isDuplicate = false)
    (f : Int → Int) : cause.renumber f = cause := by
  cases cause with
  | duplicate symbol firstLine => cases h
  | _ => rfl

theorem Report.renumber_empty (f : Int → Int) (limit : Option Int) :
    Report.renumber f { limit } = { limit } := by
  simp [Report.renumber]

theorem Report.renumber_gather (f : Int → Int) (r : Report) (ds : List Diagnostic) :
    (r.gather ds).renumber f = (r.renumber f).gather (ds.map (Diagnostic.renumber f)) := by
  induction ds generalizing r with
  | nil => rfl
  | cons d ds ih =>
    have step : (r.add d).renumber f = (r.renumber f).add (d.renumber f) := by
      have full : (r.renumber f).isFull = r.isFull := by simp [isFull, renumber]
      unfold add
      rw [full]
      split
      · rfl
      · simp [renumber]
    have rest := ih (r.add d)
    rw [step] at rest
    exact rest

namespace SourceLine

variable (f : Int → Int) (labels : LabelTable)

@[simp] theorem label?_renumber (line : SourceLine) : (line.renumber f).label? = line.label? := rfl

@[simp] theorem statement_renumber (line : SourceLine) :
    (line.renumber f).statement = line.statement := rfl

theorem redefines_renumber {earlier : List SourceLine} {line : SourceLine} :
    Redefines (earlier.map (renumber f)) (line.renumber f) ↔ Redefines earlier line := by
  simp [Redefines]

theorem activeFrom_renumber (earlier lines : List SourceLine) :
    activeFrom (earlier.map (renumber f)) (lines.map (renumber f)) =
      (activeFrom earlier lines).map (renumber f) := by
  induction lines generalizing earlier with
  | nil => rfl
  | cons line rest ih =>
    have further := ih (earlier ++ [line])
    rw [List.map_append] at further
    simp only [List.map_cons, activeFrom, redefines_renumber]
    split
    · exact further
    · exact congrArg _ further

theorem active_renumber (lines : List SourceLine) :
    active (lines.map (renumber f)) = (active lines).map (renumber f) :=
  activeFrom_renumber f [] lines

theorem image_renumber (lines : List SourceLine) :
    image labels (lines.map (renumber f)) = image labels lines := by
  rw [image, List.flatMap_map]
  rfl

theorem definitionsFrom_renumber (offset : Nat) (lines : List SourceLine) :
    definitionsFrom labels offset (lines.map (renumber f)) =
      (definitionsFrom labels offset lines).map (Label.renumber f) := by
  induction lines generalizing offset with
  | nil => rfl
  | cons line rest ih =>
    simp only [List.map_cons, definitionsFrom, ih, List.map_append, label?_renumber]
    congr 1
    cases line.label? <;> rfl

theorem tableOf_renumber (lines : List SourceLine) :
    tableOf labels (lines.map (renumber f)) = (tableOf labels lines).map (Label.renumber f) := by
  simp [tableOf, LabelTable.map, definitions, active_renumber, definitionsFrom_renumber]

theorem bytes_map_renumber (line : SourceLine) :
    line.bytes (labels.map (Label.renumber f)) = line.bytes labels := by
  have address : ∀ symbol,
      Form.addressOf (labels.map (Label.renumber f)) symbol = Form.addressOf labels symbol := by
    intro symbol
    unfold Form.addressOf
    rw [LabelTable.find?_map (g := Label.renumber f) fun _ => rfl]
    cases labels.find? symbol <;> rfl
  unfold bytes Statement.bytes
  split
  · rename_i form _
    cases form <;> simp only [Form.bytes, address]
  · rfl

theorem image_map_renumber (lines : List SourceLine) :
    image (labels.map (Label.renumber f)) lines = image labels lines := by
  have under : bytes (labels.map (Label.renumber f)) = bytes labels :=
    funext (bytes_map_renumber f labels)
  rw [image, under, image]

theorem draftFrom_renumber (earlier lines : List SourceLine) :
    draftFrom labels (earlier.map (renumber f)) (lines.map (renumber f)) =
      draftFrom labels earlier lines := by
  induction lines generalizing earlier with
  | nil => rfl
  | cons line rest ih =>
    have further := ih (earlier ++ [line])
    have seen : earlier.map (renumber f) ++ [line.renumber f] =
        (earlier ++ [line]).map (renumber f) := by simp
    rw [List.map_cons, draftFrom, draftFrom, seen, further, tableOf_renumber, bytes_map_renumber]
    simp only [redefines_renumber]
    rfl

theorem repeat?_renumber (earlier : List SourceLine) (line : SourceLine) :
    repeat? (earlier.map (renumber f)) (line.renumber f) =
      (repeat? earlier line).map (Cause.renumber f) := by
  unfold repeat?
  rw [label?_renumber]
  cases line.label? with
  | none => rfl
  | some name =>
    simp only [Option.bind_some, List.find?_map, Option.map_map]
    rfl

theorem repeatsFrom_renumber (file : Text) (earlier lines : List SourceLine) :
    repeatsFrom file (earlier.map (renumber f)) (lines.map (renumber f)) =
      (repeatsFrom file earlier lines).map (Diagnostic.renumber f) := by
  induction lines generalizing earlier with
  | nil => rfl
  | cons line rest ih =>
    have further := ih (earlier ++ [line])
    rw [List.map_append] at further
    simp only [List.map_cons, repeatsFrom, List.map_append, repeat?_renumber]
    refine congrArg₂ _ ?_ further
    cases repeat? earlier line <;> rfl

theorem defects_renumber (file : Text) (lines : List SourceLine) :
    defects file (labels.map (Label.renumber f)) (lines.map (renumber f)) =
      (defects file labels lines).map (Diagnostic.renumber f) := by
  have names : (labels.map (Label.renumber f)).toList.map Label.name =
      labels.toList.map Label.name := by simp [Label.renumber]
  unfold defects
  rw [List.filterMap_map, List.map_filterMap]
  congr 1
  funext line
  rw [Function.comp_apply, statement_renumber, Statement.defect?_of_names names]
  cases found : line.statement.defect? labels with
  | none => rfl
  | some cause =>
    have kept := Cause.renumber_of_not_duplicate (Statement.not_duplicate_of_defect? found) f
    simp [diagnostic, Diagnostic.renumber, kept, renumber]

theorem findings_renumber (file : Text) (lines : List SourceLine) :
    findings file (lines.map (renumber f)) =
      (findings file lines).map (Diagnostic.renumber f) := by
  have repeated : repeats file (lines.map (renumber f)) =
      (repeats file lines).map (Diagnostic.renumber f) := repeatsFrom_renumber f file [] lines
  rw [findings, repeated, tableOf_renumber, active_renumber, defects_renumber, findings,
    List.map_append]

theorem ofRaw_append (raw raw' : List Text) :
    ofRaw (raw ++ raw') = ofRaw raw ++ (ofRaw raw').map (renumber (· + raw.length)) := by
  have later := List.map_snd_add_zipIdx_eq_zipIdx (l := raw') (n := raw.length) (k := 1)
  unfold ofRaw
  rw [List.zipIdx_append, List.filterMap_append, Nat.add_comm, ← later, List.filterMap_map,
    List.map_filterMap]
  congr 2
  funext ⟨t, n⟩
  simp only [Function.comp_apply, Prod.map_apply, id_eq]
  split
  · rfl
  · simp [renumber]

end SourceLine

section Runs

variable {f : Int → Int} {lines done : List SourceLine} {line : SourceLine}
  {e : Text.DigitOverflow}

theorem SourceLine.Readable.renumber (h : Readable lines)
    (numbers : ∀ l ∈ lines, Text.writable (f l.number) = true) :
    Readable (lines.map (SourceLine.renumber f)) := by
  constructor
  · intro l member
    obtain ⟨old, before, rfl⟩ := List.mem_map.mp member
    exact numbers old before
  · intro l member
    rw [active_renumber] at member
    obtain ⟨old, counts, rfl⟩ := List.mem_map.mp member
    exact h.literals old counts

theorem SourceLine.Stops.renumber (h : Stops done line e)
    (numbers : ∀ l ∈ done ++ [line], Text.writable (f l.number) = true) :
    Stops (done.map (SourceLine.renumber f)) (line.renumber f) e := by
  refine ⟨h.readable.renumber fun l member => ?_, ?_, ?_, h.literal⟩
  · exact numbers l (List.mem_append_left _ member)
  · rw [redefines_renumber]
    exact h.counts
  · exact numbers line (by simp)

namespace Assembler

/-- Two sources with the same lines under other numbers, in runs of any outcome. -/
theorem assemble_renumbered (s : Assembler) {raw raw' : List Text} (file : Text)
    (same : ofRaw raw' = (ofRaw raw).map (SourceLine.renumber f))
    (numbers : ∀ l ∈ ofRaw raw, Text.writable l.number = true)
    (numbers' : ∀ l ∈ ofRaw raw', Text.writable l.number = true) :
    let r := s.assemble raw file
    let r' := s.assemble raw' file
    r'.2 = r.2 ∧ r'.1.code = r.1.code ∧
      r'.1.assembly.labels = r.1.assembly.labels.map (Label.renumber f) ∧
      r'.1.assembly.report = r.1.assembly.report.renumber f := by
  intro r r'
  have renumbered : ∀ l ∈ ofRaw raw, Text.writable (f l.number) = true := by
    intro l member
    apply numbers' (l.renumber f)
    rw [same]
    exact List.mem_map_of_mem member
  by_cases readable : Readable (ofRaw raw)
  · have finished : r.2 = none := (finished_iff s raw file).mpr readable
    have finished' : r'.2 = none := by
      apply (finished_iff s raw' file).mpr
      rw [same]
      exact readable.renumber renumbered
    have table : r'.1.assembly.labels = r.1.assembly.labels.map (Label.renumber f) := by
      rw [labels_of_finished finished', labels_of_finished finished, same, tableOf_renumber]
    refine ⟨finished'.trans finished.symm, ?_, table, ?_⟩
    · rw [code_of_finished finished', code_of_finished finished, same, active_renumber,
        image_renumber, tableOf_renumber, image_map_renumber]
    · rw [findings_of_finished finished', findings_of_finished finished, same, findings_renumber,
        Report.renumber_gather, Report.renumber_empty]
  · obtain ⟨done, line, rest, e, split, stops⟩ := exists_stop numbers readable
    have split' : ofRaw raw' = done.map (SourceLine.renumber f) ++
        line.renumber f :: rest.map (SourceLine.renumber f) := by
      rw [same, split, List.map_append, List.map_cons]
    have stops' := stops.renumber (f := f) fun l member => by
      apply renumbered l
      rw [split]
      rcases List.mem_append.mp member with member | member
      · exact List.mem_append_left _ member
      · rw [List.mem_singleton.mp member]
        simp
    obtain ⟨ended, table, code, report⟩ := assemble_of_stops s file split stops
    obtain ⟨ended', table', code', report'⟩ := assemble_of_stops s file split' stops'
    have seen : done.map (SourceLine.renumber f) ++ [line.renumber f] =
        (done ++ [line]).map (SourceLine.renumber f) := by simp
    refine ⟨ended'.trans ended.symm, ?_, ?_, ?_⟩
    · exact code'.trans ((congrArg _ (draftFrom_renumber f {} [] done)).trans code.symm)
    · rw [table', table, seen, tableOf_renumber]
    · rw [report', report, Report.renumber_gather, Report.renumber_empty]
      exact congrArg _ (repeatsFrom_renumber f file [] done)

end Assembler

end Runs

end Asm6502
