import Asm6502.Proofs.Active

/-! The two passes over one source. Each pass has an invariant that speaks of the lines done so
far and of nothing else; one line keeps it, and so a whole pass does. -/
namespace Asm6502

namespace Pass

def Aligned (p : Pass) : Prop := p.pc = (loadAddress + p.code.size) % 65536

@[simp] theorem size_code_emit (p : Pass) (bytes : List UInt8) :
    (p.emit bytes).code.size = p.code.size + bytes.length := by
  have h := congrArg List.length (toList_code_emit p bytes)
  rwa [List.length_append, Array.length_toList, Array.length_toList] at h

@[simp] theorem isLabelPass_emit (p : Pass) (bytes : List UInt8) :
    (p.emit bytes).isLabelPass = p.isLabelPass := by
  simp [isLabelPass]

theorem Aligned.emit {p : Pass} (h : p.Aligned) (bytes : List UInt8) : (p.emit bytes).Aligned := by
  unfold Aligned at h ⊢
  have hpc := pc_emit p bytes (by rw [h]; omega)
  rw [hpc, size_code_emit, h]
  push_cast
  omega

theorem toList_code_start (number : Int) : (start number).code.toList = stub := by
  simp [start]

theorem aligned_start (number : Int) : (start number).Aligned := by
  have empty : Aligned { number } := rfl
  exact empty.emit stub

theorem number_start (number : Int) : (start number).number = number := by
  simp [start]

end Pass

namespace SourceLine

/- What the label pass emits. A line sees the labels of the lines before it and its own, so a
symbol that is defined later is still zero. -/
def draftFrom (labels : LabelTable) (earlier : List SourceLine) : List SourceLine → List UInt8
  | [] => []
  | line :: rest =>
    (if Redefines earlier line then []
      else line.bytes (tableOf labels (earlier ++ [line]))) ++
      draftFrom labels (earlier ++ [line]) rest

def draft (labels : LabelTable) (lines : List SourceLine) : List UInt8 := draftFrom labels [] lines

theorem draftFrom_append (labels : LabelTable) (earlier xs ys : List SourceLine) :
    draftFrom labels earlier (xs ++ ys) =
      draftFrom labels earlier xs ++ draftFrom labels (earlier ++ xs) ys := by
  induction xs generalizing earlier with
  | nil => simp [draftFrom]
  | cons line rest ih => simp [draftFrom, ih]

theorem draft_concat_of_redefines (labels : LabelTable) {done : List SourceLine} {line : SourceLine}
    (h : Redefines done line) : draft labels (done ++ [line]) = draft labels done := by
  simp [draft, draftFrom_append, draftFrom, h]

theorem draft_concat (labels : LabelTable) {done : List SourceLine} {line : SourceLine}
    (h : ¬ Redefines done line) :
    draft labels (done ++ [line]) =
      draft labels done ++ line.bytes (tableOf labels (done ++ [line])) := by
  simp [draft, draftFrom_append, draftFrom, h]

theorem image_cons (labels : LabelTable) (line : SourceLine) (lines : List SourceLine) :
    image labels (line :: lines) = line.bytes labels ++ image labels lines := rfl

theorem image_append (labels : LabelTable) (xs ys : List SourceLine) :
    image labels (xs ++ ys) = image labels xs ++ image labels ys := List.flatMap_append

theorem image_concat (labels : LabelTable) (lines : List SourceLine) (line : SourceLine) :
    image labels (lines ++ [line]) = image labels lines ++ line.bytes labels := by
  simp [image]

theorem length_draft (labels : LabelTable) (lines : List SourceLine) :
    (draft labels lines).length = (image labels (active lines)).length := by
  induction lines using List.reverseRecOn with
  | nil => rfl
  | append_singleton done line ih =>
    by_cases hr : Redefines done line
    · rw [draft_concat_of_redefines labels hr, active_concat_of_redefines hr, ih]
    · rw [draft_concat labels hr, active_concat hr, image_concat, List.length_append,
        List.length_append, ih, length_bytes, length_bytes]

/-- No line ends a run: the numbers can be told, and the lines that count have no literal
beyond the limit. -/
structure Readable (lines : List SourceLine) : Prop where
  numbers : ∀ line ∈ lines, Text.writable line.number = true
  literals : ∀ line ∈ active lines, line.statement.overflow? = none

theorem Readable.concat {done : List SourceLine} {line : SourceLine} (h : Readable done)
    (number : Text.writable line.number = true)
    (literal : ¬ Redefines done line → line.statement.overflow? = none) :
    Readable (done ++ [line]) := by
  constructor
  · intro l hl
    rcases List.mem_append.mp hl with hl | hl
    · exact h.numbers l hl
    · cases List.mem_singleton.mp hl
      exact number
  · intro l hl
    by_cases hr : Redefines done line
    · rw [active_concat_of_redefines hr] at hl
      exact h.literals l hl
    · rw [active_concat hr] at hl
      rcases List.mem_append.mp hl with hl | hl
      · exact h.literals l hl
      · cases List.mem_singleton.mp hl
        exact literal hr

end SourceLine

open SourceLine

namespace Assembly

section Run

variable {lines : List SourceLine} {a b : Assembly} {I : List SourceLine → Assembly → Prop}

theorem run_keeps (h : lines.foldlM next? a = some b) (start : I [] a)
    (step : ∀ done line rest c d, lines = done ++ line :: rest → I done c →
      c.next? line = some d → I (done ++ [line]) d) : I lines b := by
  induction lines using List.reverseRecOn generalizing b with
  | nil => cases Option.some.inj h; exact start
  | append_singleton done line ih =>
    rw [List.foldlM_append] at h
    obtain ⟨c, hc, hb⟩ := Option.bind_eq_some_iff.mp h
    have hd : c.next? line = some b := by simpa using hb
    refine step done line [] c b rfl (ih hc ?_) hd
    intro done' line' rest c' d split
    exact step done' line' (rest ++ [line]) c' d (by simp [split])

theorem run_exists (start : I [] a)
    (step : ∀ done line rest c, lines = done ++ line :: rest → I done c →
      ∃ d, c.next? line = some d ∧ I (done ++ [line]) d) :
    ∃ b, lines.foldlM next? a = some b ∧ I lines b := by
  induction lines using List.reverseRecOn with
  | nil => exact ⟨a, rfl, start⟩
  | append_singleton done line ih =>
    obtain ⟨c, hc, hi⟩ := ih fun done' line' rest c split =>
      step done' line' (rest ++ [line]) c (by simp [split])
    obtain ⟨d, hd, hi'⟩ := step done line [] c rfl hi
    refine ⟨d, ?_, hi'⟩
    rw [List.foldlM_append, hc]
    simpa using hd

end Run

/-- The label pass after the lines `done`. The table `labels` is any: sizes do not depend on
it. -/
structure Collecting (labels : LabelTable) (done : List SourceLine) (a : Assembly) : Prop where
  labelPass : a.pass.isLabelPass = true
  aligned : a.pass.Aligned
  table : a.labels.toList = definitions labels done
  code : a.code = stub ++ draft labels done
  readable : Readable done

section Collecting

variable {labels : LabelTable} {done : List SourceLine} {a : Assembly} {line : SourceLine}

theorem Collecting.pc_eq (h : Collecting labels done a) :
    a.pass.pc = (startAddress + (image labels (active done)).length) % 65536 := by
  have size : a.pass.code.size = stub.length + (image labels (active done)).length := by
    rw [← length_draft, ← List.length_append, ← h.code]
    rfl
  have hs : stub.length = 12 := by decide
  rw [h.aligned, size, hs]
  simp only [loadAddress, startAddress]
  push_cast
  omega

theorem Collecting.passed_over (h : Collecting labels done a) (hr : Redefines done line) :
    a.entered line = none := by
  rw [entered_labelPass h.labelPass]
  cases hl : line.label? with
  | none => exact absurd hr (not_redefines_of_unlabelled hl done)
  | some name =>
    have found : a.labels.find? name ≠ none := by
      intro hn
      obtain ⟨l, hm, e⟩ := (redefines_iff hl).mp hr
      exact (find?_eq_none_iff h.table).mp hn l hm e
    cases hf : a.labels.find? name with
    | none => exact absurd hf found
    | some first => simp only [hf]

theorem Collecting.entered (h : Collecting labels done a) (hr : ¬ Redefines done line) :
    a.entered line = some (tableOf labels (done ++ [line])) := by
  have table := eq_tableOf h.table
  rw [entered_labelPass h.labelPass, tableOf, definitions_append, activeFrom, if_neg hr, activeFrom,
    definitionsFrom, definitionsFrom, List.append_nil]
  cases hl : line.label? with
  | none =>
    dsimp only
    rw [table]
    simp [tableOf]
  | some name =>
    have fresh : a.labels.find? name = none := by
      refine (find?_eq_none_iff h.table).mpr fun l hm e => ?_
      exact hr ((redefines_iff hl).mpr ⟨l, hm, e⟩)
    dsimp only
    rw [fresh, h.pc_eq, table]
    simp [tableOf]

/-- A line goes through the label pass exactly if nothing on it is beyond the limit. -/
theorem Collecting.next?_isSome_iff (h : Collecting labels done a) :
    (a.next? line).isSome ↔
      Text.writable line.number = true ∧
        (¬ Redefines done line → line.statement.overflow? = none) := by
  rw [Assembly.next?_isSome_iff]
  by_cases hr : Redefines done line
  · simp [h.passed_over hr, hr]
  · simp [h.entered hr, hr]

theorem Collecting.step (h : Collecting labels done a) {b : Assembly} (hb : a.next? line = some b) :
    Collecting labels (done ++ [line]) b := by
  have through := h.next?_isSome_iff.mp (Option.isSome_of_eq_some hb)
  have readable := h.readable.concat through.1 through.2
  by_cases hr : Redefines done line
  · have he := h.passed_over hr
    rcases next?_eq_some hb with ⟨t, ht, _⟩ | ⟨_, hlabels, hpass⟩
    · cases he.symm.trans ht
    · have code : b.code = a.code := by rw [Assembly.code, hpass]; rfl
      refine ⟨by rw [hpass]; exact h.labelPass, by rw [hpass]; exact h.aligned, ?_, ?_, readable⟩
      · rw [hlabels, h.table, definitions, definitions, active_concat_of_redefines hr]
      · rw [code, h.code, draft_concat_of_redefines labels hr]
  · have he := h.entered hr
    rcases next?_eq_some hb with ⟨t, ht, hlabels, hpass⟩ | ⟨hn, _⟩
    · cases Option.some.inj (he.symm.trans ht)
      refine ⟨by rw [hpass, Pass.isLabelPass_emit]; exact h.labelPass,
        by rw [hpass]; exact h.aligned.emit _, by rw [hlabels, toList_tableOf], ?_, readable⟩
      have code : b.code = a.code ++ line.bytes (tableOf labels (done ++ [line])) := by
        rw [Assembly.code, hpass, Pass.toList_code_emit]
        rfl
      rw [code, h.code, draft_concat labels hr, List.append_assoc]
    · cases he.symm.trans hn

end Collecting

theorem collecting_openPass (labels : LabelTable) {a : Assembly} (empty : a.labels = {}) :
    Collecting labels [] (a.openPass Asm6502.labelPass) := by
  refine ⟨?_, Pass.aligned_start _, ?_, ?_, ⟨?_, ?_⟩⟩
  · simp [openPass, Pass.isLabelPass, Pass.number_start]
  · simp [openPass, empty, LabelTable.toList, definitions, active, activeFrom, definitionsFrom]
  · simp [openPass, Assembly.code, Pass.toList_code_start, draft, draftFrom]
  · intro line hl
    cases hl
  · intro line hl
    cases hl

theorem collecting_of_run (labels : LabelTable) {a b : Assembly} {lines : List SourceLine}
    (empty : a.labels = {})
    (h : lines.foldlM next? (a.openPass Asm6502.labelPass) = some b) :
    Collecting labels lines b :=
  run_keeps h (collecting_openPass labels empty) fun _ _ _ _ _ _ hi hd => hi.step hd

/-- The emission pass after the lines `done`, under the whole label table. -/
structure Emitting (labels : LabelTable) (done : List SourceLine) (a : Assembly) : Prop where
  emitPass : a.pass.isLabelPass = false
  aligned : a.pass.Aligned
  table : a.labels = labels
  code : a.code = stub ++ image labels (active done)

section Emitting

variable {labels : LabelTable} {lines done rest : List SourceLine} {a : Assembly}
  {line : SourceLine}

/-- The line numbers tell the same lines apart as the label pass did. -/
theorem Emitting.entered_eq (h : Emitting labels done a)
    (complete : labels.toList = definitions labels lines)
    (distinct : (lines.map SourceLine.number).Nodup) (split : lines = done ++ line :: rest) :
    a.entered line = if Redefines done line then none else some labels := by
  subst split
  rw [entered_of_not_labelPass h.emitPass, h.table]
  cases hl : line.label? with
  | none => rw [if_neg (not_redefines_of_unlabelled hl done)]
  | some name =>
    dsimp only
    by_cases hr : Redefines done line
    · obtain ⟨first, hf, l, hm, hn⟩ := find?_of_earlier complete ((redefines_iff hl).mp hr)
      -- The name is found, but on another line, and numbers are distinct.
      have differ : first.line ≠ line.number := by
        rw [hn]
        rw [List.map_append, List.nodup_append] at distinct
        exact distinct.2.2 _ (List.mem_map_of_mem hm) _ (by simp)
      rw [if_pos hr, hf]
      exact if_neg differ
    · rw [if_neg hr, find?_of_first complete hl hr]
      exact if_pos rfl

theorem Emitting.step (h : Emitting labels done a)
    (complete : labels.toList = definitions labels lines)
    (distinct : (lines.map SourceLine.number).Nodup) (split : lines = done ++ line :: rest)
    {b : Assembly} (hb : a.next? line = some b) : Emitting labels (done ++ [line]) b := by
  have he := h.entered_eq complete distinct split
  rcases next?_eq_some hb with ⟨t, ht, hlabels, hpass⟩ | ⟨hn, hlabels, hpass⟩
  · have hr : ¬ Redefines done line := by
      intro hr
      rw [if_pos hr] at he
      cases he.symm.trans ht
    rw [if_neg hr] at he
    cases Option.some.inj (he.symm.trans ht)
    refine ⟨by rw [hpass, Pass.isLabelPass_emit]; exact h.emitPass,
      by rw [hpass]; exact h.aligned.emit _, hlabels, ?_⟩
    have code : b.code = a.code ++ line.bytes labels := by
      rw [Assembly.code, hpass, Pass.toList_code_emit]
      rfl
    rw [code, h.code, active_concat hr, image_concat, List.append_assoc]
  · have hr : Redefines done line := by
      by_contra hr
      rw [if_neg hr] at he
      cases he.symm.trans hn
    have code : b.code = a.code := by rw [Assembly.code, hpass]; rfl
    refine ⟨by rw [hpass]; exact h.emitPass, by rw [hpass]; exact h.aligned,
      hlabels.trans h.table, ?_⟩
    rw [code, h.code, active_concat_of_redefines hr]

/-- What the label pass could read, the emission pass can read. -/
theorem Emitting.progress (h : Emitting labels done a)
    (complete : labels.toList = definitions labels lines)
    (distinct : (lines.map SourceLine.number).Nodup) (readable : Readable lines)
    (split : lines = done ++ line :: rest) : ∃ b, a.next? line = some b := by
  rw [← Option.isSome_iff_exists, next?_isSome_iff, h.entered_eq complete distinct split]
  subst split
  refine ⟨readable.numbers line (by simp), fun t ht => ?_⟩
  by_cases hr : Redefines done line
  · rw [if_pos hr] at ht
    cases ht
  · exact readable.literals line (by simp [active_append, activeFrom, hr])

end Emitting

theorem emitting_openPass (a : Assembly) : Emitting a.labels [] (a.openPass Asm6502.emitPass) := by
  refine ⟨?_, Pass.aligned_start _, rfl, ?_⟩
  · simp [openPass, Pass.isLabelPass, Pass.number_start, Asm6502.emitPass, Asm6502.labelPass]
  · simp [openPass, Assembly.code, Pass.toList_code_start, image, active, activeFrom]

theorem emitting_of_readable {a : Assembly} {done rest : List SourceLine}
    (complete : a.labels.toList = definitions a.labels (done ++ rest))
    (distinct : ((done ++ rest).map SourceLine.number).Nodup) (readable : Readable (done ++ rest)) :
    ∃ b, done.foldlM next? (a.openPass Asm6502.emitPass) = some b ∧ Emitting a.labels done b := by
  refine run_exists (emitting_openPass a) fun before line after c split hi => ?_
  have whole : done ++ rest = before ++ line :: (after ++ rest) := by simp [split]
  obtain ⟨d, hd⟩ := hi.progress complete distinct readable whole
  exact ⟨d, hd, hi.step complete distinct whole hd⟩

/-- A run without an early end is a pass for the labels, then a pass for the bytes. -/
theorem generate_eq_foldlM {a c : Assembly} {lines : List SourceLine} :
    a.generate lines = (c, none) ↔
      ∃ p q, lines.foldlM next? (openPass { a with labels := {} } Asm6502.labelPass) = some p ∧
        lines.foldlM next?
          ((p.note (.passEnded Asm6502.labelPass p.pass.code.size p.pass.pc)).openPass
            Asm6502.emitPass) = some q ∧
        c = q.note (.passEnded Asm6502.emitPass q.pass.code.size q.pass.pc) := by
  unfold generate
  constructor
  · intro h
    rcases hb : { a with labels := {} }.runPass Asm6502.labelPass lines with ⟨b, _ | e⟩
    · rw [hb] at h
      obtain ⟨p, first, rfl⟩ := (runPass_eq_foldlM Text.writable_zero).mp hb
      obtain ⟨q, second, rfl⟩ := (runPass_eq_foldlM Text.writable_one).mp h
      exact ⟨p, q, first, second, rfl⟩
    · rw [hb] at h
      cases (Prod.mk.inj h).2
  · rintro ⟨p, q, first, second, rfl⟩
    have collected : { a with labels := {} }.runPass Asm6502.labelPass lines = (_, none) :=
      (runPass_eq_foldlM Text.writable_zero).mpr ⟨p, first, rfl⟩
    rw [collected]
    exact (runPass_eq_foldlM Text.writable_one).mpr ⟨q, second, rfl⟩

theorem emitting_of_run {a b : Assembly} {lines : List SourceLine}
    (complete : a.labels.toList = definitions a.labels lines)
    (distinct : (lines.map SourceLine.number).Nodup)
    (h : lines.foldlM next? (a.openPass Asm6502.emitPass) = some b) : Emitting a.labels lines b :=
  run_keeps h (emitting_openPass a) fun _ _ _ _ _ split hi hd =>
    hi.step complete distinct split hd

theorem generate_eq_none {a c : Assembly} {lines : List SourceLine}
    (distinct : (lines.map SourceLine.number).Nodup) (h : a.generate lines = (c, none)) :
    Readable lines ∧ c.labels.toList = definitions c.labels lines ∧
      c.code = stub ++ image c.labels (active lines) := by
  obtain ⟨p, q, run, run', rfl⟩ := generate_eq_foldlM.mp h
  have first := collecting_of_run p.labels rfl run
  have second := emitting_of_run (a := p.note _) first.table distinct run'
  refine ⟨first.readable, ?_, ?_⟩
  · change q.labels.toList = definitions q.labels lines
    rw [second.table]
    exact first.table
  · change q.code = stub ++ image q.labels (active lines)
    rw [second.table]
    exact second.code

end Assembly
end Asm6502
