import Asm6502.Proofs.Passes

/-! The two passes go in step. Whatever is wrong with the lines, both passes stand at the same
address before and after each of them, and their bytes differ at most where the label pass
left zeros for a label that comes later. -/
namespace Asm6502

open SourceLine

namespace SourceLine

/-- The line refers to a label that no line up to it has, and some later line does. -/
structure ForwardReference (earlier : List SourceLine) (line : SourceLine)
    (later : List SourceLine) (opcode : UInt8) (symbol : Text) : Prop where
  counts : ¬ Redefines earlier line
  form : line.statement.form = .ok (some (.reference opcode symbol))
  unseen : ∀ l ∈ earlier ++ [line], l.label? ≠ some symbol
  defined : ∃ l ∈ later, l.label? = some symbol

/-- Byte `k` of the code is one of the two operand bytes of a forward reference. -/
def Awaits (labels : LabelTable) (lines : List SourceLine) (k : Nat) : Prop :=
  ∃ earlier line later opcode symbol, lines = earlier ++ line :: later ∧
    ForwardReference earlier line later opcode symbol ∧
    (k = (stub ++ image labels (active earlier)).length + 1 ∨
      k = (stub ++ image labels (active earlier)).length + 2)

section

variable {labels : LabelTable} {lines done rest : List SourceLine} {line : SourceLine}
  {opcode : UInt8} {symbol : Text}

theorem bytes_of_reference (h : line.statement.form = .ok (some (.reference opcode symbol)))
    (table : LabelTable) :
    line.bytes table = opcode :: wordBytes (Form.addressOf table symbol) := by
  simp [bytes, Statement.bytes, h, Form.bytes]

theorem bytes_of_unseen (h : line.statement.form = .ok (some (.reference opcode symbol)))
    (unseen : ∀ l ∈ done ++ [line], l.label? ≠ some symbol) :
    line.bytes (tableOf labels (done ++ [line])) = [opcode, 0, 0] := by
  have none : (tableOf labels (done ++ [line])).find? symbol = none :=
    (find?_eq_none_iff (toList_tableOf labels _)).mpr unseen
  rw [bytes_of_reference h, Form.addressOf, none]
  rfl

theorem find?_of_find?_earlier (complete : labels.toList = definitions labels (done ++ rest))
    {label : Label} (h : (tableOf labels done).find? symbol = some label) :
    labels.find? symbol = some label := by
  rw [LabelTable.find?_eq_find?_toList] at h ⊢
  rw [complete, definitions_append, List.find?_append]
  rw [toList_tableOf] at h
  rw [h]
  rfl

theorem bytes_eq_or_forward
    (complete : labels.toList = definitions labels (done ++ line :: rest))
    (hr : ¬ Redefines done line) :
    line.bytes (tableOf labels (done ++ [line])) = line.bytes labels ∨
      ∃ opcode symbol, ForwardReference done line rest opcode symbol := by
  have whole : done ++ line :: rest = (done ++ [line]) ++ rest := by simp
  unfold bytes Statement.bytes
  split
  · rename_i form hf
    cases form with
    | single opcode => exact .inl rfl
    | immediate opcode value => exact .inl rfl
    | absolute opcode address => exact .inl rfl
    | reference opcode symbol =>
      cases found : (tableOf labels (done ++ [line])).find? symbol with
      | some label =>
        have later := find?_of_find?_earlier (whole ▸ complete) found
        left
        simp only [Form.bytes, Form.addressOf, found, later]
      | none =>
        have unseen := (find?_eq_none_iff (toList_tableOf labels _)).mp found
        by_cases defined : ∃ l ∈ rest, l.label? = some symbol
        · exact .inr ⟨opcode, symbol, hr, hf, unseen, defined⟩
        · have nowhere : labels.find? symbol = none := by
            rw [find?_eq_none_iff complete, whole]
            intro l hl e
            rcases List.mem_append.mp hl with hl | hl
            · exact unseen l hl e
            · exact defined ⟨l, hl, e⟩
          left
          simp only [Form.bytes, Form.addressOf, found, nowhere]
  · exact .inl rfl

/-- The draft and the image agree wherever no label is awaited. -/
theorem draft_eq_image (complete : labels.toList = definitions labels lines)
    (split : lines = done ++ rest) {k : Nat} (h : ¬ Awaits labels lines k) :
    (stub ++ draft labels done)[k]? = (stub ++ image labels (active done))[k]? := by
  induction done using List.reverseRecOn generalizing rest with
  | nil => rfl
  | append_singleton done line ih =>
    have split' : lines = done ++ line :: rest := by simp [split]
    have before := ih split'
    by_cases hr : Redefines done line
    · rw [draft_concat_of_redefines labels hr, active_concat_of_redefines hr]
      exact before
    · have same : (stub ++ draft labels done).length =
          (stub ++ image labels (active done)).length := by
        rw [List.length_append, List.length_append, length_draft]
      rw [draft_concat labels hr, active_concat hr, image_concat, ← List.append_assoc,
        ← List.append_assoc]
      by_cases hk : k < (stub ++ image labels (active done)).length
      · rw [List.getElem?_append_left (same ▸ hk), List.getElem?_append_left hk, before]
      · rw [List.getElem?_append_right (same ▸ Nat.le_of_not_lt hk),
          List.getElem?_append_right (Nat.le_of_not_lt hk), same]
        rcases bytes_eq_or_forward (split' ▸ complete) hr with he | ⟨opcode, symbol, forward⟩
        · rw [he]
        · rw [bytes_of_unseen forward.form forward.unseen, bytes_of_reference forward.form]
          -- Only the opcode is left: the two places after it are awaited.
          have awaits : ∀ j, j = 1 ∨ j = 2 →
              k ≠ (stub ++ image labels (active done)).length + j := by
            intro j hj e
            refine h ⟨done, line, rest, opcode, symbol, split', forward, ?_⟩
            rcases hj with rfl | rfl
            · exact .inl e
            · exact .inr e
          generalize hj : k - (stub ++ image labels (active done)).length = j
          match j with
          | 0 => rfl
          | 1 => exact absurd (by omega) (awaits 1 (.inl rfl))
          | 2 => exact absurd (by omega) (awaits 2 (.inr rfl))
          | j + 3 => rfl

theorem draft_append (labels : LabelTable) (xs ys : List SourceLine) :
    draft labels (xs ++ ys) = draft labels xs ++ draftFrom labels xs ys :=
  draftFrom_append labels [] xs ys

theorem draft_of_awaits (split : lines = done ++ rest) {k : Nat} (h : Awaits labels lines k)
    (inside : k < (stub ++ draft labels done).length) :
    (stub ++ draft labels done)[k]? = some 0 := by
  obtain ⟨earlier, line, later, opcode, symbol, split', forward, hk⟩ := h
  have size : (stub ++ image labels (active earlier)).length =
      (stub ++ draft labels earlier).length := by
    rw [List.length_append, List.length_append, length_draft]
  rw [size] at hk
  have reached : ∃ others, done = (earlier ++ [line]) ++ others := by
    rcases List.append_eq_append_iff.mp (split'.symm.trans split) with
      ⟨others, hd, ho⟩ | ⟨others, he, _⟩
    · cases others with
      | nil =>
        rw [hd, List.append_nil] at inside
        omega
      | cons l others =>
        obtain ⟨rfl, _⟩ := List.cons.inj ho
        exact ⟨others, by simp [hd]⟩
    · rw [he, draft_append, ← List.append_assoc, List.length_append] at hk
      omega
  obtain ⟨others, rfl⟩ := reached
  rw [draft_append, draft_concat labels forward.counts,
    bytes_of_unseen forward.form forward.unseen, ← List.append_assoc, ← List.append_assoc,
    List.append_assoc (stub ++ draft labels earlier)]
  rcases hk with rfl | rfl
  · rw [List.getElem?_append_right (by omega), Nat.add_sub_cancel_left]
    rfl
  · rw [List.getElem?_append_right (by omega), Nat.add_sub_cancel_left]
    rfl

end

end SourceLine

namespace Assembly

/-- The passes over the first lines `done` of a source, which are the states of the passes over
all lines just after `done`. -/
theorem passes_agree {a b : Assembly} {lines done rest : List SourceLine} (empty : a.labels = {})
    (distinct : (lines.map SourceLine.number).Nodup)
    (collected : a.runPass labelPass lines = (b, none)) (split : lines = done ++ rest) :
    ∃ p q, a.runPass labelPass done = (p, none) ∧ b.runPass emitPass done = (q, none) ∧
      p.pass.pc = q.pass.pc ∧ p.pass.code.size = q.pass.code.size ∧
      (∀ k, ¬ Awaits b.labels lines k → p.code[k]? = q.code[k]?) ∧
      ∀ k, Awaits b.labels lines k → k < p.code.length → p.code[k]? = some 0 := by
  subst split
  obtain ⟨c, run, rfl⟩ := (runPass_eq_foldlM Text.writable_zero).mp collected
  have whole := collecting_of_run c.labels empty run
  rw [List.foldlM_append] at run
  obtain ⟨p, runDone, _⟩ := Option.bind_eq_some_iff.mp run
  have first := collecting_of_run c.labels empty runDone
  obtain ⟨q, runEmit, second⟩ := emitting_of_readable
    (a := c.note (.passEnded labelPass c.pass.code.size c.pass.pc)) whole.table distinct
    whole.readable
  have size : p.pass.code.size = q.pass.code.size := by
    have hp : p.pass.code.size = p.code.length := rfl
    have hq : q.pass.code.size = q.code.length := rfl
    rw [hp, hq, first.code, second.code, List.length_append, List.length_append, length_draft]
    rfl
  refine ⟨_, _, (runPass_eq_foldlM Text.writable_zero).mpr ⟨p, runDone, rfl⟩,
    (runPass_eq_foldlM Text.writable_one).mpr ⟨q, runEmit, rfl⟩, ?_, size, ?_, ?_⟩
  · change p.pass.pc = q.pass.pc
    rw [first.aligned, second.aligned, size]
  · intro k hk
    change p.code[k]? = q.code[k]?
    rw [first.code, second.code]
    exact draft_eq_image whole.table rfl hk
  · intro k hk inside
    change k < p.code.length at inside
    change p.code[k]? = some 0
    rw [first.code] at inside ⊢
    exact draft_of_awaits rfl hk inside

/-- A jump forward over a line with an unknown word, to a label that is defined twice. -/
theorem passes_agree_forward_jump :
    let lines : List SourceLine :=
      [⟨1, ['J', 'M', 'P', ' ', 'e']⟩, ⟨2, ['o', 'o', 'p', 's']⟩, ⟨3, ['e', ':', 'N', 'O', 'P']⟩,
       ⟨4, ['e', ':', 'R', 'T', 'S']⟩]
    let b := (runPass { file := [] } labelPass lines).1
    Awaits b.labels lines 13 ∧
      ∃ p q, runPass { file := [] } labelPass lines = (p, none) ∧
        b.runPass emitPass lines = (q, none) ∧ p.pass.pc = q.pass.pc ∧
        p.code[13]? = some 0 ∧ q.code[13]? = some 0x10 := by
  intro lines b
  have collected : runPass { file := [] } labelPass lines = (b, none) :=
    Prod.ext rfl (by decide +kernel)
  have awaits : Awaits b.labels lines 13 :=
    ⟨[], _, _, 0x4C, ['e'], rfl, ⟨by decide, by decide +kernel, by decide, by decide⟩, .inl rfl⟩
  obtain ⟨p, q, hp, hq, pc, size, -, zero⟩ :=
    passes_agree rfl (by decide) collected (List.append_nil lines).symm
  have inside : 13 < p.code.length := by
    cases congrArg Prod.fst (hp.symm.trans collected)
    decide +kernel
  have resolved : (b.runPass emitPass lines).1.code[13]? = some 0x10 := by decide +kernel
  rw [hq] at resolved
  exact ⟨awaits, p, q, hp, hq, pc, zero 13 awaits inside, resolved⟩

end Assembly
end Asm6502
