import Asm6502.Proofs.Operands
import Asm6502.Proofs.Passes
import Mathlib.Data.List.TakeWhile

/-! What holds of an assembly whatever is done with it. Operations may come in any order and may
end with a defect or be cut short by a number that is too long; still the next address fits the
bytes, the labels are words with addresses, and no operation but a new run takes a label away. -/
namespace Asm6502

structure Label.WellFormed (l : Label) : Prop where
  nonempty : l.name ≠ []
  word : ∀ c ∈ l.name, isWordChar c = true
  low : 0 ≤ l.address
  high : l.address < 65536

structure LabelTable.Sound (t : LabelTable) : Prop where
  distinct : (t.toList.map Label.name).Nodup
  labels : ∀ l ∈ t.toList, l.WellFormed

theorem word_of_splitLabel {t name : Text} (h : (splitLabel t).1 = some name) :
    name ≠ [] ∧ ∀ c ∈ name, isWordChar c = true := by
  unfold splitLabel at h
  split at h
  · rename_i c word rest taken _
    split at h
    · cases Option.some.inj h
      refine ⟨by simp, fun d hd => ?_⟩
      rw [← taken] at hd
      exact List.mem_takeWhile_imp hd
    · cases h
  · cases h

theorem LabelTable.Sound.define {t t' : LabelTable} {label : Label} (h : t.Sound)
    (formed : label.WellFormed) (defined : t.define label = .ok t') : t'.Sound := by
  have absent : label.name ∉ t.toList.map Label.name := by
    intro member
    obtain ⟨l, hl, same⟩ := List.mem_map.mp member
    have none := (define_eq_ok_iff.mp defined).1
    rw [find?_eq_find?_toList, List.find?_eq_none] at none
    exact none l hl (by simpa using same)
  constructor
  · rw [toList_of_define defined, List.map_append]
    exact List.nodup_append.mpr ⟨h.distinct, by simp, fun x hx y hy => by
      rw [List.mem_singleton.mp hy]
      rintro rfl
      exact absent hx⟩
  · intro l hl
    rw [toList_of_define defined] at hl
    rcases List.mem_append.mp hl with hl | hl
    · exact h.labels l hl
    · rw [List.mem_singleton.mp hl]
      exact formed

namespace Assembly

structure Sound (a : Assembly) : Prop where
  aligned : a.pass.Aligned
  labels : a.labels.Sound

/-- Labels and bytes are only added. -/
structure Grows (a b : Assembly) : Prop where
  labels : a.labels.toList <+: b.labels.toList
  code : a.code <+: b.code
  sound : a.Sound → b.Sound

theorem Grows.refl (a : Assembly) : Grows a a := ⟨List.prefix_rfl, List.prefix_rfl, id⟩

theorem Grows.trans {a b c : Assembly} (h : Grows a b) (h' : Grows b c) : Grows a c :=
  ⟨h.labels.trans h'.labels, h.code.trans h'.code, h'.sound ∘ h.sound⟩

section Line

variable {a : Assembly}

theorem grows_emit (a : Assembly) (bytes : List UInt8) : Grows a (a.emit bytes) := by
  refine ⟨List.prefix_rfl, ⟨bytes, ?_⟩, fun h => ⟨h.aligned.emit bytes, h.labels⟩⟩
  simp [Assembly.code]

theorem entered_cases {line : SourceLine} {labels : LabelTable} (h : a.entered line = some labels) :
    labels = a.labels ∨ ∃ name, line.label? = some name ∧
      a.labels.define ⟨name, a.pass.pc, line.number⟩ = .ok labels := by
  unfold entered at h
  split at h
  · exact .inl (Option.some.inj h).symm
  · rename_i name label
    unfold enterLabel at h
    split at h
    · split at h
      · rename_i defined
        cases Option.some.inj h
        exact .inr ⟨name, label, defined⟩
      · cases h
    · left
      split at h
      · split at h
        · exact (Option.some.inj h).symm
        · cases h
      · exact (Option.some.inj h).symm

theorem Sound.enter (h : a.Sound) {line : SourceLine} {labels : LabelTable}
    (entered : a.entered line = some labels) : labels.Sound := by
  rcases entered_cases entered with rfl | ⟨name, label, defined⟩
  · exact h.labels
  · have pc : a.pass.pc = (loadAddress + a.pass.code.size) % 65536 := h.aligned
    obtain ⟨nonempty, word⟩ := word_of_splitLabel label
    apply h.labels.define ⟨nonempty, word, ?_, ?_⟩ defined
    · dsimp only
      omega
    · dsimp only
      omega

theorem grows_takeLine (a : Assembly) (line : SourceLine) : Grows a (a.takeLine line).1 := by
  cases passed : a.entered line with
  | none =>
    obtain ⟨_, _, _, _, taken⟩ := takeLine_eq_of_passed_over passed
    rw [taken]
    exact ⟨List.prefix_rfl, List.prefix_rfl, fun h => ⟨h.aligned, h.labels⟩⟩
  | some labels =>
    obtain ⟨table, pass, -⟩ := takeLine_of_entered passed
    refine ⟨?_, ?_, fun h => ⟨?_, ?_⟩⟩
    · rw [table]
      rcases entered_cases passed with rfl | ⟨name, -, defined⟩
      · exact List.prefix_rfl
      · rw [LabelTable.toList_of_define defined]
        exact List.prefix_append _ _
    · rw [Assembly.code, Assembly.code, pass, Pass.toList_code_emit]
      exact List.prefix_append _ _
    · rw [pass]
      exact h.aligned.emit _
    · rw [table]
      exact h.enter passed

theorem grows_assembleLine (a : Assembly) (line : SourceLine) :
    Grows a (a.assembleLine line).1 := by
  unfold assembleLine
  split
  · exact grows_takeLine a line
  · exact Grows.refl a

theorem grows_record (a : Assembly) (d : Diagnostic) : Grows a (a.record d) := by
  unfold record
  split
  · exact ⟨List.prefix_rfl, List.prefix_rfl, fun h => ⟨h.aligned, h.labels⟩⟩
  · exact Grows.refl a

end Line

section Passes

variable {a : Assembly} {number : Int}

theorem grows_runLines (a : Assembly) (lines : List SourceLine) : Grows a (a.runLines lines).1 := by
  induction lines generalizing a with
  | nil => exact Grows.refl a
  | cons line rest ih =>
    have first := grows_assembleLine a line
    unfold runLines
    rcases taken : a.assembleLine line with ⟨b, outcome⟩
    rw [taken] at first
    cases outcome with
    | done => exact first.trans (ih b)
    | defect d => exact first.trans ((grows_record b d).trans (ih (b.record d)))
    | stopped e => exact first

theorem grows_runPass (writable : Text.writable number = true) (lines : List SourceLine) :
    Grows (a.openPass number) (a.runPass number lines).1 := by
  have run := grows_runLines (a.openPass number) lines
  unfold runPass startPass
  simp only [writable, if_true]
  rcases ran : (a.openPass number).runLines lines with ⟨b, e⟩
  rw [ran] at run
  cases e with
  | none => exact ⟨run.labels, run.code, fun h => ⟨(run.sound h).aligned, (run.sound h).labels⟩⟩
  | some e => exact run

theorem sound_openPass (h : a.labels.Sound) (number : Int) : (a.openPass number).Sound :=
  ⟨Pass.aligned_start number, h⟩

theorem code_openPass (a : Assembly) (number : Int) : (a.openPass number).code = stub :=
  Pass.toList_code_start number

/-- A run begins with no label, so what was before it does not matter. -/
theorem sound_generate (a : Assembly) (lines : List SourceLine) :
    (a.generate lines).1.Sound ∧ stub <+: (a.generate lines).1.code := by
  have empty : LabelTable.Sound {} := ⟨List.nodup_nil, fun l hl => by cases hl⟩
  have first : Grows (openPass { a with labels := {} } labelPass)
      (runPass { a with labels := {} } labelPass lines).1 := grows_runPass Text.writable_zero lines
  have sound := first.sound (sound_openPass empty labelPass)
  unfold generate
  split
  · rename_i b ran
    rw [ran] at sound
    have second := grows_runPass (a := b) Text.writable_one lines
    refine ⟨second.sound (sound_openPass sound.labels emitPass), ?_⟩
    rw [← code_openPass b emitPass]
    exact second.code
  · rename_i b e ran
    rw [ran] at first sound
    refine ⟨sound, ?_⟩
    rw [← code_openPass { a with labels := {} } labelPass]
    exact first.code

end Passes

inductive Action
  | startPass (number : Int)
  /-- Puts in the low bytes of any numbers. -/
  | emit (values : List Int)
  | emitWord (value : Int)
  | assembleLine (line : SourceLine)
  | runPass (number : Int) (lines : List SourceLine)
  | generate (lines : List SourceLine)

def perform (a : Assembly) : Action → Assembly
  | .startPass number =>
    match a.startPass number with
    | .ok b => b
    | .error _ => a
  | .emit values => a.emit (values.map lowByte)
  | .emitWord value => a.emit (wordBytes value)
  | .assembleLine line => (a.assembleLine line).1
  | .runPass number lines => (a.runPass number lines).1
  | .generate lines => (a.generate lines).1

/-- The operation begins a pass. One with a number that cannot be told is refused at once. -/
def Action.begins : Action → Bool
  | .startPass number => Text.writable number
  | .runPass number _ => Text.writable number
  | .generate _ => true
  | _ => false

section Actions

variable {a : Assembly} {number : Int} {actions : List Action}

theorem perform_of_unwritable (unwritable : Text.writable number = false) :
    a.perform (.startPass number) = a ∧ ∀ lines, a.perform (.runPass number lines) = a := by
  refine ⟨?_, fun lines => ?_⟩
  · simp [perform, startPass, unwritable]
  · simp [perform, runPass, startPass, unwritable]

/-- An operation adds to what there is, or to a pass that it begins, or is a new run. -/
theorem perform_cases (a : Assembly) (x : Action) :
    (x.begins = false ∧ Grows a (a.perform x)) ∨
      (∃ number, Grows (a.openPass number) (a.perform x)) ∨ ∃ lines, x = .generate lines := by
  cases x with
  | startPass number =>
    cases writable : Text.writable number with
    | true =>
      have begun : a.perform (.startPass number) = a.openPass number := by
        simp [perform, startPass, writable]
      rw [begun]
      exact .inr (.inl ⟨number, Grows.refl _⟩)
    | false =>
      rw [(perform_of_unwritable writable).1]
      exact .inl ⟨writable, Grows.refl a⟩
  | emit values => exact .inl ⟨rfl, grows_emit a _⟩
  | emitWord value => exact .inl ⟨rfl, grows_emit a _⟩
  | assembleLine line => exact .inl ⟨rfl, grows_assembleLine a line⟩
  | runPass number lines =>
    cases writable : Text.writable number with
    | true => exact .inr (.inl ⟨number, grows_runPass writable lines⟩)
    | false =>
      rw [(perform_of_unwritable writable).2]
      exact .inl ⟨writable, Grows.refl a⟩
  | generate lines => exact .inr (.inr ⟨lines, rfl⟩)

theorem sound_perform (h : a.Sound) (x : Action) : (a.perform x).Sound := by
  rcases perform_cases a x with ⟨-, grows⟩ | ⟨number, grows⟩ | ⟨lines, rfl⟩
  · exact grows.sound h
  · exact grows.sound (sound_openPass h.labels number)
  · exact (sound_generate a lines).1

theorem stub_perform {x : Action} (h : stub <+: a.code ∨ x.begins = true) :
    stub <+: (a.perform x).code := by
  rcases perform_cases a x with ⟨other, grows⟩ | ⟨number, grows⟩ | ⟨lines, rfl⟩
  · rcases h with h | h
    · exact h.trans grows.code
    · cases other.symm.trans h
  · rw [← code_openPass a number]
    exact grows.code
  · exact (sound_generate a lines).2

theorem labels_perform (a : Assembly) {x : Action} (other : ∀ lines, x ≠ .generate lines) :
    a.labels.toList <+: (a.perform x).labels.toList := by
  rcases perform_cases a x with ⟨-, grows⟩ | ⟨number, grows⟩ | ⟨lines, rfl⟩
  · exact grows.labels
  · exact grows.labels
  · exact absurd rfl (other lines)

theorem sound_of_actions (h : a.Sound) (actions : List Action) :
    (actions.foldl perform a).Sound := by
  induction actions generalizing a with
  | nil => exact h
  | cons x rest ih => exact ih (sound_perform h x)

theorem stub_of_actions (h : stub <+: a.code ∨ ∃ x ∈ actions, x.begins = true) :
    stub <+: (actions.foldl perform a).code := by
  induction actions generalizing a with
  | nil =>
    rcases h with h | ⟨x, hx, -⟩
    · exact h
    · cases hx
  | cons x rest ih =>
    apply ih
    rcases h with h | ⟨y, hy, begins⟩
    · exact .inl (stub_perform (.inl h))
    · rcases List.mem_cons.mp hy with rfl | hy
      · exact .inl (stub_perform (.inr begins))
      · exact .inr ⟨y, hy, begins⟩

theorem sound_new (file : Text) (report : Report) : Sound { file, report } :=
  ⟨rfl, List.nodup_nil, fun l hl => by cases hl⟩

end Actions

/-- Whatever was done with a new assembly, and however it ended: the next address is that of the
byte after the last, the image begins with the stub once a pass has begun, the labels are distinct
words with addresses, and of the operations only a new run takes labels away. -/
theorem reachable_sound (file : Text) (report : Report) (actions : List Action) :
    let a := actions.foldl perform { file, report }
    a.pass.pc = (0x0801 + a.code.length) % 65536 ∧ (∀ b ∈ a.code, b.toNat ≤ 255) ∧
      ((∃ x ∈ actions, x.begins = true) →
        [0x0C, 0x08, 0x00, 0x00, 0x9E, 0x32, 0x30, 0x36, 0x31, 0x00, 0x00, 0x00] <+: a.code) ∧
      (a.labels.toList.map Label.name).Nodup ∧
      (∀ l ∈ a.labels.toList, l.name ≠ [] ∧
        (∀ c ∈ l.name, (48 ≤ c.toNat ∧ c.toNat ≤ 57) ∨ (65 ≤ c.toNat ∧ c.toNat ≤ 90) ∨
          (97 ≤ c.toNat ∧ c.toNat ≤ 122) ∨ c.toNat = 95) ∧
        0 ≤ l.address ∧ l.address ≤ 65535) ∧
      (∀ x, (∀ lines, x ≠ .generate lines) →
        a.labels.toList <+: (a.perform x).labels.toList) ∧
      ∀ number, Text.writable number = false →
        a.perform (.startPass number) = a ∧ ∀ lines, a.perform (.runPass number lines) = a := by
  intro a
  have sound : a.Sound := sound_of_actions (sound_new file report) actions
  refine ⟨?_, ?_, ?_, sound.labels.distinct, ?_, ?_, ?_⟩
  · have size : a.code.length = a.pass.code.size := Array.length_toList
    rw [size]
    exact sound.aligned
  · intro b _
    have bound := b.toNat_lt
    omega
  · intro begun
    rw [← stub_eq]
    exact stub_of_actions (.inr begun)
  · intro l hl
    have formed := sound.labels.labels l hl
    refine ⟨formed.nonempty, fun c hc => ?_, formed.low, Int.le_of_lt_add_one formed.high⟩
    exact (Operand.isWordChar_iff c).mp (formed.word c hc)
  · intro x other
    exact labels_perform a other
  · intro number unwritable
    exact perform_of_unwritable unwritable

/-- Bytes before any pass, a line on its own, a pass of an odd number over a line with a defect, a
run that a literal ends early, and a word at the end. -/
theorem reachable_sound_any_order :
    let long : List SourceLine := [⟨1, ['e', ':', 'L', 'D', 'A', ' '] ++ List.replicate 4301 '1'⟩]
    let actions : List Action :=
      [.emit [511, -1], .assembleLine ⟨1, ['l', ':', 'J', 'M', 'P', ' ', 'l']⟩,
       .runPass 7 [⟨2, ['l', ':', '?']⟩, ⟨2, ['J', 'M', 'P', ' ', 'x']⟩], .generate long,
       .emitWord (-2)]
    let a := actions.foldl perform { file := [] }
    [0x0C, 0x08, 0x00, 0x00, 0x9E, 0x32, 0x30, 0x36, 0x31, 0x00, 0x00, 0x00] <+: a.code ∧
      a.code.drop 12 = [0xFE, 0xFF] ∧ a.labels.toList = [⟨['e'], 0x080D, 1⟩] := by
  intro long actions a
  obtain ⟨-, -, begun, -⟩ := reachable_sound [] {} actions
  exact ⟨begun ⟨.generate long, by simp [actions], rfl⟩, by decide +kernel⟩

end Assembly
end Asm6502
