import Asm6502.Proofs.Decoding
import Asm6502.Proofs.Numerals
import Asm6502.Source.Line

/-! The text of a decoded instruction, taken as a source line. It is a mnemonic, or a mnemonic,
a blank and an operand without blanks. So there is no comment to cut off, nothing to trim and
no label, and what is read is the mnemonic and the operand again. -/
namespace Asm6502

namespace Text

/-- Neither a blank nor the beginning of a comment. -/
def isVisible (c : Char) : Bool := 33 ≤ c.toNat && c.toNat ≤ 126 && c != ';'

section Visible

variable {c : Char}

theorem isVisible_iff : isVisible c = true ↔ (33 ≤ c.toNat ∧ c.toNat ≤ 126) ∧ c ≠ ';' := by
  simp [isVisible]

theorem isBlank_of_isVisible (h : isVisible c = true) : isBlank c = false := by
  obtain ⟨range, _⟩ := isVisible_iff.mp h
  simp only [isBlank, Bool.or_eq_false_iff, Bool.and_eq_false_iff, decide_eq_false_iff_not,
    beq_eq_false_iff_ne]
  omega

theorem isAsciiBlank_of_isVisible (h : isVisible c = true) : isAsciiBlank c = false := by
  rw [Bool.eq_false_iff]
  intro blank
  have := isBlank_of_isAsciiBlank blank
  rw [isBlank_of_isVisible h] at this
  cases this

theorem ne_newline_of_isVisible (h : isVisible c = true) : c ≠ '\n' := by
  rintro rfl
  cases h

theorem isVisible_of_isDigitOf (h : isDigitOf 16 c = true) : isVisible c = true := by
  unfold isDigitOf at h
  split at h
  · rename_i d hd
    have range := toNat_of_digitValue? hd
    refine isVisible_iff.mpr ⟨by omega, ?_⟩
    rintro rfl
    cases hd
  · cases h

end Visible

theorem onlyLine?_of_visible {t : Text} (h : ∀ c ∈ t, isVisible c = true) :
    onlyLine? t = some t :=
  onlyLine?_of_not_mem fun member => ne_newline_of_isVisible (h _ member) rfl

def Trimmed (t : Text) : Prop :=
  (∃ c rest, t = c :: rest ∧ isBlank c = false) ∧ ∃ rest c, t = rest ++ [c] ∧ isBlank c = false

theorem trimmed_of_visible {t : Text} (h : ∀ c ∈ t, isVisible c = true) (ne : t ≠ []) :
    Trimmed t := by
  constructor
  · obtain ⟨c, rest, rfl⟩ := List.exists_cons_of_ne_nil ne
    exact ⟨c, rest, rfl, isBlank_of_isVisible (h c (by simp))⟩
  · obtain ⟨rest, c, rfl⟩ := (List.eq_nil_or_concat t).resolve_left ne
    rw [List.concat_eq_append] at h ⊢
    exact ⟨rest, c, rfl, isBlank_of_isVisible (h c (by simp))⟩

theorem Trimmed.append {s t : Text} (hs : Trimmed s) (ht : Trimmed t) (middle : Text) :
    Trimmed (s ++ middle ++ t) := by
  obtain ⟨⟨c, rest, rfl, hc⟩, _⟩ := hs
  obtain ⟨_, rest', d, rfl, hd⟩ := ht
  exact ⟨⟨c, _, rfl, hc⟩, ⟨c :: rest ++ middle ++ rest', d, by simp, hd⟩⟩

theorem Trimmed.trim_eq {t : Text} (h : Trimmed t) : t.trim = t := by
  obtain ⟨⟨c, rest, hf, hc⟩, rest', d, hl, hd⟩ := h
  have left : t.trimLeft = t := by
    rw [trimLeft, hf, List.dropWhile_cons_of_neg (by simp [hc])]
  have right : t.trimRight = t := by
    rw [trimRight, hl, List.reverse_append, List.reverse_singleton, List.singleton_append,
      List.dropWhile_cons_of_neg (by simp [hd])]
    simp
  rw [trim, left, right]

end Text

theorem SourceLine.cutCommentFrom_eq {t : Text} (h : ∀ c ∈ t, c ≠ ';') (escaped : Bool)
    (kept : Text) : cutCommentFrom escaped kept t = kept.reverse ++ t := by
  induction t generalizing escaped kept with
  | nil => simp [cutCommentFrom]
  | cons c rest ih =>
    have other : ¬ (c = ';' ∧ escaped = false) := fun e => h c (by simp) e.1
    rw [cutCommentFrom, if_neg other, ih fun d hd => h d (by simp [hd])]
    simp

theorem SourceLine.content_eq {t : Text} (h : ∀ c ∈ t, c ≠ ';') (trimmed : t.Trimmed) :
    content t = t := by
  rw [content, cutComment, cutCommentFrom_eq h]
  exact trimmed.trim_eq

section Word

variable {w t : Text}

theorem takeWhile_word (word : ∀ c ∈ w, isWordChar c = true) :
    (w ++ ' ' :: t).takeWhile isWordChar = w ∧
      (w ++ ' ' :: t).dropWhile isWordChar = ' ' :: t := by
  have blank : isWordChar ' ' = false := by decide
  rw [List.takeWhile_append_of_pos word, List.dropWhile_append_of_pos word]
  simp [blank]

theorem splitLabel_lone_word (word : ∀ c ∈ w, isWordChar c = true) :
    splitLabel w = (none, w) := by
  have left : w.dropWhile isWordChar = [] := List.dropWhile_eq_nil_iff.mpr word
  simp [splitLabel, left]

theorem splitLabel_word (word : ∀ c ∈ w, isWordChar c = true) :
    splitLabel (w ++ ' ' :: t) = (none, w ++ ' ' :: t) := by
  have left := (takeWhile_word (t := t) word).2
  simp [splitLabel, left]

theorem parse_lone_word (word : ∀ c ∈ w, isWordChar c = true) (ne : w ≠ []) :
    Statement.parse w = .instruction (w.map Char.toUpper) none := by
  have taken : w.takeWhile isWordChar = w := List.takeWhile_eq_self_iff.mpr word
  have left : w.dropWhile isWordChar = [] := List.dropWhile_eq_nil_iff.mpr word
  obtain ⟨c, rest, rfl⟩ := List.exists_cons_of_ne_nil ne
  rw [Statement.parse, taken, left]
  rfl

theorem parse_word (word : ∀ c ∈ w, isWordChar c = true) (ne : w ≠ [])
    (visible : ∀ c ∈ t, Text.isVisible c = true) (nonempty : t ≠ []) :
    Statement.parse (w ++ ' ' :: t) = .instruction (w.map Char.toUpper) (some t) := by
  obtain ⟨taken, left⟩ := takeWhile_word (t := t) word
  obtain ⟨c, rest, rfl⟩ := List.exists_cons_of_ne_nil ne
  obtain ⟨d, tail, rfl⟩ := List.exists_cons_of_ne_nil nonempty
  have first : Text.isAsciiBlank d = false :=
    Text.isAsciiBlank_of_isVisible (visible d (by simp))
  rw [Statement.parse, taken, left]
  have blank : Text.isAsciiBlank ' ' = true := by decide
  simp [blank, first, Text.onlyLine?_of_visible visible, Statement.operand?]

end Word

namespace Mnemonic

theorem isWordChar_of_mem_name (m : Mnemonic) : ∀ c ∈ m.name, isWordChar c = true := by
  rw [← List.all_eq_true]
  cases m <;> rfl

theorem isVisible_of_mem_name (m : Mnemonic) : ∀ c ∈ m.name, Text.isVisible c = true := by
  rw [← List.all_eq_true]
  cases m <;> rfl

theorem name_ne_nil (m : Mnemonic) : m.name ≠ [] := by cases m <;> decide

theorem map_toUpper_name (m : Mnemonic) : m.name.map Char.toUpper = m.name := by
  cases m <;> decide

end Mnemonic

namespace Listing

theorem isVisible_of_mem_hex {width n : Nat} {c : Char} (h : c ∈ Text.hex width n) :
    Text.isVisible c = true :=
  Text.isVisible_of_isDigitOf ((Text.spells_hex width n).digits c h)

theorem isVisible_of_mem_operandText (mode : Mode) (value : Nat) :
    ∀ c ∈ operandText mode value, Text.isVisible c = true := by
  have numeral : ∀ width, (Text.hex width value).all Text.isVisible = true := fun _ =>
    List.all_eq_true.mpr fun _ => isVisible_of_mem_hex
  rw [← List.all_eq_true]
  cases mode <;>
    simp only [operandText, List.all_append, List.all_cons, List.all_nil, numeral] <;> decide

theorem operandText_ne_nil {mode : Mode} (h : mode ≠ .single) (value : Int) :
    operandText mode value ≠ [] := by
  cases mode <;> simp_all [operandText]

/-- The number in an operand, a branch target included, is never negative. -/
theorem exists_operandText (labels : List (Text × Int)) (address : Int) (o : Operation)
    (operand : List UInt8) :
    ∃ value : Nat, (instruction labels address o operand).operand = operandText o.mode value := by
  by_cases branch : o.mode = .branch
  · have nonneg : 0 ≤ branchTarget address (littleEndian operand) :=
      Int.emod_nonneg _ (by decide)
    refine ⟨(branchTarget address (littleEndian operand)).toNat, ?_⟩
    rw [Int.toNat_of_nonneg nonneg]
    simp [instruction, branch]
  · exact ⟨littleEndian operand, by simp [instruction, branch]⟩

end Listing

/-- A line with that text, as it stands, is the mnemonic with the operand and nothing else. -/
structure ReadsAs (t : Text) (m : Mnemonic) (operand : Option Text) : Prop where
  nonempty : t ≠ []
  content : SourceLine.content t = t
  unlabelled : splitLabel t = (none, t)
  parsed : Statement.parse t = .instruction m.name operand

theorem readsAs_mnemonic (m : Mnemonic) : ReadsAs m.name m none := by
  refine ⟨m.name_ne_nil, ?_, splitLabel_lone_word m.isWordChar_of_mem_name, ?_⟩
  · refine SourceLine.content_eq (fun c hc => ?_)
      (Text.trimmed_of_visible m.isVisible_of_mem_name m.name_ne_nil)
    exact (Text.isVisible_iff.mp (m.isVisible_of_mem_name c hc)).2
  · rw [parse_lone_word m.isWordChar_of_mem_name m.name_ne_nil, m.map_toUpper_name]

theorem readsAs_operand (m : Mnemonic) {t : Text} (visible : ∀ c ∈ t, Text.isVisible c = true)
    (nonempty : t ≠ []) : ReadsAs (m.name ++ [' '] ++ t) m (some t) := by
  have spelt : m.name ++ [' '] ++ t = m.name ++ ' ' :: t := by simp
  refine ⟨by simp, ?_, ?_, ?_⟩
  · refine SourceLine.content_eq (fun c hc => ?_)
      ((Text.trimmed_of_visible m.isVisible_of_mem_name m.name_ne_nil).append
        (Text.trimmed_of_visible visible nonempty) [' '])
    rcases List.mem_append.mp hc with hc | hc
    · rcases List.mem_append.mp hc with hc | hc
      · exact (Text.isVisible_iff.mp (m.isVisible_of_mem_name c hc)).2
      · rw [List.mem_singleton.mp hc]
        decide
    · exact (Text.isVisible_iff.mp (visible c hc)).2
  · rw [spelt]
    exact splitLabel_word m.isWordChar_of_mem_name
  · rw [spelt, parse_word m.isWordChar_of_mem_name m.name_ne_nil visible nonempty,
      m.map_toUpper_name]

theorem readsAs_text (labels : List (Text × Int)) (address : Int) (o : Operation)
    (operand : List UInt8) :
    let i := Listing.instruction labels address o operand
    ReadsAs i.text o.mnemonic (Statement.operand? i.operand) := by
  intro i
  obtain ⟨value, written⟩ := Listing.exists_operandText labels address o operand
  have visible : ∀ c ∈ i.operand, Text.isVisible c = true := by
    rw [written]
    exact Listing.isVisible_of_mem_operandText o.mode value
  have mnemonic : i.mnemonic = o.mnemonic.name := rfl
  unfold Instruction.text
  rw [mnemonic]
  cases ho : i.operand with
  | nil => exact readsAs_mnemonic o.mnemonic
  | cons c rest =>
    rw [ho] at visible
    exact readsAs_operand o.mnemonic visible (by simp)

end Asm6502
