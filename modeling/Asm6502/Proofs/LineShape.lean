import Asm6502.Proofs.Endings

/-! The shape of a line, told without the scanner. A label is a word with a colon right behind it;
an instruction is a word and then the end or a blank. Blanks are those of ASCII, and each part
takes as many characters as it can, so there is never a second way to cut a line. -/
namespace Asm6502

namespace Text

def Ends (p : Char → Bool) (t : Text) : Prop := ∀ c ∈ t.head?, p c = false

section Span

variable {p : Char → Bool} {body rest t : Text}

theorem span_append (inside : ∀ c ∈ body, p c = true) (ends : Ends p rest) :
    (body ++ rest).takeWhile p = body ∧ (body ++ rest).dropWhile p = rest := by
  rw [List.takeWhile_append_of_pos inside, List.dropWhile_append_of_pos inside]
  cases rest with
  | nil => simp
  | cons c rest => simp [ends c rfl]

theorem ends_dropWhile (p : Char → Bool) (t : Text) : Ends p (t.dropWhile p) := by
  intro c head
  have first := List.head?_dropWhile_not p t
  rw [Option.mem_def.mp head] at first
  exact first

end Span

theorem isWordChar_of_isAsciiBlank {c : Char} (h : isAsciiBlank c = true) :
    isWordChar c = false := by
  rw [Bool.eq_false_iff, ne_eq, Operand.isWordChar_iff]
  simp only [isAsciiBlank, Bool.or_eq_true, beq_iff_eq, Bool.and_eq_true, decide_eq_true_eq] at h
  rcases h with rfl | range
  · decide
  · omega

theorem newline_not_mem_of_last {t r : Text} (h : onlyLine? t = some r)
    (last : t.getLast? ≠ some '\n') : '\n' ∉ t := by
  have whole := List.takeWhile_append_dropWhile (p := (· != '\n')) (l := t)
  have before : '\n' ∉ t.takeWhile (· != '\n') := by
    intro member
    simpa using List.mem_takeWhile_imp member
  unfold onlyLine? at h
  split at h
  · rename_i ends
    unfold atEnd at ends
    split at ends
    · rename_i nothing
      rw [nothing, List.append_nil] at whole
      rwa [whole] at before
    · rename_i newline
      rw [newline] at whole
      rw [← whole, List.getLast?_concat] at last
      exact absurd rfl last
    · cases ends
  · cases h

structure Word (t : Text) : Prop where
  nonempty : t ≠ []
  chars : ∀ c ∈ t, isWordChar c = true

end Text

/-- The text is a label, its colon, blanks, and then a rest that does not begin with one. -/
structure Labelled (t label blanks rest : Text) : Prop where
  text : t = label ++ ':' :: (blanks ++ rest)
  word : label.Word
  blank : ∀ c ∈ blanks, Text.isAsciiBlank c = true
  ends : rest.Ends Text.isAsciiBlank

namespace Labelled

variable {t l w r l' w' r' : Text}

theorem span (h : Labelled t l w r) :
    t.takeWhile isWordChar = l ∧ t.dropWhile isWordChar = ':' :: (w ++ r) := by
  rw [h.text]
  apply Text.span_append h.word.chars
  rintro c ⟨⟩
  decide

theorem unique (h : Labelled t l w r) (h' : Labelled t l' w' r') : l = l' ∧ w = w' ∧ r = r' := by
  obtain ⟨taken, left⟩ := h.span
  obtain ⟨taken', left'⟩ := h'.span
  have same : w ++ r = w' ++ r' := (List.cons.inj (left.symm.trans left')).2
  obtain ⟨blanks, rest⟩ := Text.span_append h.blank h.ends
  obtain ⟨blanks', rest'⟩ := Text.span_append h'.blank h'.ends
  rw [same] at blanks rest
  exact ⟨taken.symm.trans taken', blanks.symm.trans blanks', rest.symm.trans rest'⟩

theorem splitLabel_eq (h : Labelled t l w r) :
    splitLabel t = (Text.onlyLine? r).elim (none, t) fun line => (some l, line) := by
  obtain ⟨taken, left⟩ := h.span
  obtain ⟨c, word, rfl⟩ := List.exists_cons_of_ne_nil h.word.nonempty
  have dropped := (Text.span_append h.blank h.ends).2
  cases read : Text.onlyLine? r <;> simp [splitLabel, taken, left, dropped, read]

theorem splitLabel_of_line (h : Labelled t l w r) (line : '\n' ∉ r) :
    splitLabel t = (some l, r) := by
  rw [h.splitLabel_eq, Text.onlyLine?_of_not_mem line]
  rfl

end Labelled

theorem labelled_of_splitLabel {t l r : Text} (line : '\n' ∉ t)
    (h : splitLabel t = (some l, r)) : ∃ w, Labelled t l w r := by
  unfold splitLabel at h
  split at h
  · rename_i c word rest taken left
    have whole := List.takeWhile_append_dropWhile (p := isWordChar) (l := t)
    rw [taken, left] at whole
    have inside : '\n' ∉ rest.dropWhile Text.isAsciiBlank := by
      intro member
      apply line
      rw [← whole]
      simp [(List.dropWhile_sublist _).subset member]
    rw [Text.onlyLine?_of_not_mem inside] at h
    obtain ⟨rfl, rfl⟩ : c :: word = l ∧ rest.dropWhile Text.isAsciiBlank = r := by simpa using h
    refine ⟨rest.takeWhile Text.isAsciiBlank, ?_, ⟨by simp, ?_⟩, ?_, Text.ends_dropWhile _ _⟩
    · rw [List.takeWhile_append_dropWhile]
      exact whole.symm
    · intro d member
      rw [← taken] at member
      exact List.mem_takeWhile_imp member
    · intro d member
      exact List.mem_takeWhile_imp member
  · cases h

theorem splitLabel_of_unlabelled {t : Text} (h : (splitLabel t).1 = none) :
    splitLabel t = (none, t) := by
  unfold splitLabel at h ⊢
  split
  · rename_i taken left
    simp only [taken, left] at h
    split
    · rename_i whole
      rw [whole] at h
      cases h
    · rfl
  · rfl

/-- The text is a word, and behind it there is nothing or a blank. -/
structure Instructs (t word rest : Text) : Prop where
  text : t = word ++ rest
  word : word.Word
  blank : ∀ c ∈ rest.head?, Text.isAsciiBlank c = true

namespace Instructs

variable {t m u : Text}

theorem span (h : Instructs t m u) : t.takeWhile isWordChar = m ∧ t.dropWhile isWordChar = u := by
  rw [h.text]
  apply Text.span_append h.word.chars
  intro c head
  exact Text.isWordChar_of_isAsciiBlank (h.blank c head)

theorem parse_eq (h : Instructs t m u) (line : '\n' ∉ u.dropWhile Text.isAsciiBlank) :
    Statement.parse t = .instruction (m.map Char.toUpper)
      (Statement.operand? (u.dropWhile Text.isAsciiBlank)) := by
  obtain ⟨taken, left⟩ := h.span
  obtain ⟨c, word, rfl⟩ := List.exists_cons_of_ne_nil h.word.nonempty
  have some : t.isEmpty = false := by simp [h.text]
  rw [Statement.parse, some, taken, left]
  cases u with
  | nil => rfl
  | cons d rest =>
    have blank := h.blank d rfl
    rw [List.dropWhile_cons_of_pos blank] at line ⊢
    simp [blank, Text.onlyLine?_of_not_mem line]

end Instructs

theorem parse_of_not_instructs {t : Text} (nonempty : t ≠ []) (h : ¬ ∃ m u, Instructs t m u) :
    Statement.parse t = .malformed t := by
  have whole := List.takeWhile_append_dropWhile (p := isWordChar) (l := t)
  have chars : ∀ c ∈ t.takeWhile isWordChar, isWordChar c = true :=
    fun c member => List.mem_takeWhile_imp member
  rw [Statement.parse, List.isEmpty_eq_false_iff.mpr nonempty]
  cases taken : t.takeWhile isWordChar with
  | nil => rfl
  | cons d word =>
    rw [taken] at whole chars
    cases left : t.dropWhile isWordChar with
    | nil =>
      refine absurd ⟨d :: word, [], ?_, ⟨by simp, chars⟩, by simp⟩ h
      rw [← left, whole]
    | cons c rest =>
      have other : Text.isAsciiBlank c = false := by
        rw [Bool.eq_false_iff]
        intro blank
        refine h ⟨d :: word, c :: rest, ?_, ⟨by simp, chars⟩, by simpa using blank⟩
        rw [← left, whole]
      simp [other]

theorem Statement.operand?_eq_iff {rest : Text} {operand : Option Text} :
    operand? rest = operand ↔ operand.getD [] = rest ∧ operand ≠ some [] := by
  cases rest with
  | nil => cases operand <;> simp_all [operand?]
  | cons c rest =>
    constructor
    · rintro rfl
      simp [operand?]
    · rintro ⟨same, -⟩
      cases operand with
      | none => cases same
      | some t => exact congrArg some same.symm

theorem parse_eq_instruction_iff {t name : Text} {operand : Option Text} (line : '\n' ∉ t) :
    Statement.parse t = .instruction name operand ↔
      ∃ m u, Instructs t m u ∧ name = m.map Char.toUpper ∧
        operand.getD [] = u.dropWhile Text.isAsciiBlank ∧ operand ≠ some [] := by
  have shaped : ∀ {m u}, Instructs t m u → Statement.parse t =
      .instruction (m.map Char.toUpper) (Statement.operand? (u.dropWhile Text.isAsciiBlank)) := by
    intro m u h
    apply h.parse_eq
    intro member
    apply line
    simp [h.text, (List.dropWhile_sublist _).subset member]
  constructor
  · intro read
    have nonempty : t ≠ [] := by
      rintro rfl
      cases read
    by_cases h : ∃ m u, Instructs t m u
    · obtain ⟨m, u, h⟩ := h
      obtain ⟨same, rest⟩ := Statement.instruction.inj ((shaped h).symm.trans read)
      exact ⟨m, u, h, same.symm, Statement.operand?_eq_iff.mp rest⟩
    · cases (parse_of_not_instructs nonempty h).symm.trans read
  · rintro ⟨m, u, h, rfl, rest⟩
    rw [shaped h, Statement.operand?_eq_iff.mpr rest]

section Parts

variable {l w m s o : Text}

theorem labelled_of_parts (label : l.Word) (mnemonic : m.Word)
    (blanks : ∀ c ∈ w, Text.isAsciiBlank c = true) :
    Labelled (l ++ [':'] ++ w ++ m ++ s ++ o) l w (m ++ (s ++ o)) := by
  refine ⟨by simp, label, blanks, ?_⟩
  obtain ⟨c, m, rfl⟩ := List.exists_cons_of_ne_nil mnemonic.nonempty
  rintro d ⟨⟩
  rw [Bool.eq_false_iff]
  intro blank
  cases (mnemonic.chars c (by simp)).symm.trans (Text.isWordChar_of_isAsciiBlank blank)

theorem instructs_of_parts (mnemonic : m.Word) (gap : ∀ c ∈ s, Text.isAsciiBlank c = true)
    (between : s ≠ []) : Instructs (m ++ (s ++ o)) m (s ++ o) := by
  refine ⟨rfl, mnemonic, ?_⟩
  obtain ⟨c, s, rfl⟩ := List.exists_cons_of_ne_nil between
  rintro d ⟨⟩
  exact gap c (by simp)

/-- The parts come back unless the blanks before the operand begin another line. -/
theorem parts_read_iff (label : l.Word) (mnemonic : m.Word)
    (blanks : ∀ c ∈ w, Text.isAsciiBlank c = true) (gap : ∀ c ∈ s, Text.isAsciiBlank c = true)
    (between : s ≠ []) (filled : o ≠ []) (ends : o.Ends Text.isAsciiBlank) (line : '\n' ∉ o) :
    (∃ r, splitLabel (l ++ [':'] ++ w ++ m ++ s ++ o) = (some l, r) ∧
        Statement.parse r = .instruction (m.map Char.toUpper) (some o)) ↔ '\n' ∉ s := by
  have shape : Labelled _ l w (m ++ (s ++ o)) := labelled_of_parts label mnemonic blanks
  have word : '\n' ∉ m := by
    intro member
    cases mnemonic.chars _ member
  constructor
  · rintro ⟨r, split, -⟩
    have one : ∃ whole, Text.onlyLine? (m ++ (s ++ o)) = some whole := by
      rw [shape.splitLabel_eq] at split
      cases read : Text.onlyLine? (m ++ (s ++ o)) with
      | none => simp [read] at split
      | some whole => exact ⟨whole, rfl⟩
    obtain ⟨whole, one⟩ := one
    have last : (m ++ (s ++ o)).getLast? ≠ some '\n' := by
      rw [← List.append_assoc, List.getLast?_append_of_ne_nil _ filled]
      intro newline
      exact line (List.mem_of_getLast? newline)
    have absent := Text.newline_not_mem_of_last one last
    simp only [List.mem_append, not_or] at absent
    exact absent.2.1
  · intro absent
    have inside : '\n' ∉ m ++ (s ++ o) := by simp [word, absent, line]
    have operand : (s ++ o).dropWhile Text.isAsciiBlank = o := (Text.span_append gap ends).2
    refine ⟨m ++ (s ++ o), shape.splitLabel_of_line inside, ?_⟩
    rw [parse_eq_instruction_iff inside]
    exact ⟨m, s ++ o, instructs_of_parts mnemonic gap between, rfl, operand.symm,
      by simpa using filled⟩

end Parts

/-- The parts of a line are found exactly where its shape says they are. A line put together from
parts is read back as these, as long as it is one line: of the blanks before the mnemonic a newline
may be one, of those before the operand it may not. -/
theorem line_shape_iff :
    (∀ t : Text, '\n' ∉ t →
      (∀ l r, splitLabel t = (some l, r) ↔ ∃ w, Labelled t l w r) ∧
      (∀ l w r l' w' r', Labelled t l w r → Labelled t l' w' r' → l = l' ∧ w = w' ∧ r = r') ∧
      ((¬ ∃ l w r, Labelled t l w r) → splitLabel t = (none, t)) ∧
      (t = [] → Statement.parse t = .empty) ∧
      (∀ name operand, Statement.parse t = .instruction name operand ↔
        ∃ m u, Instructs t m u ∧ name = m.map Char.toUpper ∧
          operand.getD [] = u.dropWhile Text.isAsciiBlank ∧ operand ≠ some []) ∧
      (t ≠ [] → (¬ ∃ m u, Instructs t m u) → Statement.parse t = .malformed t)) ∧
    ∀ l w m s o : Text, l.Word → m.Word → (∀ c ∈ w, Text.isAsciiBlank c = true) →
      (∀ c ∈ s, Text.isAsciiBlank c = true) → s ≠ [] → o ≠ [] → o.Ends Text.isAsciiBlank →
      '\n' ∉ o →
      ((∃ r, splitLabel (l ++ [':'] ++ w ++ m ++ s ++ o) = (some l, r) ∧
        Statement.parse r = .instruction (m.map Char.toUpper) (some o)) ↔ '\n' ∉ s) := by
  refine ⟨?_, ?_⟩
  · intro t line
    refine ⟨?_, ?_, ?_, ?_, ?_, ?_⟩
    · intro l r
      constructor
      · exact labelled_of_splitLabel line
      · rintro ⟨w, h⟩
        apply h.splitLabel_of_line
        intro member
        apply line
        simp [h.text, member]
    · intro l w r l' w' r' h h'
      exact h.unique h'
    · intro none
      apply splitLabel_of_unlabelled
      cases split : splitLabel t with
      | mk label rest =>
        cases label with
        | none => rfl
        | some l =>
          exact absurd ⟨l, (labelled_of_splitLabel line split).imp fun w h => ⟨rest, h⟩⟩ none
    · rintro rfl
      rfl
    · intro name operand
      exact parse_eq_instruction_iff line
    · exact parse_of_not_instructs
  · intro l w m s o label mnemonic blanks gap between filled ends line
    exact parts_read_iff label mnemonic blanks gap between filled ends line

/-- A second colon and a blank belong to the operand, and a newline behind the label is no worse
than any other blank there. -/
theorem line_shape_iff_second_colon :
    let t : Text := ['_', '1', ':', '\t', 'l', 'D', 'a', ' ', ' ', 'x', ':', ' ', '#']
    '\n' ∉ t ∧ (∃ w r, Labelled t ['_', '1'] w r) ∧
      (∃ r, splitLabel t = (some ['_', '1'], r) ∧
        Statement.parse r = .instruction ['L', 'D', 'A'] (some ['x', ':', ' ', '#'])) ∧
      ∃ r, splitLabel ['_', ':', '\n', 'm', ' ', 'x'] = (some ['_'], r) ∧
        Statement.parse r = .instruction ['M'] (some ['x']) := by
  intro t
  have line : '\n' ∉ t := by decide
  obtain ⟨shape, parts⟩ := line_shape_iff
  have reads := (parts ['_', '1'] ['\t'] ['l', 'D', 'a'] [' ', ' '] ['x', ':', ' ', '#']
    ⟨by simp, List.all_eq_true.mp rfl⟩ ⟨by simp, List.all_eq_true.mp rfl⟩
    (List.all_eq_true.mp rfl) (List.all_eq_true.mp rfl) (by simp) (by simp)
    (by rintro c ⟨⟩; rfl) (by decide)).mpr (by decide)
  have below := (parts ['_'] ['\n'] ['m'] [' '] ['x']
    ⟨by simp, List.all_eq_true.mp rfl⟩ ⟨by simp, List.all_eq_true.mp rfl⟩
    (List.all_eq_true.mp rfl) (List.all_eq_true.mp rfl) (by simp) (by simp)
    (by rintro c ⟨⟩; rfl) (by decide)).mpr (by decide)
  obtain ⟨r, split, parsed⟩ := reads
  obtain ⟨w, labelled⟩ := ((shape t line).1 _ r).mp split
  exact ⟨line, ⟨w, r, labelled⟩, ⟨r, split, parsed⟩, below⟩

end Asm6502
