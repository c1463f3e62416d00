import Asm6502.Proofs.LineShape
import Asm6502.Proofs.Literals
import Asm6502.Proofs.Precedence
import Asm6502.Proofs.SourceLayout

/-! Addresses as they are typed. A number below 65536 is read from every one of its spellings, in
any of three notations, behind any zeros and between any blanks. The signs between the parts of a
range and of a label stand in no address, so the parts are found again. -/
namespace Asm6502

namespace Text

section Digits

variable {base : Nat} {c : Char} {t : Text} {digits : List Nat}

theorem ne_of_isDigitOf (h : isDigitOf base c = true) {mark : Char}
    (other : digitValue? mark = none) : c ≠ mark := by
  rintro rfl
  obtain ⟨d, value, -⟩ := isDigitOf_iff.mp h
  cases other.symm.trans value

theorem wellSpaced_of_forall_ne (filled : t ≠ []) (h : ∀ c ∈ t, c ≠ '_') :
    wellSpaced t = true := by
  fun_induction wellSpaced t with
  | case1 => exact absurd rfl filled
  | case2 => exact absurd rfl (h '_' (by simp))
  | case3 => exact absurd rfl (h '_' (by simp))
  | case4 => rfl
  | case5 => exact absurd rfl (h '_' (by simp))
  | case6 c rest _ _ more _ ih =>
    exact ih (fun none => more none) fun d member => h d (by simp [member])

theorem readMagnitude_of_digits (filled : t ≠ []) (h : ∀ c ∈ t, isDigitOf base c = true)
    (short : base = 10 → t.length ≤ 4300) : readMagnitude base t = .ok (valueOf base t) := by
  have plain : ∀ c ∈ t, c ≠ '_' := fun c member => ne_of_isDigitOf (h c member) rfl
  have inside : ∀ c ∈ t, (isDigitOf base c || c == '_') = true := by
    intro c member
    simp [h c member]
  have taken := List.takeWhile_eq_self_iff.mpr inside
  have left := List.dropWhile_eq_nil_iff.mpr inside
  have digits : t.filter (· != '_') = t := List.filter_eq_self.mpr (by simpa using plain)
  have read : ¬ (base = 10 ∧ digitLimit < t.length) := by
    rintro ⟨ten, long⟩
    exact absurd (short ten) (Nat.not_le.mpr long)
  simp only [readMagnitude, taken, left, digits, wellSpaced_of_forall_ne filled plain,
    Bool.not_true, Bool.false_eq_true, if_false, if_neg read, List.all_nil, if_true]

theorem dropRadix_of_digits (h : ∀ c ∈ t, isDigitOf base c = true) : dropRadix base t = t := by
  unfold dropRadix
  split
  · rename_i x rest
    have digit := h x (by simp)
    have small : x ≠ 'x' := ne_of_isDigitOf digit rfl
    have capital : x ≠ 'X' := ne_of_isDigitOf digit rfl
    simp [small, capital]
  · rfl

theorem readSigned_of_digits (h : ∀ c ∈ t, isDigitOf base c = true) :
    readSigned base t = (readMagnitude base t).map Int.ofNat := by
  unfold readSigned
  split
  · exact absurd rfl (ne_of_isDigitOf (h '-' (by simp)) rfl)
  · exact absurd rfl (ne_of_isDigitOf (h '+' (by simp)) rfl)
  · rw [dropRadix_of_digits h]

theorem readInteger_of_numeral (numeral : Numeral base t digits) (le : base ≤ 16)
    (short : base = 10 → t.length ≤ 4300) :
    readInteger base t = .ok (Nat.ofDigits base digits.reverse : Nat) := by
  have inside := numeral.isDigitOf le
  have filled := numeral.text_ne_nil
  have visible : ∀ c ∈ t, isVisible c = true := fun c member =>
    isVisible_of_isDigitOf (isDigitOf_mono (inside c member) le)
  have ascii : t.all (·.toNat < 128) = true := by
    rw [List.all_eq_true]
    intro c member
    obtain ⟨range, -⟩ := isVisible_iff.mp (visible c member)
    simp only [decide_eq_true_eq]
    omega
  have first : t.dropWhile isAsciiBlank = t := by
    obtain ⟨c, rest, rfl⟩ := List.exists_cons_of_ne_nil filled
    exact List.dropWhile_cons_of_neg (by simp [isAsciiBlank_of_isVisible (visible c (by simp))])
  rw [readInteger, ascii, if_pos rfl, first, readSigned_of_digits inside,
    readMagnitude_of_digits filled inside short, numeral.valueOf_eq le]
  rfl

end Digits

theorem splitAt?_append {mark : Char} {left : Text} (absent : mark ∉ left) (right : Text) :
    splitAt? mark (left ++ mark :: right) = some (left, right) := by
  have inside : ∀ c ∈ left, (c != mark) = true := by
    intro c member
    simp only [bne_iff_ne]
    rintro rfl
    exact absent member
  have ends : Ends (· != mark) (mark :: right) := by
    rintro c ⟨⟩
    simp
  obtain ⟨taken, dropped⟩ := span_append inside ends
  simp only [splitAt?, taken, dropped]

theorem trim_ne_nil {t : Text} {c : Char} (member : c ∈ t) (visible : isBlank c = false) :
    t.trim ≠ [] := by
  have kept : trimLeft t ≠ [] := by
    intro nothing
    have blank := List.dropWhile_eq_nil_iff.mp nothing c member
    cases visible.symm.trans blank
  -- The first character that is left is no blank, so the blanks at the other end stop before it.
  intro nothing
  have reversed := List.reverse_eq_nil_iff.mp nothing
  obtain ⟨d, rest, left⟩ := List.exists_cons_of_ne_nil kept
  have blank := List.dropWhile_eq_nil_iff.mp reversed d (by simp [left])
  have head := ends_dropWhile isBlank t d (by rw [← trimLeft, left]; rfl)
  cases head.symm.trans blank

end Text

namespace Command

inductive Spelling (n : Nat) : Text → Prop where
  | dollar {t : Text} : Text.Writes 16 n t → Spelling n ('$' :: t)
  | radix {t : Text} {x : Char} : x = 'x' ∨ x = 'X' → Text.Writes 16 n t →
      Spelling n ('0' :: x :: t)
  | decimal {t : Text} : Text.Writes 10 n t → t.length ≤ 4300 → Spelling n t

/-- A number as an address, with blanks on either side. -/
def Typed (n : Nat) (t : Text) : Prop :=
  ∃ before bare after, t = before ++ bare ++ after ∧ (∀ c ∈ before, Text.isBlank c = true) ∧
    (∀ c ∈ after, Text.isBlank c = true) ∧ Spelling n bare

section Spelling

variable {n : Nat} {t : Text} {c : Char}

theorem isDigitOf_of_writes {base : Nat} (h : Text.Writes base n t) (more : 1 < base)
    (le : base ≤ 16) : t ≠ [] ∧ ∀ c ∈ t, Text.isDigitOf base c = true := by
  obtain ⟨digits, numeral, -⟩ := h.numeral more
  exact ⟨numeral.text_ne_nil, numeral.isDigitOf le⟩

theorem readInteger_of_writes {base : Nat} (h : Text.Writes base n t) (more : 1 < base)
    (le : base ≤ 16) (short : base = 10 → t.length ≤ 4300) :
    Text.readInteger base t = .ok n := by
  obtain ⟨digits, numeral, rfl⟩ := h.numeral more
  exact Text.readInteger_of_numeral numeral le short

theorem addressNumber_of_spelling (h : Spelling n t) : addressNumber t = .ok n := by
  cases h with
  | dollar digits => exact readInteger_of_writes digits (by decide) (by decide) (by simp)
  | radix x digits =>
    simp only [addressNumber, if_pos x]
    exact readInteger_of_writes digits (by decide) (by decide) (by simp)
  | decimal digits short =>
    obtain ⟨-, inside⟩ := isDigitOf_of_writes digits (by decide) (by decide)
    have read := readInteger_of_writes digits (by decide) (by decide) fun _ => short
    unfold addressNumber
    split
    · exact absurd rfl (Text.ne_of_isDigitOf (inside '$' (by simp)) rfl)
    · rename_i x rest
      have digit := inside x (by simp)
      have small : x ≠ 'x' := Text.ne_of_isDigitOf digit rfl
      have capital : x ≠ 'X' := Text.ne_of_isDigitOf digit rfl
      simpa [small, capital] using read
    · exact read

theorem mem_spelling (h : Spelling n t) (member : c ∈ t) :
    Text.isDigitOf 16 c = true ∨ c = '$' ∨ c = 'x' ∨ c = 'X' := by
  cases h with
  | dollar digits =>
    rcases List.mem_cons.mp member with rfl | member
    · exact .inr (.inl rfl)
    · exact .inl ((isDigitOf_of_writes digits (by decide) (by decide)).2 c member)
  | radix x digits =>
    rcases List.mem_cons.mp member with rfl | member
    · exact .inl rfl
    · rcases List.mem_cons.mp member with rfl | member
      · exact .inr (.inr x)
      · exact .inl ((isDigitOf_of_writes digits (by decide) (by decide)).2 c member)
  | decimal digits _ =>
    have digit := (isDigitOf_of_writes digits (by decide) (by decide)).2 c member
    exact .inl (Text.isDigitOf_mono digit (by decide))

theorem isVisible_of_mem_spelling (h : Spelling n t) (member : c ∈ t) :
    Text.isVisible c = true := by
  obtain digit | rfl | rfl | rfl := mem_spelling h member
  · exact Text.isVisible_of_isDigitOf digit
  · rfl
  · rfl
  · rfl

theorem spelling_ne_nil (h : Spelling n t) : t ≠ [] := by
  cases h with
  | dollar _ => simp
  | radix _ _ => simp
  | decimal digits _ => exact (isDigitOf_of_writes digits (by decide) (by decide)).1

theorem Typed.trim_eq (h : Typed n t) : Spelling n t.trim := by
  obtain ⟨before, bare, after, rfl, blank, blank', spelling⟩ := h
  have trimmed := Text.trimmed_of_visible (fun c => isVisible_of_mem_spelling spelling)
    (spelling_ne_nil spelling)
  rw [Text.trim_append_blanks blank', Text.trim_blanks_append blank, trimmed.trim_eq]
  exact spelling

theorem Typed.not_mem (h : Typed n t) (visible : Text.isBlank c = false)
    (other : Text.digitValue? c = none) (marks : c ≠ '$' ∧ c ≠ 'x' ∧ c ≠ 'X') : c ∉ t := by
  obtain ⟨before, bare, after, rfl, blank, blank', spelling⟩ := h
  intro member
  rcases List.mem_append.mp member with member | member
  · rcases List.mem_append.mp member with member | member
    · cases visible.symm.trans (blank c member)
    · obtain digit | same | same | same := mem_spelling spelling member
      · exact Text.ne_of_isDigitOf digit other rfl
      · exact marks.1 same
      · exact marks.2.1 same
      · exact marks.2.2 same
  · cases visible.symm.trans (blank' c member)

theorem parseAddress_of_typed (h : Typed n t) (le : n ≤ 65535) : parseAddress t = .ok n := by
  have range : (0 : Int) ≤ n ∧ (n : Int) ≤ 0xFFFF := by omega
  simp only [parseAddress, addressNumber_of_spelling h.trim_eq, if_pos range]

end Spelling

section Definitions

variable {a b : Nat} {p q name : Text}

theorem parseRange_of_typed (first : Typed a p) (last : Typed b q) (le : a ≤ 65535)
    (le' : b ≤ 65535) : parseRange (p ++ '-' :: q) = .ok (a, b) := by
  have absent : '-' ∉ p := first.not_mem (by decide) rfl (by decide)
  simp only [parseRange, Text.splitAt?_append absent, parseAddress_of_typed first le,
    parseAddress_of_typed last le']

theorem parseLabel_of_typed (plain : '=' ∉ name) (filled : ∃ c ∈ name, Text.isBlank c = false)
    (address : Typed a p) (le : a ≤ 65535) :
    parseLabel (name ++ '=' :: p) = .ok (name.trim, a) := by
  obtain ⟨c, member, visible⟩ := filled
  have named := Text.trim_ne_nil member visible
  simp only [parseLabel, Text.splitAt?_append plain, List.isEmpty_eq_false_iff.mpr named,
    parseAddress_of_typed address le]
  rfl

end Definitions

namespace Disassemble

/-- No text is read as an address beyond the memory, and every number within it is read from all
its spellings: alone, as an end of a range, and as the place of a label. -/
theorem addresses_exact :
    (∀ t, (∃ e, parseAddress t = .error e) ∨
      ∃ v, parseAddress t = .ok v ∧ 0 ≤ v ∧ v ≤ 65535) ∧
    (∀ (n : Nat) (t : Text), n ≤ 65535 → Typed n t → parseAddress t = .ok n) ∧
    (∀ (a b : Nat) (p q : Text), a ≤ 65535 → b ≤ 65535 → Typed a p → Typed b q →
      ∀ args : Arguments Key, args.values .code = [p ++ ['-'] ++ q] →
        rangesOf args = .ok [(a, b)]) ∧
    ∀ (a : Nat) (p name : Text), a ≤ 65535 → Typed a p → '=' ∉ name →
      (∃ c ∈ name, Text.isBlank c = false) → ∀ args : Arguments Key,
        args.values .label = [name ++ ['='] ++ p] → labelsOf args = .ok [(name.trim, a)] := by
  refine ⟨?_, fun n t le typed => parseAddress_of_typed typed le, ?_, ?_⟩
  · intro t
    cases read : parseAddress t with
    | error e => exact .inl ⟨e, rfl⟩
    | ok v =>
      obtain ⟨low, high⟩ := parseAddress_range read
      exact .inr ⟨v, rfl, low, by omega⟩
  · intro a b p q le le' first last args given
    have read := parseRange_of_typed first last le le'
    simp only [rangesOf, given, List.append_assoc, List.singleton_append, parseEach, read]
  · intro a p name le address plain filled args given
    have read := parseLabel_of_typed plain filled address le
    simp only [labelsOf, given, List.append_assoc, List.singleton_append, parseEach, read]
    rfl

/-- Blanks of two kinds, zeros, and letters in either case. -/
theorem addresses_exact_options :
    parseAddress [' ', '$', '0', 'c', 'F', '\u3000'] = .ok 0xCF ∧
      rangesOf ⟨[(.code, ['0', 'X', 'f', 'F', '-', '0', '2', '5', '6'])], []⟩ =
        .ok [(0xFF, 0x100)] ∧
      labelsOf ⟨[(.label, [' ', 'i', '\t', '=', '$', 'C'])], []⟩ = .ok [(['i'], 12)] := by
  obtain ⟨-, alone, ranges, labels⟩ := addresses_exact
  have blank : ∀ c ∈ [' ', '\u3000'], Text.isBlank c = true := List.all_eq_true.mp rfl
  have first : Typed 0xFF ['0', 'X', 'f', 'F'] :=
    ⟨[], ['0', 'X', 'f', 'F'], [], rfl, by simp, by simp, .radix (.inr rfl) ⟨0, rfl⟩⟩
  have last : Typed 0x100 ['0', '2', '5', '6'] :=
    ⟨[], ['0', '2', '5', '6'], [], rfl, by simp, by simp, .decimal ⟨1, rfl⟩ (by decide)⟩
  have place : Typed 12 ['$', 'C'] :=
    ⟨[], ['$', 'C'], [], rfl, by simp, by simp, .dollar ⟨0, rfl⟩⟩
  refine ⟨alone 0xCF _ (by decide) ?_, ?_, ?_⟩
  · exact ⟨[' '], ['$', '0', 'c', 'F'], ['\u3000'], rfl, fun c member => blank c (by simp_all),
      fun c member => blank c (by simp_all), .dollar ⟨1, rfl⟩⟩
  · exact ranges 0xFF 0x100 _ _ (by decide) (by decide) first last _ rfl
  · exact labels 12 _ [' ', 'i', '\t'] (by decide) place (by decide)
      ⟨'i', by decide, rfl⟩ _ rfl

end Disassemble
end Command
end Asm6502
