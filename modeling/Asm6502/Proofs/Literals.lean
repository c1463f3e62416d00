import Asm6502.Proofs.Operands
import Mathlib.Data.Nat.Digits.Defs

/-! Literals are read exactly. What counts as a numeral is told without the reader: its characters
are those of a list of digits, in either case, and it stands for the value of the digits at their
places. Decimal numerals are read up to a length, hexadecimal ones without a limit, and a newline
behind either is passed over. -/
namespace Asm6502

namespace Text

/-- The text spells digits below the base, which is at most sixteen. -/
structure Numeral (base : Nat) (t : Text) (digits : List Nat) : Prop where
  nonempty : digits ≠ []
  small : ∀ d ∈ digits, d < base
  chars : t.map Char.toLower = digits.map Nat.digitChar

/-- The text is a number in the base, perhaps with zeros before it. -/
def Writes (base n : Nat) (t : Text) : Prop :=
  ∃ zeros, t.map Char.toLower = List.replicate zeros '0' ++ Nat.toDigits base n

section Characters

variable {base d : Nat} {c : Char}

theorem digitValue?_ascii : ∀ n < 128, ∀ d < 16,
    digitValue? (Char.ofNat n) = some d ↔ (Char.ofNat n).toLower = Nat.digitChar d := by
  decide +kernel

theorem digitChar_ascii : ∀ d < 16, (Nat.digitChar d).toNat < 128 := by decide

theorem toLower_of_not_ascii (h : 128 ≤ c.toNat) : c.toLower = c := by
  have above : ¬ (c.val ≥ 'A'.val ∧ c.val ≤ 'Z'.val) := by
    rintro ⟨-, below⟩
    have bound : c.toNat ≤ 90 := UInt32.le_iff_toNat_le.mp below
    omega
  exact dif_neg above

theorem digitValue?_eq_some_iff :
    digitValue? c = some d ↔ d < 16 ∧ c.toLower = Nat.digitChar d := by
  have small : digitValue? c = some d → d < 16 ∧ c.toNat < 128 := by
    intro value
    have range := toNat_of_digitValue? value
    omega
  -- Beyond ASCII there is neither a digit nor a letter that has another case.
  by_cases ascii : c.toNat < 128
  · have same := digitValue?_ascii c.toNat ascii
    rw [Char.ofNat_toNat] at same
    constructor
    · intro value
      exact ⟨(small value).1, (same d (small value).1).mp value⟩
    · rintro ⟨bound, lower⟩
      exact (same d bound).mpr lower
  · constructor
    · intro value
      exact absurd (small value).2 ascii
    · rintro ⟨bound, lower⟩
      rw [toLower_of_not_ascii (Nat.le_of_not_lt ascii)] at lower
      exact absurd (lower ▸ digitChar_ascii d bound) ascii

theorem isDigitOf_iff : isDigitOf base c = true ↔ ∃ d, digitValue? c = some d ∧ d < base := by
  unfold isDigitOf
  cases digitValue? c <;> simp

theorem isDigitOf_mono {base' : Nat} (h : isDigitOf base c = true) (le : base ≤ base') :
    isDigitOf base' c = true := by
  obtain ⟨d, value, bound⟩ := isDigitOf_iff.mp h
  exact isDigitOf_iff.mpr ⟨d, value, Nat.lt_of_lt_of_le bound le⟩

end Characters

section Numeral

variable {base n : Nat} {t : Text} {digits : List Nat}

theorem filterMap_digitValue? (small : ∀ d ∈ digits, d < 16)
    (chars : t.map Char.toLower = digits.map Nat.digitChar) : t.filterMap digitValue? = digits := by
  induction digits generalizing t with
  | nil => simp [List.map_eq_nil_iff.mp chars]
  | cons d digits ih =>
    cases t with
    | nil => cases chars
    | cons c t =>
      obtain ⟨first, rest⟩ := List.cons.inj chars
      have value := digitValue?_eq_some_iff.mpr ⟨small d (by simp), first⟩
      simp [value, ih (fun e member => small e (by simp [member])) rest]

theorem Numeral.valueOf_eq (h : Numeral base t digits) (le : base ≤ 16) :
    valueOf base t = Nat.ofDigits base digits.reverse := by
  have spelt := filterMap_digitValue? (fun d member => Nat.lt_of_lt_of_le (h.small d member) le)
    h.chars
  have step : (fun n d => n * base + d) = fun n d : Nat => d + base * n := by
    funext n d
    rw [Nat.add_comm, Nat.mul_comm]
  rw [valueOf, spelt, positional, step, Nat.ofDigits_eq_foldr, List.foldr_reverse]
  rfl

theorem Numeral.text_ne_nil (h : Numeral base t digits) : t ≠ [] := by
  rintro rfl
  exact h.nonempty (List.map_eq_nil_iff.mp h.chars.symm)

theorem Numeral.isDigitOf (h : Numeral base t digits) (le : base ≤ 16) :
    ∀ c ∈ t, isDigitOf base c = true := by
  intro c member
  have lower : c.toLower ∈ digits.map Nat.digitChar :=
    h.chars ▸ List.mem_map_of_mem member
  obtain ⟨d, inside, same⟩ := List.mem_map.mp lower
  have bound := h.small d inside
  exact isDigitOf_iff.mpr
    ⟨d, digitValue?_eq_some_iff.mpr ⟨Nat.lt_of_lt_of_le bound le, same.symm⟩, bound⟩

theorem exists_numeral (filled : t ≠ []) (h : ∀ c ∈ t, isDigitOf base c = true) :
    ∃ digits, Numeral base t digits := by
  have spelt : ∃ digits : List Nat, (∀ d ∈ digits, d < base) ∧
      t.map Char.toLower = digits.map Nat.digitChar := by
    clear filled
    induction t with
    | nil => exact ⟨[], by simp, rfl⟩
    | cons c t ih =>
      obtain ⟨d, value, bound⟩ := isDigitOf_iff.mp (h c (by simp))
      obtain ⟨digits, small, chars⟩ := ih fun e member => h e (by simp [member])
      refine ⟨d :: digits, by simpa using ⟨bound, small⟩, ?_⟩
      rw [List.map_cons, List.map_cons, chars, (digitValue?_eq_some_iff.mp value).2]
  obtain ⟨digits, small, chars⟩ := spelt
  refine ⟨digits, ?_, small, chars⟩
  rintro rfl
  exact filled (List.map_eq_nil_iff.mp chars)

theorem toDigits_eq (more : 1 < base) (positive : n ≠ 0) :
    Nat.toDigits base n = (Nat.digits base n).reverse.map Nat.digitChar := by
  induction n using Nat.strongRecOn with
  | ind n ih =>
    -- The last digit is split off on both sides, and the others are those of the quotient.
    have split := Nat.digits_def' more (Nat.pos_of_ne_zero positive)
    by_cases last : n < base
    · have nothing : n / base = 0 := Nat.div_eq_of_lt last
      have whole : n % base = n := Nat.mod_eq_of_lt last
      rw [Nat.toDigits_of_lt_base last, split, nothing, whole]
      simp
    · have filled : base ≤ n := Nat.le_of_not_lt last
      have less : n / base < n := Nat.div_lt_self (by omega) more
      have higher : n / base ≠ 0 := Nat.ne_of_gt (Nat.div_pos filled (by omega))
      rw [Nat.toDigits_of_base_le more filled, split, ih (n / base) less higher]
      simp

theorem numeral_toDigits (more : 1 < base) (n : Nat) :
    ∃ digits : List Nat, digits ≠ [] ∧ (∀ d ∈ digits, d < base) ∧
      Nat.toDigits base n = digits.map Nat.digitChar ∧ Nat.ofDigits base digits.reverse = n := by
  -- Zero is written with one digit, though it has none.
  by_cases zero : n = 0
  · subst zero
    have last : 0 < base := by omega
    refine ⟨[0], by simp, by simpa using last, Nat.toDigits_of_lt_base last, ?_⟩
    simp
  · refine ⟨(Nat.digits base n).reverse, ?_, ?_, toDigits_eq more zero, ?_⟩
    · simpa using Nat.digits_ne_nil_iff_ne_zero.mpr zero
    · intro d member
      exact Nat.digits_lt_base more (List.mem_reverse.mp member)
    · rw [List.reverse_reverse, Nat.ofDigits_digits]

theorem Writes.numeral (h : Writes base n t) (more : 1 < base) :
    ∃ digits, Numeral base t digits ∧ Nat.ofDigits base digits.reverse = n := by
  obtain ⟨zeros, spelt⟩ := h
  obtain ⟨digits, nonempty, small, chars, value⟩ := numeral_toDigits more n
  refine ⟨List.replicate zeros 0 ++ digits, ⟨by simp [nonempty], ?_, ?_⟩, ?_⟩
  · intro d member
    rcases List.mem_append.mp member with member | member
    · rw [List.eq_of_mem_replicate member]
      omega
    · exact small d member
  · rw [spelt, chars, List.map_append, List.map_replicate]
    rfl
  · rw [List.reverse_append, List.reverse_replicate, Nat.ofDigits_append_replicate_zero, value]

end Numeral

theorem atEnd_iff {t : Text} : atEnd t = true ↔ t = [] ∨ t = ['\n'] := by
  unfold atEnd
  split <;> simp_all

theorem lineOf_takeWhile {p : Char → Bool} {t : Text} (h : atEnd (t.dropWhile p) = true) :
    LineOf t (t.takeWhile p) := by
  have whole := List.takeWhile_append_dropWhile (p := p) (l := t)
  obtain left | left := atEnd_iff.mp h
  · rw [left, List.append_nil] at whole
    exact .inl whole.symm
  · rw [left] at whole
    exact .inr whole.symm

end Text

namespace Operand

inductive Literal : Text → Nat → Prop where
  | decimal {t : Text} {digits : List Nat} : Text.Numeral 10 t digits → t.length ≤ 4300 →
      Literal t (Nat.ofDigits 10 digits.reverse)
  | hexadecimal {t : Text} {digits : List Nat} : Text.Numeral 16 t digits →
      Literal ('$' :: t) (Nat.ofDigits 16 digits.reverse)

section Number

variable {t line : Text} {digits : List Nat}

theorem number_hexadecimal (h : Text.LineOf t line) (numeral : Text.Numeral 16 line digits) :
    number ('$' :: t) = .ok (some (Nat.ofDigits 16 digits.reverse)) := by
  rw [number_dollar_digits h numeral.text_ne_nil (numeral.isDigitOf (Nat.le_refl 16)),
    numeral.valueOf_eq (Nat.le_refl 16)]

theorem number_decimal (h : Text.LineOf t line) (numeral : Text.Numeral 10 line digits) :
    number t = if 4300 < line.length then .error (.reading line.length)
      else .ok (some (Nat.ofDigits 10 digits.reverse)) := by
  have le : 10 ≤ 16 := by decide
  rw [number_digits h numeral.text_ne_nil (numeral.isDigitOf le), numeral.valueOf_eq le]

theorem number_cases (t : Text) :
    (∃ line digits, Text.LineOf t line ∧ Text.Numeral 10 line digits) ∨
      (∃ rest line digits, t = '$' :: rest ∧ Text.LineOf rest line ∧
        Text.Numeral 16 line digits) ∨ number t = .ok none := by
  have found : ∀ {base : Nat} {rest : Text},
      (!(rest.takeWhile (Text.isDigitOf base)).isEmpty &&
        Text.atEnd (rest.dropWhile (Text.isDigitOf base))) = true →
      ∃ line digits, Text.LineOf rest line ∧ Text.Numeral base line digits := by
    intro base rest shape
    simp only [Bool.and_eq_true, Bool.not_eq_true', List.isEmpty_eq_false_iff] at shape
    obtain ⟨digits, numeral⟩ := Text.exists_numeral shape.1
      fun c member => List.mem_takeWhile_imp member
    exact ⟨_, digits, Text.lineOf_takeWhile shape.2, numeral⟩
  unfold number
  split
  · rename_i rest
    dsimp only
    split
    · rename_i shape
      obtain ⟨line, digits, ends, numeral⟩ := found shape
      exact .inr (.inl ⟨rest, line, digits, rfl, ends, numeral⟩)
    · exact .inr (.inr rfl)
  · dsimp only
    split
    · rename_i shape
      exact .inl (found shape)
    · exact .inr (.inr rfl)

theorem number_eq_some_iff {v : Nat} :
    number t = .ok (some v) ↔ ∃ line, Text.LineOf t line ∧ Literal line v := by
  constructor
  · intro read
    obtain ⟨line, digits, ends, numeral⟩ | ⟨rest, line, digits, rfl, ends, numeral⟩ | none :=
      number_cases t
    · rw [number_decimal ends numeral] at read
      split at read
      · cases read
      · rename_i short
        cases read
        exact ⟨line, ends, .decimal numeral (Nat.le_of_not_lt short)⟩
    · rw [number_hexadecimal ends numeral] at read
      cases read
      exact ⟨'$' :: line, ends.imp (congrArg _) (congrArg _), .hexadecimal numeral⟩
    · cases none.symm.trans read
  · rintro ⟨line, ends, literal⟩
    cases literal with
    | decimal numeral short =>
      rw [number_decimal ends numeral, if_neg (Nat.not_lt.mpr short)]
    | @hexadecimal line digits numeral =>
      obtain rfl | rfl := ends
      · exact number_hexadecimal (.inl rfl) numeral
      · exact number_hexadecimal (.inr rfl) numeral

theorem number_eq_error_iff {e : Text.DigitOverflow} :
    number t = .error e ↔ ∃ line digits, Text.LineOf t line ∧ Text.Numeral 10 line digits ∧
      4300 < line.length ∧ e = .reading line.length := by
  constructor
  · intro read
    obtain ⟨line, digits, ends, numeral⟩ | ⟨rest, line, digits, rfl, ends, numeral⟩ | none :=
      number_cases t
    · rw [number_decimal ends numeral] at read
      split at read
      · rename_i long
        cases read
        exact ⟨line, digits, ends, numeral, long, rfl⟩
      · cases read
    · cases (number_hexadecimal ends numeral).symm.trans read
    · cases none.symm.trans read
  · rintro ⟨line, digits, ends, numeral, long, rfl⟩
    rw [number_decimal ends numeral, if_pos long]

theorem number_eq_none_iff :
    number t = .ok none ↔ ∀ line, Text.LineOf t line →
      (∀ v, ¬ Literal line v) ∧ ∀ digits, Text.Numeral 10 line digits → line.length ≤ 4300 := by
  constructor
  · intro none line ends
    refine ⟨fun v literal => ?_, fun digits numeral => Nat.le_of_not_lt fun long => ?_⟩
    · cases none.symm.trans (number_eq_some_iff.mpr ⟨line, ends, literal⟩)
    · cases none.symm.trans (number_eq_error_iff.mpr ⟨line, digits, ends, numeral, long, rfl⟩)
  · intro other
    match read : number t with
    | .ok none => rfl
    | .ok (some v) =>
      obtain ⟨line, ends, literal⟩ := number_eq_some_iff.mp read
      exact absurd literal ((other line ends).1 v)
    | .error e =>
      obtain ⟨line, digits, ends, numeral, long, -⟩ := number_eq_error_iff.mp read
      exact absurd ((other line ends).2 digits numeral) (Nat.not_le.mpr long)

theorem number_of_writes {n : Nat} (h : Text.Writes 16 n t) : number ('$' :: t) = .ok (some n) := by
  obtain ⟨digits, numeral, rfl⟩ := h.numeral (by decide)
  exact number_hexadecimal (.inl rfl) numeral

theorem number_of_writes_decimal {n : Nat} (h : Text.Writes 10 n t) (short : t.length ≤ 4300) :
    number t = .ok (some n) := by
  obtain ⟨digits, numeral, rfl⟩ := h.numeral (by decide)
  rw [number_decimal (.inl rfl) numeral, if_neg (Nat.not_lt.mpr short)]

end Number

theorem immediate_eq_iff {t : Text} {answer : Except Text.DigitOverflow (Option Nat)}
    (line : '\n' ∉ t) (reads : answer ≠ .ok none) :
    immediate t = answer ↔ ∃ blanks rest, t = '#' :: (blanks ++ rest) ∧
      (∀ c ∈ blanks, Text.isBlank c = true) ∧ number rest = answer := by
  constructor
  · rintro rfl
    obtain ⟨blanks, rest, shape, blank, -, same⟩ := exists_number_of_immediate line reads
    exact ⟨blanks, rest, shape, blank, same.symm⟩
  · rintro ⟨blanks, rest, rfl, blank, rfl⟩
    have inside : '\n' ∉ rest := fun member => line (by simp [member])
    exact immediate_blanks blank inside reads

/-- A text is read as a number exactly if it is a literal, as the value of its digits at their
places. Only decimal digits beyond the limit are an error. So every number is read from all its
spellings, and behind `#` and blanks as well. -/
theorem literals_exact :
    (∀ t v, number t = .ok (some v) ↔ ∃ line, Text.LineOf t line ∧ Literal line v) ∧
    (∀ t e, number t = .error e ↔ ∃ line digits, Text.LineOf t line ∧
      Text.Numeral 10 line digits ∧ 4300 < line.length ∧ e = .reading line.length) ∧
    (∀ t, number t = .ok none ↔ ∀ line, Text.LineOf t line → (∀ v, ¬ Literal line v) ∧
      ∀ digits, Text.Numeral 10 line digits → line.length ≤ 4300) ∧
    (∀ n t, Text.Writes 16 n t → number ('$' :: t) = .ok (some n)) ∧
    (∀ n t, Text.Writes 10 n t → t.length ≤ 4300 → number t = .ok (some n)) ∧
    ∀ t, '\n' ∉ t → ∀ answer, answer ≠ .ok none →
      (immediate t = answer ↔ ∃ blanks rest, t = '#' :: (blanks ++ rest) ∧
        (∀ c ∈ blanks, Text.isBlank c = true) ∧ number rest = answer) :=
  ⟨fun _ _ => number_eq_some_iff, fun _ _ => number_eq_error_iff, fun _ => number_eq_none_iff,
    fun _ _ => number_of_writes, fun _ _ => number_of_writes_decimal,
    fun _ line _ => immediate_eq_iff line⟩

/-- Zeros and both cases behind `$`, a newline behind decimal digits, a wide blank behind `#`. -/
theorem literals_exact_mixed :
    number ['$', '0', 'f', 'F'] = .ok (some 255) ∧ number ['0', '0', '7'] = .ok (some 7) ∧
      number ['1', '2', '\n'] = .ok (some 12) ∧
      immediate ['#', '\u2003', '$', 'f'] = .ok (some 15) := by
  obtain ⟨reads, -, -, hexadecimal, decimal, immediates⟩ := literals_exact
  have twelve : Text.Numeral 10 ['1', '2'] [1, 2] := ⟨by simp, by decide, rfl⟩
  refine ⟨hexadecimal 255 _ ⟨1, rfl⟩, decimal 7 _ ⟨2, rfl⟩ (by decide), ?_, ?_⟩
  · exact (reads _ 12).mpr ⟨['1', '2'], .inr rfl, .decimal twelve (by decide)⟩
  · refine (immediates _ (by decide) _ (by simp)).mpr ⟨['\u2003'], ['$', 'f'], rfl, ?_, ?_⟩
    · exact List.all_eq_true.mp rfl
    · exact hexadecimal 15 _ ⟨0, rfl⟩

end Operand
end Asm6502
