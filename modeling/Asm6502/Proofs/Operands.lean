import Asm6502.Image.Form
import Mathlib.Data.List.TakeWhile

/-! The kinds of operands are told apart by their first character: `#` for an immediate
literal, a digit or `$` for an address, a letter or the underscore for a symbol. So at most
one form takes an operand, but for the accumulator, where the single form comes first. -/
namespace Asm6502

theorem lowByte_natCast (n : Nat) : lowByte n = UInt8.ofNat n := by
  have h : ((n : Int) % 256).toNat = n % 256 := by omega
  rw [lowByte, h]
  exact UInt8.ofNat_mod_size

theorem wordBytes_natCast (n : Nat) :
    wordBytes n = [UInt8.ofNat (n % 256), UInt8.ofNat (n / 256)] := by
  have h : ((n : Int) / 256) = ((n / 256 : Nat) : Int) := by omega
  rw [wordBytes, h, lowByte_natCast, lowByte_natCast]
  congr 1
  exact UInt8.ofNat_mod_size.symm

theorem Text.toNat_of_digitValue? {c : Char} {d : Nat} (h : digitValue? c = some d) :
    (48 ≤ c.toNat ∧ c.toNat ≤ 57 ∧ d = c.toNat - 48) ∨
      (65 ≤ c.toNat ∧ c.toNat ≤ 70 ∧ d = c.toNat - 55) ∨
      (97 ≤ c.toNat ∧ c.toNat ≤ 102 ∧ d = c.toNat - 87) := by
  unfold digitValue? at h
  dsimp only at h
  split at h
  · rename_i decimal
    exact .inl ⟨decimal.1, decimal.2, (Option.some.inj h).symm⟩
  · split at h
    · rename_i capital
      exact .inr (.inl ⟨capital.1, capital.2, (Option.some.inj h).symm⟩)
    · split at h
      · rename_i small
        exact .inr (.inr ⟨small.1, small.2, (Option.some.inj h).symm⟩)
      · cases h

namespace Text

variable {t : Text}

theorem onlyLine?_of_not_mem (line : '\n' ∉ t) : onlyLine? t = some t := by
  have inside : ∀ c ∈ t, (c != '\n') = true := by
    intro c hc
    have other : c ≠ '\n' := fun e => line (e ▸ hc)
    simpa using other
  have taken : t.takeWhile (· != '\n') = t := List.takeWhile_eq_self_iff.mpr inside
  have left : t.dropWhile (· != '\n') = [] := List.dropWhile_eq_nil_iff.mpr inside
  simp [onlyLine?, taken, left, atEnd]

/-- A line, and perhaps the newline that ends it. -/
def LineOf (t line : Text) : Prop := t = line ∨ t = line ++ ['\n']

theorem LineOf.span {line : Text} {p : Char → Bool} (h : LineOf t line) (newline : p '\n' = false)
    (inside : ∀ c ∈ line, p c = true) :
    t.takeWhile p = line ∧ atEnd (t.dropWhile p) = true := by
  obtain rfl | rfl := h
  · rw [List.takeWhile_eq_self_iff.mpr inside, List.dropWhile_eq_nil_iff.mpr inside]
    exact ⟨rfl, rfl⟩
  · rw [List.takeWhile_append_of_pos inside, List.dropWhile_append_of_pos inside]
    simp [newline, atEnd]

end Text

namespace Operand

theorem isSymbolStart_iff (c : Char) :
    isSymbolStart c = true ↔
      (65 ≤ c.toNat ∧ c.toNat ≤ 90) ∨ (97 ≤ c.toNat ∧ c.toNat ≤ 122) ∨ c.toNat = 95 := by
  have upper : c.isUpper = decide (c.val ≥ 65 ∧ c.val ≤ 90) := rfl
  have lower : c.isLower = (decide (c.val ≥ 97) && decide (c.val ≤ 122)) := rfl
  have letter : c.isAlpha = (c.isUpper || c.isLower) := rfl
  have under : c = '_' ↔ c.toNat = 95 := by
    rw [← Char.toNat_inj]
    rfl
  rw [isSymbolStart, letter, upper, lower]
  simp only [Bool.or_eq_true, Bool.and_eq_true, decide_eq_true_eq, beq_iff_eq, under, ge_iff_le,
    UInt32.le_iff_toNat_le]
  exact or_assoc

theorem isWordChar_iff (c : Char) :
    isWordChar c = true ↔
      (48 ≤ c.toNat ∧ c.toNat ≤ 57) ∨ (65 ≤ c.toNat ∧ c.toNat ≤ 90) ∨
        (97 ≤ c.toNat ∧ c.toNat ≤ 122) ∨ c.toNat = 95 := by
  have digit : c.isDigit = (decide (c.val ≥ 48) && decide (c.val ≤ 57)) := rfl
  have split : isWordChar c = (c.isDigit || isSymbolStart c) := by
    simp only [isWordChar, isSymbolStart, Char.isAlphanum]
    ac_rfl
  rw [split, Bool.or_eq_true, isSymbolStart_iff, digit]
  simp only [Bool.and_eq_true, decide_eq_true_eq, ge_iff_le, UInt32.le_iff_toNat_le]
  rfl

theorem isDigitOf_ten_iff (c : Char) :
    Text.isDigitOf 10 c = true ↔ 48 ≤ c.toNat ∧ c.toNat ≤ 57 := by
  unfold Text.isDigitOf
  constructor
  · intro h
    split at h
    · rename_i d hd
      have range := Text.toNat_of_digitValue? hd
      have small : d < 10 := by simpa using h
      omega
    · cases h
  · intro decimal
    have value : Text.digitValue? c = some (c.toNat - 48) := if_pos decimal
    rw [value]
    simp only [decide_eq_true_eq]
    omega

theorem isAccumulator_iff (t : Text) : isAccumulator t = true ↔ t = ['A'] ∨ t = ['a'] := by
  simp [isAccumulator]

section Head

variable {c : Char} {t : Text}

theorem immediate_of_ne (h : c ≠ '#') : immediate (c :: t) = .ok none := by
  unfold immediate
  split
  · rename_i heq
    exact absurd (List.cons.inj heq).1 h
  · rfl

theorem number_of_ne (hd : c ≠ '$') (hn : Text.isDigitOf 10 c = false) :
    number (c :: t) = .ok none := by
  unfold number
  split
  · rename_i heq
    exact absurd (List.cons.inj heq).1 hd
  · simp [hn]

theorem symbol?_of_not_start (h : isSymbolStart c = false) : symbol? (c :: t) = none := by
  simp [symbol?, h]

end Head

theorem eq_hash_of_immediate {t : Text} {v : Nat} (h : immediate t = .ok (some v)) :
    ∃ rest, t = '#' :: rest := by
  unfold immediate at h
  split at h
  · exact ⟨_, rfl⟩
  · cases h

theorem symbol?_eq_some {t s : Text} (h : symbol? t = some s) :
    s = t ∧ ∃ c rest, t = c :: rest ∧ isSymbolStart c = true := by
  unfold symbol? at h
  split at h
  · rename_i c rest
    split at h
    · rename_i ok
      exact ⟨(Option.some.inj h).symm, c, rest, rfl, (Bool.and_eq_true_iff.mp ok).1⟩
    · cases h
  · cases h

theorem literals_of_symbol? {t s : Text} (h : symbol? t = some s) :
    immediate t = .ok none ∧ number t = .ok none := by
  obtain ⟨_, c, rest, rfl, start⟩ := symbol?_eq_some h
  have range := (isSymbolStart_iff c).mp start
  have not : ∀ d : Char, d.toNat < 65 → c ≠ d := by
    rintro d hd rfl
    omega
  refine ⟨immediate_of_ne (not '#' (by decide)), number_of_ne (not '$' (by decide)) ?_⟩
  rw [Bool.eq_false_iff, ne_eq, isDigitOf_ten_iff]
  omega

theorem immediate_of_number {t : Text} {v : Nat} (h : number t = .ok (some v)) :
    immediate t = .ok none ∧ isAccumulator t = false := by
  have other : ∀ c rest, c ≠ '$' → Text.isDigitOf 10 c = false → t ≠ c :: rest := by
    rintro c rest hd hn rfl
    rw [number_of_ne hd hn] at h
    cases h
  constructor
  · unfold immediate
    split
    · exact absurd rfl (other '#' _ (by decide) (by decide))
    · rfl
  · rw [Bool.eq_false_iff, ne_eq, isAccumulator_iff]
    rintro (rfl | rfl)
    · exact other 'A' [] (by decide) (by decide) rfl
    · exact other 'a' [] (by decide) (by decide) rfl

theorem not_isAccumulator_of_immediate {t : Text} {v : Nat} (h : immediate t = .ok (some v)) :
    isAccumulator t = false := by
  obtain ⟨rest, rfl⟩ := eq_hash_of_immediate h
  rfl

section Digits

variable {t line : Text}

theorem number_dollar_digits (h : Text.LineOf t line) (filled : line ≠ [])
    (digits : ∀ c ∈ line, Text.isDigitOf 16 c = true) :
    number ('$' :: t) = .ok (some (Text.valueOf 16 line)) := by
  obtain ⟨taken, ends⟩ := h.span (by decide) digits
  simp [number, taken, ends, filled]

theorem number_digits (h : Text.LineOf t line) (filled : line ≠ [])
    (digits : ∀ c ∈ line, Text.isDigitOf 10 c = true) :
    number t = if 4300 < line.length then .error (.reading line.length)
      else .ok (some (Text.valueOf 10 line)) := by
  obtain ⟨taken, ends⟩ := h.span (by decide) digits
  unfold number
  split
  · rename_i rest
    have dollar : ('$' :: rest).takeWhile (Text.isDigitOf 10) = [] :=
      List.takeWhile_cons_of_neg (by decide)
    exact absurd (taken.symm.trans dollar) filled
  · simp [taken, ends, filled, Text.digitLimit]

end Digits

section Immediate

variable {t rest blanks : Text}

theorem dropWhile_isBlank_of_number (reads : number t ≠ .ok none) :
    t.dropWhile Text.isBlank = t := by
  cases t with
  | nil => rfl
  | cons c rest =>
    refine List.dropWhile_cons_of_neg fun blank => reads (number_of_ne ?_ ?_)
    · rintro rfl
      cases blank
    · rw [Bool.eq_false_iff, ne_eq, isDigitOf_ten_iff]
      simp only [Text.isBlank, Bool.or_eq_true, Bool.and_eq_true, decide_eq_true_eq,
        beq_iff_eq] at blank
      omega

theorem immediate_blanks (blank : ∀ c ∈ blanks, Text.isBlank c = true) (line : '\n' ∉ rest)
    (reads : number rest ≠ .ok none) : immediate ('#' :: (blanks ++ rest)) = number rest := by
  simp only [immediate, List.dropWhile_append_of_pos blank, dropWhile_isBlank_of_number reads,
    Text.onlyLine?_of_not_mem line]

theorem exists_number_of_immediate (line : '\n' ∉ t) (reads : immediate t ≠ .ok none) :
    ∃ blanks rest, t = '#' :: (blanks ++ rest) ∧ (∀ c ∈ blanks, Text.isBlank c = true) ∧
      '\n' ∉ rest ∧ immediate t = number rest := by
  unfold immediate at reads ⊢
  split at reads
  · rename_i rest
    have inside : '\n' ∉ rest.dropWhile Text.isBlank := fun member =>
      line (List.mem_cons_of_mem _ ((List.dropWhile_sublist _).subset member))
    refine ⟨rest.takeWhile Text.isBlank, rest.dropWhile Text.isBlank, ?_, ?_, inside, ?_⟩
    · rw [List.takeWhile_append_dropWhile]
    · exact fun c member => List.mem_takeWhile_imp member
    · simp only [Text.onlyLine?_of_not_mem inside]
  · exact absurd rfl reads

end Immediate

end Operand

namespace Form

variable {m : Mnemonic} {slot : Slot} {text : Text}

theorem single?_of_operand (hs : m.slot? .single = some slot) {operand : Option Text}
    (ho : operand = none ∨ operand = some ['A'] ∨ operand = some ['a']) :
    single? m operand = some (.single slot.opcode) := by
  rw [single?, hs]
  rcases ho with rfl | rfl | rfl <;> rfl

theorem single?_eq_none (h : m.slot? .single = none ∨ Operand.isAccumulator text = false) :
    single? m (some text) = none := by
  unfold single?
  rcases h with h | h
  · rw [h]
  · split
    · rfl
    · simp [h]

theorem immediate?_eq_none (h : Operand.immediate text = .ok none) :
    immediate? m (some text) = .ok none := by
  unfold immediate?
  split
  · rename_i heq
    cases Option.some.inj heq
    simp [h]
  · rfl

theorem absolute?_eq_none (hn : Operand.number text = .ok none) (hy : Operand.symbol? text = none) :
    absolute? m (some text) = .ok none := by
  unfold absolute?
  split
  · rename_i heq
    cases Option.some.inj heq
    simp [hn, hy]
  · rfl

theorem choose_of_not_single (h : single? m (some text) = none)
    (hi : Operand.immediate text = .ok none) : choose m (some text) = absolute? m (some text) := by
  rw [choose, h, immediate?_eq_none hi]

theorem choose_of_immediate {value : Nat} (hs : m.slot? .immediate = some slot)
    (hv : Operand.immediate text = .ok (some value)) (le : value ≤ 255) :
    choose m (some text) = .ok (some (.immediate slot.opcode value)) := by
  have other : single? m (some text) = none :=
    single?_eq_none (.inr (Operand.not_isAccumulator_of_immediate hv))
  simp [choose, other, immediate?, hs, hv, le]

theorem choose_of_number {value : Nat} (hs : m.slot? .absolute = some slot)
    (hv : Operand.number text = .ok (some value)) (le : value ≤ 65535) :
    choose m (some text) = .ok (some (.absolute slot.opcode value)) := by
  obtain ⟨hi, accumulator⟩ := Operand.immediate_of_number hv
  rw [choose_of_not_single (single?_eq_none (.inr accumulator)) hi]
  simp [absolute?, hs, hv, le]

theorem single?_eq_some {operand : Option Text} {form : Form} (h : single? m operand = some form) :
    ∃ slot, m.slot? .single = some slot ∧ form = .single slot.opcode ∧
      (operand = none ∨ operand = some ['A'] ∨ operand = some ['a']) := by
  unfold single? at h
  split at h
  · cases h
  · rename_i slot hs
    split at h
    · rename_i ok
      refine ⟨slot, hs, (Option.some.inj h).symm, ?_⟩
      cases operand with
      | none => exact .inl rfl
      | some t =>
        rcases (Operand.isAccumulator_iff t).mp ok with rfl | rfl
        · exact .inr (.inl rfl)
        · exact .inr (.inr rfl)
    · cases h

theorem immediate?_eq_some {operand : Option Text} {form : Form}
    (h : immediate? m operand = .ok (some form)) :
    ∃ slot t value, m.slot? .immediate = some slot ∧ operand = some t ∧
      Operand.immediate t = .ok (some value) ∧ value ≤ 255 ∧
      form = .immediate slot.opcode value := by
  unfold immediate? at h
  split at h
  · rename_i slot t hs
    split at h
    · cases h
    · rename_i value hv
      split at h
      · rename_i le
        cases Option.some.inj (Except.ok.inj h)
        exact ⟨slot, t, value, hs, rfl, hv, le, rfl⟩
      · cases h
    · cases h
  · cases h

theorem absolute?_eq_some {operand : Option Text} {form : Form}
    (h : absolute? m operand = .ok (some form)) :
    ∃ slot t, m.slot? .absolute = some slot ∧ operand = some t ∧
      ((∃ value, Operand.number t = .ok (some value) ∧ value ≤ 65535 ∧
          form = .absolute slot.opcode value) ∨
        ∃ symbol, Operand.symbol? t = some symbol ∧ form = .reference slot.opcode symbol) := by
  unfold absolute? at h
  split at h
  · rename_i slot t hs
    split at h
    · cases h
    · rename_i value hv
      split at h
      · rename_i le
        cases Option.some.inj (Except.ok.inj h)
        exact ⟨slot, t, hs, rfl, .inl ⟨value, hv, le, rfl⟩⟩
      · cases h
    · obtain ⟨symbol, hy, rfl⟩ := Option.map_eq_some_iff.mp (Except.ok.inj h)
      exact ⟨slot, t, hs, rfl, .inr ⟨symbol, hy, rfl⟩⟩
  · cases h

theorem choose_eq_some {operand : Option Text} {form : Form}
    (h : choose m operand = .ok (some form)) :
    single? m operand = some form ∨
      (single? m operand = none ∧ (immediate? m operand = .ok (some form) ∨
        (immediate? m operand = .ok none ∧ absolute? m operand = .ok (some form)))) := by
  unfold choose at h
  split at h
  · rename_i hs
    cases Option.some.inj (Except.ok.inj h)
    exact .inl hs
  · rename_i hs
    refine .inr ⟨hs, ?_⟩
    split at h
    · cases h
    · rename_i hi
      cases Option.some.inj (Except.ok.inj h)
      exact .inl hi
    · rename_i hi
      exact .inr ⟨hi, h⟩

end Form
end Asm6502
