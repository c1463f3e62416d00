import Asm6502.Listing.Entry
import Asm6502.Proofs.Operands

/-! Numbers come back from what spells them: from bytes, the low one first, and from
hexadecimal digits. Digits are written in capitals behind zeros that fill up the width, and are
read in any number, so nothing is lost between. -/
namespace Asm6502

theorem toNat_lowByte (v : Int) : ((lowByte v).toNat : Int) = v % 256 := by
  rw [lowByte, UInt8.toNat_ofNat']
  omega

namespace Listing

theorem littleEndian_lowByte {v : Int} (h : 0 ≤ v) (h' : v < 256) :
    (littleEndian [lowByte v] : Int) = v := by
  have spelt : littleEndian [lowByte v] = (lowByte v).toNat := rfl
  rw [spelt, toNat_lowByte]
  omega

theorem littleEndian_wordBytes {v : Int} (h : 0 ≤ v) (h' : v < 65536) :
    (littleEndian (wordBytes v) : Int) = v := by
  have spelt : littleEndian (wordBytes v) =
      (lowByte v).toNat + 256 * (lowByte (v / 256)).toNat := rfl
  have low := toNat_lowByte v
  have high := toNat_lowByte (v / 256)
  rw [spelt]
  omega

theorem lowByte_littleEndian (x : UInt8) : lowByte (littleEndian [x]) = x := by
  have spelt : littleEndian [x] = x.toNat := rfl
  rw [spelt, lowByte_natCast, UInt8.ofNat_toNat]

theorem wordBytes_littleEndian (x y : UInt8) : wordBytes (littleEndian [x, y]) = [x, y] := by
  have spelt : littleEndian [x, y] = x.toNat + 256 * y.toNat := rfl
  have bound := x.toNat_lt
  have low : (x.toNat + 256 * y.toNat) % 256 = x.toNat := by omega
  have high : (x.toNat + 256 * y.toNat) / 256 = y.toNat := by omega
  rw [spelt, wordBytes_natCast, low, high, UInt8.ofNat_toNat, UInt8.ofNat_toNat]

theorem littleEndian_byte_lt (x : UInt8) : littleEndian [x] < 256 := x.toNat_lt

theorem littleEndian_word_lt (x y : UInt8) : littleEndian [x, y] < 65536 := by
  have spelt : littleEndian [x, y] = x.toNat + 256 * y.toNat := rfl
  have low := x.toNat_lt
  have high := y.toNat_lt
  omega

end Listing

namespace Text

/-- A numeral: nothing but hexadecimal digits, at least one, and the number that they spell. -/
structure Spells (t : Text) (n : Nat) : Prop where
  digits : ∀ c ∈ t, isDigitOf 16 c = true
  nonempty : t ≠ []
  value : valueOf 16 t = n

theorem digitValue?_digitChar : ∀ d < 16, digitValue? (Nat.digitChar d).toUpper = some d := by
  decide

theorem isDigitOf_digitChar {d : Nat} (h : d < 16) :
    isDigitOf 16 (Nat.digitChar d).toUpper = true := by
  simp [isDigitOf, digitValue?_digitChar d h, h]

theorem valueOf_concat (base : Nat) (t : Text) {c : Char} {d : Nat} (h : digitValue? c = some d) :
    valueOf base (t ++ [c]) = valueOf base t * base + d := by
  simp [valueOf, positional, List.filterMap_append, List.foldl_append, h]

theorem Spells.digit {d : Nat} (h : d < 16) : Spells [(Nat.digitChar d).toUpper] d := by
  refine ⟨?_, by simp, ?_⟩
  · intro c hc
    rw [List.mem_singleton.mp hc]
    exact isDigitOf_digitChar h
  · simp [valueOf, positional, digitValue?_digitChar d h]

theorem Spells.concat {t : Text} {n d : Nat} (ht : Spells t n) (h : d < 16) :
    Spells (t ++ [(Nat.digitChar d).toUpper]) (n * 16 + d) := by
  refine ⟨?_, by simp, ?_⟩
  · intro c hc
    rcases List.mem_append.mp hc with hc | hc
    · exact ht.digits c hc
    · rw [List.mem_singleton.mp hc]
      exact isDigitOf_digitChar h
  · rw [valueOf_concat 16 t (digitValue?_digitChar d h), ht.value]

theorem Spells.zero {t : Text} {n : Nat} (ht : Spells t n) : Spells ('0' :: t) n := by
  refine ⟨?_, by simp, ?_⟩
  · intro c hc
    rcases List.mem_cons.mp hc with rfl | hc
    · decide
    · exact ht.digits c hc
  · have zero : digitValue? '0' = some 0 := by decide
    rw [← ht.value]
    simp [valueOf, positional, zero]

theorem spells_hexDigits (n : Nat) : Spells (hexDigits n) n := by
  induction n using Nat.strongRecOn with
  | ind n ih =>
    unfold hexDigits
    by_cases small : n < 16
    · rw [Nat.toDigits_of_lt_base small]
      exact Spells.digit small
    -- The last digit is split off; the rest is the numeral of the quotient.
    · have less : n / 16 < n := by omega
      have value : n / 16 * 16 + n % 16 = n := by omega
      have whole := (ih (n / 16) less).concat (Nat.mod_lt n (by decide : 0 < 16))
      rw [value] at whole
      rw [Nat.toDigits_of_base_le (by decide) (Nat.le_of_not_lt small), List.map_append]
      exact whole

theorem Spells.padZeros {t : Text} {n : Nat} (ht : Spells t n) (width : Nat) :
    Spells (padZeros width t) n := by
  unfold Text.padZeros
  induction width - t.length with
  | zero => exact ht
  | succ k ih => exact ih.zero

theorem spells_hex (width n : Nat) : Spells (hex width n) n := by
  have nonneg : ¬ (n : Int) < 0 := by omega
  rw [hex, if_neg nonneg]
  exact (spells_hexDigits n).padZeros width

end Text

namespace Operand

variable {t : Text} {n : Nat}

theorem number_of_spells (h : Text.Spells t n) : number ('$' :: t) = .ok (some n) := by
  rw [number_dollar_digits (.inl rfl) h.nonempty h.digits, h.value]

theorem number_of_spells_append (h : Text.Spells t n) (rest : Text) :
    number ('$' :: (t ++ ',' :: rest)) = .ok none := by
  have comma : Text.isDigitOf 16 ',' = false := by decide
  have left : (t ++ ',' :: rest).dropWhile (Text.isDigitOf 16) = ',' :: rest := by
    rw [List.dropWhile_append_of_pos h.digits, List.dropWhile_cons_of_neg (by simp [comma])]
  have more : Text.atEnd (',' :: rest) = false := by
    unfold Text.atEnd
    split <;> simp_all
  simp [number, left, more]

end Operand
end Asm6502
