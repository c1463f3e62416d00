import Asm6502.Proofs.Literals
import Mathlib.Data.Nat.Digits.Lemmas

/-! The stub spells the address that it starts. Each place is written by itself, if the number
reaches it at all, so the digits are those of the number at its five lowest places: zeros inside
stay, and none leads a number that fits. -/
namespace Asm6502

theorem Text.decimal_eq {n : Nat} (positive : n ≠ 0) :
    decimal n = (Nat.digits 10 n).reverse.map Nat.digitChar :=
  toDigits_eq (by decide) positive

namespace Stub

def ascii (d : Nat) : UInt8 := UInt8.ofNat (0x30 + d)

theorem toNat_ascii : ∀ d < 10, (ascii d).toNat = 0x30 + d := by decide

theorem toUInt8_digitChar : ∀ d < 10, (Nat.digitChar d).toUInt8 = ascii d := by decide

theorem getElem?_digits (n k : Nat) :
    (Nat.digits 10 n)[k]? = if 10 ^ k ≤ n then some (n / 10 ^ k % 10) else none := by
  have reaches := Nat.lt_digits_length_iff (b := 10) (k := k) (by decide) n
  have value := Nat.getD_digits n k (b := 10) (by decide)
  rw [List.getD_eq_getElem?_getD] at value
  split
  · rename_i le
    have inside := List.getElem?_eq_getElem (reaches.mpr le)
    rw [inside] at value ⊢
    exact congrArg some value
  · rename_i lt
    exact List.getElem?_eq_none (Nat.le_of_not_lt fun inside => lt (reaches.mp inside))

theorem digit_pow (n k : Nat) : digit n (10 ^ k) = (Nat.digits 10 n)[k]?.toList.map ascii := by
  rw [getElem?_digits]
  unfold digit
  by_cases le : 10 ^ k ≤ n
  · have reached : ((10 ^ k : Nat) : Int) ≤ n := by exact_mod_cast le
    have value : 0x30 + (n : Int) / (10 ^ k : Nat) % 10 = (0x30 + n / 10 ^ k % 10 : Nat) := by
      push_cast
      rfl
    rw [if_pos reached, if_pos le, value, lowByte_natCast]
    rfl
  · have beyond : ¬ ((10 ^ k : Nat) : Int) ≤ n := by exact_mod_cast le
    rw [if_neg beyond, if_neg le]
    rfl

/- The places are written from the highest down, so one more place comes in front. -/
theorem flatMap_digit (n k : Nat) :
    ((List.range k).reverse.map (10 ^ ·)).flatMap (digit n) =
      ((Nat.digits 10 n).take k).reverse.map ascii := by
  induction k with
  | zero => rfl
  | succ k ih =>
    have step := digit_pow n k
    rw [List.range_succ, List.take_add_one]
    cases place : (Nat.digits 10 n)[k]? with
    | none => simpa [place, step] using ih
    | some d => simpa [place, step] using ih

/-- The digits at the five lowest places, the highest first. -/
def lowDigits (n : Nat) : List Nat := ((Nat.digits 10 n).take 5).reverse

theorem digits_eq (n : Nat) : digits n = (lowDigits n).map ascii := flatMap_digit n 5

section Digits

variable {m n d : Nat}

theorem lt_of_mem_lowDigits (h : d ∈ lowDigits n) : d < 10 :=
  Nat.digits_lt_base (by decide) (List.mem_of_mem_take (List.mem_reverse.mp h))

theorem ofDigits_lowDigits (n : Nat) : Nat.ofDigits 10 (lowDigits n).reverse = n % 100000 := by
  rw [lowDigits, List.reverse_reverse]
  exact (Nat.self_mod_pow_eq_ofDigits_take 5 n (by decide)).symm

theorem length_lowDigits (positive : n ≠ 0) :
    (lowDigits n).length = min 5 (Text.decimal n).length := by
  rw [Text.decimal_eq positive, lowDigits]
  simp only [List.length_reverse, List.length_take, List.length_map]

theorem lowDigits_of_lt (fits : n < 100000) : lowDigits n = (Nat.digits 10 n).reverse := by
  have short := (Nat.digits_length_le_iff (b := 10) (k := 5) (by decide) n).mpr fits
  rw [lowDigits, List.take_of_length_le short]

theorem decimal_of_lt (positive : n ≠ 0) (fits : n < 100000) :
    (Text.decimal n).map Char.toUInt8 = (lowDigits n).map ascii := by
  rw [Text.decimal_eq positive, ← lowDigits_of_lt fits, List.map_map]
  apply List.map_congr_left
  intro d member
  exact toUInt8_digitChar d (lt_of_mem_lowDigits member)

theorem head_lowDigits (positive : n ≠ 0) (fits : n < 100000) :
    (lowDigits n).head? ≠ some 0 := by
  have filled : Nat.digits 10 n ≠ [] := Nat.digits_ne_nil_iff_ne_zero.mpr positive
  have highest := Nat.getLast_digit_ne_zero 10 positive
  rw [lowDigits_of_lt fits, List.head?_reverse, List.getLast?_eq_some_getLast filled]
  exact fun zero => highest (Option.some.inj zero)

theorem map_toNat_ascii (n : Nat) :
    ((lowDigits n).map ascii).map (fun b => b.toNat - 0x30) = lowDigits n := by
  rw [List.map_map]
  refine (List.map_congr_left ?_).trans (List.map_id _)
  intro d member
  have value := toNat_ascii d (lt_of_mem_lowDigits member)
  simp only [Function.comp_apply, id_eq]
  omega

theorem mod_of_build_eq (same : build m = build n) : m % 100000 = n % 100000 := by
  have spelt : (lowDigits m).map ascii = (lowDigits n).map ascii := by
    simpa [build, digits_eq] using same
  have read : lowDigits m = lowDigits n := by
    rw [← map_toNat_ascii m, spelt, map_toNat_ascii n]
  rw [← ofDigits_lowDigits m, read, ofDigits_lowDigits n]

end Digits

/-- The stub of a number: its last five decimal digits in the frame of a BASIC line. A number that
has no more is spelt as it is, so the stub tells it. -/
theorem build_spells_start (n : Nat) :
    ∃ digits : List Nat,
      build n = [0x0C, 0x08, 0x00, 0x00, 0x9E] ++ digits.map ascii ++ [0x00, 0x00, 0x00] ∧
      (∀ d ∈ digits, d < 10) ∧ Nat.ofDigits 10 digits.reverse = n % 100000 ∧
      (1 ≤ n → digits.length = min 5 (Text.decimal n).length) ∧ (n = 0 → digits = []) ∧
      (1 ≤ n → n ≤ 99999 →
        digits.map ascii = (Text.decimal n).map Char.toUInt8 ∧ digits.head? ≠ some 0) ∧
      ∀ m : Nat, m ≤ 99999 → n ≤ 99999 → build m = build n → m = n := by
  refine ⟨lowDigits n, ?_, ?_, ofDigits_lowDigits n, ?_, ?_, ?_, ?_⟩
  · rw [build, digits_eq]
  · intro d member
    exact lt_of_mem_lowDigits member
  · intro positive
    exact length_lowDigits (by omega)
  · rintro rfl
    simp [lowDigits]
  · intro positive small
    have nonzero : n ≠ 0 := by omega
    have fits : n < 100000 := by omega
    exact ⟨(decimal_of_lt nonzero fits).symm, head_lowDigits nonzero fits⟩
  · intro m small small' same
    have equal := mod_of_build_eq same
    omega

/-- Zeros inside the number are written, and the number with one of them left out has another
stub. -/
theorem build_spells_start_inner_zeros :
    let n : Nat := 10203
    let m : Nat := 1203
    (1 ≤ n ∧ n ≤ 99999 ∧ m ≤ 99999) ∧ build m ≠ build n ∧
      ∃ digits : List Nat,
        build n = [0x0C, 0x08, 0x00, 0x00, 0x9E] ++ digits.map ascii ++ [0x00, 0x00, 0x00] ∧
        digits.map ascii = [0x31, 0x30, 0x32, 0x30, 0x33] ∧ digits.length = 5 ∧
        Nat.ofDigits 10 digits.reverse = 10203 := by
  intro n m
  have range : 1 ≤ n ∧ n ≤ 99999 ∧ m ≤ 99999 := by decide
  obtain ⟨positive, small, small'⟩ := range
  have numeral : Text.decimal n = ['1', '0', '2', '0', '3'] := by decide
  obtain ⟨digits, frame, -, value, count, -, spelt, told⟩ := build_spells_start n
  rw [numeral] at count spelt
  refine ⟨⟨positive, small, small'⟩, ?_, digits, frame, (spelt positive small).1, ?_, value⟩
  · intro same
    exact absurd (told m small' small same) (by decide)
  · exact count positive

end Stub
end Asm6502
