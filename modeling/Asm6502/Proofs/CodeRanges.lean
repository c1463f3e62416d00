import Asm6502.Proofs.Coverage

/-! Bytes outside the ranges of code. Whether there is code is asked at the first byte of an
instruction only, so an instruction at the end of a range takes its operand from behind it. Any
other byte outside is dumped, and none of them is ever taken for an opcode. -/
namespace Asm6502.Listing

/-- The entry with byte number `n`, and which of its bytes that is. -/
def holder : List Entry → Nat → Option (Entry × Nat)
  | [], _ => none
  | e :: rest, n => if n < e.bytes.length then some (e, n) else holder rest (n - e.bytes.length)

section Holder

variable {entries before after : List Entry} {e : Entry} {n k : Nat}

theorem holder_append (h : k < e.bytes.length) :
    holder (before ++ e :: after) ((before.flatMap Entry.bytes).length + k) = some (e, k) := by
  induction before with
  | nil => simp [holder, h]
  | cons x before ih =>
    have further : ¬ (x.bytes ++ before.flatMap Entry.bytes).length + k < x.bytes.length := by
      rw [List.length_append]
      omega
    have rest : (x.bytes ++ before.flatMap Entry.bytes).length + k - x.bytes.length =
        (before.flatMap Entry.bytes).length + k := by
      rw [List.length_append]
      omega
    rw [List.cons_append, holder, List.flatMap_cons, if_neg further, rest]
    exact ih

theorem exists_holder (h : n < (entries.flatMap Entry.bytes).length) :
    ∃ before e after k, entries = before ++ e :: after ∧ k < e.bytes.length ∧
      n = (before.flatMap Entry.bytes).length + k := by
  induction entries generalizing n with
  | nil => exact absurd h (Nat.not_lt_zero n)
  | cons x rest ih =>
    by_cases here : n < x.bytes.length
    · exact ⟨[], x, rest, n, rfl, here, (Nat.zero_add n).symm⟩
    · have further : n - x.bytes.length < (rest.flatMap Entry.bytes).length := by
        rw [List.flatMap_cons, List.length_append] at h
        omega
      obtain ⟨before, e, after, k, rfl, inside, place⟩ := ih further
      refine ⟨x :: before, e, after, k, rfl, inside, ?_⟩
      rw [List.flatMap_cons, List.length_append]
      omega

theorem getElem?_holder (h : k < e.bytes.length) :
    ((before ++ e :: after).flatMap Entry.bytes)[(before.flatMap Entry.bytes).length + k]? =
      e.bytes[k]? := by
  rw [List.flatMap_append, List.flatMap_cons, List.getElem?_append_right (Nat.le_add_right _ _),
    Nat.add_sub_cancel_left, List.getElem?_append_left h]

end Holder

/-- In the listing of the file, payload byte number `n` is byte number `k` of the entry `e`. -/
structure Held (isCode : Int → Bool) (labels : List (Text × Int)) (file : List UInt8) (n : Nat)
    (e : Entry) (k : Nat) : Prop where
  holder : holder (decodeProgram isCode labels file) n = some (e, k)
  same : (file.drop 2)[n]? = e.bytes[k]?
  inside : k < e.bytes.length
  le : k ≤ n
  member : e ∈ decodeProgram isCode labels file
  address : e.address = advance (loadAddressOf file) (n - k)

section Held

variable {isCode : Int → Bool} {labels : List (Text × Int)} {file : List UInt8} {n k : Nat}
  {e : Entry} {i : Instruction}

theorem held_of_split {before after : List Entry}
    (split : decodeProgram isCode labels file = before ++ e :: after) (h : k < e.bytes.length) :
    Held isCode labels file ((before.flatMap Entry.bytes).length + k) e k := by
  refine ⟨?_, ?_, h, Nat.le_add_left _ _, ?_, ?_⟩
  · rw [split]
    exact holder_append h
  · rw [← bytes_decodeProgram isCode labels, split]
    exact getElem?_holder h
  · rw [split]
    simp
  · rw [address_of_decodeProgram split, Nat.add_sub_cancel]

theorem exists_held (isCode : Int → Bool) (labels : List (Text × Int))
    (h : n < (file.drop 2).length) : ∃ e k, Held isCode labels file n e k := by
  rw [← bytes_decodeProgram isCode labels] at h
  obtain ⟨before, e, after, k, split, inside, rfl⟩ := exists_holder h
  exact ⟨e, k, held_of_split split inside⟩

theorem held_of_mem (member : e ∈ decodeProgram isCode labels file) (h : k < e.bytes.length) :
    ∃ n < (file.drop 2).length, Held isCode labels file n e k := by
  obtain ⟨before, after, split⟩ := List.append_of_mem member
  refine ⟨(before.flatMap Entry.bytes).length + k, ?_, held_of_split split h⟩
  rw [← bytes_decodeProgram isCode labels, split, List.flatMap_append, List.flatMap_cons,
    List.length_append, List.length_append]
  omega

theorem Held.place (h : Held isCode labels file n e k) :
    advance e.address k = advance (loadAddressOf file) n := by
  rw [h.address, advance_advance, Nat.sub_add_cancel h.le]

theorem Held.operand (h : Held isCode labels file n (.instruction i) k)
    (outside : isCode (advance (loadAddressOf file) n) = false) :
    (k = 1 ∨ k = 2) ∧ isCode (advance (loadAddressOf file) (n - k)) = true := by
  obtain ⟨address, o, operand, found, size, rfl⟩ := found_of_mem_decode h.member
  have code : isCode (advance (loadAddressOf file) (n - k)) = true := by
    rw [← h.address]
    exact (operationAt?_eq_some found).1
  have later : k ≠ 0 := by
    rintro rfl
    cases outside.symm.trans code
  have bound := o.mode.operandSize_le_two
  have inside : k < operand.length + 1 := h.inside
  exact ⟨by omega, code⟩

end Held

def Outside (ranges : List (Int × Int)) (address : Int) : Prop :=
  ∀ r ∈ ranges, ¬ (r.1 ≤ address ∧ address ≤ r.2)

instance (ranges : List (Int × Int)) (address : Int) : Decidable (Outside ranges address) :=
  inferInstanceAs (Decidable (∀ r ∈ ranges, _))

theorem outside_iff {ranges : List (Int × Int)} {address : Int} :
    Outside ranges address ↔ inCodeRanges ranges address = false := by
  simp [Outside, inCodeRanges]

/-- A byte outside the ranges is dumped, or is one of the operand bytes of an instruction that
begins inside. So all bytes outside are dumped exactly if no instruction sticks out of the
ranges. -/
theorem outside_dumped_iff (ranges : List (Int × Int)) (labels : List (Text × Int))
    (low high : UInt8) (payload : List UInt8) :
    let entries := decodeProgram (inCodeRanges ranges) labels (low :: high :: payload)
    let address := fun n : Nat => (low.toNat + 256 * high.toNat + n : Int) % 65536
    (∀ n < payload.length, ∃ e k, holder entries n = some (e, k) ∧ payload[n]? = e.bytes[k]? ∧
        (Outside ranges (address n) →
          (∃ start bytes, e = .run start bytes) ∨
            ∃ i, e = .instruction i ∧ (k = 1 ∨ k = 2) ∧ k ≤ n ∧ i.address = address (n - k) ∧
              ¬ Outside ranges (address (n - k)))) ∧
      ((∀ n < payload.length, Outside ranges (address n) →
          ∃ start bytes k, holder entries n = some (.run start bytes, k)) ↔
        ∀ i, .instruction i ∈ entries → ∀ k < i.bytes.length,
          ¬ Outside ranges ((i.address + k) % 65536)) := by
  intro entries address
  let file := low :: high :: payload
  have place : ∀ n, address n = advance (loadAddressOf file) n := by
    intro n
    rw [loadAddressOf_eq]
    rfl
  have held : ∀ n < payload.length, ∃ e k, Held (inCodeRanges ranges) labels file n e k :=
    fun n hn => exists_held _ _ hn
  refine ⟨fun n hn => ?_, fun dumped i member k inside outside => ?_, fun whole n hn outside => ?_⟩
  · obtain ⟨e, k, h⟩ := held n hn
    refine ⟨e, k, h.holder, h.same, fun outside => ?_⟩
    cases e with
    | run start bytes => exact .inl ⟨start, bytes, rfl⟩
    | instruction i =>
      rw [place, outside_iff] at outside
      obtain ⟨later, code⟩ := h.operand outside
      refine .inr ⟨i, rfl, later, h.le, (place (n - k)).symm ▸ h.address, ?_⟩
      rw [place, outside_iff, code]
      exact Bool.noConfusion
  · obtain ⟨n, hn, h⟩ : ∃ n < payload.length,
        Held (inCodeRanges ranges) labels file n (.instruction i) k := held_of_mem member inside
    have here : (i.address + k) % 65536 = address n := h.place.trans (place n).symm
    rw [here] at outside
    obtain ⟨start, bytes, k', run⟩ := dumped n hn outside
    cases h.holder.symm.trans run
  · obtain ⟨e, k, h⟩ := held n hn
    cases e with
    | run start bytes => exact ⟨start, bytes, k, h.holder⟩
    | instruction i =>
      have here : (i.address + k) % 65536 = address n := h.place.trans (place n).symm
      rw [← here] at outside
      exact absurd outside (whole i h.member k h.inside)

/-- Two bytes before a range, and in it two instructions, the second with its operand behind the
range. The bytes before are dumped, as nothing that begins inside reaches them. -/
theorem outside_dumped_iff_before_range :
    let ranges : List (Int × Int) := [(0xC002, 0xC003)]
    let payload : List UInt8 := [0xEA, 0x60, 0xEA, 0xA9, 0x05]
    let entries := decodeProgram (inCodeRanges ranges) [] (0x00 :: 0xC0 :: payload)
    Outside ranges 0xC001 ∧ (∃ start bytes k, holder entries 1 = some (.run start bytes, k)) ∧
      entries.map Entry.bytes = [[0xEA, 0x60], [0xEA], [0xA9, 0x05]] := by
  intro ranges payload entries
  have outside : Outside ranges 0xC001 := by decide
  refine ⟨outside, ?_, by decide +kernel⟩
  obtain ⟨held, -⟩ := outside_dumped_iff ranges [] 0x00 0xC0 payload
  obtain ⟨e, k, holds, -, which⟩ := held 1 (by decide)
  rcases which outside with ⟨start, bytes, rfl⟩ | ⟨i, rfl, rfl | rfl, le, -, inside⟩
  · exact ⟨start, bytes, k, holds⟩
  · exact absurd (by decide) inside
  · exact absurd le (by decide)

/-- A jump whose opcode is the only byte of the range: both bytes of its operand are outside, and
both are decoded with it. -/
theorem operand_outside_not_dumped :
    let ranges : List (Int × Int) := [(0xC000, 0xC000)]
    let entries := decodeProgram (inCodeRanges ranges) [] [0x00, 0xC0, 0x4C, 0x00, 0xC0]
    Outside ranges 0xC001 ∧ Outside ranges 0xC002 ∧
      ∃ i, i.bytes = [0x4C, 0x00, 0xC0] ∧ holder entries 1 = some (.instruction i, 1) ∧
        holder entries 2 = some (.instruction i, 2) := by
  intro ranges entries
  refine ⟨by decide, by decide,
    instruction [] 0xC000 ⟨.jmp, .absolute, .fixed 0x4C 3⟩ [0x00, 0xC0], rfl, ?_⟩
  decide +kernel

end Asm6502.Listing
