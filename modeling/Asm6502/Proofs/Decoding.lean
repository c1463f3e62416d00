import Asm6502.Listing.Entry
import Mathlib.Data.List.Basic

/-! The decoder one step at a time. At each place it adds a byte to a run, or takes a whole
instruction, or gives up because the bytes end inside one; everything else about a listing
follows from these three steps. -/
namespace Asm6502

namespace Operation

/-- An operation is found by its opcode, as no two share one. -/
theorem ofOpcode?_of_mem : ∀ o ∈ all, ofOpcode? o.slot.opcode = some o := by decide +kernel

theorem mem_all_of_slot? {m : Mnemonic} {mode : Mode} {slot : Slot} (h : m.slot? mode = some slot) :
    ⟨m, mode, slot⟩ ∈ all := by
  have member : (mode, slot) ∈ m.slots := by
    obtain ⟨l₁, l₂, hs, _⟩ := List.lookup_eq_some_iff.mp h
    rw [hs]
    simp
  exact List.mem_flatMap.mpr ⟨m, Mnemonic.mem_all m, List.mem_map.mpr ⟨(mode, slot), member, rfl⟩⟩

theorem ofOpcode?_of_slot? {m : Mnemonic} {mode : Mode} {slot : Slot}
    (h : m.slot? mode = some slot) : ofOpcode? slot.opcode = some ⟨m, mode, slot⟩ :=
  ofOpcode?_of_mem _ (mem_all_of_slot? h)

theorem mem_all_of_ofOpcode? {opcode : UInt8} {o : Operation} (h : ofOpcode? opcode = some o) :
    o ∈ all ∧ o.slot.opcode = opcode := by
  refine ⟨List.mem_of_find?_eq_some h, ?_⟩
  simpa using List.find?_some h

theorem slot?_of_mem : ∀ o ∈ all, o.mnemonic.slot? o.mode = some o.slot := by decide +kernel

end Operation

def Entry.bytes : Entry → List UInt8
  | .instruction i => i.bytes
  | .run _ bytes => bytes

namespace Listing

section Steps

variable {isCode : Int → Bool} {labels : List (Text × Int)} {address : Int} {b : UInt8}
  {p : Progress} {o : Operation} {operand rest : List UInt8}

theorem operationAt?_eq_some (h : operationAt? isCode address b = some o) :
    isCode address = true ∧ o ∈ Operation.all ∧ o.slot.opcode = b := by
  unfold operationAt? at h
  split at h
  · rename_i code
    exact ⟨code, Operation.mem_all_of_ofOpcode? h⟩
  · cases h

theorem decodeFrom_data (h : operationAt? isCode address b = none) :
    decodeFrom isCode labels address p (b :: rest) =
      decodeFrom isCode labels (advance address 1) (p.addByte address b) rest := by
  rw [decodeFrom.eq_def]
  simp only [h]

theorem decodeFrom_code (h : operationAt? isCode address b = some o)
    (size : operand.length = o.mode.operandSize) :
    decodeFrom isCode labels address p (b :: (operand ++ rest)) =
      decodeFrom isCode labels (advance address (1 + operand.length))
        (p.addInstruction (instruction labels address o operand)) rest := by
  rw [decodeFrom.eq_def]
  simp only [h, ← size]
  have bound := o.mode.operandSize_le_two
  match operand with
  | [] => rfl
  | [x] => rfl
  | [x, y] => rfl
  | _ :: _ :: _ :: _ =>
    simp only [List.length_cons] at size
    omega

theorem decodeFrom_cut (h : operationAt? isCode address b = some o)
    (short : rest.length < o.mode.operandSize) :
    decodeFrom isCode labels address p (b :: rest) = (p.addBytes address (b :: rest)).finish := by
  rw [decodeFrom.eq_def]
  simp only [h]
  have bound := o.mode.operandSize_le_two
  generalize o.mode.operandSize = n at short bound
  match n, rest with
  | 1, [] => rfl
  | 2, [] => rfl
  | 2, [x] => rfl
  | 0, _ => exact absurd short (Nat.not_lt_zero _)
  | 1, _ :: _ =>
    simp only [List.length_cons] at short
    omega
  | 2, _ :: _ :: _ =>
    simp only [List.length_cons] at short
    omega
  | n + 3, _ => omega

end Steps

/-- To know something of every listing, know it of the three steps and of the end. -/
theorem decodeFrom_induction {isCode : Int → Bool} {labels : List (Text × Int)}
    {P : Int → Progress → List UInt8 → List Entry → Prop}
    (done : ∀ address p, P address p [] p.finish)
    (data : ∀ address p b rest entries, operationAt? isCode address b = none →
      P (advance address 1) (p.addByte address b) rest entries → P address p (b :: rest) entries)
    (code : ∀ address p o operand rest entries,
      operationAt? isCode address o.slot.opcode = some o → operand.length = o.mode.operandSize →
      P (advance address (1 + operand.length))
        (p.addInstruction (instruction labels address o operand)) rest entries →
      P address p (o.slot.opcode :: (operand ++ rest)) entries)
    (cut : ∀ address p o rest, operationAt? isCode address o.slot.opcode = some o →
      rest.length < o.mode.operandSize →
      P address p (o.slot.opcode :: rest) (p.addBytes address (o.slot.opcode :: rest)).finish)
    (address : Int) (p : Progress) (bytes : List UInt8) :
    P address p bytes (decodeFrom isCode labels address p bytes) := by
  -- On the number of bytes left: an instruction takes up to three of them at once.
  induction hn : bytes.length using Nat.strongRecOn generalizing address p bytes with
  | ind n ih =>
    subst hn
    cases bytes with
    | nil => exact done address p
    | cons b rest =>
      cases h : operationAt? isCode address b with
      | none =>
        rw [decodeFrom_data h]
        exact data address p b rest _ h (ih _ (Nat.lt_succ_self _) _ _ rest rfl)
      | some o =>
        obtain ⟨_, _, rfl⟩ := operationAt?_eq_some h
        by_cases fits : o.mode.operandSize ≤ rest.length
        · have size : (rest.take o.mode.operandSize).length = o.mode.operandSize := by
            simp [fits]
          have whole := List.take_append_drop o.mode.operandSize rest
          rw [← whole, decodeFrom_code h size]
          refine code address p o _ _ _ h size (ih _ ?_ _ _ _ rfl)
          simp only [List.length_drop, List.length_cons]
          omega
        · have short : rest.length < o.mode.operandSize := Nat.lt_of_not_le fits
          rw [decodeFrom_cut h short]
          exact cut address p o rest h short

namespace Progress

def bytes (p : Progress) : List UInt8 := p.finish.flatMap Entry.bytes

@[simp] theorem bytes_addByte (p : Progress) (address : Int) (b : UInt8) :
    (p.addByte address b).bytes = p.bytes ++ [b] := by
  rcases p with ⟨entries, _ | ⟨start, run⟩⟩ <;>
    simp [bytes, addByte, finish, close, Entry.bytes]

@[simp] theorem bytes_addBytes (p : Progress) (address : Int) (bs : List UInt8) :
    (p.addBytes address bs).bytes = p.bytes ++ bs := by
  induction bs generalizing p with
  | nil => simp [addBytes]
  | cons b bs ih =>
    have h : (p.addBytes address (b :: bs)).bytes =
        ((p.addByte address b).addBytes address bs).bytes := rfl
    rw [h, ih]
    simp

theorem finish_addInstruction (p : Progress) (i : Instruction) :
    (p.addInstruction i).finish = p.finish ++ [.instruction i] := by
  simp [finish, addInstruction, close]

@[simp] theorem bytes_addInstruction (p : Progress) (i : Instruction) :
    (p.addInstruction i).bytes = p.bytes ++ i.bytes := by
  simp [bytes, finish_addInstruction, Entry.bytes]

end Progress

theorem bytes_decodeFrom (isCode : Int → Bool) (labels : List (Text × Int)) (address : Int)
    (p : Progress) (bytes : List UInt8) :
    (decodeFrom isCode labels address p bytes).flatMap Entry.bytes = p.bytes ++ bytes := by
  refine decodeFrom_induction
    (P := fun _ p bytes entries => entries.flatMap Entry.bytes = p.bytes ++ bytes)
    ?_ ?_ ?_ ?_ address p bytes
  · intro _ p
    simp [Progress.bytes]
  · intro _ p b rest entries _ ih
    simpa using ih
  · intro _ p o operand rest entries _ _ ih
    simpa [instruction] using ih
  · intro address p o rest _ _
    exact Progress.bytes_addBytes p address _

/-- The instruction is what some operation looks like with operand bytes of its size. -/
def Decoded (labels : List (Text × Int)) (i : Instruction) : Prop :=
  ∃ address o operand, o ∈ Operation.all ∧ operand.length = o.mode.operandSize ∧
    i = instruction labels address o operand

/-- As above, and the instruction stands where code is to be decoded. -/
def Found (isCode : Int → Bool) (labels : List (Text × Int)) (i : Instruction) : Prop :=
  ∃ address o operand, operationAt? isCode address o.slot.opcode = some o ∧
    operand.length = o.mode.operandSize ∧ i = instruction labels address o operand

theorem Found.decoded {isCode : Int → Bool} {labels : List (Text × Int)} {i : Instruction}
    (h : Found isCode labels i) : Decoded labels i := by
  obtain ⟨address, o, operand, found, size, rfl⟩ := h
  exact ⟨address, o, operand, (operationAt?_eq_some found).2.1, size, rfl⟩

theorem mem_finish_addByte {p : Progress} {address : Int} {b : UInt8} {i : Instruction}
    (h : .instruction i ∈ (p.addByte address b).finish) : .instruction i ∈ p.finish := by
  rcases p with ⟨entries, _ | ⟨start, run⟩⟩ <;>
    simpa [Progress.addByte, Progress.finish, Progress.close] using h

theorem mem_finish_addBytes {p : Progress} {address : Int} {bs : List UInt8} {i : Instruction}
    (h : .instruction i ∈ (p.addBytes address bs).finish) : .instruction i ∈ p.finish := by
  induction bs generalizing p with
  | nil => exact h
  | cons b bs ih => exact mem_finish_addByte (ih h)

theorem found_of_mem_decodeFrom {isCode : Int → Bool} {labels : List (Text × Int)} {address : Int}
    {p : Progress} {bytes : List UInt8} {i : Instruction}
    (h : .instruction i ∈ decodeFrom isCode labels address p bytes) :
    .instruction i ∈ p.finish ∨ Found isCode labels i := by
  revert h
  refine decodeFrom_induction (P := fun _ p _ entries =>
    .instruction i ∈ entries → .instruction i ∈ p.finish ∨ Found isCode labels i)
    ?_ ?_ ?_ ?_ address p bytes
  · intro _ p h
    exact .inl h
  · intro _ p b rest entries _ ih h
    exact (ih h).imp mem_finish_addByte id
  · intro address p o operand rest entries found size ih h
    rcases ih h with h | h
    · rw [Progress.finish_addInstruction] at h
      rcases List.mem_append.mp h with h | h
      · exact .inl h
      · cases List.mem_singleton.mp h
        exact .inr ⟨address, o, operand, found, size, rfl⟩
    · exact .inr h
  · intro address p o rest _ _ h
    exact .inl (mem_finish_addBytes h)

theorem found_of_mem_decode {isCode : Int → Bool} {labels : List (Text × Int)} {address : Int}
    {bytes : List UInt8} {i : Instruction}
    (h : .instruction i ∈ decode isCode labels address bytes) : Found isCode labels i := by
  rcases found_of_mem_decodeFrom h with h | h
  · cases h
  · exact h

theorem decoded_of_mem_decode {isCode : Int → Bool} {labels : List (Text × Int)} {address : Int}
    {bytes : List UInt8} {i : Instruction}
    (h : .instruction i ∈ decode isCode labels address bytes) : Decoded labels i :=
  (found_of_mem_decode h).decoded

end Listing
end Asm6502
