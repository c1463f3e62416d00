import Asm6502.Proofs.Decoding

/-! A listing covers its file. The bytes of the entries are those of the file after the load
address, in order, and every entry stands where the one before it ends, around the end of memory if
need be. What is written for an operand is found by partial look-ups, none of which fails. -/
namespace Asm6502

def Entry.address : Entry → Int
  | .instruction i => i.address
  | .run address _ => address

namespace Listing

/-- The entries follow each other without a gap, from one address to another. -/
inductive Laid : Int → List Entry → Int → Prop where
  | nil (start : Int) : Laid start [] start
  | cons {start stop : Int} {e : Entry} {rest : List Entry} :
      e.address = start → Laid (advance start e.bytes.length) rest stop →
      Laid start (e :: rest) stop

theorem advance_advance (address : Int) (m n : Nat) :
    advance (advance address m) n = advance address (m + n) := by
  unfold advance
  push_cast
  omega

theorem advance_range (address : Int) (n : Nat) :
    0 ≤ advance address n ∧ advance address n < 65536 := by
  unfold advance
  omega

theorem advance_zero {address : Int} (low : 0 ≤ address) (high : address < 65536) :
    advance address 0 = address := by
  unfold advance
  omega

section Laid

variable {start stop place : Int} {xs ys : List Entry} {e : Entry} {p : Progress} {b : UInt8}

theorem laid_append_iff :
    Laid start (xs ++ ys) stop ↔ ∃ middle, Laid start xs middle ∧ Laid middle ys stop := by
  induction xs generalizing start with
  | nil =>
    constructor
    · intro h
      exact ⟨start, .nil start, h⟩
    · rintro ⟨middle, ⟨⟩, h⟩
      exact h
  | cons x xs ih =>
    constructor
    · rintro (_ | ⟨here, rest⟩)
      obtain ⟨middle, before, after⟩ := ih.mp rest
      exact ⟨middle, .cons here before, after⟩
    · rintro ⟨middle, _ | ⟨here, before⟩, after⟩
      exact .cons here (ih.mpr ⟨middle, before, after⟩)

theorem laid_singleton_iff :
    Laid start [e] stop ↔ e.address = start ∧ stop = advance start e.bytes.length := by
  constructor
  · rintro (_ | ⟨here, ⟨⟩⟩)
    exact ⟨here, rfl⟩
  · rintro ⟨here, rfl⟩
    exact .cons here (.nil _)

theorem Laid.stop_eq (h : Laid start xs stop) (low : 0 ≤ start) (high : start < 65536) :
    stop = advance start (xs.flatMap Entry.bytes).length := by
  induction h with
  | nil start => exact (advance_zero low high).symm
  | @cons start stop e rest here tail ih =>
    obtain ⟨low', high'⟩ := advance_range start e.bytes.length
    rw [ih low' high', advance_advance, List.flatMap_cons, List.length_append]

theorem laid_addInstruction {i : Instruction} (h : Laid start p.finish i.address) :
    Laid start (p.addInstruction i).finish (advance i.address i.bytes.length) := by
  rw [Progress.finish_addInstruction]
  exact laid_append_iff.mpr ⟨i.address, h, laid_singleton_iff.mpr ⟨rfl, rfl⟩⟩

theorem laid_addByte (h : Laid start p.finish stop) (opens : p.pending = none → place = stop) :
    Laid start (p.addByte place b).finish (advance stop 1) := by
  rcases p with ⟨entries, _ | ⟨first, run⟩⟩
  · have opened : (Progress.addByte ⟨entries, none⟩ place b).finish =
        (Progress.mk entries none).finish ++ [.run place [b]] := by
      simp [Progress.addByte, Progress.finish, Progress.close]
    rw [opened, laid_append_iff]
    exact ⟨stop, h, laid_singleton_iff.mpr ⟨opens rfl, rfl⟩⟩
  · have before : (Progress.mk entries (some (first, run))).finish =
        entries.reverse ++ [.run first run.reverse] := by
      simp [Progress.finish, Progress.close]
    have longer : (Progress.addByte ⟨entries, some (first, run)⟩ place b).finish =
        entries.reverse ++ [.run first (run.reverse ++ [b])] := by
      simp [Progress.addByte, Progress.finish, Progress.close]
    -- The run keeps its address, and only where it ends moves on.
    rw [before, laid_append_iff] at h
    obtain ⟨middle, earlier, last⟩ := h
    obtain ⟨here, rfl⟩ := laid_singleton_iff.mp last
    rw [longer, laid_append_iff]
    refine ⟨middle, earlier, laid_singleton_iff.mpr ⟨here, ?_⟩⟩
    rw [advance_advance]
    simp [Entry.bytes]

theorem laid_addBytes {bs : List UInt8} (h : Laid start p.finish stop)
    (opens : p.pending = none → place = stop) :
    ∃ stop, Laid start (p.addBytes place bs).finish stop := by
  induction bs generalizing p stop with
  | nil => exact ⟨stop, h⟩
  | cons b bs ih =>
    apply ih (laid_addByte h opens)
    -- After one byte a run is open, and the address at hand no longer matters.
    intro closed
    rcases p with ⟨entries, _ | ⟨first, run⟩⟩ <;> cases closed

end Laid

theorem laid_decodeFrom {isCode : Int → Bool} {labels : List (Text × Int)} {start address : Int}
    {p : Progress} {bytes : List UInt8} (h : Laid start p.finish address) :
    ∃ stop, Laid start (decodeFrom isCode labels address p bytes) stop := by
  revert h
  refine decodeFrom_induction (P := fun address p _ entries =>
    Laid start p.finish address → ∃ stop, Laid start entries stop) ?_ ?_ ?_ ?_ address p bytes
  · intro address p h
    exact ⟨address, h⟩
  · intro address p b rest entries _ ih h
    exact ih (laid_addByte h fun _ => rfl)
  · intro address p o operand rest entries _ _ ih h
    apply ih
    have placed := laid_addInstruction (i := instruction labels address o operand) h
    simpa [instruction, Nat.add_comm] using placed
  · intro address p o rest _ _ h
    exact laid_addBytes h fun _ => rfl

theorem laid_decodeProgram (isCode : Int → Bool) (labels : List (Text × Int)) (file : List UInt8) :
    ∃ stop, Laid (loadAddressOf file) (decodeProgram isCode labels file) stop :=
  laid_decodeFrom (.nil _)

theorem bytes_decodeProgram (isCode : Int → Bool) (labels : List (Text × Int))
    (file : List UInt8) :
    (decodeProgram isCode labels file).flatMap Entry.bytes = file.drop 2 :=
  bytes_decodeFrom isCode labels _ {} _

theorem loadAddressOf_eq (low high : UInt8) (payload : List UInt8) :
    loadAddressOf (low :: high :: payload) = low.toNat + 256 * high.toNat := by
  simp [loadAddressOf, littleEndian]

theorem loadAddressOf_range (file : List UInt8) :
    0 ≤ loadAddressOf file ∧ loadAddressOf file < 65536 := by
  unfold loadAddressOf
  split
  · rename_i low high payload
    have small := low.toNat_lt
    have small' := high.toNat_lt
    simp only [littleEndian, List.foldr_cons, List.foldr_nil]
    omega
  · decide

theorem address_of_decodeProgram {isCode : Int → Bool} {labels : List (Text × Int)}
    {file : List UInt8} {before after : List Entry} {e : Entry}
    (h : decodeProgram isCode labels file = before ++ e :: after) :
    e.address = advance (loadAddressOf file) (before.flatMap Entry.bytes).length := by
  obtain ⟨stop, laid⟩ := laid_decodeProgram isCode labels file
  obtain ⟨low, high⟩ := loadAddressOf_range file
  rw [h, laid_append_iff] at laid
  obtain ⟨middle, earlier, _ | ⟨here, -⟩⟩ := laid
  rw [here, earlier.stop_eq low high]

def byteFormat (dress : Text → Text) (operand : List UInt8) : Option Text := do
  let b ← operand[0]?
  return dress (Text.hex 2 b.toNat)

def wordFormat (dress : Text → Text) (operand : List UInt8) : Option Text := do
  let low ← operand[0]?
  let high ← operand[1]?
  return dress (Text.hex 4 (low.toNat + 256 * high.toNat : Nat))

/-- How operands are written. Branches are not here, as their operands hang on the address. -/
def formats : List (Mode × (List UInt8 → Option Text)) :=
  [(.immediate, byteFormat fun digits => ['#', '$'] ++ digits),
   (.zeroPage, byteFormat fun digits => ['$'] ++ digits),
   (.zeroPageX, byteFormat fun digits => ['$'] ++ digits ++ [',', 'X']),
   (.zeroPageY, byteFormat fun digits => ['$'] ++ digits ++ [',', 'Y']),
   (.absolute, wordFormat fun digits => ['$'] ++ digits),
   (.absoluteX, wordFormat fun digits => ['$'] ++ digits ++ [',', 'X']),
   (.absoluteY, wordFormat fun digits => ['$'] ++ digits ++ [',', 'Y']),
   (.indirect, wordFormat fun digits => ['(', '$'] ++ digits ++ [')']),
   (.indirectX, byteFormat fun digits => ['(', '$'] ++ digits ++ [',', 'X', ')']),
   (.indirectY, byteFormat fun digits => ['(', '$'] ++ digits ++ [')', ',', 'Y']),
   (.single, fun _ => some [])]

/-- An operand as one would write it; nothing if a byte or a format is missing. -/
def operandText? (mode : Mode) (address : Int) (operand : List UInt8) : Option Text :=
  if mode = .branch then do
    let displacement ← operand[0]?
    return ['$'] ++ Text.hex 4 (branchTarget address displacement.toNat)
  else do
    let format ← formats.lookup mode
    format operand

theorem operandText?_eq_some {o : Operation} {operand : List UInt8}
    (size : operand.length = o.mode.operandSize) (labels : List (Text × Int)) (address : Int) :
    operandText? o.mode address operand = some (instruction labels address o operand).operand := by
  rcases o with ⟨m, mode, slot⟩
  cases mode with
  | single => rfl
  | absolute | absoluteX | absoluteY | indirect =>
    obtain ⟨low, high, rfl⟩ := List.length_eq_two.mp size
    rfl
  | _ =>
    obtain ⟨b, rfl⟩ := List.length_eq_one_iff.mp size
    rfl

/-- A listing loses, repeats and moves no byte of the file. -/
theorem decodeProgram_covers_file (isCode : Int → Bool) (labels : List (Text × Int))
    (file : List UInt8) :
    let entries := decodeProgram isCode labels file
    (file.length < 2 → entries = []) ∧
      ∀ low high payload, file = low :: high :: payload →
        entries.flatMap Entry.bytes = payload ∧
        (∀ before e after, entries = before ++ e :: after →
          e.address =
            (low.toNat + 256 * high.toNat + (before.flatMap Entry.bytes).length : Int) % 65536) ∧
        ∀ i, .instruction i ∈ entries → ∃ o operand, Operation.ofOpcode? o.slot.opcode = some o ∧
          i.mode = o.mode ∧ i.bytes = o.slot.opcode :: operand ∧
          operandText? i.mode i.address operand = some i.operand := by
  intro entries
  constructor
  · intro short
    have nothing : file.drop 2 = [] := List.drop_eq_nil_of_le (by omega)
    unfold entries decodeProgram
    rw [nothing]
    rfl
  · rintro low high payload rfl
    refine ⟨bytes_decodeProgram isCode labels _, ?_, ?_⟩
    · intro before e after split
      rw [address_of_decodeProgram split, loadAddressOf_eq, advance]
    · intro i hi
      obtain ⟨address, o, operand, member, size, rfl⟩ := decoded_of_mem_decode hi
      exact ⟨o, operand, Operation.ofOpcode?_of_mem o member, rfl, rfl,
        operandText?_eq_some size labels address⟩

/-- A file that loads at the end of memory: an instruction that runs around it, a byte that is
none, a branch back, and an instruction that is cut off. -/
theorem decodeProgram_covers_file_around :
    let payload : List UInt8 := [0x8D, 0x20, 0xD0, 0x02, 0xD0, 0xFB, 0x4C, 0x00]
    let entries := decodeProgram (fun _ => true) [] (0xFE :: 0xFF :: payload)
    entries.flatMap Entry.bytes = payload ∧ entries.map Entry.address = [0xFFFE, 1, 2, 4] ∧
      ∀ i, .instruction i ∈ entries → ∃ o operand, Operation.ofOpcode? o.slot.opcode = some o ∧
        i.mode = o.mode ∧ i.bytes = o.slot.opcode :: operand ∧
        operandText? i.mode i.address operand = some i.operand := by
  intro payload entries
  obtain ⟨-, whole⟩ := decodeProgram_covers_file (fun _ => true) [] (0xFE :: 0xFF :: payload)
  obtain ⟨bytes, -, operands⟩ := whole 0xFE 0xFF payload rfl
  exact ⟨bytes, by decide +kernel, operands⟩

end Listing
end Asm6502
