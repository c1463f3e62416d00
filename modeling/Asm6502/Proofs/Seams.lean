import Asm6502.Proofs.Numerals
import Asm6502.Proofs.Segmentation

/-! Where a listing comes apart. Bytes that are appended to a payload can complete its last
instruction or make its last run longer; behind a whole instruction they do neither, and the two
parts are listed as if each were loaded alone at its place. -/
namespace Asm6502.Listing

/-- The last entry is an instruction, if there is one at all. -/
def Settled (entries : List Entry) : Prop :=
  entries = [] ∨ ∃ i, entries.getLast? = some (.instruction i)

section Settled

variable {address : Int} {b : UInt8} {bytes : List UInt8} {entries more : List Entry} {e : Entry}

theorem Settled.of_cons (h : Settled (e :: entries)) : Settled entries := by
  cases entries with
  | nil => exact .inl rfl
  | cons x xs =>
    obtain nothing | ⟨i, last⟩ := h
    · cases nothing
    · exact .inr ⟨i, List.getLast?_cons_cons ▸ last⟩

theorem not_settled_run : ¬ Settled [.run address bytes] := by
  rintro (nothing | ⟨i, last⟩)
  · cases nothing
  · cases last

theorem Settled.of_prepend (h : Settled (prepend address bytes entries)) :
    entries ≠ [] ∧ Settled entries := by
  match entries with
  | [] => exact absurd h not_settled_run
  | .instruction i :: rest => exact ⟨by simp, h.of_cons⟩
  | .run place run :: [] => exact absurd h not_settled_run
  | .run place run :: x :: rest =>
    obtain nothing | ⟨i, last⟩ := h
    · cases nothing
    · exact ⟨by simp, .inr ⟨i, last⟩⟩

theorem prepend_append (filled : entries ≠ []) :
    prepend address bytes (entries ++ more) = prepend address bytes entries ++ more := by
  match entries with
  | .instruction i :: rest => rfl
  | .run place run :: rest => rfl

theorem exists_run_of_not_settled (h : ¬ Settled entries) :
    ∃ before place run, entries = before ++ [.run place run] := by
  obtain rfl | ⟨before, last, rfl⟩ := List.eq_nil_or_concat entries
  · exact absurd (.inl rfl) h
  · rw [List.concat_eq_append] at h ⊢
    cases last with
    | instruction i => exact absurd (.inr ⟨i, List.getLast?_concat⟩) h
    | run place run => exact ⟨before, place, run, rfl⟩

end Settled

section Append

variable {isCode : Int → Bool} {labels : List (Text × Int)} {address : Int} {p : List UInt8}

theorem decode_append (low : 0 ≤ address) (high : address < 65536)
    (settled : Settled (decode isCode labels address p)) (q : List UInt8) :
    decode isCode labels address (p ++ q) =
      decode isCode labels address p ++ decode isCode labels (advance address p.length) q := by
  revert low high settled
  refine decode_induction (P := fun address p entries =>
    0 ≤ address → address < 65536 → Settled entries → decode isCode labels address (p ++ q) =
      entries ++ decode isCode labels (advance address p.length) q) ?_ ?_ ?_ ?_ address p
  · intro address low high _
    simp [advance_zero low high]
  · intro address b rest entries found ih _ _ settled
    -- An instruction comes later in `p`, so the run that holds `b` ends inside it.
    obtain ⟨low, high⟩ := advance_range address 1
    obtain ⟨filled, settled⟩ := settled.of_prepend
    have behind := ih low high settled
    rw [advance_advance, Nat.add_comm] at behind
    rw [List.cons_append, decode_data found, behind, prepend_append filled, List.length_cons]
  · intro address o operand rest entries found size ih _ _ settled
    obtain ⟨low, high⟩ := advance_range address (1 + operand.length)
    have behind := ih low high settled.of_cons
    have length : (o.slot.opcode :: (operand ++ rest)).length =
        1 + operand.length + rest.length := by
      simp only [List.length_cons, List.length_append]
      omega
    rw [advance_advance, ← length] at behind
    rw [List.cons_append, List.append_assoc, decode_code found size, behind]
    rfl
  · intro address o rest _ _ _ _ settled
    exact absurd settled not_settled_run

/-- A byte that is no opcode, behind an open run, does not begin a run of its own. -/
theorem settled_of_decode_append (low : 0 ≤ address) (high : address < 65536)
    (parts : decode isCode labels address (p ++ [0x02]) =
      decode isCode labels address p ++ decode isCode labels (advance address p.length) [0x02]) :
    Settled (decode isCode labels address p) := by
  by_contra unsettled
  obtain ⟨before, place, run, last⟩ := exists_run_of_not_settled unsettled
  have none : operationAt? isCode (advance address p.length) 0x02 = none :=
    operationAt?_eq_none_iff.mpr (.inl (by decide +kernel))
  have byte : decode isCode labels (advance address p.length) [0x02] =
      [.run (advance address p.length) [0x02]] := decode_data none
  have maximal : Maximal isCode address (decode isCode labels address (p ++ [0x02])) :=
    maximal_decode labels _ low high
  rw [parts, last, byte, List.append_assoc] at maximal
  obtain ⟨-, apart, -⟩ := maximal.justified before (.run place run) _ rfl
  exact apart _ _ [] rfl

end Append

theorem loadAddressOf_wordBytes (load : Int) (payload : List UInt8) :
    loadAddressOf (wordBytes load ++ payload) = load % 65536 := by
  have low := toNat_lowByte load
  have high := toNat_lowByte (load / 256)
  rw [wordBytes, List.cons_append, List.cons_append, loadAddressOf_eq]
  omega

theorem decodeProgram_wordBytes (isCode : Int → Bool) (labels : List (Text × Int)) (load : Int)
    (payload : List UInt8) :
    decodeProgram isCode labels (wordBytes load ++ payload) =
      decode isCode labels (load % 65536) payload := by
  rw [decodeProgram, loadAddressOf_wordBytes]
  rfl

/-- A payload that ends with a whole instruction is listed the same whatever follows it, and what
follows is listed as if it were loaded where the payload ends. No other payload is like that. -/
theorem listing_splits_iff (isCode : Int → Bool) (labels : List (Text × Int)) (load : Int)
    (p : List UInt8) :
    let entries (load : Int) (payload : List UInt8) :=
      decodeProgram isCode labels (wordBytes load ++ payload)
    (entries load p = [] ∨ ∃ i, (entries load p).getLast? = some (.instruction i)) ↔
      ∀ q, entries load (p ++ q) = entries load p ++ entries ((load + p.length) % 65536) q := by
  intro entries
  have low : 0 ≤ load % 65536 := by omega
  have high : load % 65536 < 65536 := by omega
  have seam : (load + p.length) % 65536 % 65536 = advance (load % 65536) p.length := by
    unfold advance
    omega
  simp only [entries, decodeProgram_wordBytes, seam]
  constructor
  · exact decode_append low high
  · intro parts
    exact settled_of_decode_append low high (parts [0x02])

end Asm6502.Listing
