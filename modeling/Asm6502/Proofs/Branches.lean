import Asm6502.Proofs.Decoding
import Mathlib.Data.Int.ModEq

/-! Relative branches. From the address behind the branch a displacement leads at most half a page
up or down, so the page is left exactly where the low byte of that address runs over or under. It
makes no difference that the whole address runs around the end of memory. -/
namespace Asm6502

/-- A step from the address behind a branch carries out of its low byte, or borrows into it. -/
def LeavesPage (address step : Int) : Prop :=
  (address + 2) % 256 + step < 0 ∨ 255 < (address + 2) % 256 + step

instance (address step : Int) : Decidable (LeavesPage address step) :=
  inferInstanceAs (Decidable (_ ∨ _))

theorem signedDisplacement_eq (d : Int) :
    signedDisplacement d = if d < 128 then d else d - 256 := by
  unfold signedDisplacement
  split <;> split <;> omega

theorem signedDisplacement_range (d : UInt8) :
    -128 ≤ signedDisplacement d.toNat ∧ signedDisplacement d.toNat ≤ 127 := by
  have byte := d.toNat_lt
  unfold signedDisplacement
  split <;> omega

/-- A step of at most half a page reaches the neighbouring pages only, and of 256 pages no two
neighbours are the same. -/
theorem pageOf_ne_iff {address step : Int} (back : -128 ≤ step) (on : step ≤ 127) :
    pageOf (address + 2) ≠ pageOf ((address + 2 + step) % 65536) ↔ LeavesPage address step := by
  unfold pageOf LeavesPage
  omega

theorem crossesPage_branchTarget_iff (address : Int) (d : UInt8) :
    crossesPage address (branchTarget address d.toNat) = true ↔
      LeavesPage address (signedDisplacement d.toNat) := by
  obtain ⟨back, on⟩ := signedDisplacement_range d
  unfold crossesPage branchTarget
  exact bne_iff_ne.trans (pageOf_ne_iff back on)

theorem displacement_of_branchTarget (address : Int) (d : UInt8) :
    (branchTarget address d.toNat - address - 2) % 256 = d.toNat := by
  have byte := d.toNat_lt
  unfold branchTarget signedDisplacement
  split <;> omega

theorem Operation.cost_of_branch :
    ∀ o ∈ all, o.mode = .branch → o.slot.cost = ⟨2, .branchAndPage⟩ := by
  decide +kernel

namespace Listing

theorem instruction_branch {labels : List (Text × Int)} {address : Int} {o : Operation}
    {operand : List UInt8} (member : o ∈ Operation.all) (branch : o.mode = .branch)
    (size : operand.length = o.mode.operandSize) :
    ∃ d, operand = [d] ∧
      (instruction labels address o operand).operand =
        '$' :: Text.hex 4 (branchTarget address d.toNat) ∧
      (instruction labels address o operand).cycles =
        if LeavesPage address (signedDisplacement d.toNat) then ['3', '/', '4']
        else ['2', '/', '3'] := by
  rw [branch] at size
  obtain ⟨d, rfl⟩ := List.length_eq_one_iff.mp size
  have value : (littleEndian [d] : Int) = d.toNat := rfl
  have crossing := crossesPage_branchTarget_iff address d
  refine ⟨d, rfl, ?_, ?_⟩
  · simp [instruction, branch, operandText, value]
  · simp only [instruction, branch, value, Operation.cost_of_branch o member branch, Cost.text,
      decide_true, Bool.true_and, if_true]
    by_cases leaves : LeavesPage address (signedDisplacement d.toNat)
    · rw [if_pos leaves, if_pos (crossing.mpr leaves)]
      rfl
    · rw [if_neg leaves, if_neg (mt crossing.mp leaves)]
      rfl

end Listing

/-- A branch leads where its displacement says, and both can be had from each other. In a listing it
costs a cycle more exactly if the low byte runs over or under. -/
theorem branches_exact :
    (∀ (address : Int) (d : UInt8),
      let s : Int := if d.toNat < 128 then d.toNat else d.toNat - 256
      let t := branchTarget address d.toNat
      (0 ≤ t ∧ t ≤ 65535) ∧ t ≡ address + 2 + s [ZMOD 65536] ∧
        (t - address - 2) % 256 = d.toNat ∧
        (crossesPage address t = true ↔ LeavesPage address s)) ∧
    ∀ isCode labels file i, .instruction i ∈ Listing.decodeProgram isCode labels file →
      i.mode = .branch → ∃ opcode d : UInt8,
        let s : Int := if d.toNat < 128 then d.toNat else d.toNat - 256
        i.bytes = [opcode, d] ∧
        i.operand = '$' :: Text.hex 4 (branchTarget i.address d.toNat) ∧
        i.cycles = if LeavesPage i.address s then ['3', '/', '4'] else ['2', '/', '3'] := by
  have signed : ∀ d : UInt8, (if d.toNat < 128 then (d.toNat : Int) else d.toNat - 256) =
      signedDisplacement d.toNat := by
    intro d
    rw [signedDisplacement_eq]
    norm_cast
  refine ⟨?_, ?_⟩
  · intro address d s t
    have step : s = signedDisplacement d.toNat := signed d
    refine ⟨?_, ?_, displacement_of_branchTarget address d, ?_⟩
    · unfold t branchTarget
      omega
    · rw [step]
      exact Int.mod_modEq _ _
    · rw [step]
      exact crossesPage_branchTarget_iff address d
  · intro isCode labels file i member branch
    obtain ⟨address, o, operand, known, size, rfl⟩ := Listing.decoded_of_mem_decode member
    obtain ⟨d, rfl, target, cycles⟩ := Listing.instruction_branch known branch size
    refine ⟨o.slot.opcode, d, rfl, target, ?_⟩
    rw [signed]
    exact cycles

/-- A branch at the end of memory has the first page behind it and stays there; one on the first
page that leads back over the end leaves it. -/
theorem branches_exact_around :
    ∃ i j, Listing.decodeProgram (fun _ => true) [] [0xFE, 0xFF, 0xD0, 0x05, 0xF0, 0xFB] =
        [.instruction i, .instruction j] ∧
      (i.address = 0xFFFE ∧ ¬ LeavesPage i.address 5 ∧ i.cycles = ['2', '/', '3']) ∧
      (j.address = 0 ∧ LeavesPage j.address (-5) ∧ j.cycles = ['3', '/', '4']) := by
  have exact := branches_exact.2 (fun _ => true) [] [0xFE, 0xFF, 0xD0, 0x05, 0xF0, 0xFB]
  refine ⟨_, _, rfl, ⟨rfl, by decide, ?_⟩, rfl, by decide, ?_⟩
  · obtain ⟨opcode, d, bytes, -, cycles⟩ := exact _ (.head _) rfl
    cases (show [0xD0, 0x05] = [opcode, d] from bytes)
    exact cycles
  · obtain ⟨opcode, d, bytes, -, cycles⟩ := exact _ (.tail _ (.head _)) rfl
    cases (show [0xF0, 0xFB] = [opcode, d] from bytes)
    exact cycles

end Asm6502
