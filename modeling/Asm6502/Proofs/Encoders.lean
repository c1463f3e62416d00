import Asm6502.Proofs.Operands
import Asm6502.Proofs.Step

/-! The encoders of an instruction, each on its own. They tell operands apart by the first
character, so no two of them take the same one, and it makes no difference which is asked first.
The accumulator is the exception, where its letter is also a symbol and the mnemonic has both
modes. -/
namespace Asm6502

inductive Encoder
  | single
  | immediate
  | absolute
  deriving DecidableEq, Repr

/-- The letter of the accumulator, with a mnemonic that also takes it for a symbol. -/
structure Ambiguous (m : Mnemonic) (operand : Option Text) : Prop where
  operand : operand = some ['A'] ∨ operand = some ['a']
  single : (m.slot? .single).isSome
  absolute : (m.slot? .absolute).isSome

namespace Encoder

def form : Encoder → Mnemonic → Option Text → Except Text.DigitOverflow (Option Form)
  | single, m, operand => .ok (Form.single? m operand)
  | immediate, m, operand => Form.immediate? m operand
  | absolute, m, operand => Form.absolute? m operand

/-- The encoder takes the instruction, or is stopped by its operand. -/
def Decides (e : Encoder) (m : Mnemonic) (operand : Option Text) : Prop :=
  e.form m operand ≠ .ok none

theorem decides_of_form {e : Encoder} {m : Mnemonic} {operand : Option Text} {form : Form}
    (h : e.form m operand = .ok (some form)) : e.Decides m operand := by
  simp [Decides, h]

section Decides

variable {m : Mnemonic} {operand : Option Text}

theorem operand_of_single (h : single.Decides m operand) :
    (m.slot? .single).isSome ∧ (operand = none ∨ operand = some ['A'] ∨ operand = some ['a']) := by
  cases taken : Form.single? m operand with
  | none => exact absurd (congrArg Except.ok taken) h
  | some form =>
    obtain ⟨slot, found, -, which⟩ := Form.single?_eq_some taken
    exact ⟨Option.isSome_of_eq_some found, which⟩

theorem operand_of_immediate (h : immediate.Decides m operand) :
    ∃ rest, operand = some ('#' :: rest) := by
  cases operand with
  | none => exact absurd (by simp [form, Form.immediate?]) h
  | some t =>
    have literal : Operand.immediate t ≠ .ok none := fun none => h (Form.immediate?_eq_none none)
    cases t with
    | nil => exact absurd rfl literal
    | cons c rest =>
      by_cases hash : c = '#'
      · exact ⟨rest, by rw [hash]⟩
      · exact absurd (Operand.immediate_of_ne hash) literal

theorem operand_of_absolute (h : absolute.Decides m operand) :
    (m.slot? .absolute).isSome ∧ ∃ c rest, operand = some (c :: rest) ∧ c ≠ '#' := by
  constructor
  · rw [Option.isSome_iff_ne_none]
    intro none
    apply h
    simp [form, Form.absolute?, none]
  · cases operand with
    | none => exact absurd (by simp [form, Form.absolute?]) h
    | some t =>
      cases t with
      | nil => exact absurd (Form.absolute?_eq_none rfl rfl) h
      | cons c rest =>
        refine ⟨c, rest, rfl, ?_⟩
        rintro rfl
        apply h
        apply Form.absolute?_eq_none
        · exact Operand.number_of_ne (by decide) (by decide)
        · exact Operand.symbol?_of_not_start (by decide)

/-- Two encoders that both have a say are those for the accumulator and for a symbol. -/
theorem Decides.ambiguous {e f : Encoder} (he : e.Decides m operand) (hf : f.Decides m operand)
    (other : e ≠ f) : Ambiguous m operand := by
  have accumulator : single.Decides m operand → absolute.Decides m operand →
      Ambiguous m operand := by
    intro hs ha
    obtain ⟨single, which⟩ := operand_of_single hs
    obtain ⟨absolute, c, rest, rfl, -⟩ := operand_of_absolute ha
    refine ⟨which.resolve_left ?_, single, absolute⟩
    intro none
    cases none
  have hash : single.Decides m operand → ¬ immediate.Decides m operand := by
    intro hs hi
    obtain ⟨rest, rfl⟩ := operand_of_immediate hi
    rcases (operand_of_single hs).2 with other | other | other <;> cases other
  have address : absolute.Decides m operand → ¬ immediate.Decides m operand := by
    intro ha hi
    obtain ⟨rest, rfl⟩ := operand_of_immediate hi
    obtain ⟨-, c, tail, same, ne⟩ := operand_of_absolute ha
    cases same
    exact ne rfl
  cases e with
  | single =>
    cases f with
    | single => exact absurd rfl other
    | immediate => exact absurd hf (hash he)
    | absolute => exact accumulator he hf
  | immediate =>
    cases f with
    | single => exact absurd he (hash hf)
    | immediate => exact absurd rfl other
    | absolute => exact absurd he (address hf)
  | absolute =>
    cases f with
    | single => exact accumulator hf he
    | immediate => exact absurd hf (address he)
    | absolute => exact absurd rfl other

end Decides

end Encoder

namespace Assembly

/-- Tries one encoder on a line. There is no outcome where it declines. -/
def attempt (a : Assembly) (line : SourceLine) (m : Mnemonic) (operand : Option Text)
    (e : Encoder) : Assembly × Option Outcome :=
  match e.form m operand with
  | .error overflow => (a, some (.stopped overflow))
  | .ok none => (a, none)
  | .ok (some form) => (a.assembleForm line form).map id some

def attempts (a : Assembly) (line : SourceLine) (m : Mnemonic) (operand : Option Text) :
    List Encoder → Assembly × Outcome
  | [] => (a, .defect (a.diagnose line (.unencodable m.name operand (m.modes.map Mode.name))))
  | e :: rest =>
    match a.attempt line m operand e with
    | (b, none) => b.attempts line m operand rest
    | (b, some outcome) => (b, outcome)

section Attempts

variable {a b : Assembly} {line : SourceLine} {m : Mnemonic} {operand : Option Text} {e : Encoder}
  {form : Form} {outcome : Outcome}

theorem attempt_of_declines (h : e.form m operand = .ok none) :
    a.attempt line m operand e = (a, none) := by
  rw [attempt, h]

theorem attempts_of_declines (h : e.form m operand = .ok none) (rest : List Encoder) :
    a.attempts line m operand (e :: rest) = a.attempts line m operand rest := by
  rw [attempts, attempt_of_declines h]

theorem attempts_of_attempt (h : a.attempt line m operand e = (b, some outcome))
    (rest : List Encoder) : a.attempts line m operand (e :: rest) = (b, outcome) := by
  rw [attempts, h]

theorem attempt_of_form (a : Assembly) (line : SourceLine)
    (h : e.form m operand = .ok (some form)) :
    ∃ outcome, a.attempt line m operand e = (a.emit (form.bytes a.labels), some outcome) := by
  refine ⟨(a.assembleForm line form).2, ?_⟩
  rw [attempt, h]
  exact Prod.ext (assembleForm_eq a line form).1 rfl

theorem attempt_of_decides (a : Assembly) (line : SourceLine) (h : e.Decides m operand) :
    ∃ b outcome, a.attempt line m operand e = (b, some outcome) := by
  cases taken : e.form m operand with
  | error overflow => exact ⟨a, .stopped overflow, by rw [attempt, taken]⟩
  | ok chosen =>
    cases chosen with
    | none => exact absurd taken h
    | some form => exact ⟨_, attempt_of_form a line taken⟩

/- What an encoder decides stays so, whichever others are still to come. -/
theorem attempts_of_decides (h : e.Decides m operand) (rest others : List Encoder) :
    a.attempts line m operand (e :: rest) = a.attempts line m operand (e :: others) := by
  obtain ⟨b, outcome, tried⟩ := attempt_of_decides a line h
  rw [attempts_of_attempt tried, attempts_of_attempt tried]

theorem attempts_perm {xs ys : List Encoder} (same : xs.Perm ys) (clear : ¬ Ambiguous m operand) :
    a.attempts line m operand xs = a.attempts line m operand ys := by
  induction same with
  | nil => rfl
  | @cons x xs ys _ ih =>
    by_cases hx : x.form m operand = .ok none
    · rw [attempts_of_declines hx, attempts_of_declines hx, ih]
    · exact attempts_of_decides hx xs ys
  | swap x y rest =>
    by_cases hx : x.form m operand = .ok none
    · rw [attempts_of_declines hx]
      by_cases hy : y.form m operand = .ok none
      · rw [attempts_of_declines hy, attempts_of_declines hy, attempts_of_declines hx]
      · exact attempts_of_decides hy (x :: rest) rest
    · by_cases hy : y.form m operand = .ok none
      · rw [attempts_of_declines hy]
        exact attempts_of_decides hx rest (y :: rest)
      · by_cases only : x = y
        · rw [only]
        · exact absurd (Encoder.Decides.ambiguous hx hy only) clear
  | trans _ _ first second => exact first.trans second

theorem assembleStatement_eq_attempts :
    a.assembleStatement line (.instruction m.name operand) =
      a.attempts line m operand [.single, .immediate, .absolute] := by
  simp only [assembleStatement, Mnemonic.ofName?_name, Form.choose, attempts, attempt, Encoder.form]
  cases Form.single? m operand with
  | some form => rfl
  | none =>
    dsimp only
    cases Form.immediate? m operand with
    | error overflow => rfl
    | ok chosen =>
      cases chosen with
      | some form => rfl
      | none =>
        dsimp only
        cases Form.absolute? m operand with
        | error overflow => rfl
        | ok chosen => cases chosen <;> rfl

theorem attempt_emits_iff :
    (a.attempt line m operand e).1.code ≠ a.code ↔ ∃ form, e.form m operand = .ok (some form) := by
  cases taken : e.form m operand with
  | error overflow => simp [attempt, taken]
  | ok chosen =>
    cases chosen with
    | none => simp [attempt, taken]
    | some form =>
      have some : form.bytes a.labels ≠ [] := by cases form <;> simp [Form.bytes]
      obtain ⟨outcome, tried⟩ := attempt_of_form a line taken
      rw [tried]
      simpa [code] using some

theorem ambiguous_forms (h : Ambiguous m operand) :
    ∃ (slot : Slot) (opcode : UInt8) (symbol : Text), m.slot? .single = some slot ∧
      Encoder.form .single m operand = .ok (some (.single slot.opcode)) ∧
      Encoder.form .absolute m operand = .ok (some (.reference opcode symbol)) := by
  obtain ⟨slot, hs⟩ := Option.isSome_iff_exists.mp h.single
  obtain ⟨slot', ha⟩ := Option.isSome_iff_exists.mp h.absolute
  have single := Form.single?_of_operand hs (.inr h.operand)
  rcases h.operand with rfl | rfl
  · exact ⟨slot, slot'.opcode, ['A'], hs, congrArg Except.ok single,
      by simp only [Encoder.form, Form.absolute?, ha]; rfl⟩
  · exact ⟨slot, slot'.opcode, ['a'], hs, congrArg Except.ok single,
      by simp only [Encoder.form, Form.absolute?, ha]; rfl⟩

end Attempts

/-- No two encoders take the same instruction, but for the letter of the accumulator with a
mnemonic of both modes. So they can be tried in any order exactly if that is not the case; there
the single form is taken whatever the labels are. -/
theorem encoders_unambiguous (a : Assembly) (line : SourceLine) (m : Mnemonic)
    (operand : Option Text) :
    (∀ e, (a.attempt line m operand e).2 = none → (a.attempt line m operand e).1 = a) ∧
      ((∃ e f, e ≠ f ∧ (a.attempt line m operand e).1.code ≠ a.code ∧
          (a.attempt line m operand f).1.code ≠ a.code) ↔ Ambiguous m operand) ∧
      (∀ labels, Text.writable line.number = true → a.entered line = some labels →
        line.statement = .instruction m.name operand →
        a.assembleLine line = attempts { a.note (.lineTaken line) with labels } line m operand
          [.single, .immediate, .absolute]) ∧
      ((∀ order : List Encoder, order.Perm [.single, .immediate, .absolute] →
          a.attempts line m operand order =
            a.attempts line m operand [.single, .immediate, .absolute]) ↔
        ¬ Ambiguous m operand) ∧
      (Ambiguous m operand → ∃ slot, m.slot? .single = some slot ∧
        a.attempts line m operand [.single, .immediate, .absolute] =
          (a.emit [slot.opcode], .done)) := by
  have accumulator : ∀ {slot : Slot},
      Encoder.form .single m operand = .ok (some (.single slot.opcode)) →
      a.attempts line m operand [.single, .immediate, .absolute] =
        (a.emit [slot.opcode], .done) := by
    intro slot taken
    have present : (if a.pass.isLabelPass then none
        else Form.missing? a.labels (.single slot.opcode)) = none := by split <;> rfl
    simp [attempts, attempt, taken, assembleForm, present, Form.bytes]
  refine ⟨?_, ⟨?_, ?_⟩, ?_, ⟨?_, ?_⟩, ?_⟩
  · intro e declines
    unfold attempt at declines ⊢
    split at declines
    · cases declines
    · rfl
    · cases declines
  · rintro ⟨e, f, other, he, hf⟩
    obtain ⟨form, he⟩ := attempt_emits_iff.mp he
    obtain ⟨form', hf⟩ := attempt_emits_iff.mp hf
    exact (Encoder.decides_of_form he).ambiguous (Encoder.decides_of_form hf) other
  · intro ambiguous
    obtain ⟨slot, opcode, symbol, -, single, absolute⟩ := ambiguous_forms ambiguous
    exact ⟨.single, .absolute, by decide, attempt_emits_iff.mpr ⟨_, single⟩,
      attempt_emits_iff.mpr ⟨_, absolute⟩⟩
  · intro labels number entered stated
    rw [assembleLine, if_pos number, takeLine_eq_of_entered entered, stated]
    exact assembleStatement_eq_attempts
  · intro same ambiguous
    obtain ⟨slot, opcode, symbol, -, single, absolute⟩ := ambiguous_forms ambiguous
    obtain ⟨_, one⟩ := attempt_of_form a line single
    obtain ⟨_, three⟩ := attempt_of_form a line absolute
    have states := congrArg Prod.fst (same [.absolute, .single, .immediate] (by decide))
    rw [attempts_of_attempt three, attempts_of_attempt one] at states
    have sizes := congrArg (fun b => b.code.length) states
    simp [code, Form.bytes, wordBytes] at sizes
  · intro clear order perm
    exact attempts_perm perm clear
  · intro ambiguous
    obtain ⟨slot, -, -, found, single, -⟩ := ambiguous_forms ambiguous
    exact ⟨slot, found, accumulator single⟩

/-- With a label of the name `A`: a rotation takes the accumulator all the same, and a jump, which
has no single form, goes to the label also if that is tried first. -/
theorem encoders_unambiguous_label_a :
    let a : Assembly :=
      { file := [], labels := ⟨#[⟨['A'], 0xC000, 1⟩]⟩, pass := Pass.start emitPass }
    let line : SourceLine := ⟨2, []⟩
    Ambiguous .rol (some ['A']) ∧ ¬ Ambiguous .jmp (some ['A']) ∧
      a.attempts line .rol (some ['A']) [.single, .immediate, .absolute] =
        (a.emit [0x2A], .done) ∧
      a.attempts line .jmp (some ['A']) [.absolute, .immediate, .single] =
        (a.emit [0x4C, 0x00, 0xC0], .done) := by
  intro a line
  have both : Ambiguous .rol (some ['A']) := ⟨.inl rfl, rfl, rfl⟩
  have clear : ¬ Ambiguous .jmp (some ['A']) := fun h => Bool.noConfusion h.single
  obtain ⟨-, -, -, -, accumulator⟩ := encoders_unambiguous a line .rol (some ['A'])
  obtain ⟨-, -, -, order, -⟩ := encoders_unambiguous a line .jmp (some ['A'])
  obtain ⟨slot, found, wins⟩ := accumulator both
  cases found
  refine ⟨both, clear, wins, ?_⟩
  rw [order.mpr clear [.absolute, .immediate, .single] (by decide)]
  decide +kernel

end Assembly
end Asm6502
