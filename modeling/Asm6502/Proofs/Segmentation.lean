import Asm6502.Proofs.Coverage

/-! A listing takes every instruction that it can. Each byte of a run has its reason to be there: no
operation has it as opcode, or no code stands there, or the bytes end inside its instruction. Only
one way of dividing a file into entries has a reason for each of them, and decoding finds it. -/
namespace Asm6502

/-- An entry without what is only written beside it. -/
def Entry.outline : Entry → Int × List UInt8 × Option (Text × Mode)
  | .instruction i => (i.address, i.bytes, some (i.mnemonic, i.mode))
  | .run address bytes => (address, bytes, none)

namespace Listing

/-- Bytes before a listing: they make its first run longer, or are a run of their own. -/
def prepend (address : Int) (bytes : List UInt8) : List Entry → List Entry
  | .run _ more :: rest => .run address (bytes ++ more) :: rest
  | entries => .run address bytes :: entries

theorem prepend_prepend (start place : Int) (xs ys : List UInt8) (entries : List Entry) :
    prepend start xs (prepend place ys entries) = prepend start (xs ++ ys) entries := by
  match entries with
  | [] => rfl
  | .instruction _ :: _ => rfl
  | .run _ more :: rest => simp [prepend]

namespace Progress

def resume (p : Progress) (entries : List Entry) : List Entry :=
  match p.pending with
  | none => p.entries.reverse ++ entries
  | some (start, run) => p.entries.reverse ++ prepend start run.reverse entries

theorem resume_nil (p : Progress) : p.resume [] = p.finish := by
  rcases p with ⟨entries, _ | ⟨start, run⟩⟩ <;> simp [resume, finish, close, prepend]

theorem resume_addByte (p : Progress) (address : Int) (b : UInt8) (entries : List Entry) :
    (p.addByte address b).resume entries = p.resume (prepend address [b] entries) := by
  rcases p with ⟨before, _ | ⟨start, run⟩⟩
  · rfl
  · simp [resume, addByte, prepend_prepend]

theorem resume_addBytes (p : Progress) (address : Int) (b : UInt8) (bs : List UInt8)
    (entries : List Entry) :
    (p.addBytes address (b :: bs)).resume entries =
      p.resume (prepend address (b :: bs) entries) := by
  induction bs generalizing p b with
  | nil => exact resume_addByte p address b entries
  | cons c cs ih =>
    have first : p.addBytes address (b :: c :: cs) =
        (p.addByte address b).addBytes address (c :: cs) := rfl
    rw [first, ih, resume_addByte, prepend_prepend]
    rfl

theorem resume_addInstruction (p : Progress) (i : Instruction) (entries : List Entry) :
    (p.addInstruction i).resume entries = p.resume (.instruction i :: entries) := by
  rcases p with ⟨before, _ | ⟨start, run⟩⟩ <;> simp [resume, addInstruction, close, prepend]

end Progress

section Front

variable {isCode : Int → Bool} {labels : List (Text × Int)} {address : Int} {b : UInt8}
  {o : Operation} {operand rest : List UInt8}

/-- What was found before has no say in what is found next. -/
theorem decodeFrom_eq_resume (address : Int) (p : Progress) (bytes : List UInt8) :
    decodeFrom isCode labels address p bytes =
      p.resume (decode isCode labels address bytes) := by
  revert p
  refine @decodeFrom_induction isCode labels (fun address _ bytes _ => ∀ p,
    decodeFrom isCode labels address p bytes = p.resume (decode isCode labels address bytes))
    ?_ ?_ ?_ ?_ address {} bytes
  · intro address _ p
    exact p.resume_nil.symm
  · intro address _ b rest _ found ih p
    rw [decode, decodeFrom_data found, decodeFrom_data found, ih, ih, p.resume_addByte]
    rfl
  · intro address _ o operand rest _ found size ih p
    rw [decode, decodeFrom_code found size, decodeFrom_code found size, ih, ih,
      p.resume_addInstruction]
    rfl
  · intro address _ o rest found short p
    rw [decode, decodeFrom_cut found short, decodeFrom_cut found short, ← Progress.resume_nil,
      ← Progress.resume_nil, Progress.resume_addBytes, Progress.resume_addBytes]
    rfl

theorem decode_data (found : operationAt? isCode address b = none) :
    decode isCode labels address (b :: rest) =
      prepend address [b] (decode isCode labels (advance address 1) rest) := by
  rw [decode, decodeFrom_data found, decodeFrom_eq_resume]
  rfl

theorem decode_code (found : operationAt? isCode address b = some o)
    (size : operand.length = o.mode.operandSize) :
    decode isCode labels address (b :: (operand ++ rest)) =
      .instruction (instruction labels address o operand) ::
        decode isCode labels (advance address (1 + operand.length)) rest := by
  rw [decode, decodeFrom_code found size, decodeFrom_eq_resume]
  rfl

theorem decode_cut (found : operationAt? isCode address b = some o)
    (short : rest.length < o.mode.operandSize) :
    decode isCode labels address (b :: rest) = [.run address (b :: rest)] := by
  rw [decode, decodeFrom_cut found short, ← Progress.resume_nil, Progress.resume_addBytes]
  rfl

theorem decode_induction {P : Int → List UInt8 → List Entry → Prop}
    (done : ∀ address, P address [] [])
    (data : ∀ address b rest entries, operationAt? isCode address b = none →
      P (advance address 1) rest entries → P address (b :: rest) (prepend address [b] entries))
    (code : ∀ address o operand rest entries,
      operationAt? isCode address o.slot.opcode = some o → operand.length = o.mode.operandSize →
      P (advance address (1 + operand.length)) rest entries →
      P address (o.slot.opcode :: (operand ++ rest))
        (.instruction (instruction labels address o operand) :: entries))
    (cut : ∀ address o rest, operationAt? isCode address o.slot.opcode = some o →
      rest.length < o.mode.operandSize →
      P address (o.slot.opcode :: rest) [.run address (o.slot.opcode :: rest)])
    (address : Int) (bytes : List UInt8) :
    P address bytes (decode isCode labels address bytes) := by
  refine @decodeFrom_induction isCode labels (fun address _ bytes _ =>
    P address bytes (decode isCode labels address bytes)) ?_ ?_ ?_ ?_ address {} bytes
  · intro address _
    exact done address
  · intro address _ b rest _ found ih
    rw [decode_data found]
    exact data address b rest _ found ih
  · intro address _ o operand rest _ found size ih
    rw [decode_code found size]
    exact code address o operand rest _ found size ih
  · intro address _ o rest found short
    rw [decode_cut found short]
    exact cut address o rest found short

end Front

/-- The first of the bytes is an opcode in code, and they end inside its instruction. -/
def Truncated (isCode : Int → Bool) (address : Int) (bytes : List UInt8) : Prop :=
  ∃ b o, bytes.head? = some b ∧ Operation.ofOpcode? b = some o ∧ isCode address = true ∧
    bytes.length < 1 + o.mode.operandSize

/-- The instruction stands in code and is the one of its opcode, with an operand of its size. -/
def Genuine (isCode : Int → Bool) (i : Instruction) : Prop :=
  ∃ b o, i.bytes.head? = some b ∧ Operation.ofOpcode? b = some o ∧ isCode i.address = true ∧
    i.mnemonic = o.mnemonic.name ∧ i.mode = o.mode ∧ i.size = 1 + o.mode.operandSize

/-- There is a truncated opcode at a place of a run that other bytes follow. -/
def CutAt (isCode : Int → Bool) (address : Int) (run rest : List UInt8) (k : Nat) : Prop :=
  Truncated isCode (advance address k) (run.drop k ++ rest)

/-- Why the bytes of a run are not decoded. After a truncated opcode the run goes on to the end of
the file, for one byte at most; before one, a byte is no opcode or stands outside the code. -/
structure Undecoded (isCode : Int → Bool) (address : Int) (run : List UInt8)
    (after : List Entry) : Prop where
  last : ∀ k < run.length, CutAt isCode address run (after.flatMap Entry.bytes) k →
    after = [] ∧ run.length ≤ k + 2
  data : ∀ k b, run[k]? = some b →
    (∀ j ≤ k, ¬ CutAt isCode address run (after.flatMap Entry.bytes) j) →
    Operation.ofOpcode? b = none ∨ isCode (advance address k) = false

/-- An entry has its reason, given the entries behind it. -/
def Justified (isCode : Int → Bool) : Entry → List Entry → Prop
  | .instruction i, _ => Genuine isCode i
  | .run address run, after =>
    run ≠ [] ∧ (∀ place more rest, after ≠ .run place more :: rest) ∧
      Undecoded isCode address run after

/-- Entries one behind the other, none without its reason. -/
structure Maximal (isCode : Int → Bool) (start : Int) (entries : List Entry) : Prop where
  laid : ∃ stop, Laid start entries stop
  justified : ∀ before e after, entries = before ++ e :: after → Justified isCode e after

theorem maximal_cons_iff {isCode : Int → Bool} {start : Int} {e : Entry} {rest : List Entry} :
    Maximal isCode start (e :: rest) ↔ e.address = start ∧ Justified isCode e rest ∧
      Maximal isCode (advance start e.bytes.length) rest := by
  constructor
  · rintro ⟨⟨stop, _ | ⟨here, laid⟩⟩, justified⟩
    refine ⟨here, justified [] e rest rfl, ⟨stop, laid⟩, ?_⟩
    intro before x after split
    exact justified (e :: before) x after (by rw [split, List.cons_append])
  · rintro ⟨here, first, ⟨stop, laid⟩, justified⟩
    refine ⟨⟨stop, .cons here laid⟩, ?_⟩
    intro before x after split
    cases before with
    | nil =>
      obtain ⟨rfl, rfl⟩ := List.cons.inj split
      exact first
    | cons y before => exact justified before x after (List.cons.inj split).2

theorem maximal_nil (isCode : Int → Bool) (start : Int) : Maximal isCode start [] :=
  ⟨⟨start, .nil start⟩, fun before _ _ split => absurd split (by simp)⟩

theorem Justified.bytes_ne_nil {isCode : Int → Bool} {e : Entry} {after : List Entry}
    (h : Justified isCode e after) : e.bytes ≠ [] := by
  cases e with
  | instruction i =>
    obtain ⟨b, _, first, _⟩ := h
    intro none
    rw [Entry.bytes] at none
    rw [none] at first
    cases first
  | run address run => exact h.1

section Reasons

variable {isCode : Int → Bool} {address : Int} {b : UInt8} {run rest : List UInt8}
  {after : List Entry}

theorem operationAt?_eq_none_iff :
    operationAt? isCode address b = none ↔
      Operation.ofOpcode? b = none ∨ isCode address = false := by
  unfold operationAt?
  cases isCode address <;> simp

theorem cutAt_succ (k : Nat) :
    CutAt isCode address (b :: run) rest (k + 1) ↔
      CutAt isCode (advance address 1) run rest k := by
  unfold CutAt
  rw [advance_advance, Nat.add_comm 1, List.drop_succ_cons]

theorem undecoded_nil : Undecoded isCode address [] after := by
  constructor
  · intro k inside
    exact absurd inside (Nat.not_lt_zero k)
  · intro k b here
    cases here

theorem Undecoded.cons (h : Undecoded isCode (advance address 1) run after)
    (low : 0 ≤ address) (high : address < 65536) (found : operationAt? isCode address b = none) :
    Undecoded isCode address (b :: run) after := by
  have reason := operationAt?_eq_none_iff.mp found
  constructor
  · intro k inside cut
    cases k with
    | zero =>
      obtain ⟨c, o, first, opcode, code, -⟩ := cut
      cases first
      rw [advance_zero low high] at code
      simp [opcode, code] at reason
    | succ k =>
      obtain ⟨final, short⟩ := h.last k (Nat.lt_of_succ_lt_succ inside) ((cutAt_succ k).mp cut)
      refine ⟨final, ?_⟩
      rw [List.length_cons]
      omega
  · intro k c here uncut
    cases k with
    | zero =>
      cases here
      rw [advance_zero low high]
      exact reason
    | succ k =>
      have earlier := h.data k c here fun j before cut =>
        uncut (j + 1) (Nat.succ_le_succ before) ((cutAt_succ j).mpr cut)
      rwa [advance_advance, Nat.add_comm] at earlier

theorem undecoded_of_cut {o : Operation} (low : 0 ≤ address) (high : address < 65536)
    (found : operationAt? isCode address o.slot.opcode = some o)
    (short : rest.length < o.mode.operandSize) :
    Undecoded isCode address (o.slot.opcode :: rest) [] := by
  obtain ⟨code, member, -⟩ := operationAt?_eq_some found
  have cut : CutAt isCode address (o.slot.opcode :: rest) [] 0 := by
    refine ⟨_, o, rfl, Operation.ofOpcode?_of_mem o member, ?_, ?_⟩
    · rw [advance_zero low high]
      exact code
    · simp only [List.drop_zero, List.append_nil, List.length_cons]
      omega
  constructor
  · intro k _ _
    have bound := o.mode.operandSize_le_two
    refine ⟨rfl, ?_⟩
    rw [List.length_cons]
    omega
  · intro k _ _ uncut
    exact absurd cut (uncut 0 (Nat.zero_le k))

theorem maximal_prepend {entries : List Entry} (low : 0 ≤ address) (high : address < 65536)
    (found : operationAt? isCode address b = none)
    (h : Maximal isCode (advance address 1) entries) :
    Maximal isCode address (prepend address [b] entries) := by
  have alone : (∀ place more rest, entries ≠ .run place more :: rest) →
      Maximal isCode address (.run address [b] :: entries) := fun lone =>
    maximal_cons_iff.mpr ⟨rfl, ⟨by simp, lone, undecoded_nil.cons low high found⟩, h⟩
  match entries with
  | [] => exact alone (by simp)
  | .instruction i :: tail => exact alone (by simp)
  | .run place run :: tail =>
    obtain ⟨here, ⟨-, lone, undecoded⟩, behind⟩ := maximal_cons_iff.mp h
    cases here
    refine maximal_cons_iff.mpr ⟨rfl, ⟨by simp, lone, undecoded.cons low high found⟩, ?_⟩
    rw [advance_advance] at behind
    rwa [Entry.bytes, List.length_append]

theorem genuine_instruction {labels : List (Text × Int)} {o : Operation} {operand : List UInt8}
    (found : operationAt? isCode address o.slot.opcode = some o)
    (size : operand.length = o.mode.operandSize) :
    Genuine isCode (instruction labels address o operand) := by
  obtain ⟨code, member, -⟩ := operationAt?_eq_some found
  refine ⟨_, o, rfl, Operation.ofOpcode?_of_mem o member, code, rfl, rfl, ?_⟩
  rw [← size, Nat.add_comm]
  rfl

theorem maximal_decode (labels : List (Text × Int)) (bytes : List UInt8) (low : 0 ≤ address)
    (high : address < 65536) : Maximal isCode address (decode isCode labels address bytes) := by
  revert low high
  refine decode_induction (P := fun address _ entries =>
    0 ≤ address → address < 65536 → Maximal isCode address entries) ?_ ?_ ?_ ?_ address bytes
  · intro address _ _
    exact maximal_nil isCode address
  · intro address b rest entries found ih low high
    obtain ⟨low', high'⟩ := advance_range address 1
    exact maximal_prepend low high found (ih low' high')
  · intro address o operand rest entries found size ih _ _
    obtain ⟨low', high'⟩ := advance_range address (1 + operand.length)
    refine maximal_cons_iff.mpr ⟨rfl, genuine_instruction found size, ?_⟩
    rw [Nat.add_comm] at ih low' high'
    exact ih low' high'
  · intro address o rest found short low high
    exact maximal_cons_iff.mpr
      ⟨rfl, ⟨by simp, by simp, undecoded_of_cut low high found short⟩, maximal_nil _ _⟩

end Reasons

section Unique

variable {isCode : Int → Bool} {start address : Int} {i j : Instruction}
  {run more rest : List UInt8} {xs ys : List Entry} {x y : Entry}

theorem Undecoded.not_genuine {k : Nat} (h : Undecoded isCode address run xs)
    (inside : k < run.length)
    (uncut : ∀ j < k, ¬ CutAt isCode address run (xs.flatMap Entry.bytes) j)
    (here : i.address = advance address k)
    (same : run.drop k ++ xs.flatMap Entry.bytes = i.bytes ++ rest) : ¬ Genuine isCode i := by
  rintro ⟨b, o, first, opcode, code, -, -, size⟩
  have head : (run.drop k ++ xs.flatMap Entry.bytes).head? = some b := by
    rw [same, List.head?_append, first]
    rfl
  have fits : ¬ CutAt isCode address run (xs.flatMap Entry.bytes) k := by
    rintro ⟨b', o', head', opcode', -, short⟩
    cases head.symm.trans head'
    cases opcode.symm.trans opcode'
    rw [same, List.length_append] at short
    rw [Instruction.size] at size
    omega
  have byte : run[k]? = some b := by
    rw [List.head?_append, List.head?_drop, List.getElem?_eq_getElem inside] at head
    rw [List.getElem?_eq_getElem inside]
    exact head
  have none_before : ∀ j ≤ k, ¬ CutAt isCode address run (xs.flatMap Entry.bytes) j := by
    intro j le
    rcases Nat.lt_or_eq_of_le le with before | rfl
    · exact uncut j before
    · exact fits
  have reason := h.data k b byte none_before
  rw [← here, opcode, code] at reason
  simp at reason

/-- A run ends no later than another one from the same place: behind the other there is an
instruction, or nothing. -/
theorem length_le_of_undecoded (hx : Undecoded isCode address run xs)
    (hy : Undecoded isCode address more ys)
    (lone : ∀ place bytes tail, xs ≠ .run place bytes :: tail)
    (behind : Maximal isCode (advance address run.length) xs)
    (same : run ++ xs.flatMap Entry.bytes = more ++ ys.flatMap Entry.bytes) :
    more.length ≤ run.length := by
  refine Nat.le_of_not_lt fun longer => ?_
  have suffix : ∀ k ≤ run.length, run.drop k ++ xs.flatMap Entry.bytes =
      more.drop k ++ ys.flatMap Entry.bytes := by
    intro k le
    have dropped := congrArg (List.drop k) same
    rwa [List.drop_append_of_le_length le,
      List.drop_append_of_le_length (Nat.le_trans le (Nat.le_of_lt longer))] at dropped
  match xs with
  | [] =>
    have total := congrArg List.length same
    simp only [List.flatMap_nil, List.append_nil, List.length_append] at total
    omega
  | .run place bytes :: tail => exact lone place bytes tail rfl
  | .instruction i :: tail =>
    obtain ⟨here, genuine, -⟩ := maximal_cons_iff.mp behind
    have uncut : ∀ j < run.length, ¬ CutAt isCode address more (ys.flatMap Entry.bytes) j := by
      intro j before cut
      rw [CutAt, ← suffix j (Nat.le_of_lt before)] at cut
      cases (hx.last j before cut).1
    have next : more.drop run.length ++ ys.flatMap Entry.bytes =
        i.bytes ++ tail.flatMap Entry.bytes := by
      rw [← suffix run.length (Nat.le_refl _), List.drop_length]
      rfl
    exact hy.not_genuine longer uncut here next genuine

theorem outline_eq_of_genuine (hi : Genuine isCode i) (hj : Genuine isCode j)
    (place : i.address = j.address) (same : i.bytes ++ rest = j.bytes ++ more) :
    (Entry.instruction i).outline = (Entry.instruction j).outline := by
  obtain ⟨b, o, first, opcode, -, name, mode, size⟩ := hi
  obtain ⟨b', o', first', opcode', -, name', mode', size'⟩ := hj
  have heads := congrArg List.head? same
  rw [List.head?_append, List.head?_append, first, first'] at heads
  cases heads
  cases opcode.symm.trans opcode'
  have bytes : i.bytes = j.bytes := (List.append_inj same (size.trans size'.symm)).1
  rw [Entry.outline, Entry.outline, place, bytes, name, name', mode, mode']

theorem Justified.not_genuine (h : Justified isCode (.run address run) xs) (low : 0 ≤ address)
    (high : address < 65536) (here : i.address = address)
    (same : run ++ xs.flatMap Entry.bytes = i.bytes ++ rest) : ¬ Genuine isCode i := by
  obtain ⟨filled, -, undecoded⟩ := h
  refine undecoded.not_genuine (List.length_pos_iff.mpr filled) (by simp) ?_ same
  rw [here, advance_zero low high]

theorem outline_head_eq (hx : Maximal isCode start (x :: xs)) (hy : Maximal isCode start (y :: ys))
    (low : 0 ≤ start) (high : start < 65536)
    (same : (x :: xs).flatMap Entry.bytes = (y :: ys).flatMap Entry.bytes) :
    x.outline = y.outline := by
  obtain ⟨place, justified, behind⟩ := maximal_cons_iff.mp hx
  obtain ⟨place', justified', behind'⟩ := maximal_cons_iff.mp hy
  rw [List.flatMap_cons, List.flatMap_cons] at same
  match x, y with
  | .instruction i, .instruction j =>
    exact outline_eq_of_genuine justified justified' (place.trans place'.symm) same
  | .instruction i, .run address run =>
    obtain rfl : address = start := place'
    exact absurd justified (justified'.not_genuine low high place same.symm)
  | .run address run, .instruction j =>
    obtain rfl : address = start := place
    exact absurd justified' (justified.not_genuine low high place' same)
  | .run address run, .run address' more =>
    obtain rfl : address = start := place
    obtain rfl : address' = address := place'
    obtain ⟨-, lone, undecoded⟩ := justified
    obtain ⟨-, lone', undecoded'⟩ := justified'
    have length : run.length = more.length := Nat.le_antisymm
      (length_le_of_undecoded undecoded' undecoded lone' behind' same.symm)
      (length_le_of_undecoded undecoded undecoded' lone behind same)
    have bytes : run = more := (List.append_inj same length).1
    rw [bytes]

theorem eq_nil_of_no_bytes (h : Maximal isCode start xs) (none : xs.flatMap Entry.bytes = []) :
    xs = [] := by
  cases xs with
  | nil => rfl
  | cons x xs =>
    have filled := (maximal_cons_iff.mp h).2.1.bytes_ne_nil
    rw [List.flatMap_cons, List.append_eq_nil_iff] at none
    exact absurd none.1 filled

theorem bytes_eq_of_outline (h : x.outline = y.outline) : x.bytes = y.bytes := by
  cases x <;> cases y <;> simp_all [Entry.outline, Entry.bytes]

theorem Maximal.outlines_eq (hx : Maximal isCode start xs) (hy : Maximal isCode start ys)
    (low : 0 ≤ start) (high : start < 65536)
    (same : xs.flatMap Entry.bytes = ys.flatMap Entry.bytes) :
    xs.map Entry.outline = ys.map Entry.outline := by
  induction xs generalizing start ys with
  | nil =>
    rw [eq_nil_of_no_bytes hy same.symm]
  | cons x xs ih =>
    cases ys with
    | nil =>
      rw [eq_nil_of_no_bytes hx same]
    | cons y ys =>
      have heads := outline_head_eq hx hy low high same
      have bytes := bytes_eq_of_outline heads
      have behind := (maximal_cons_iff.mp hx).2.2
      have behind' := (maximal_cons_iff.mp hy).2.2
      obtain ⟨low', high'⟩ := advance_range start x.bytes.length
      rw [← bytes] at behind'
      rw [List.flatMap_cons, List.flatMap_cons, bytes] at same
      rw [List.map_cons, List.map_cons, heads,
        ih behind behind' low' high' (List.append_cancel_left same)]

end Unique

/-- A listing covers the file, has a reason for each of its entries, and is the only one that
does: another agrees with it on all that the reasons speak of. -/
theorem decodeProgram_maximal (isCode : Int → Bool) (labels : List (Text × Int))
    (file : List UInt8) :
    let entries := decodeProgram isCode labels file
    (entries.flatMap Entry.bytes = file.drop 2 ∧ Maximal isCode (loadAddressOf file) entries) ∧
      ∀ others : List Entry, others.flatMap Entry.bytes = file.drop 2 →
        Maximal isCode (loadAddressOf file) others →
        others.map Entry.outline = entries.map Entry.outline := by
  intro entries
  obtain ⟨low, high⟩ := loadAddressOf_range file
  have covers : entries.flatMap Entry.bytes = file.drop 2 := bytes_decodeProgram isCode labels file
  have maximal : Maximal isCode (loadAddressOf file) entries := maximal_decode labels _ low high
  refine ⟨⟨covers, maximal⟩, ?_⟩
  intro others covers' maximal'
  exact maximal'.outlines_eq maximal low high (covers'.trans covers.symm)

/-- A byte that is no opcode, an instruction, and a jump without its second operand byte: written
down without costs and operands, the entries are still those of the listing. -/
theorem decodeProgram_maximal_cut_jump :
    let file : List UInt8 := [0x00, 0x10, 0x02, 0xEA, 0x4C, 0x05]
    let others : List Entry :=
      [.run 0x1000 [0x02],
       .instruction ⟨0x1001, [0xEA], ['N', 'O', 'P'], .single, [], [], none⟩,
       .run 0x1002 [0x4C, 0x05]]
    (others.flatMap Entry.bytes = file.drop 2 ∧
      Maximal (fun _ => true) (loadAddressOf file) others) ∧
      others.map Entry.outline =
        (decodeProgram (fun _ => true) [] file).map Entry.outline := by
  intro file others
  have cut : Undecoded (fun _ => true) 0x1002 [0x4C, 0x05] [] :=
    undecoded_of_cut (o := ⟨.jmp, .absolute, .fixed 0x4C 3⟩) (by decide) (by decide) rfl (by decide)
  have byte : ∀ after, Undecoded (fun _ => true) 0x1000 [0x02] after := fun _ =>
    undecoded_nil.cons (by decide) (by decide) rfl
  have genuine : Genuine (fun _ => true)
      ⟨0x1001, [0xEA], ['N', 'O', 'P'], .single, [], [], none⟩ :=
    ⟨0xEA, ⟨.nop, .single, .fixed 0xEA 2⟩, rfl, rfl, rfl, rfl, rfl, rfl⟩
  have maximal : Maximal (fun _ => true) (loadAddressOf file) others := by
    refine maximal_cons_iff.mpr ⟨rfl, ⟨by simp, by simp, byte _⟩, ?_⟩
    refine maximal_cons_iff.mpr ⟨rfl, genuine, ?_⟩
    exact maximal_cons_iff.mpr ⟨rfl, ⟨by simp, by simp, cut⟩, maximal_nil _ _⟩
  exact ⟨⟨rfl, maximal⟩, (decodeProgram_maximal (fun _ => true) [] file).2 others rfl maximal⟩

end Listing
end Asm6502
