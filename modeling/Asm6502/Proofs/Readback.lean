import Asm6502.Listing.Layout
import Asm6502.Proofs.Coverage
import Asm6502.Proofs.Numerals
import Mathlib.Data.Nat.Digits.Defs

/-! A listing can be read back. Its lines open with an address and go on with bytes, whatever
stands behind them, so that a reader that knows nothing of labels and options finds the file
again. Each line opens with the address at which its own bytes are loaded. -/
namespace Asm6502

theorem Text.length_hex {width n : Nat} (h : (Nat.toDigits 16 n).length ≤ width) :
    (hex width n).length = width := by
  have nonneg : ¬ (n : Int) < 0 := by omega
  rw [hex, if_neg nonneg, padZeros, List.length_append, List.length_replicate, hexDigits,
    List.length_map, Int.natAbs_natCast]
  omega

namespace Listing

/- Bytes stand in columns of two digits, each behind a blank. Whatever is no such column ends
them. -/
def columnsFrom : Text → List UInt8
  | ' ' :: c :: d :: rest =>
    if Text.isDigitOf 16 c && Text.isDigitOf 16 d then
      UInt8.ofNat (Text.valueOf 16 [c, d]) :: columnsFrom rest
    else []
  | _ => []

def shown (line : Text) : List UInt8 := columnsFrom (line.drop 5)

/-- The file of a listing: the address of the first line, and the bytes on all of them. -/
def readFile : List Text → List UInt8
  | [] => []
  | line :: rest =>
    wordBytes (Text.valueOf 16 (line.take 4)) ++ (line :: rest).flatMap shown

theorem exists_byteText (b : UInt8) : ∃ c d, byteText b = [c, d] := by
  apply List.length_eq_two.mp
  exact Text.length_hex (Nat.toDigits_length 16 b.toNat 2 (by decide) b.toNat_lt)

theorem columnsFrom_byteText (b : UInt8) (rest : Text) :
    columnsFrom (' ' :: byteText b ++ rest) = b :: columnsFrom rest := by
  obtain ⟨c, d, digits⟩ := exists_byteText b
  have spells : Text.Spells (byteText b) b.toNat := Text.spells_hex 2 b.toNat
  rw [digits] at spells ⊢
  have hc : Text.isDigitOf 16 c = true := spells.digits c (by simp)
  have hd : Text.isDigitOf 16 d = true := spells.digits d (by simp)
  simp [columnsFrom, hc, hd, spells.value]

theorem columnsFrom_blanks (rest : Text) : columnsFrom (' ' :: ' ' :: rest) = [] := by
  cases rest with
  | nil => rfl
  | cons c rest => rfl

def columns (bytes : List UInt8) : Text := bytes.flatMap fun b => ' ' :: byteText b

theorem columnsFrom_columns (bytes : List UInt8) (rest : Text) :
    columnsFrom (columns bytes ++ rest) = bytes ++ columnsFrom rest := by
  induction bytes with
  | nil => rfl
  | cons b bytes ih =>
    have first : columns (b :: bytes) = ' ' :: byteText b ++ columns bytes := rfl
    rw [first, List.append_assoc, columnsFrom_byteText, ih, List.cons_append]

def row (address : Int) (bytes : List UInt8) (rest : Text) : Text :=
  Text.hex 4 address ++ ':' :: columns bytes ++ rest

section Row

variable {address : Int} {bytes : List UInt8} {rest : Text}

theorem length_hex_address (low : 0 ≤ address) (high : address < 65536) :
    (Text.hex 4 address).length = 4 := by
  lift address to Nat using low
  exact Text.length_hex (Nat.toDigits_length 16 address 4 (by decide) (by omega))

theorem take_row (low : 0 ≤ address) (high : address < 65536) :
    (row address bytes rest).take 4 = Text.hex 4 address := by
  rw [row, List.append_assoc, List.take_left' (length_hex_address low high)]

theorem shown_row (low : 0 ≤ address) (high : address < 65536) :
    shown (row address bytes rest) = bytes ++ columnsFrom rest := by
  have five : (Text.hex 4 address ++ [':']).length = 5 := by
    rw [List.length_append, length_hex_address low high]
    rfl
  have split : row address bytes rest = (Text.hex 4 address ++ [':']) ++
      (columns bytes ++ rest) := by
    simp [row]
  rw [shown, split, List.drop_left' five, columnsFrom_columns]

theorem cons_intercalate (c : Char) {ts : List Text} (h : ts ≠ []) :
    c :: List.intercalate [c] ts = ts.flatMap (c :: ·) := by
  induction ts with
  | nil => exact absurd rfl h
  | cons t ts ih =>
    cases ts with
    | nil => simp
    | cons u ts =>
      rw [List.flatMap_cons, ← ih (by simp)]
      simp

theorem dumpLine_eq_row (h : bytes ≠ []) : dumpLine address bytes = row address bytes [] := by
  have spaced : ' ' :: List.intercalate [' '] (bytes.map byteText) = columns bytes := by
    rw [cons_intercalate _ (by simpa using h), List.flatMap_map, columns]
  simp [dumpLine, row, spaced]

theorem exists_blanks (o : Options) (missing : Nat) (rest : Text) :
    ∃ more, (List.replicate missing [' ', ' ']).flatMap (' ' :: ·) ++
      (List.replicate o.gap ' ' ++ rest) = ' ' :: ' ' :: more := by
  cases missing with
  | zero =>
    unfold Options.gap
    split <;> exact ⟨_, rfl⟩
  | succ missing => exact ⟨_, rfl⟩

theorem exists_instructionLine (o : Options) (i : Instruction) :
    ∃ more, instructionLine o i = instructionBody o i ++ more := by
  unfold instructionLine
  split
  · exact ⟨[], (List.append_nil _).symm⟩
  · simp only [Text.padRight, List.append_assoc]
    exact ⟨_, rfl⟩

theorem instructionLine_eq_row (o : Options) {i : Instruction} (h : i.bytes ≠ []) :
    ∃ rest, instructionLine o i = row i.address i.bytes (' ' :: ' ' :: rest) := by
  obtain ⟨comment, line⟩ := exists_instructionLine o i
  obtain ⟨rest, blanks⟩ := exists_blanks o (3 - i.bytes.length) (i.text ++ comment)
  have spaced : ' ' :: byteColumns i.bytes = columns i.bytes ++
      (List.replicate (3 - i.bytes.length) [' ', ' ']).flatMap (' ' :: ·) := by
    rw [byteColumns, cons_intercalate _ (by simp [h]), List.flatMap_append, List.flatMap_map,
      columns]
  refine ⟨rest, ?_⟩
  calc instructionLine o i
      = Text.hex 4 i.address ++ ':' :: ((' ' :: byteColumns i.bytes) ++
          (List.replicate o.gap ' ' ++ (i.text ++ comment))) := by
        simp [line, instructionBody]
    _ = row i.address i.bytes (' ' :: ' ' :: rest) := by
        rw [spaced, List.append_assoc, blanks, row, List.append_assoc, List.cons_append]

end Row

/-- The lines show these bytes, and each opens with the address of the first byte on it. -/
inductive Numbered : Int → List Text → List UInt8 → Prop where
  | nil (start : Int) : Numbered start [] []
  | cons {start : Int} {line : Text} {lines : List Text} {bytes : List UInt8} :
      line.take 4 = Text.hex 4 start →
      Numbered (advance start (shown line).length) lines bytes →
      Numbered start (line :: lines) (shown line ++ bytes)

section Numbered

variable {start address : Int} {xs ys : List Text} {bytes more : List UInt8}

theorem Numbered.flatMap_shown (h : Numbered start xs bytes) : xs.flatMap shown = bytes := by
  induction h with
  | nil start => rfl
  | cons opens rest ih => rw [List.flatMap_cons, ih]

theorem Numbered.append (hx : Numbered start xs bytes)
    (hy : Numbered (advance start bytes.length) ys more) (low : 0 ≤ start) (high : start < 65536) :
    Numbered start (xs ++ ys) (bytes ++ more) := by
  induction hx with
  | nil start => rwa [List.length_nil, advance_zero low high] at hy
  | @cons start line lines bytes opens rest ih =>
    obtain ⟨low', high'⟩ := advance_range start (shown line).length
    rw [List.length_append, ← advance_advance] at hy
    rw [List.cons_append, List.append_assoc]
    exact .cons opens (ih hy low' high')

theorem Numbered.take_eq {before after : List Text} {line : Text}
    (h : Numbered start (before ++ line :: after) bytes) (low : 0 ≤ start) (high : start < 65536) :
    line.take 4 = Text.hex 4 (advance start (before.flatMap shown).length) := by
  induction before generalizing start bytes with
  | nil =>
    obtain _ | ⟨opens, -⟩ := h
    rw [opens, List.flatMap_nil, List.length_nil, advance_zero low high]
  | cons first before ih =>
    obtain _ | ⟨-, rest⟩ := h
    obtain ⟨low', high'⟩ := advance_range start (shown first).length
    rw [ih rest low' high', advance_advance, List.flatMap_cons, List.length_append]

theorem numbered_row {rest : Text} (ends : columnsFrom rest = []) (low : 0 ≤ address)
    (high : address < 65536) (h : Numbered (advance address bytes.length) xs more) :
    Numbered address (row address bytes rest :: xs) (bytes ++ more) := by
  have here : shown (row address bytes rest) = bytes := by
    rw [shown_row low high, ends, List.append_nil]
  have whole : Numbered address (row address bytes rest :: xs)
      (shown (row address bytes rest) ++ more) := by
    apply Numbered.cons (take_row low high)
    rwa [here]
  rwa [here] at whole

end Numbered

theorem chunksFrom_eq (k : Nat) (done : List (List α)) (items : List α) :
    chunksFrom k done items = done.reverse ++ chunksFrom k [] items := by
  induction h : items.length using Nat.strongRecOn generalizing done items with
  | ind n ih =>
    cases items with
    | nil => simp [chunksFrom]
    | cons x rest =>
      have less : (rest.drop k).length < n := by
        rw [← h, List.length_drop, List.length_cons]
        omega
      rw [chunksFrom, chunksFrom, ih _ less (_ :: done) _ rfl, ih _ less [_] _ rfl]
      simp

theorem chunks_nil (n : Nat) : chunks n ([] : List α) = [] := by
  simp [chunks, chunksFrom]

theorem chunks_cons (n : Nat) (x : α) (rest : List α) :
    chunks n (x :: rest) = (x :: rest.take (n - 1)) :: chunks n (rest.drop (n - 1)) := by
  rw [chunks, chunksFrom, chunksFrom_eq]
  rfl

theorem dumpFrom_eq (step : Nat) (done : List Text) (address : Int) (pieces : List (List UInt8)) :
    dumpFrom step done address pieces = done.reverse ++ dumpFrom step [] address pieces := by
  induction pieces generalizing done address with
  | nil => simp [dumpFrom]
  | cons piece pieces ih =>
    rw [dumpFrom, dumpFrom, ih (_ :: done), ih [_]]
    simp

theorem dumpFrom_cons (step : Nat) (address : Int) (piece : List UInt8)
    (pieces : List (List UInt8)) :
    dumpFrom step [] address (piece :: pieces) =
      dumpLine address piece :: dumpFrom step [] (advance address step) pieces := by
  rw [dumpFrom, dumpFrom_eq]
  rfl

theorem numbered_dumpFrom {step : Nat} (pos : 0 < step) {address : Int} (low : 0 ≤ address)
    (high : address < 65536) (bytes : List UInt8) :
    Numbered address (dumpFrom step [] address (chunks step bytes)) bytes := by
  induction h : bytes.length using Nat.strongRecOn generalizing address bytes with
  | ind n ih =>
    cases bytes with
    | nil =>
      rw [chunks_nil]
      exact .nil address
    | cons b rest =>
      have pieces : b :: rest = (b :: rest.take (step - 1)) ++ rest.drop (step - 1) := by simp
      rw [chunks_cons, dumpFrom_cons, dumpLine_eq_row (by simp), pieces]
      apply numbered_row rfl low high
      -- Only the last line may be short, and nothing follows it.
      by_cases full : step - 1 ≤ rest.length
      · have size : (b :: rest.take (step - 1)).length = step := by
          rw [List.length_cons, List.length_take]
          omega
        obtain ⟨low', high'⟩ := advance_range address step
        rw [size]
        apply ih _ _ low' high' _ rfl
        rw [← h, List.length_drop, List.length_cons]
        omega
      · have nothing : rest.drop (step - 1) = [] := List.drop_eq_nil_of_le (by omega)
        rw [nothing, chunks_nil]
        exact .nil _

theorem Options.bytesPerLine_pos (o : Options) : 0 < o.bytesPerLine := by
  unfold bytesPerLine
  split <;> decide

theorem numbered_entryLines (o : Options) {e : Entry} (low : 0 ≤ e.address)
    (high : e.address < 65536) (h : ∀ i, e = .instruction i → i.bytes ≠ []) :
    Numbered e.address (entryLines o e) e.bytes := by
  cases e with
  | instruction i =>
    obtain ⟨rest, line⟩ := instructionLine_eq_row o (h i rfl)
    rw [entryLines, line, ← List.append_nil (Entry.bytes _)]
    exact numbered_row (columnsFrom_blanks rest) low high (.nil _)
  | run address bytes => exact numbered_dumpFrom o.bytesPerLine_pos low high bytes

theorem numbered_entries (o : Options) {start stop : Int} {entries : List Entry}
    (laid : Laid start entries stop) (low : 0 ≤ start) (high : start < 65536)
    (h : ∀ i, .instruction i ∈ entries → i.bytes ≠ []) :
    Numbered start (entries.flatMap (entryLines o)) (entries.flatMap Entry.bytes) := by
  induction laid with
  | nil start => exact .nil start
  | @cons start stop e rest here tail ih =>
    subst here
    obtain ⟨low', high'⟩ := advance_range e.address e.bytes.length
    have first : Numbered e.address (entryLines o e) e.bytes := by
      apply numbered_entryLines o low high
      rintro i rfl
      exact h i (by simp)
    have others := ih low' high' fun i hi => h i (List.mem_cons_of_mem _ hi)
    exact first.append others low high

theorem numbered_lines (file : List UInt8) (labels : List (Text × Int)) (o : Options) :
    Numbered (loadAddressOf file) (lines file labels o) (file.drop 2) := by
  obtain ⟨stop, laid⟩ := laid_decodeProgram o.decodes labels file
  obtain ⟨low, high⟩ := loadAddressOf_range file
  rw [← bytes_decodeProgram o.decodes labels file]
  apply numbered_entries o laid low high
  intro i hi
  obtain ⟨address, operation, operand, -, -, rfl⟩ := found_of_mem_decode hi
  exact List.cons_ne_nil _ _

/-- The first line is there to open with the load address if there are bytes to load. -/
theorem readFile_of_numbered {low high : UInt8} {payload : List UInt8} {lines : List Text}
    (h : Numbered (loadAddressOf (low :: high :: payload)) lines payload) (ne : payload ≠ []) :
    readFile lines = low :: high :: payload := by
  have bytes := h.flatMap_shown
  cases h with
  | nil => exact absurd rfl ne
  | @cons _ line rest _ opens _ =>
    have address : Text.valueOf 16 (line.take 4) = littleEndian [low, high] := by
      rw [opens]
      exact (Text.spells_hex 4 _).value
    rw [readFile, bytes, address, wordBytes_littleEndian]
    rfl

theorem readFile_lines {file : List UInt8} (labels : List (Text × Int)) (o : Options)
    (h : 3 ≤ file.length) : readFile (lines file labels o) = file := by
  obtain _ | ⟨low, _ | ⟨high, payload⟩⟩ := file
  · contradiction
  · contradiction
  · apply readFile_of_numbered (numbered_lines (low :: high :: payload) labels o)
    rintro rfl
    contradiction

/-- Labels and options change how a listing looks and not what it says. Of fewer than three bytes
there is no line to read. -/
theorem lines_determine_file (file : List UInt8) (labels : List (Text × Int)) (o : Options)
    (h : 3 ≤ file.length) :
    readFile (lines file labels o) = file ∧
      (∀ other labels' o', 3 ≤ other.length → lines other labels' o' = lines file labels o →
        other = file) ∧
      (lines file labels o).flatMap shown = file.drop 2 ∧
      ∀ before line after, lines file labels o = before ++ line :: after →
        let address := (loadAddressOf file + (before.flatMap shown).length) % 65536
        line.take 4 = Text.hex 4 address ∧ Text.Spells (line.take 4) address.toNat := by
  have whole := numbered_lines file labels o
  refine ⟨readFile_lines labels o h, ?_, whole.flatMap_shown, ?_⟩
  · intro other labels' o' h' same
    rw [← readFile_lines labels' o' h', same, readFile_lines labels o h]
  · intro before line after split address
    obtain ⟨low, high⟩ := loadAddressOf_range file
    rw [split] at whole
    have opens : line.take 4 = Text.hex 4 address := whole.take_eq low high
    obtain ⟨n, value⟩ : ∃ n : Nat, address = n := Int.eq_ofNat_of_zero_le (by omega)
    rw [opens, value]
    exact ⟨rfl, Text.spells_hex 4 n⟩

/-- A dump around the end of memory, and an instruction with a label that looks like a byte. -/
theorem lines_determine_file_around :
    let file : List UInt8 := [0xFC, 0xFF, 1, 2, 3, 4, 5, 6, 7, 8, 9, 10, 0x4C, 0, 0xC0]
    let labels : List (Text × Int) := [([' ', '4', '2'], 6)]
    let o : Options :=
      { showLabels := true, showCycles := true, isCode := some (inCodeRanges [(6, 6)]) }
    let first := dumpLine 0xFFFC [1, 2, 3, 4, 5, 6, 7, 8]
    let second := dumpLine 4 [9, 10]
    lines file labels o = [first] ++ second :: (lines file labels o).drop 2 ∧
      readFile (lines file labels o) = file ∧ (lines file labels o).flatMap shown = file.drop 2 ∧
      second.take 4 = Text.hex 4 4 ∧ Text.Spells (second.take 4) 4 := by
  intro file labels o first second
  have split : lines file labels o = [first] ++ second :: (lines file labels o).drop 2 := by
    decide +kernel
  obtain ⟨back, -, bytes, address⟩ := lines_determine_file file labels o (by decide)
  obtain ⟨opens, spells⟩ := address [first] second _ split
  have four : (loadAddressOf file + ([first].flatMap shown).length) % 65536 = 4 := by
    decide +kernel
  rw [four] at opens spells
  exact ⟨split, back, bytes, opens, spells⟩

end Listing
end Asm6502
