import Asm6502.Assembler

/-! A source in a file and the same source at hand. A file is decoded and its line breaks are
unified before it is cut into lines. Decoding gives back what was encoded, and a unified break
ends the same line, so nothing depends on where a source comes from. -/
namespace Asm6502

namespace Text.Utf8

section Steps

variable {a b c d : UInt8} {position : Nat} {done : Text} {rest : List UInt8}

theorem decodeFrom_one (first : tailCount? a = some 0) :
    decodeFrom position done (a :: rest) =
      decodeFrom (position + 1) (Char.ofNat a.toNat :: done) rest := by
  simp [decodeFrom, first]

theorem decodeFrom_two (first : tailCount? a = some 1) (second : isSecond a b = true) :
    decodeFrom position done (a :: b :: rest) =
      decodeFrom (position + 2) (assemble 32 a [b] :: done) rest := by
  simp [decodeFrom, first, second]

theorem decodeFrom_three (first : tailCount? a = some 2) (second : isSecond a b = true)
    (third : isTail c = true) :
    decodeFrom position done (a :: b :: c :: rest) =
      decodeFrom (position + 3) (assemble 16 a [b, c] :: done) rest := by
  simp [decodeFrom, first, second, third]

theorem decodeFrom_four (first : tailCount? a = some 3) (second : isSecond a b = true)
    (third : isTail c = true) (fourth : isTail d = true) :
    decodeFrom position done (a :: b :: c :: d :: rest) =
      decodeFrom (position + 4) (assemble 8 a [b, c, d] :: done) rest := by
  simp [decodeFrom, first, second, third, fourth]

/-- After four of the first octets the second has less choice than any other. -/
theorem isSecond_of_isTail (tail : isTail b = true) (e0 : a.toNat = 0xE0 → 0xA0 ≤ b.toNat)
    (ed : a.toNat = 0xED → b.toNat ≤ 0x9F) (f0 : a.toNat = 0xF0 → 0x90 ≤ b.toNat)
    (f4 : a.toNat = 0xF4 → b.toNat ≤ 0x8F) : isSecond a b = true := by
  unfold isSecond
  simp only [isTail, Bool.and_eq_true, decide_eq_true_eq] at *
  split <;> simp_all

end Steps

/-- An octet after the first, for the six low bits of a number. -/
def tailOctet (n : Nat) : UInt8 := UInt8.ofNat (n % 64 + 0x80)

theorem toNat_tailOctet (n : Nat) : (tailOctet n).toNat = n % 64 + 0x80 := by
  simp only [tailOctet, UInt8.toNat_ofNat']
  omega

theorem isTail_tailOctet (n : Nat) : isTail (tailOctet n) = true := by
  simp only [isTail, toNat_tailOctet, Bool.and_eq_true, decide_eq_true_eq]
  omega

section Characters

variable {n : Nat} {first : UInt8} (position : Nat) (done : Text) (rest : List UInt8)

theorem decodeFrom_ascii (h : n < 0x80) (octet : first.toNat = n) :
    decodeFrom position done (first :: rest) =
      decodeFrom (position + 1) (Char.ofNat n :: done) rest := by
  have count : tailCount? first = some 0 := by simp [tailCount?, octet, h]
  rw [decodeFrom_one count, octet]

theorem decodeFrom_pair (low : 0x80 ≤ n) (high : n < 0x800) (octet : first.toNat = n / 64 + 0xC0) :
    decodeFrom position done (first :: tailOctet n :: rest) =
      decodeFrom (position + 2) (Char.ofNat n :: done) rest := by
  have count : tailCount? first = some 1 := by
    simp only [tailCount?, octet]
    grind
  have second : isSecond first (tailOctet n) = true := by
    apply isSecond_of_isTail (isTail_tailOctet n) <;> omega
  have value : assemble 32 first [tailOctet n] = Char.ofNat n := by
    simp only [assemble, List.foldl_cons, List.foldl_nil, octet, toNat_tailOctet]
    congr 1
    omega
  rw [decodeFrom_two count second, value]

theorem decodeFrom_triple (low : 0x800 ≤ n) (high : n < 0x10000)
    (scalar : n < 0xD800 ∨ 0xDFFF < n) (octet : first.toNat = n / 4096 + 0xE0) :
    decodeFrom position done (first :: tailOctet (n / 64) :: tailOctet n :: rest) =
      decodeFrom (position + 3) (Char.ofNat n :: done) rest := by
  have count : tailCount? first = some 2 := by
    simp only [tailCount?, octet]
    grind
  -- The two bounds on the second octet are the shortest form and the gap of the surrogates.
  have second : isSecond first (tailOctet (n / 64)) = true := by
    apply isSecond_of_isTail (isTail_tailOctet _) <;> rw [toNat_tailOctet] <;> omega
  have value : assemble 16 first [tailOctet (n / 64), tailOctet n] = Char.ofNat n := by
    simp only [assemble, List.foldl_cons, List.foldl_nil, octet, toNat_tailOctet]
    congr 1
    omega
  rw [decodeFrom_three count second (isTail_tailOctet n), value]

theorem decodeFrom_quadruple (low : 0x10000 ≤ n) (high : n < 0x110000)
    (octet : first.toNat = n / 262144 + 0xF0) :
    decodeFrom position done
        (first :: tailOctet (n / 4096) :: tailOctet (n / 64) :: tailOctet n :: rest) =
      decodeFrom (position + 4) (Char.ofNat n :: done) rest := by
  have count : tailCount? first = some 3 := by
    simp only [tailCount?, octet]
    grind
  have second : isSecond first (tailOctet (n / 4096)) = true := by
    apply isSecond_of_isTail (isTail_tailOctet _) <;> rw [toNat_tailOctet] <;> omega
  have value : assemble 8 first [tailOctet (n / 4096), tailOctet (n / 64), tailOctet n] =
      Char.ofNat n := by
    simp only [assemble, List.foldl_cons, List.foldl_nil, octet, toNat_tailOctet]
    congr 1
    omega
  rw [decodeFrom_four count second (isTail_tailOctet _) (isTail_tailOctet n), value]

end Characters

theorem decodeFrom_encodeChar (position : Nat) (done : Text) (c : Char) (rest : List UInt8) :
    ∃ next, decodeFrom position done (String.utf8EncodeChar c ++ rest) =
      decodeFrom next (c :: done) rest := by
  have scalar : c.toNat < 0xD800 ∨ 0xDFFF < c.toNat ∧ c.toNat < 0x110000 := c.valid
  have same : Char.ofNat c.toNat = c := Char.ofNat_toNat c
  have octets : String.utf8EncodeChar c =
      if c.toNat ≤ 0x7F then [UInt8.ofNat c.toNat]
      else if c.toNat ≤ 0x7FF then
        [UInt8.ofNat (c.toNat / 64 % 0x20 + 0xC0), tailOctet c.toNat]
      else if c.toNat ≤ 0xFFFF then
        [UInt8.ofNat (c.toNat / 4096 % 0x10 + 0xE0), tailOctet (c.toNat / 64), tailOctet c.toNat]
      else
        [UInt8.ofNat (c.toNat / 262144 % 8 + 0xF0), tailOctet (c.toNat / 4096),
          tailOctet (c.toNat / 64), tailOctet c.toNat] := rfl
  rw [octets]
  generalize c.toNat = n at *
  subst same
  split
  · exact ⟨_, decodeFrom_ascii _ _ _ (by omega) (by simp only [UInt8.toNat_ofNat']; omega)⟩
  split
  · exact ⟨_, decodeFrom_pair _ _ _ (by omega) (by omega)
      (by simp only [UInt8.toNat_ofNat']; omega)⟩
  split
  · exact ⟨_, decodeFrom_triple _ _ _ (by omega) (by omega) (by omega)
      (by simp only [UInt8.toNat_ofNat']; omega)⟩
  · exact ⟨_, decodeFrom_quadruple _ _ _ (by omega) (by omega)
      (by simp only [UInt8.toNat_ofNat']; omega)⟩

theorem decodeFrom_encode (position : Nat) (done t : Text) :
    decodeFrom position done (encode t) = .ok (done.reverse ++ t) := by
  induction t generalizing position done with
  | nil => simp [encode, decodeFrom]
  | cons c rest ih =>
    obtain ⟨next, read⟩ := decodeFrom_encodeChar position done c (encode rest)
    have octets : encode (c :: rest) = String.utf8EncodeChar c ++ encode rest := rfl
    rw [octets, read, ih]
    simp

theorem decode_encode (t : Text) : decode (encode t) = .ok t := decodeFrom_encode 0 [] t

end Text.Utf8

namespace Text

theorem unifyBreaksFrom_append (done kept t : Text) :
    unifyBreaksFrom (done ++ kept) t = kept.reverse ++ unifyBreaksFrom done t := by
  fun_induction unifyBreaksFrom done t with
  | case1 done => simp [unifyBreaksFrom]
  | case2 done rest ih => exact ih
  | case3 done c rest other ih =>
    rw [unifyBreaksFrom]
    · exact ih
    · exact other

theorem unifyBreaks_pair (rest : Text) :
    unifyBreaks ('\r' :: '\n' :: rest) = '\n' :: unifyBreaks rest :=
  unifyBreaksFrom_append [] ['\n'] rest

theorem unifyBreaks_cons {c : Char} {rest : Text}
    (single : ∀ after, c = '\r' → rest = '\n' :: after → False) :
    unifyBreaks (c :: rest) = (if c = '\r' then '\n' else c) :: unifyBreaks rest := by
  rw [unifyBreaks, unifyBreaksFrom]
  · exact unifyBreaksFrom_append [] [_] rest
  · exact single

theorem linesFrom_break {c : Char} (done : List Text) (line rest : Text)
    (ends : isLineBreak c = true) (single : c ≠ '\r') :
    linesFrom done line (c :: rest) = linesFrom (line.reverse :: done) [] rest := by
  rw [linesFrom, if_pos ends]
  intro after e
  exact absurd e single

theorem linesFrom_unifyBreaks (done : List Text) (line t : Text) :
    linesFrom done line (unifyBreaks t) = linesFrom done line t := by
  fun_induction linesFrom done line t with
  | case1 => rfl
  | case2 done line rest ih =>
    rw [unifyBreaks_pair, linesFrom_break _ _ _ (by decide) (by decide)]
    exact ih
  | case3 done line c rest single ends ih =>
    rw [unifyBreaks_cons single]
    split
    case isTrue =>
      rw [linesFrom_break _ _ _ (by decide) (by decide)]
      exact ih
    case isFalse other =>
      rw [linesFrom_break _ _ _ ends other]
      exact ih
  | case4 done line c rest single inner ih =>
    have other : c ≠ '\r' := by
      rintro rfl
      exact inner (by decide)
    rw [unifyBreaks_cons single, if_neg other, linesFrom, if_neg inner]
    · exact ih
    · intro after e
      exact absurd e other

theorem lines_unifyBreaks (t : Text) : lines (unifyBreaks t) = lines t :=
  linesFrom_unifyBreaks [] [] t

end Text

namespace Assembler

theorem assembleFile_of_decoded {s : Assembler} {files : FileTree} {path : Path}
    {bytes : List UInt8} {source : Text} (read : files.read path.text = .ok bytes)
    (decoded : Text.Utf8.decode bytes = .ok source) :
    s.assembleFile files path = s.assembleText source path.text := by
  have text : readSource files path = .ok source.unifyBreaks := by
    simp only [readSource, read, decoded]
  calc s.assembleFile files path
      = s.assembleText source.unifyBreaks path.text := by simp only [assembleFile, text]
    _ = s.assemble source.unifyBreaks.lines path.text := rfl
    _ = s.assemble source.lines path.text := by rw [Text.lines_unifyBreaks]

/-- A source is assembled from a file just as it is from a text, under the name of the file: the
image, the labels, the report and all that is told on the way are the same. -/
theorem assembleFile_eq_assembleText (s : Assembler) (files : FileTree) (path : Path)
    (source : Text) (holds : files.look path.text = .ok (.file (Text.Utf8.encode source))) :
    s.assembleFile files path = s.assembleText source path.text := by
  have bytes : files.read path.text = .ok (Text.Utf8.encode source) := by
    simp only [FileTree.read, holds]
  exact assembleFile_of_decoded bytes (Text.Utf8.decode_encode source)

/-- A byte order mark, characters of one to four octets, and four kinds of breaks, of which the
second and third together end one line. -/
theorem assembleFile_eq_assembleText_mixed :
    let source : Text :=
      [Char.ofNat 0xFEFF, '?', '\r', '\r', '\n', 'l', ':', 'N', 'O', 'P', Char.ofNat 0x2028, ';',
       Char.ofNat 0xE9, Char.ofNat 0x1F600, '\r', 'J', 'M', 'P', ' ', 'l', '\n']
    let files : FileTree :=
      { nodes := [([['d'], ['a']],
          .file [0xEF, 0xBB, 0xBF, 0x3F, 13, 13, 10, 0x6C, 0x3A, 0x4E, 0x4F, 0x50, 0xE2, 0x80,
            0xA8, 0x3B, 0xC3, 0xA9, 0xF0, 0x9F, 0x98, 0x80, 13, 0x4A, 0x4D, 0x50, 0x20, 0x6C,
            10])] }
    let path : Path := ⟨[], [['d'], ['a']]⟩
    let r := (new {}).assembleText source path.text
    files.look path.text = .ok (.file (Text.Utf8.encode source)) ∧
      (new {}).assembleFile files path = r ∧
      r.1.assembly.labels.toList = [⟨['l'], 0x080D, 3⟩] ∧
      r.1.code = stub ++ [0xEA, 0x4C, 0x0D, 0x08] ∧
      r.1.assembly.report.kept.toList.map Diagnostic.location = [some ⟨['d', '/', 'a'], 1⟩] := by
  intro source files path r
  have holds : files.look path.text = .ok (.file (Text.Utf8.encode source)) := rfl
  exact ⟨holds, assembleFile_eq_assembleText (new {}) files path source holds, by decide +kernel⟩

end Assembler
end Asm6502
