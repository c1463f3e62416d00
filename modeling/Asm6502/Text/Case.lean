import Asm6502.Text.CaseTable

/-! Case mappings. Label names are compared by their small letters, with the full
mapping of Unicode; mnemonics by their capitals, of which only ASCII ones matter. -/
namespace Asm6502.Text

/-- Small letter of one character, apart from its neighbours. The dotted capital I is
the only character whose small form has two code points. -/
def smallLetter (c : Char) : Text :=
  if c.toNat < 128 then [c.toLower]
  else if c.toNat = 0x130 then ['i', Char.ofNat 0x307]
  else
    match smallLetterRuns.find? fun r =>
        r.first ≤ c.toNat && c.toNat ≤ r.last && (c.toNat - r.first) % r.step == 0 with
    | some r => [Char.ofNat (c.toNat + r.shift).toNat]
    | none => [c]

/-- The nearest character that case rules do not look past is a letter with case. -/
def meetsCased (t : Text) : Bool :=
  match t.dropWhile (inRanges caseIgnorableRanges) with
  | [] => false
  | c :: _ => inRanges casedRanges c

/-- A capital sigma that ends a word has a small letter of its own. `before` is what
stands before it, nearest first. -/
def smallSigma (before after : Text) : Char :=
  if meetsCased before && !meetsCased after then Char.ofNat 0x3C2 else Char.ofNat 0x3C3

def lowerFrom (before : Text) : Text → Text
  | [] => []
  | c :: rest =>
    (if c.toNat = 0x3A3 then [smallSigma before rest] else smallLetter c) ++
      lowerFrom (c :: before) rest

def lower (t : Text) : Text := lowerFrom [] t

def asciiCapitals : List (Nat × Text) :=
  [(0xDF, ['S', 'S']), (0x131, ['I']), (0x17F, ['S']), (0xFB00, ['F', 'F']),
   (0xFB01, ['F', 'I']), (0xFB02, ['F', 'L']), (0xFB03, ['F', 'F', 'I']),
   (0xFB04, ['F', 'F', 'L']), (0xFB05, ['S', 'T']), (0xFB06, ['S', 'T'])]

/-- Capitals of one character where they are ASCII letters; any other character stays. -/
def capitalsOf (c : Char) : Text :=
  if c.toNat < 128 then [c.toUpper]
  else (asciiCapitals.lookup c.toNat).getD [c]

/-- The text in capitals, as far as those are ASCII letters. -/
def capitals (t : Text) : Text := t.flatMap capitalsOf

end Asm6502.Text
