import Asm6502.Text.Basic

/-! How alike two words are. Their longest common block is matched, then what stands to
the left of it in both and what stands to the right, and so on; the share of the matched
characters among all is the likeness. -/
namespace Asm6502.Text

def agreement : Text → Text → Nat
  | a :: as, b :: bs => if a = b then agreement as bs + 1 else 0
  | _, _ => 0

structure Block where
  left : Nat
  right : Nat
  size : Nat
  deriving DecidableEq, Repr

/-- The larger of two blocks, the first if they are of one size. -/
def Block.larger (x y : Block) : Block := if x.size < y.size then y else x

/-- The longest block of two texts: of several the first in `a`, and of those the first
in `b`. -/
def longestBlock (a b : Text) : Block :=
  (List.range a.length).foldl
    (fun best i => (List.range b.length).foldl
      (fun best j => best.larger ⟨i, j, agreement (a.drop i) (b.drop j)⟩) best)
    ⟨0, 0, 0⟩

/- Every block takes a character of `a` at least, so its length is fuel enough. -/
def matchedWithin : Nat → Text → Text → Nat
  | 0, _, _ => 0
  | fuel + 1, a, b =>
    let block := longestBlock a b
    if block.size = 0 then 0
    else
      matchedWithin fuel (a.take block.left) (b.take block.right) + block.size +
        matchedWithin fuel (a.drop (block.left + block.size)) (b.drop (block.right + block.size))

def matched (a b : Text) : Nat := matchedWithin a.length a b

/-- Two words stand in order: code point by code point, and a beginning before the whole. -/
def ordered : Text → Text → Bool
  | [], _ => true
  | _ :: _, [] => false
  | a :: as, b :: bs => a.toNat < b.toNat || (a == b && ordered as bs)

/-- A word beside another: `share` of their `total` characters are matched. -/
structure Likeness where
  word : Text
  share : Nat
  total : Nat
  deriving DecidableEq, Repr

namespace Likeness

/-- How like `word` is to `sought`, if three fifths of their characters can match at all. -/
def of? (sought word : Text) : Option Likeness :=
  let total := word.length + sought.length
  if 3 * total ≤ 5 * (2 * min word.length sought.length) then
    some ⟨word, 2 * matched word sought, total⟩
  else none

def isClose (l : Likeness) : Bool := 3 * l.total ≤ 5 * l.share

/-- The closer word first, and of two as close the later in the order of words. -/
def before (x y : Likeness) : Bool :=
  if x.share * y.total = y.share * x.total then ordered y.word x.word
  else y.share * x.total < x.share * y.total

end Likeness

/-- The words most like the one sought, three at most, in the order of words. -/
def closest (sought : Text) (words : List Text) : List Text :=
  let close := (words.filterMap (Likeness.of? sought)).filter Likeness.isClose
  (((close.mergeSort Likeness.before).take 3).map Likeness.word).mergeSort ordered

end Asm6502.Text
