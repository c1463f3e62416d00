/-! Text as this project reads and writes it: a list of code points.
Source lines, names, messages and listing lines all have this one type, so a
scanner and the text it is compared with meet without conversion. -/
namespace Asm6502

abbrev Text := List Char

instance : Coe String Text := ⟨String.toList⟩

namespace Text

/-- The text filled up with blanks to `width` places; a longer text is left alone. -/
def padRight (width : Nat) (t : Text) : Text :=
  t ++ List.replicate (width - t.length) ' '

def padZeros (width : Nat) (t : Text) : Text :=
  List.replicate (width - t.length) '0' ++ t

def quotedList (ts : List Text) : Text :=
  List.intercalate ", " (ts.map fun t => "'" ++ t ++ "'")

/-- The part before the first `c` and the part after it, if `c` occurs. -/
def splitAt? (c : Char) (t : Text) : Option (Text × Text) :=
  match t.dropWhile (· != c) with
  | [] => none
  | _ :: rest => some (t.takeWhile (· != c), rest)

/- The remaining pieces are collected in `done` and `piece`, both latest first. -/
def splitOnFrom (c : Char) (done : List Text) (piece : Text) : Text → List Text
  | [] => (piece.reverse :: done).reverse
  | d :: rest =>
    if d = c then splitOnFrom c (piece.reverse :: done) [] rest
    else splitOnFrom c done (d :: piece) rest

/-- The pieces between the occurrences of `c`, empty ones included. -/
def splitOn (c : Char) (t : Text) : List Text :=
  splitOnFrom c [] [] t

end Text
end Asm6502
