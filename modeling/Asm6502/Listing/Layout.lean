import Asm6502.Listing.Entry

/-! The lines of a listing. An instruction has a line of its own with its address, its
bytes, its text and perhaps a comment; a run is dumped in lines of one length. -/
namespace Asm6502.Listing

structure Options where
  /-- Show the label of each address. -/
  showLabels : Bool := false
  /-- Show the cost of each instruction. -/
  showCycles : Bool := false
  /-- Where code is to be decoded; everywhere if not given. Given, it also makes dump lines
  longer and moves the text of instructions to the right. -/
  isCode : Option (Int → Bool) := none

namespace Options

def decodes (o : Options) : Int → Bool := o.isCode.getD fun _ => true

def gap (o : Options) : Nat := if o.isCode.isSome then 20 else 5

def bytesPerLine (o : Options) : Nat := if o.isCode.isSome then 8 else 1

end Options

def commentColumn : Nat := 50

def byteText (b : UInt8) : Text := Text.hex 2 b.toNat

/-- The bytes of an instruction in three columns, or more if it takes them. -/
def byteColumns (bytes : List UInt8) : Text :=
  List.intercalate [' ']
    (bytes.map byteText ++ List.replicate (3 - bytes.length) [' ', ' '])

def instructionBody (o : Options) (i : Instruction) : Text :=
  Text.hex 4 i.address ++ [':', ' '] ++ byteColumns i.bytes ++ List.replicate o.gap ' ' ++ i.text

def comments (o : Options) (i : Instruction) : List Text :=
  (if o.showCycles then [i.cycles] else []) ++ (if o.showLabels then [i.label.getD []] else [])

def instructionLine (o : Options) (i : Instruction) : Text :=
  match comments o i with
  | [] => instructionBody o i
  | parts =>
    Text.padRight commentColumn (instructionBody o i) ++ [';', ' '] ++
      List.intercalate [' '] parts

def chunksFrom (k : Nat) (done : List (List α)) : List α → List (List α)
  | [] => done.reverse
  | x :: rest => chunksFrom k ((x :: rest.take k) :: done) (rest.drop k)
termination_by rest => rest.length
decreasing_by simp only [List.length_drop, List.length_cons]; omega

/-- Consecutive pieces of `n` items, the last one perhaps shorter; `n` is not zero. -/
def chunks (n : Nat) (items : List α) : List (List α) := chunksFrom (n - 1) [] items

inductive ChunkFault
  | zeroSize
  deriving DecidableEq, Repr

def ChunkFault.message : ChunkFault → Text
  | .zeroSize => "range() arg 3 must not be zero"

/-- Pieces of a size that may be any number; there are none of a negative size. -/
def chunksOfSize (size : Int) (items : List α) : Except ChunkFault (List (List α)) :=
  if size = 0 then .error .zeroSize
  else if size < 0 then .ok []
  else .ok (chunks size.toNat items)

def dumpLine (address : Int) (bytes : List UInt8) : Text :=
  Text.hex 4 address ++ [':', ' '] ++ List.intercalate [' '] (bytes.map byteText)

/- The lines so far are in `done`, latest first. -/
def dumpFrom (step : Nat) (done : List Text) (address : Int) : List (List UInt8) → List Text
  | [] => done.reverse
  | bytes :: rest =>
    dumpFrom step (dumpLine address bytes :: done) (advance address step) rest

def dump (o : Options) (address : Int) (bytes : List UInt8) : List Text :=
  dumpFrom o.bytesPerLine [] address (chunks o.bytesPerLine bytes)

def entryLines (o : Options) : Entry → List Text
  | .instruction i => [instructionLine o i]
  | .run address bytes => dump o address bytes

def lines (file : List UInt8) (labels : List (Text × Int)) (o : Options) : List Text :=
  (decodeProgram o.decodes labels file).flatMap (entryLines o)

def text (file : List UInt8) (labels : List (Text × Int)) (o : Options) : Text :=
  List.intercalate ['\n'] (lines file labels o)

end Asm6502.Listing
