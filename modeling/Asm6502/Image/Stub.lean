/-! Layout of a program in memory. It loads where BASIC programs do and begins with a
BASIC line that starts the machine code after it. -/
namespace Asm6502

def loadAddress : Int := 0x0801

/-- Where the machine code starts, right after the BASIC line. -/
def startAddress : Int := 0x080D

def lowByte (v : Int) : UInt8 := UInt8.ofNat (v % 256).toNat

def wordBytes (v : Int) : List UInt8 := [lowByte v, lowByte (v / 256)]

namespace Stub

/-- The digit of `n` at the place of value `place`, in ASCII; a number below that
value has none there. -/
def digit (n : Int) (place : Nat) : List UInt8 :=
  if (place : Int) ≤ n then [lowByte (0x30 + n / place % 10)] else []

/-- The last five decimal digits of a number, without those that lead it. -/
def digits (n : Int) : List UInt8 := [10000, 1000, 100, 10, 1].flatMap (digit n)

/-- The line `0 SYS n` in the form in which BASIC stores it. -/
def build (n : Int) : List UInt8 := [0x0C, 0x08, 0x00, 0x00, 0x9E] ++ digits n ++ [0, 0, 0]

end Stub

def stub : List UInt8 := Stub.build startAddress

theorem stub_eq :
    stub = [0x0C, 0x08, 0x00, 0x00, 0x9E, 0x32, 0x30, 0x36, 0x31, 0x00, 0x00, 0x00] := by decide

end Asm6502
