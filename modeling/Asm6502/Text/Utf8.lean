import Asm6502.Text.Numeral

/-! Strict UTF-8. Decoding stops at the first octets that no encoding contains and
says where they stand, how many they are and what is wrong with them. -/
namespace Asm6502.Text.Utf8

inductive Reason
  | badStart
  | badContinuation
  | endOfData
  deriving DecidableEq, Repr

/-- The octets `octets` from `position` on are no part of UTF-8. -/
structure Fault where
  position : Nat
  octets : List UInt8
  reason : Reason
  deriving DecidableEq, Repr

def Reason.text : Reason → Text
  | .badStart => "invalid start byte"
  | .badContinuation => "invalid continuation byte"
  | .endOfData => "unexpected end of data"

def Fault.message (e : Fault) : Text :=
  "'utf-8' codec can't decode " ++
    (match e.octets with
      | [b] => "byte 0x" ++ smallHex 2 b.toNat ++ " in position " ++ decimal e.position
      | octets => "bytes in position " ++ decimal e.position ++ "-" ++
          decimal (e.position + octets.length - 1)) ++
    ": " ++ e.reason.text

/-- An octet after the first: its six low bits count. -/
def isTail (b : UInt8) : Bool := 0x80 ≤ b.toNat && b.toNat ≤ 0xBF

/-- What may stand second after a first octet. Narrower than `isTail` where a wider
choice would allow longer forms than needed, surrogates, or numbers beyond Unicode. -/
def isSecond (first b : UInt8) : Bool :=
  match first.toNat with
  | 0xE0 => 0xA0 ≤ b.toNat && b.toNat ≤ 0xBF
  | 0xED => 0x80 ≤ b.toNat && b.toNat ≤ 0x9F
  | 0xF0 => 0x90 ≤ b.toNat && b.toNat ≤ 0xBF
  | 0xF4 => 0x80 ≤ b.toNat && b.toNat ≤ 0x8F
  | _ => isTail b

def tailCount? (first : UInt8) : Option Nat :=
  let n := first.toNat
  if n < 0x80 then some 0
  else if n < 0xC2 then none
  else if n < 0xE0 then some 1
  else if n < 0xF0 then some 2
  else if n < 0xF5 then some 3
  else none

/-- The character of a first octet that `lead` high bits mark, and its tail octets. -/
def assemble (lead : Nat) (first : UInt8) (tails : List UInt8) : Char :=
  Char.ofNat (tails.foldl (fun n b => n * 64 + b.toNat % 64) (first.toNat % lead))

def decodeFrom (position : Nat) (done : Text) : List UInt8 → Except Fault Text
  | [] => .ok done.reverse
  | a :: rest =>
    match tailCount? a, rest with
    | none, _ => .error ⟨position, [a], .badStart⟩
    | some 0, rest => decodeFrom (position + 1) (Char.ofNat a.toNat :: done) rest
    | some _, [] => .error ⟨position, [a], .endOfData⟩
    | some 1, b :: rest =>
      if !isSecond a b then .error ⟨position, [a], .badContinuation⟩
      else decodeFrom (position + 2) (assemble 32 a [b] :: done) rest
    | some _, [b] =>
      if !isSecond a b then .error ⟨position, [a], .badContinuation⟩
      else .error ⟨position, [a, b], .endOfData⟩
    | some 2, b :: c :: rest =>
      if !isSecond a b then .error ⟨position, [a], .badContinuation⟩
      else if !isTail c then .error ⟨position, [a, b], .badContinuation⟩
      else decodeFrom (position + 3) (assemble 16 a [b, c] :: done) rest
    | some _, [b, c] =>
      if !isSecond a b then .error ⟨position, [a], .badContinuation⟩
      else if !isTail c then .error ⟨position, [a, b], .badContinuation⟩
      else .error ⟨position, [a, b, c], .endOfData⟩
    | some _, b :: c :: d :: rest =>
      if !isSecond a b then .error ⟨position, [a], .badContinuation⟩
      else if !isTail c then .error ⟨position, [a, b], .badContinuation⟩
      else if !isTail d then .error ⟨position, [a, b, c], .badContinuation⟩
      else decodeFrom (position + 4) (assemble 8 a [b, c, d] :: done) rest

def decode (octets : List UInt8) : Except Fault Text := decodeFrom 0 [] octets

def encode (t : Text) : List UInt8 := t.flatMap String.utf8EncodeChar

end Asm6502.Text.Utf8
