import Asm6502.Text.Basic

/-! File paths: names between slashes. Empty names and `.` say nothing and are left out
when a path is read; `..` stays. -/
namespace Asm6502

structure Path where
  /-- The slashes that an absolute path begins with. -/
  root : Text
  parts : List Text
  deriving DecidableEq, Repr

namespace Path

/-- Two leading slashes are kept apart from one; three and more count as one. -/
def rootOf : Text → Text
  | '/' :: '/' :: '/' :: _ => ['/']
  | '/' :: '/' :: _ => ['/', '/']
  | '/' :: _ => ['/']
  | _ => []

def parse (t : Text) : Path :=
  ⟨rootOf t, (Text.splitOn '/' t).filter fun part => part != [] && part != ['.']⟩

/-- The path as text; one that names nothing is the place where one stands. -/
def text (p : Path) : Text :=
  match p.root, p.parts with
  | [], [] => ['.']
  | root, parts => root ++ List.intercalate ['/'] parts

/-- A name without its suffix, which is the part from the last dot on. A dot at either
end of the name begins no suffix. -/
def stem (name : Text) : Text :=
  let tail := name.reverse.takeWhile (· != '.')
  match name.reverse.dropWhile (· != '.') with
  | '.' :: c :: rest => if tail.isEmpty then name else (c :: rest).reverse
  | _ => name

def withSuffix (p : Path) (suffix : Text) : Path :=
  match p.parts.reverse with
  | [] => p
  | name :: before => { p with parts := ((stem name ++ suffix) :: before).reverse }

end Path
end Asm6502
