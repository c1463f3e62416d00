import Asm6502.Text.Blank

/-! Source lines: comments cut off, blanks trimmed, empty lines dropped. The lines that
remain keep the numbers they had. -/
namespace Asm6502

/-- A line with something on it, and its number in the source. -/
structure SourceLine where
  number : Int
  text : Text
  deriving DecidableEq, Repr

namespace SourceLine

/- `escaped` tells whether the character before was a backslash, which takes a semicolon
its meaning. The characters kept so far are in `kept`, latest first. -/
def cutCommentFrom (escaped : Bool) (kept : Text) : Text → Text
  | [] => kept.reverse
  | c :: rest =>
    if c = ';' ∧ escaped = false then kept.reverse
    else cutCommentFrom (c == '\\') (c :: kept) rest

def cutComment (t : Text) : Text := cutCommentFrom false [] t

/-- What a raw line says, apart from its comment and the blanks around. -/
def content (raw : Text) : Text := (cutComment raw).trim

/-- The lines that say something, numbered from one with all lines counted. -/
def ofRaw (lines : List Text) : List SourceLine :=
  (lines.zipIdx 1).filterMap fun (raw, n) =>
    let text := content raw
    if text.isEmpty then none else some ⟨n, text⟩

end SourceLine
end Asm6502
