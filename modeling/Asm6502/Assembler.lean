import Asm6502.Assembly
import Asm6502.Files.Tree
import Asm6502.Settings
import Asm6502.Text.Lines
import Asm6502.Text.Utf8

/-! An assembler: settings, and the latest assembly made with them. Every source is
assembled afresh; the results stay until the next one. -/
namespace Asm6502

def unnamed : Text := "<input>"

structure Assembler where
  settings : Settings
  assembly : Assembly
  deriving DecidableEq, Repr

inductive RunFault
  | overflow (e : Text.DigitOverflow)
  | file (e : FileFault)
  | encoding (e : Text.Utf8.Fault)
  deriving DecidableEq, Repr

def RunFault.message : RunFault → Text
  | .overflow e => e.message
  | .file e => e.message
  | .encoding e => e.message

namespace Assembler

def fresh (settings : Settings) (file : Text) : Assembly :=
  { file, report := { limit := settings.limit } }

def new (settings : Settings) : Assembler := ⟨settings, fresh settings unnamed⟩

/-- Events that only a talkative assembler tells. -/
def noteIf (a : Assembly) (condition : Bool) (e : Event) : Assembly :=
  if condition then a.note e else a

def conclude (settings : Settings) (a : Assembly) : Assembly :=
  let a := noteIf a (a.report.count != 0) (.runFailed a.file a.report.count)
  noteIf a settings.verbose (.runEnded a.pass.code.size a.labels.labels.size)

def assemble (s : Assembler) (raw : List Text) (file : Text) : Assembler × Option RunFault :=
  let lines := SourceLine.ofRaw raw
  let a := noteIf (fresh s.settings file) s.settings.verbose (.runStarted file lines.length)
  match a.generate lines with
  | (a, none) => (⟨s.settings, conclude s.settings a⟩, none)
  | (a, some e) => (⟨s.settings, a⟩, some (.overflow e))

def assembleText (s : Assembler) (source file : Text) : Assembler × Option RunFault :=
  s.assemble source.lines file

def readSource (files : FileTree) (path : Path) : Except RunFault Text :=
  match files.read path.text with
  | .error e => .error (.file e)
  | .ok bytes =>
    match Text.Utf8.decode bytes with
    | .error e => .error (.encoding e)
    | .ok t => .ok t.unifyBreaks

/-- Assembles a file. One that cannot be read leaves everything as it was. -/
def assembleFile (s : Assembler) (files : FileTree) (path : Path) :
    Assembler × Option RunFault :=
  match readSource files path with
  | .error e => (s, some e)
  | .ok source => s.assembleText source path.text

/-- The memory image, from `loadAddress` on. -/
def code (s : Assembler) : List UInt8 := s.assembly.code

/-- The program file: the load address, then the image. -/
def program (s : Assembler) : List UInt8 := wordBytes loadAddress ++ s.code

def note (s : Assembler) (e : Event) : Assembler := { s with assembly := s.assembly.note e }

/-- Writes bytes of this assembler to a file, whose name is told of as `shown`. -/
def writeBytes (s : Assembler) (files : FileTree) (path : Path) (shown : Text)
    (bytes : List UInt8) : Except FileFault (FileTree × Assembler) :=
  match files.write path.text bytes with
  | .ok files => .ok (files, s.note (.fileWritten bytes.length shown))
  | .error e => .error e

def failure (s : Assembler) : Diagnostic :=
  let report := s.assembly.report
  ⟨.general ("Assembly failed with " ++ Text.decimal report.kept.size ++ " errors:\n\n" ++
    report.text) none, none, none⟩

def codeOrFailure (s : Assembler) : Except Diagnostic (List UInt8) :=
  if s.assembly.report.hasErrors then .error s.failure else .ok s.code

end Assembler
end Asm6502
