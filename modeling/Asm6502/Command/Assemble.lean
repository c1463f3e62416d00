import Asm6502.Command.Arguments
import Asm6502.Listing.Layout

/-! The tool that assembles a source file into a program file. -/
namespace Asm6502.Command.Assemble

def tool : Text := "c64asm"

def help : Text :=
  "Usage: c64asm [OPTIONS] INPUT_FILE

  Assemble 6502 source code into a Commodore 64 program.

  INPUT_FILE is the assembly source file (.asm) to assemble.

  The program loads at $0801 and starts itself: it begins with a one-line BASIC
  program (SYS 2061) that jumps to the assembled code.

  Errors are reported for every defective line. The output file is still
  written, and the exit status is 1.

  Examples:
      c64asm hello.asm              # Outputs hello.prg
      c64asm hello.asm -o out.prg   # Specify output file
      c64asm hello.asm -d           # Show the disassembly

Options:
  -o, --output FILE  Output .prg file (default: input.prg)
  -b, --binary FILE  Also write the raw memory image (no load address)
  -d, --disassemble  Print the disassembly of the assembled program
  -v, --verbose      Verbose output
  --version          Show the version and exit.
  --help             Show this message and exit.
"

inductive Key
  | output
  | binary
  | listing
  | verbose
  | version
  | help
  deriving DecidableEq, Repr

def switches : List (Switch Key) :=
  [⟨.output, some 'o', "--output", true⟩,
   ⟨.binary, some 'b', "--binary", true⟩,
   ⟨.listing, some 'd', "--disassemble", false⟩,
   ⟨.verbose, some 'v', "--verbose", false⟩,
   ⟨.version, none, "--version", false⟩,
   ⟨.help, none, "--help", false⟩]

structure Job where
  input : Text
  output : Option Text := none
  binary : Option Text := none
  listing : Bool := false
  verbose : Bool := false
  deriving DecidableEq, Repr

def check (files : FileTree) (a : Arguments Key) : Key → Except UsageFault Unit
  | .output => (a.value? .output).forM (checkOutput files "'-o' / '--output'")
  | .binary => (a.value? .binary).forM (checkOutput files "'-b' / '--binary'")
  | _ => .ok ()

def job (files : FileTree) (a : Arguments Key) : Except UsageFault Job :=
  match a.checkAll (check files a) with
  | .error e => .error e
  | .ok () =>
    match inputFile files a.others with
    | .error e => .error e
    | .ok input =>
      .ok ⟨input, a.value? .output, a.value? .binary, a.has .listing, a.has .verbose⟩

def request (files : FileTree) (arguments : List Text) : Except UsageFault (Request Job) :=
  Request.read switches .help .version (job files) arguments

def activity : Text := "Assembly"

/-- The end of a run: the listing if asked for, a summary, and the exit status. -/
def conclude (job : Job) (s : Assembler) (c : Console) : Console × ExitStatus :=
  let verbose := s.settings.verbose
  let listing :=
    if job.listing then
      Listing.lines s.program s.assembly.labels.symbols { showLabels := true }
    else []
  let c := c.print (listing.flatMap (· ++ ['\n']))
  let c := c.sayIf verbose
    ("Assembly complete: " ++ Text.decimal s.code.length ++ " bytes at $" ++
      Text.hex 4 loadAddress)
  let c := c.sayIf verbose
    ("Defined " ++ Text.decimal s.assembly.labels.labels.size ++ " labels")
  (c, if s.assembly.report.hasErrors then .buildError else .success)

def save (s : Assembler) (path : Path) (bytes : List UInt8) (kind : Text) (c : Console) :
    Except FileFault Console :=
  match s.writeBytes c.files path path.text bytes with
  | .error e => .error e
  | .ok (files, _) =>
    let c := { c with files }.logIf s.settings.verbose [.fileWritten bytes.length path.text]
    .ok (c.sayIf s.settings.verbose
      ("Wrote " ++ Text.decimal bytes.length ++ " bytes" ++ kind ++ " to " ++ path.text))

/-- The program file by default stands beside its source. -/
def outputPath (job : Job) : Path :=
  match job.output with
  | some path => .parse path
  | none => (Path.parse job.input).withSuffix ['.', 'p', 'r', 'g']

def saveAll (job : Job) (s : Assembler) (c : Console) : Console × ExitStatus :=
  match save s (outputPath job) s.program [] c with
  | .error e => c.fail s.settings.verbose activity (.ofFile e)
  | .ok c =>
    match job.binary with
    | none => conclude job s c
    | some path =>
      match save s (.parse path) s.code " raw binary" c with
      | .error e => c.fail s.settings.verbose activity (.ofFile e)
      | .ok c => conclude job s c

def work (job : Job) (environment : Text → Option Text) (c : Console) : Console × ExitStatus :=
  let (settings, events) := Settings.ofEnvironment environment
  let settings := { settings with verbose := settings.verbose || job.verbose }
  let input := Path.parse job.input
  let c := c.logBare events
  let c := c.sayIf settings.verbose ("Assembling " ++ input.text ++ "...")
  match (Assembler.new settings).assembleFile c.files input with
  | (s, some e) =>
    (c.logIf settings.verbose s.assembly.events).fail settings.verbose activity (.ofRun e)
  | (s, none) =>
    let c := c.logIf settings.verbose s.assembly.events
    saveAll job s (c.warnIf s.assembly.report.hasErrors s.assembly.report.text)

def run (files : FileTree) (environment : Text → Option Text) (arguments : List Text) :
    Console × ExitStatus :=
  Request.answer tool help (work · environment) { files } (request files arguments)

end Asm6502.Command.Assemble
