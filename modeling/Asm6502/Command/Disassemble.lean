import Asm6502.Command.Address
import Asm6502.Command.Arguments
import Asm6502.Listing.Layout
import Asm6502.Listing.Names

/-! The tool that lists a program file. -/
namespace Asm6502.Command.Disassemble

def tool : Text := "c64disasm"

def help : Text :=
  "Usage: c64disasm [OPTIONS] INPUT_FILE

  Disassemble a Commodore 64 program file.

  INPUT_FILE is the .prg file to disassemble. Its first two bytes are the load
  address.

  Examples:
      c64disasm hello.prg --cycles
      c64disasm hello.prg -s hello.asm
      c64disasm game.prg -c '$080D-$0FFF' -o game.lst

Options:
  -o, --output FILE  Output file (default: stdout)
  --cycles           Show the cycle cost of every instruction
  --labels           Show a label column (implied by -s and -L)
  -s, --source FILE  Assembly source to take labels from
  -L, --label TEXT   Add a label (format: NAME=ADDR, can be repeated)
  -c, --code TEXT    Only decode addresses in START-END (inclusive, can be
                     repeated); everything else is dumped as data
  -v, --verbose      Verbose output
  --version          Show the version and exit.
  --help             Show this message and exit.
"

inductive Key
  | output
  | cycles
  | labels
  | source
  | label
  | code
  | verbose
  | version
  | help
  deriving DecidableEq, Repr

def switches : List (Switch Key) :=
  [⟨.output, some 'o', "--output", true⟩,
   ⟨.cycles, none, "--cycles", false⟩,
   ⟨.labels, none, "--labels", false⟩,
   ⟨.source, some 's', "--source", true⟩,
   ⟨.label, some 'L', "--label", true⟩,
   ⟨.code, some 'c', "--code", true⟩,
   ⟨.verbose, some 'v', "--verbose", false⟩,
   ⟨.version, none, "--version", false⟩,
   ⟨.help, none, "--help", false⟩]

structure Job where
  input : Text
  output : Option Text := none
  cycles : Bool := false
  showLabels : Bool := false
  source : Option Text := none
  /-- Labels given by hand. -/
  labels : Listing.Names := []
  /-- Where code is; everywhere if no range is given. -/
  ranges : List (Int × Int) := []
  verbose : Bool := false
  deriving DecidableEq, Repr

def labelsOf (a : Arguments Key) : Except UsageFault Listing.Names :=
  match parseEach parseLabel (a.values .label) with
  | .ok pairs => .ok (.ofPairs pairs)
  | .error e => .error (.badValue "'-L' / '--label'" e.message)

def rangesOf (a : Arguments Key) : Except UsageFault (List (Int × Int)) :=
  match parseEach parseRange (a.values .code) with
  | .ok ranges => .ok ranges
  | .error e => .error (.badValue "'-c' / '--code'" e.message)

def check (files : FileTree) (a : Arguments Key) : Key → Except UsageFault Unit
  | .output => (a.value? .output).forM (checkOutput files "'-o' / '--output'")
  | .source => (a.value? .source).forM (checkInput files "'-s' / '--source'")
  | .label => (labelsOf a).map fun _ => ()
  | .code => (rangesOf a).map fun _ => ()
  | _ => .ok ()

def job (files : FileTree) (a : Arguments Key) : Except UsageFault Job :=
  match a.checkAll (check files a), inputFile files a.others, labelsOf a, rangesOf a with
  | .error e, _, _, _ => .error e
  | _, .error e, _, _ => .error e
  | _, _, .error e, _ => .error e
  | _, _, _, .error e => .error e
  | .ok (), .ok input, .ok labels, .ok ranges =>
    .ok ⟨input, a.value? .output, a.has .cycles, a.has .labels, a.value? .source, labels,
      ranges, a.has .verbose⟩

def request (files : FileTree) (arguments : List Text) : Except UsageFault (Request Job) :=
  Request.read switches .help .version (job files) arguments

def activity : Text := "Disassembly"

/-- Labels of the source, then those given by hand. -/
def allLabels (source given : Listing.Names) : Listing.Names :=
  (Listing.Names.ofPairs source).update given

def options (job : Job) (labels : Listing.Names) : Listing.Options :=
  { showLabels := job.showLabels || !labels.isEmpty
    showCycles := job.cycles
    isCode := if job.ranges.isEmpty then none else some (Listing.inCodeRanges job.ranges) }

def list (job : Job) (program : List UInt8) (source : Listing.Names) (c : Console) :
    Console × ExitStatus :=
  let labels := allLabels source job.labels
  let lines := Listing.lines program labels (options job labels)
  let listing := lines.flatMap (· ++ ['\n'])
  let count := "Lines: " ++ Text.decimal lines.length
  match job.output with
  | none => ((c.print listing).warnIf job.verbose count, .success)
  | some path =>
    let path := Path.parse path
    match c.files.write path.text (Text.Utf8.encode listing) with
    | .error e => c.fail job.verbose activity (.ofFile e)
    | .ok files =>
      let c := { c with files }.warnIf job.verbose ("Output written to: " ++ path.text)
      (c.warnIf job.verbose count, .success)

/-- Takes the labels of a source. Its defects are shown and do not matter otherwise. -/
def listWithSource (job : Job) (program : List UInt8) (source : Path) (c : Console) :
    Console × ExitStatus :=
  match (Assembler.new { verbose := job.verbose }).assembleFile c.files source with
  | (s, some e) =>
    (c.logIf job.verbose s.assembly.events).fail job.verbose activity (.ofRun e)
  | (s, none) =>
    let c := c.logIf job.verbose s.assembly.events
    let c := c.warnIf s.assembly.report.hasErrors
      ("Warning: " ++ source.text ++ " has errors, labels may be incomplete")
    let c := c.warnIf s.assembly.report.hasErrors s.assembly.report.text
    list job program s.assembly.labels.symbols c

def work (job : Job) (c : Console) : Console × ExitStatus :=
  let input := Path.parse job.input
  match c.files.read input.text with
  | .error e => c.fail job.verbose activity (.ofFile e)
  | .ok program =>
    let c := c.warnIf job.verbose
      ("Input file: " ++ input.text ++ " (" ++ Text.decimal program.length ++ " bytes)")
    match job.source with
    | none => list job program [] c
    | some source => listWithSource job program (.parse source) c

def run (files : FileTree) (arguments : List Text) : Console × ExitStatus :=
  Request.answer tool help work { files } (request files arguments)

end Asm6502.Command.Disassemble
