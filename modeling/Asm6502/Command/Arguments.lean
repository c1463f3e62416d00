import Asm6502.Command.Console
import Asm6502.Text.Similarity

/-! Command line arguments: options in any place, short ones run together, values
attached or in the next argument, and `--` before what is no option whatever it looks
like. -/
namespace Asm6502.Command

/-- An option that a tool knows, under the key by which the tool asks for it. -/
structure Switch (κ : Type) where
  key : κ
  short : Option Char
  long : Text
  takesValue : Bool

inductive UsageFault
  /-- `similar` are long options that may be meant. -/
  | noSuchOption (name : Text) (similar : List Text)
  | valueMissing (name : Text)
  | valueNotTaken (name : Text)
  | fileMissing
  | leftOver (arguments : List Text)
  /-- `subject` is the option or the argument that is meant. -/
  | badValue (subject detail : Text)
  deriving DecidableEq, Repr

namespace UsageFault

def question : List Text → Text
  | [] => []
  | [name] => " Did you mean " ++ Text.quoted name ++ "?"
  | names =>
    " (Did you mean one of: " ++ List.intercalate ", " (names.map Text.quoted) ++ "?)"

def message : UsageFault → Text
  | noSuchOption name similar => "No such option " ++ Text.quoted name ++ "." ++ question similar
  | valueMissing name => "Option " ++ Text.quoted name ++ " requires an argument."
  | valueNotTaken name => "Option " ++ Text.quoted name ++ " does not take a value."
  | fileMissing => "Missing argument 'INPUT_FILE'."
  | leftOver arguments =>
    (match arguments with
      | [_] => "Got unexpected extra argument ("
      | _ => "Got unexpected extra arguments (") ++ List.intercalate [' '] arguments ++ ")"
  | badValue subject detail => "Invalid value for " ++ subject ++ ": " ++ detail

/-- Misuse of an option is reported without a reminder of the usage. -/
def remindsOfUsage : UsageFault → Bool
  | valueMissing _ => false
  | valueNotTaken _ => false
  | _ => true

def text (tool : Text) (e : UsageFault) : Text :=
  (if e.remindsOfUsage then
    "Usage: " ++ tool ++ " [OPTIONS] INPUT_FILE\nTry '" ++ tool ++ " --help' for help.\n\n"
  else []) ++ "Error: " ++ e.message ++ ['\n']

end UsageFault

/-- Options in the order given, each with its value, and the other arguments. -/
structure Arguments (κ : Type) where
  given : List (κ × Text)
  others : List Text

namespace Arguments

inductive Piece (κ : Type)
  | other
  | given (options : List (κ × Text))
  /-- The value of the last option is the next argument. -/
  | awaits (options : List (κ × Text)) (key : κ) (name : Text)

/-- Short options that run together. One that takes a value takes all that follows. -/
def readShort (switches : List (Switch κ)) (done : List (κ × Text)) : Text →
    Except UsageFault (Piece κ)
  | [] => .ok (.given done)
  | c :: rest =>
    match switches.find? fun s => s.short == some c with
    | none => .error (.noSuchOption ['-', c] [])
    | some s =>
      if s.takesValue then
        if rest.isEmpty then .ok (.awaits done s.key ['-', c])
        else .ok (.given (done ++ [(s.key, rest)]))
      else readShort switches (done ++ [(s.key, [])]) rest

def readLong (switches : List (Switch κ)) (name : Text) (value : Option Text) :
    Except UsageFault (Piece κ) :=
  match switches.find? fun s => s.long == name with
  | none => .error (.noSuchOption name (Text.closest name (switches.map Switch.long)))
  | some s =>
    match s.takesValue, value with
    | true, some value => .ok (.given [(s.key, value)])
    | true, none => .ok (.awaits [] s.key name)
    | false, some _ => .error (.valueNotTaken name)
    | false, none => .ok (.given [(s.key, [])])

def readPiece (switches : List (Switch κ)) (argument : Text) : Except UsageFault (Piece κ) :=
  match argument with
  | '-' :: '-' :: _ =>
    match Text.splitAt? '=' argument with
    | some (name, value) => readLong switches name (some value)
    | none => readLong switches argument none
  | '-' :: c :: rest => readShort switches [] (c :: rest)
  | _ => .ok .other

def readFrom (switches : List (Switch κ)) (given : List (κ × Text)) (others : List Text) :
    List Text → Except UsageFault (Arguments κ)
  | [] => .ok ⟨given, others⟩
  | argument :: rest =>
    if argument = ['-', '-'] then .ok ⟨given, others ++ rest⟩
    else
      match readPiece switches argument with
      | .error e => .error e
      | .ok .other => readFrom switches given (others ++ [argument]) rest
      | .ok (.given options) => readFrom switches (given ++ options) others rest
      | .ok (.awaits options key name) =>
        match rest with
        | [] => .error (.valueMissing name)
        | value :: rest => readFrom switches (given ++ options ++ [(key, value)]) others rest

def read (switches : List (Switch κ)) (arguments : List Text) :
    Except UsageFault (Arguments κ) :=
  readFrom switches [] [] arguments

variable [BEq κ]

def has (a : Arguments κ) (key : κ) : Bool := a.given.any fun g => g.1 == key

def values (a : Arguments κ) (key : κ) : List Text :=
  (a.given.filter fun g => g.1 == key).map Prod.snd

/-- The value of an option that counts once: the last. -/
def value? (a : Arguments κ) (key : κ) : Option Text := (a.values key).getLast?

/-- Checks the options in the order in which each was first given. -/
def checkAll (check : κ → Except UsageFault Unit) (a : Arguments κ) : Except UsageFault Unit :=
  (a.given.map Prod.fst).forM check

end Arguments

def checkInput (files : FileTree) (subject path : Text) : Except UsageFault Unit :=
  match files.look path with
  | .ok (.file _) => .ok ()
  | .ok .directory =>
    .error (.badValue subject ("File " ++ Text.quoted path ++ " is a directory."))
  | .error _ => .error (.badValue subject ("File " ++ Text.quoted path ++ " does not exist."))

def checkOutput (files : FileTree) (subject path : Text) : Except UsageFault Unit :=
  match files.look path with
  | .ok .directory =>
    .error (.badValue subject ("File " ++ Text.quoted path ++ " is a directory."))
  | _ => .ok ()

/-- The one file that every tool works on. Arguments after it are too many. -/
def inputFile (files : FileTree) : List Text → Except UsageFault Text
  | [] => .error .fileMissing
  | path :: rest =>
    match checkInput files "'INPUT_FILE'" path with
    | .error e => .error e
    | .ok () => if rest.isEmpty then .ok path else .error (.leftOver rest)

def version : Text := "1.0.0"

def versionLine (tool : Text) : Text := tool ++ ", version " ++ version ++ ['\n']

inductive Request (ρ : Type)
  | help
  | version
  | work (job : ρ)

namespace Request

/-- Help and version go before everything else, the first of them given. -/
def read [BEq κ] (switches : List (Switch κ)) (help version : κ)
    (job : Arguments κ → Except UsageFault ρ) (arguments : List Text) :
    Except UsageFault (Request ρ) :=
  match Arguments.read switches arguments with
  | .error e => .error e
  | .ok a =>
    match a.given.find? fun g => g.1 == help || g.1 == version with
    | some g => .ok (if g.1 == help then .help else .version)
    | none => (job a).map .work

def answer (tool help : Text) (work : ρ → Console → Console × ExitStatus) (c : Console) :
    Except UsageFault (Request ρ) → Console × ExitStatus
  | .error e => (c.warn (e.text tool), .invalidArguments)
  | .ok .help => (c.print help, .success)
  | .ok .version => (c.print (versionLine tool), .success)
  | .ok (.work job) => work job c

end Request

end Asm6502.Command
