import Asm6502.Command.Assemble
import Asm6502.Command.Disassemble

/-! The command line. The first argument names the tool; the files that the others
mention are brought into a tree, the tool runs on it, and what it wrote is written. -/
namespace Asm6502.Main

def candidates (argument : Text) : List Text :=
  let texts := [argument, argument.drop 2, ((Text.splitAt? '=' argument).map Prod.snd).getD []]
  let paths := texts.map Path.parse
  (paths ++ paths.map fun p => p.withSuffix ['.', 'p', 'r', 'g']).map Path.text

def ways (path : Text) : List Text :=
  let p := Path.parse path
  (List.range p.parts.length).map fun n => Path.text { p with parts := p.parts.take (n + 1) }

/-- The paths that arguments may mean, each after those that lead to it. -/
def mentioned (arguments : List Text) : List Text :=
  ((arguments.flatMap candidates).flatMap ways).eraseDups

def placeOf (path : Text) : List Text :=
  let p := Path.parse path
  if p.root.isEmpty then p.parts else ['/'] :: p.parts

def load (paths : List Text) : IO FileTree := do
  let mut tree : FileTree := {}
  for path in paths do
    match ← (IO.FS.readBinFile (String.ofList path)).toBaseIO with
    | .ok bytes =>
      tree := tree.put (placeOf path) (.file bytes.toList)
      match ← (IO.FS.Handle.mk (String.ofList path) .readWrite).toBaseIO with
      | .ok _ => pure ()
      | .error _ => tree := { tree with locked := placeOf path :: tree.locked }
    | .error (.noFileOrDirectory _ _ _) => pure ()
    | .error _ => tree := tree.put (placeOf path) .directory
  return tree

def store (changes : List (Text × List UInt8)) : IO Unit := do
  for (path, bytes) in changes do
    IO.FS.writeBinFile (String.ofList path) ⟨bytes.toArray⟩

def readEnvironment : IO (Text → Option Text) := do
  let names := [Settings.limitVariable, Settings.verboseVariable]
  let values ← names.mapM fun name => do
    return (name, (← IO.getEnv (String.ofList name)).map String.toList)
  return fun name => (values.lookup name).join

def run (tool : String) (arguments : List Text) : IO UInt32 := do
  let files ← load (mentioned arguments)
  let environment ← readEnvironment
  let (console, status) :=
    if tool == "c64disasm" then Command.Disassemble.run files arguments
    else Command.Assemble.run files environment arguments
  IO.print (String.ofList console.out)
  IO.eprint (String.ofList console.err)
  store (console.files.changesSince files)
  return UInt32.ofNat status.code

end Asm6502.Main

def main (arguments : List String) : IO UInt32 :=
  match arguments with
  | tool :: rest =>
    if tool == "c64asm" || tool == "c64disasm" then
      Asm6502.Main.run tool (rest.map String.toList)
    else do
      IO.eprintln "the first argument is c64asm or c64disasm"
      return 2
  | [] => do
    IO.eprintln "the first argument is c64asm or c64disasm"
    return 2
