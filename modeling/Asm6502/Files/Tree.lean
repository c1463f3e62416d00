import Asm6502.Files.Path
import Asm6502.Text.Quoted
import Asm6502.Text.Utf8

/-! A tree of files as the tools see it: read, written and asked about by path. -/
namespace Asm6502

inductive Node
  | file (bytes : List UInt8)
  | directory
  deriving DecidableEq, Repr

inductive PathFault
  | missing
  | denied
  | notDirectory
  | isDirectory
  | tooLong
  /-- A path that holds the character that ends paths. -/
  | nullCharacter
  deriving DecidableEq, Repr

structure FileFault where
  fault : PathFault
  path : Text
  deriving DecidableEq, Repr

def FileFault.message (e : FileFault) : Text :=
  match e.fault with
  | .missing => "[Errno 2] No such file or directory: " ++ Text.quoted e.path
  | .denied => "[Errno 13] Permission denied: " ++ Text.quoted e.path
  | .notDirectory => "[Errno 20] Not a directory: " ++ Text.quoted e.path
  | .isDirectory => "[Errno 21] Is a directory: " ++ Text.quoted e.path
  | .tooLong => "[Errno 36] File name too long: " ++ Text.quoted e.path
  | .nullCharacter => "embedded null byte"

def nameLimit : Nat := 255

def pathLimit : Nat := 4095

def exceeds (limit : Nat) (t : Text) : Bool := limit < (Text.Utf8.encode t).length

/-- Files and directories by their place: the names on the way from the working
directory, or from the root, which a slash stands for. -/
structure FileTree where
  nodes : List (List Text × Node) := []
  /-- Files and directories that are not open for writing. -/
  locked : List (List Text) := []
  deriving DecidableEq, Repr

namespace FileTree

/-- The directories that are always there: the working directory, those above it, and
the root. -/
def isGround (place : List Text) : Bool :=
  place == [['/']] || place.all (· == ['.', '.'])

/-- What stands at a place. A place on the way to another is a directory. -/
def node? (t : FileTree) (place : List Text) : Option Node :=
  match t.nodes.find? fun n => n.1 == place with
  | some n => some n.2
  | none =>
    if isGround place || t.nodes.any fun n => place.isPrefixOf n.1 then some .directory
    else none

def parent (place : List Text) : List Text :=
  match place.reverse with
  | [] => [['.', '.']]
  | ['.', '.'] :: _ => place ++ [['.', '.']]
  | [['/']] => place
  | _ :: above => above.reverse

def walk (t : FileTree) (place : List Text) : List Text → Except PathFault (List Text)
  | [] => .ok place
  | name :: rest =>
    match t.node? place with
    | none => .error .missing
    | some (.file _) => .error .notDirectory
    | some .directory =>
      if name = [] ∨ name = ['.'] then walk t place rest
      else if name = ['.', '.'] then walk t (parent place) rest
      else if exceeds nameLimit name then .error .tooLong
      else walk t (place ++ [name]) rest

/-- The place that a path leads to, which may be empty. -/
def locate (t : FileTree) (path : Text) : Except PathFault (List Text) :=
  if path = [] then .error .missing
  else if path.contains '\x00' then .error .nullCharacter
  else if exceeds pathLimit path then .error .tooLong
  else walk t (if path.head? = some '/' then [['/']] else []) (Text.splitOn '/' path)

def look (t : FileTree) (path : Text) : Except PathFault Node :=
  match t.locate path with
  | .error e => .error e
  | .ok place =>
    match t.node? place with
    | some node => .ok node
    | none => .error .missing

def read (t : FileTree) (path : Text) : Except FileFault (List UInt8) :=
  match t.look path with
  | .ok (.file bytes) => .ok bytes
  | .ok .directory => .error ⟨.isDirectory, path⟩
  | .error e => .error ⟨e, path⟩

def put (t : FileTree) (place : List Text) (node : Node) : FileTree :=
  { t with nodes := (t.nodes.filter fun n => n.1 != place) ++ [(place, node)] }

/-- What a file is written into: the file itself if it is there, else its directory. -/
def keeper (t : FileTree) (place : List Text) : List Text :=
  if (t.node? place).isSome then place else parent place

def write (t : FileTree) (path : Text) (bytes : List UInt8) : Except FileFault FileTree :=
  match t.locate path with
  | .error e => .error ⟨e, path⟩
  | .ok place =>
    match t.node? place with
    | some .directory => .error ⟨.isDirectory, path⟩
    | _ =>
      if t.locked.contains (t.keeper place) then .error ⟨.denied, path⟩
      else .ok (t.put place (.file bytes))

def changesSince (t before : FileTree) : List (Text × List UInt8) :=
  t.nodes.filterMap fun (place, node) =>
    match node with
    | .directory => none
    | .file bytes =>
      if before.node? place = some node then none
      else some (List.intercalate ['/'] place, bytes)

end FileTree
end Asm6502
