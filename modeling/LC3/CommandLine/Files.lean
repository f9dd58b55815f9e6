import LC3.CommandLine.Path
import LC3.Text.Quoted

/-!
# Files

An `Interaction` says which files are read, written and made on the way to a result; whoever
carries it out has the files. `Interaction.on` carries it out on a `FileTree`, which holds files
and directories in memory.
-/

namespace LC3.CommandLine

/-- A failure to open a file, with the number and the words of the operating system. -/
structure FileError where
  number : Nat
  reason : String
  deriving DecidableEq, Repr

namespace FileError

def missing : FileError :=
  ⟨2, "No such file or directory"⟩

def alreadyThere : FileError :=
  ⟨17, "File exists"⟩

def notDirectory : FileError :=
  ⟨20, "Not a directory"⟩

def isDirectory : FileError :=
  ⟨21, "Is a directory"⟩

def nameTooLong : FileError :=
  ⟨36, "File name too long"⟩

def message (e : FileError) (path : String) : String :=
  s!"[Errno {e.number}] {e.reason}: " ++ Text.quote path

end FileError

/-! ## Interactions -/

/-- What a path can lead to. -/
inductive Entry where
  | directory
  | file (bytes : ByteArray)

inductive Interaction (α : Type) where
  | done (a : α)
  | read (path : String) (next : Except FileError ByteArray → Interaction α)
  | write (path : String) (bytes : ByteArray) (next : Except FileError Unit → Interaction α)
  /-- Makes the entry, unless there is one of its kind. -/
  | ensure (path : String) (entry : Entry) (next : Except FileError Unit → Interaction α)

namespace Interaction

variable {α β : Type}

/-- Goes on with the result. -/
def andThen (i : Interaction α) (f : α → Interaction β) : Interaction β :=
  match i with
  | done a => f a
  | read path next => read path fun r => (next r).andThen f
  | write path bytes next => write path bytes fun r => (next r).andThen f
  | ensure path entry next => ensure path entry fun r => (next r).andThen f

instance : Monad Interaction where
  pure := done
  bind := andThen

end Interaction

/-! ## Places -/

/-- A directory that is always there: the root, or the one that lies a number of levels above the
working directory. -/
inductive Base where
  | root
  | above (levels : Nat)
  deriving DecidableEq, Repr

/-- The working directory. -/
def Base.working : Base :=
  .above 0

def Base.parent : Base → Base
  | root => root
  | above levels => above (levels + 1)

/-- A place for an entry: the names on the way from a base, the last one first. -/
structure Place where
  base : Base
  names : List String
  deriving DecidableEq, Repr

namespace Place

def parent (p : Place) : Place :=
  match p.names with
  | [] => ⟨p.base.parent, []⟩
  | _ :: names => ⟨p.base, names⟩

def child (p : Place) (name : String) : Place :=
  ⟨p.base, name :: p.names⟩

end Place

/-! ## File trees -/

/-- The entries at places, bases apart. A place without an entry is free. -/
structure FileTree where
  entries : List (Place × Entry)

namespace FileTree

def empty : FileTree :=
  ⟨[]⟩

def entry? (t : FileTree) (p : Place) : Option Entry :=
  if p.names.isEmpty then some .directory else t.entries.lookup p

/-- The entry takes the place of any other. -/
def put (t : FileTree) (p : Place) (e : Entry) : FileTree :=
  ⟨(p, e) :: t.entries.filter (·.1 ≠ p)⟩

/-- The longest name of a file, in bytes. -/
def maxName : Nat := 255

/-- The longest path, in bytes. -/
def maxPath : Nat := 4095

/-- The place that one component of a path leads to. -/
def enter (t : FileTree) (p : Place) (component : String) : Except FileError Place :=
  match t.entry? p with
  | none => .error .missing
  | some (.file _) => .error .notDirectory
  | some .directory =>
    if Path.isIdle component then .ok p
    else if component = ".." then .ok p.parent
    else if maxName < component.utf8ByteSize then .error .nameTooLong
    else .ok (p.child component)

/-- The place that a path leads to. -/
def resolve (t : FileTree) (path : String) : Except FileError Place :=
  match path.toList with
  | [] => .error .missing
  | c :: _ =>
    if maxPath < path.utf8ByteSize then .error .nameTooLong
    else (Path.components path).foldlM t.enter ⟨if c = '/' then .root else .working, []⟩

def read (t : FileTree) (path : String) : Except FileError ByteArray := do
  match t.entry? (← t.resolve path) with
  | none => throw .missing
  | some .directory => throw .isDirectory
  | some (.file bytes) => return bytes

/-- What stands in front of the last component of a path that ends with slashes. -/
def aroundLast (path : String) : String :=
  let s := path.toList.reverse.dropWhile (· = '/')
  String.ofList (s.dropWhile (· ≠ '/')).reverse

/-- Writes a file, which is made if need be. A path with a slash behind it can only be meant for a
directory. -/
def write (t : FileTree) (path : String) (bytes : ByteArray) : Except FileError FileTree := do
  if path.toList.getLast? = some '/' then
    let around := aroundLast path
    if around ≠ "" then let _ ← t.resolve around
    throw .isDirectory
  else
    let p ← t.resolve path
    match t.entry? p with
    | some .directory => throw .isDirectory
    | _ => return t.put p (.file bytes)

/-- Makes an entry where there is none. One of the same kind is left as it is. -/
def ensure (t : FileTree) (path : String) (e : Entry) : Except FileError FileTree := do
  let p ← t.resolve path
  match e, t.entry? p with
  | e, none => return t.put p e
  | .directory, some (.file _) => throw .alreadyThere
  | .file _, some .directory => throw .isDirectory
  | _, _ => return t

/-- The directories on the way to a place are made where there are none. -/
def addDirectories (t : FileTree) (base : Base) : List String → FileTree
  | [] => t
  | name :: names =>
    let t := t.addDirectories base names
    let p : Place := ⟨base, name :: names⟩
    if (t.entry? p).isNone then t.put p .directory else t

/-- Puts a file under its name in the working directory, and directories around it if the name has
several parts. -/
def addFile (t : FileTree) (name : String) (bytes : ByteArray) : FileTree :=
  let names := (Path.parts name).reverse
  (t.addDirectories .working names.tail).put ⟨.working, names⟩ (.file bytes)

def ofFiles (files : List (String × ByteArray)) : FileTree :=
  files.foldl (fun t (name, bytes) => t.addFile name bytes) empty

end FileTree

/-- Carries out an interaction on a file tree. -/
def Interaction.on {α : Type} : Interaction α → FileTree → α × FileTree
  | .done a, t => (a, t)
  | .read path next, t => (next (t.read path)).on t
  | .write path bytes next, t =>
    match t.write path bytes with
    | .ok written => (next (.ok ())).on written
    | .error e => (next (.error e)).on t
  | .ensure path entry next, t =>
    match t.ensure path entry with
    | .ok made => (next (.ok ())).on made
    | .error e => (next (.error e)).on t

end LC3.CommandLine
