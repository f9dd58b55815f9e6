import LC3.Text.Split

/-!
# Paths

A path names files by its components, which slashes separate. Empty components and single dots
change nothing, and the normal form leaves them out.
-/

namespace LC3.CommandLine.Path

/-- The components of a path, as written. -/
def components (path : String) : List String :=
  (Text.splitOn '/' path.toList).map String.ofList

/-- The component leads nowhere else. -/
def isIdle (component : String) : Bool :=
  component = "" || component = "."

/-- The components that lead somewhere. -/
def parts (path : String) : List String :=
  (components path).filter (!isIdle ·)

/-- The slashes that a path begins with. Two of them are kept, and more count as one. -/
def root (path : String) : String :=
  match path.toList.takeWhile (· = '/') with
  | [] => ""
  | ['/', '/'] => "//"
  | _ => "/"

/-- The path of components behind a root; a single dot if there are none of either. -/
def ofParts (root : String) (parts : List String) : String :=
  match root ++ "/".intercalate parts with
  | "" => "."
  | s => s

/-- The path without idle components. -/
def normal (path : String) : String :=
  ofParts (root path) (parts path)

/-- The last part ends in `.obj`, in any case, and there is something in front of that. -/
def isObject (path : String) : Bool :=
  match (parts path).getLast? with
  | none => false
  | some name =>
    match name.toList.reverse with
    | j :: b :: o :: '.' :: _ :: _ => [o, b, j].map Char.toLower = ['o', 'b', 'j']
    | _ => false

end LC3.CommandLine.Path
