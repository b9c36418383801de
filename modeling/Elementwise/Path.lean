/-!
# Paths

These operations look at the text only. In its shortest form no component of a path is empty or `.`
and `..` occurs only at the start of a relative path.
-/
namespace Elementwise.Path

/-- The components between the slashes of a path, some of which may be empty. -/
def split : List Char → List (List Char)
  | [] => [[]]
  | '/' :: rest => [] :: split rest
  | c :: rest =>
    match split rest with
    | p :: ps => (c :: p) :: ps
    | [] => [[c]]

def components (path : String) : List String := (split path.toList).map String.ofList

def isAbsolute (path : String) : Bool := path.toList.head? == some '/'

/-- Adds a component to the cleaned ones, the last of which come first. -/
def step (rooted : Bool) (cleaned : List String) (c : String) : List String :=
  if c.isEmpty || c == "." then cleaned
  else if c == ".." then
    match cleaned with
    | top :: rest => if top == ".." then c :: cleaned else rest
    | [] => if rooted then [] else [c]
  else c :: cleaned

/-- The shortest path that names the same place. -/
def clean (path : String) : String :=
  let rooted := isAbsolute path
  let body := "/".intercalate ((components path).foldl (step rooted) []).reverse
  if rooted then "/" ++ body else if body.isEmpty then "." else body

/-- The path of `name` in the directory `dir`. Empty parts are left out. -/
def join (dir name : String) : String :=
  let parts := [dir, name].filter (!·.isEmpty)
  if parts.isEmpty then "" else clean ("/".intercalate parts)

/-- The last component, without the slashes at its end. -/
def base (path : String) : String :=
  if path.isEmpty then "."
  else
    match path.toList.reverse.dropWhile (· == '/') with
    | [] => "/"
    | rest => String.ofList (rest.takeWhile (· != '/')).reverse

/-- The last component from its last point on. -/
def extension (path : String) : String :=
  let last := path.toList.reverse.takeWhile (· != '/')
  if last.contains '.' then String.ofList ('.' :: (last.takeWhile (· != '.')).reverse) else ""

/-- The directory that holds the last component. -/
def parent (path : String) : String :=
  clean (String.ofList (path.toList.reverse.dropWhile (· != '/')).reverse)

/-- The path from the root, for one that may be relative to `dir`. -/
def absolute (dir path : String) : String := if isAbsolute path then clean path else join dir path

/-- The text without an ending, if it has it. -/
def dropEnding (s ending : String) : String :=
  if s.endsWith ending then String.ofList (s.toList.take (s.length - ending.length)) else s

/-- The last component without the extension of the path. -/
def stem (path : String) : String := dropEnding (base path) (extension path)

end Elementwise.Path
