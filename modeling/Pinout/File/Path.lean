import Pinout.Text.Split

/-! Paths as text with slashes. A path keeps the text that it was made from, because
that text is shown to readers; what the path means depends only on its pieces, of
which empty ones and single dots say nothing, save a dot in front. -/

set_option autoImplicit false

namespace Pinout.File

/-- A path. -/
structure Path where
  text : String
deriving DecidableEq

instance : ToString Path where
  toString path := path.text

namespace Path

def isRooted (path : Path) : Bool :=
  path.text.toList.head? == some '/'

def pieces (path : Path) : List String :=
  (path.text.toList.splitOn '/').map String.ofList

/-- The path with the given pieces. -/
def ofPieces (pieces : List String) : Path :=
  ⟨String.intercalate "/" pieces⟩

def isSilent (piece : String) : Bool :=
  piece == "" || piece == "."

/-- The second path as seen from the first. A rooted path is the same everywhere. -/
def join (base path : Path) : Path :=
  if path.isRooted then path
  else if base.text.isEmpty || base.text.toList.getLast? == some '/' then
    ⟨base.text ++ path.text⟩
  else ⟨base.text ++ "/" ++ path.text⟩

/-- A list without the silent pieces at its end. -/
def dropSilentEnd (pieces : List String) : List String :=
  (pieces.reverse.dropWhile isSilent).reverse

/-- The path of the directory that holds the last piece that says something. -/
def parent? (path : Path) : Option Path :=
  let first := path.pieces.headD ""
  let rest := dropSilentEnd path.pieces.tail
  if rest.isEmpty then
    if first.isEmpty then none else some ⟨""⟩
  else
    match dropSilentEnd rest.dropLast with
    | [] => some (if path.isRooted then ⟨"/"⟩ else ⟨first⟩)
    | kept => some (ofPieces (first :: kept))

/-- The path, its parent, the parent of that one and so on, as many as the fuel allows. -/
def ancestorsWithin : Nat → Path → List Path
  | 0, path => [path]
  | fuel + 1, path =>
    match path.parent? with
    | none => [path]
    | some parent => path :: ancestorsWithin fuel parent

/-- The path, its parent, the parent of that one and so on. Each is shorter than the
one before it, so their number is bounded by the length of the text. -/
def ancestors (path : Path) : List Path :=
  ancestorsWithin path.text.length path

/-- The pieces that say something, after a mark for the place where they start. Two
paths are the same when these are. -/
def route (path : Path) : List String :=
  match path.pieces with
  | first :: rest =>
    (if path.isRooted then "/" else first) :: rest.filter fun piece => !isSilent piece
  | [] => []

def same (left right : Path) : Bool :=
  left.route == right.route

/-- The last piece that says something, when it is the name of a file. -/
def fileName? (path : Path) : Option String :=
  match path.pieces with
  | first :: rest =>
    let named := if first.isEmpty || first == "." then [] else [first]
    match (named ++ rest.filter fun piece => !isSilent piece).getLast? with
    | some ".." | none => none
    | some name => some name
  | [] => none

/-- A name up to its last dot. A dot in front belongs to the name. -/
def stem (name : String) : String :=
  match (name.toList.reverse.dropWhile (· ≠ '.')).tail with
  | [] => name
  | kept => String.ofList kept.reverse

/-- The name of the file up to its last dot. -/
def fileStem? (path : Path) : Option String :=
  path.fileName?.map stem

def withFileName (path : Path) (name : String) : Path :=
  match path.fileName?, path.parent? with
  | some _, some parent => parent.join ⟨name⟩
  | _, _ => path.join ⟨name⟩

/-- Drop as many pieces that say something as asked for, and the silent ones before
the next. -/
def dropSpeaking : Nat → List String → List String
  | 0, pieces => pieces.dropWhile isSilent
  | _ + 1, [] => []
  | count + 1, piece :: rest =>
    if isSilent piece then dropSpeaking (count + 1) rest else dropSpeaking count rest

/-- The rest of a path below a directory, or the whole path when it is not below it. -/
def below (path directory : Path) : Path :=
  if directory.text.isEmpty then path
  else if directory.route.isPrefixOf path.route then
    ofPieces (dropSilentEnd (dropSpeaking (directory.route.length - 1) path.pieces.tail))
  else path

end Path

end Pinout.File
