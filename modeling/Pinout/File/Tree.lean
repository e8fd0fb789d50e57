import Pinout.File.Path

/-! Trees of files. A tree knows its directories and the content of its files by
location, the names that lead there from the root, and the location where paths that
are not rooted start. Every operation gives a result or the fault that stopped it. -/

set_option autoImplicit false

namespace Pinout.File

/-- The names that lead from the root to a file or a directory. -/
abbrev Location := List String

/-- What stands at a location. -/
inductive Node where
  | directory
  | file (content : List UInt8)
deriving DecidableEq

/-- Why an operation stopped. -/
inductive Fault where
  | notFound
  | notDirectory
  | isDirectory
  | alreadyThere
  | notText
deriving DecidableEq

def Fault.message : Fault → String
  | .notFound => "No such file or directory (os error 2)"
  | .notDirectory => "Not a directory (os error 20)"
  | .isDirectory => "Is a directory (os error 21)"
  | .alreadyThere => "File exists (os error 17)"
  | .notText => "stream did not contain valid UTF-8"

/-- A tree of files. -/
structure Tree where
  nodes : List (Location × Node)
  working : Location
deriving DecidableEq

namespace Tree

/-- What stands at a location. The root is always a directory. -/
def node? (tree : Tree) (location : Location) : Option Node :=
  match tree.nodes.lookup location with
  | some node => some node
  | none => if location.isEmpty then some .directory else none

/-- Place a node at a location, in place of what stood there. -/
def put (tree : Tree) (location : Location) (node : Node) : Tree :=
  { tree with
    nodes := (location, node) :: tree.nodes.filter fun entry => entry.1 ≠ location }

def erase (tree : Tree) (location : Location) : Tree :=
  { tree with nodes := tree.nodes.filter fun entry => entry.1 ≠ location }

/-- A change is seen where it was made, and nowhere else. -/
theorem node?_put {tree : Tree} {location other : Location} {node : Node} :
    (tree.put location node).node? other =
      if other = location then some node else tree.node? other := by
  have kept : location ≠ other →
      (tree.nodes.filter fun entry => entry.1 ≠ location).lookup other =
        tree.nodes.lookup other := by
    intro apart
    induction tree.nodes with
    | nil => rfl
    | cons entry rest ih =>
        obtain ⟨here, node⟩ := entry
        by_cases same : here = location
        · subst same
          have differs : (other == here) = false := beq_eq_false_iff_ne.mpr (Ne.symm apart)
          rw [List.filter_cons_of_neg (by simp), ih, List.lookup_cons, differs]
        · rw [List.filter_cons_of_pos (by simpa using same), List.lookup_cons,
            List.lookup_cons, ih]
  by_cases same : other = location
  · simp [node?, put, same]
  · have differs : (other == location) = false := beq_eq_false_iff_ne.mpr same
    simp only [node?, put, List.lookup_cons, differs, kept (Ne.symm same), if_neg same]

/-- Follow the pieces of a path. Each step starts from a directory. -/
def follow (tree : Tree) : Location → List String → Except Fault Location
  | location, [] => .ok location
  | location, piece :: rest =>
    match tree.node? location with
    | none => .error .notFound
    | some (.file _) => .error .notDirectory
    | some .directory =>
      if Path.isSilent piece then tree.follow location rest
      else if piece = ".." then tree.follow location.dropLast rest
      else tree.follow (location ++ [piece]) rest

def origin (tree : Tree) (path : Path) : Location :=
  if path.isRooted then [] else tree.working

def locate (tree : Tree) (path : Path) : Except Fault (Location × Node) :=
  if path.text.isEmpty then .error .notFound
  else
    match tree.follow (tree.origin path) path.pieces with
    | .error fault => .error fault
    | .ok location =>
      match tree.node? location with
      | none => .error .notFound
      | some node => .ok (location, node)

def contains (tree : Tree) (path : Path) : Bool :=
  (tree.locate path).isOk

def isFile (tree : Tree) (path : Path) : Bool :=
  match tree.locate path with
  | .ok (_, .file _) => true
  | _ => false

def isDirectory (tree : Tree) (path : Path) : Bool :=
  match tree.locate path with
  | .ok (_, .directory) => true
  | _ => false

def readText (tree : Tree) (path : Path) : Except Fault String :=
  match tree.locate path with
  | .error fault => .error fault
  | .ok (_, .directory) => .error .isDirectory
  | .ok (_, .file content) =>
    match String.fromUTF8? ⟨content.toArray⟩ with
    | none => .error .notText
    | some text => .ok text

/-- The directory that holds what a path names, and the last name of the path. Slashes
at the end belong to no name; no name at all is left of the root. -/
def holder (tree : Tree) (path : Path) : Except Fault (Location × Option String) :=
  if path.text.isEmpty then .error .notFound
  else
    match path.pieces.reverse.dropWhile (·.isEmpty) with
    | [] => .ok ([], none)
    | name :: before =>
      match tree.follow (tree.origin path) before.reverse with
      | .error fault => .error fault
      | .ok location =>
        match tree.node? location with
        | none => .error .notFound
        | some (.file _) => .error .notDirectory
        | some .directory => .ok (location, some name)

/-- The location of a name in a directory; dots are no names of new nodes. -/
def named? (location : Location) (name : Option String) : Option Location :=
  match name with
  | none | some "." | some ".." => none
  | some name => some (location ++ [name])

/-- The location that a file takes. No file has a slash at its end. -/
def slot (tree : Tree) (path : Path) : Except Fault Location :=
  match tree.holder path with
  | .error fault => .error fault
  | .ok (location, name) =>
    match named? location name with
    | none => .error .isDirectory
    | some location =>
      if path.text.toList.getLast? = some '/' ∨ tree.node? location = some .directory then
        .error .isDirectory
      else .ok location

/-- Write a file, in place of the one that was there. -/
def write (tree : Tree) (path : Path) (content : List UInt8) : Except Fault Tree :=
  (tree.slot path).map fun location => tree.put location (.file content)

def makeDirectory (tree : Tree) (path : Path) : Except Fault Tree :=
  match tree.holder path with
  | .error fault => .error fault
  | .ok (location, name) =>
    match named? location name with
    | none => .error .alreadyThere
    | some location =>
      if (tree.node? location).isSome then .error .alreadyThere
      else .ok (tree.put location .directory)

/-- Make the first of the directories, of which each is the parent of the one before
it. A missing parent is made first. A fault comes with the tree that it left behind. -/
def makeAlong (tree : Tree) : List Path → Except (Fault × Tree) Tree
  | [] => .error (.notFound, tree)
  | path :: parents =>
    let settle (current : Tree) (fault : Fault) : Except (Fault × Tree) Tree :=
      if current.isDirectory path then .ok current else .error (fault, current)
    if path.text.isEmpty then .ok tree
    else
      match tree.makeDirectory path with
      | .ok made => .ok made
      | .error .notFound =>
        match tree.makeAlong parents with
        | .error stopped => .error stopped
        | .ok ready =>
          match ready.makeDirectory path with
          | .ok made => .ok made
          | .error fault => settle ready fault
      | .error fault => settle tree fault

def makeDirectories (tree : Tree) (path : Path) : Except (Fault × Tree) Tree :=
  tree.makeAlong path.ancestors

end Tree

end Pinout.File
