import IngestPipeline.Assoc
import IngestPipeline.Text.Replace

/-! # Files

Files hold bytes and are reached by paths. A program reads and writes them by path; what it works on
is a **tree** of files in directories, with a directory that relative paths start from.

* **`FileAccess`**: reading and writing files by path, in any monad.
* **`FileTree`**: a file, or a directory of files and directories.
* **`FileTree.walk`**: where a path leads, component by component.
* **`FileTree.read`**, **`FileTree.write`**: the file at a path, and the tree after writing it.
* **`FileTree.access`**: both as the steps of a program. -/

namespace IngestPipeline

/-- Why a file cannot be read or written. -/
inductive FileError where
  /-- The path leads to nothing. -/
  | notFound
  /-- The path leads to a directory. -/
  | isDirectory
  /-- The path leads through a file. -/
  | notDirectory
  /-- The bytes are not the encoding of a text. -/
  | notText
  /-- The path, or a name in it, is too long. -/
  | nameTooLong
  /-- The path contains the null character. -/
  | badPath
  /-- The operating system refused for another reason. -/
  | other (description : String)
  deriving DecidableEq, Repr

/-- The wording of a file error. -/
def FileError.message : FileError → String
  | .notFound => "No such file or directory (os error 2)"
  | .isDirectory => "Is a directory (os error 21)"
  | .notDirectory => "Not a directory (os error 20)"
  | .notText => "stream did not contain valid UTF-8"
  | .nameTooLong => "File name too long (os error 36)"
  | .badPath => "file name contained an unexpected NUL byte"
  | .other description => description

/-- The text that bytes encode, where the bytes could be read. -/
def textOf : Except FileError ByteArray → Except FileError String
  | .error e => .error e
  | .ok bytes =>
      match String.fromUTF8? bytes with
      | some text => .ok text
      | none => .error .notText

/-! ### Access to files -/

/-- How a program reads and writes files. -/
structure FileAccess (m : Type → Type) where
  /-- The bytes of the file at a path. -/
  read : String → m (Except FileError ByteArray)
  /-- Give the file at a path these bytes, whether it was there before or not. -/
  write : String → ByteArray → m (Except FileError Unit)

/-- Access to files that are part of a state. A write succeeds as a whole or leaves the state as it
is. -/
def FileAccess.ofState (read : σ → String → Except FileError ByteArray)
    (write : σ → String → ByteArray → Except FileError σ) : FileAccess (StateM σ) where
  read path s := (read s path, s)
  write path bytes s :=
    match write s path bytes with
    | .ok s' => (.ok (), s')
    | .error e => (.error e, s)

/-! ### Trees of files -/

/-- A file, or a directory of files and directories by name. -/
inductive FileTree where
  /-- A file with its bytes. -/
  | file (bytes : ByteArray)
  /-- A directory with its entries. -/
  | directory (entries : List (String × FileTree))

namespace FileTree

/-- What is at a position: a file with its bytes, or a directory. -/
inductive Content where
  /-- A file. -/
  | file (bytes : ByteArray)
  /-- A directory. -/
  | directory

/-- What is at a position, given by the names on the way down. -/
def content? : FileTree → List String → Option Content
  | .file bytes, [] => some (.file bytes)
  | .directory _, [] => some .directory
  | .file _, _ :: _ => none
  | .directory entries, name :: names => (entries.lookup name).bind fun t => t.content? names

/-- The bytes of the file at a position. -/
def bytes? (t : FileTree) (position : List String) : Option ByteArray :=
  match t.content? position with
  | some (.file bytes) => some bytes
  | _ => none

/-- Whether there is a directory at a position. -/
def isDirectory (t : FileTree) (position : List String) : Bool :=
  match t.content? position with
  | some .directory => true
  | _ => false

/-- The tree with these bytes in the file at a position. The file is added if it is not there, and
so are the directories on the way. -/
def put (bytes : ByteArray) : FileTree → List String → FileTree
  | _, [] => .file bytes
  | .file old, _ :: _ => .file old
  | .directory entries, name :: names =>
      let inner := (entries.lookup name).getD (.directory [])
      .directory (Assoc.insert name (put bytes inner names) entries)

/-! ### Paths -/

/-- Where a path leads. -/
inductive Place where
  /-- To the file at this position, which may or may not exist. -/
  | file (position : List String)
  /-- To a directory. -/
  | directory
  /-- Nowhere. -/
  | nowhere (cause : FileError)
  deriving DecidableEq, Repr

/-- Whether a component stays in the same directory. -/
def isHere (component : List Char) : Bool := component = [] || component = ['.']

/-- The largest number of octets in a name. -/
def maxName : Nat := 255

/-- The largest number of octets in a path. -/
def maxPath : Nat := 4095

/-- The directory that one component leads to from a directory, if it leads to one. The root is its
own parent. -/
def enter? (t : FileTree) (position : List String) (component : List Char) :
    Option (List String) :=
  let name := String.ofList component
  if isHere component then some position
  else if component = ['.', '.'] then some position.dropLast
  else if name.utf8ByteSize ≤ maxName && t.isDirectory (position ++ [name]) then
    some (position ++ [name])
  else none

/-- Where a component leads that leads to no directory. It may be the name of a file if it is the
last one. -/
def arrive (t : FileTree) (position : List String) (component : List Char) (last : Bool) : Place :=
  let name := String.ofList component
  if maxName < name.utf8ByteSize then .nowhere .nameTooLong
  else if last && t.isDirectory position then .file (position ++ [name])
  else if (t.bytes? (position ++ [name])).isSome then .nowhere .notDirectory
  else .nowhere .notFound

/-- Where the components of a path lead from a position, from left to right. -/
def walk (t : FileTree) (position : List String) : List (List Char) → Place
  | [] => .directory
  | component :: rest =>
      match t.enter? position component with
      | some next => t.walk next rest
      | none => t.arrive position component rest.isEmpty

/-- Whether a path starts at the root, and its components. A path is refused as a whole if it is
empty or too long or contains the null character. -/
def route (path : String) : Except FileError (Bool × List (List Char)) :=
  let s := path.toList
  if s.contains '\x00' then .error .badPath
  else if s.isEmpty then .error .notFound
  else if maxPath < path.utf8ByteSize then .error .nameTooLong
  else .ok (s.head? == some '/', Text.parts '/' s)

/-- The position that a path starts from: the root, or the directory `here`. -/
def origin (here : List String) (absolute : Bool) : List String := if absolute then [] else here

/-- Where a path leads. -/
def locate (here : List String) (t : FileTree) (path : String) : Place :=
  match route path with
  | .error cause => .nowhere cause
  | .ok (absolute, parts) => t.walk (origin here absolute) parts

/-- Whether a path ends with a name and slashes behind it, in a place that is a directory. Such a
path asks for a directory, whether there is one of that name or not. -/
def asksForDirectory (here : List String) (t : FileTree) (path : String) : Bool :=
  match route path with
  | .error _ => false
  | .ok (absolute, parts) =>
      match parts.reverse with
      | [] :: parents =>
          match parents.dropWhile (· == []) with
          | name :: parents =>
              !isHere name && name != ['.', '.'] &&
                t.walk (origin here absolute) parents.reverse == .directory
          | [] => false
      | _ => false

/-- The bytes of the file at a path. -/
def read (here : List String) (t : FileTree) (path : String) : Except FileError ByteArray :=
  match locate here t path with
  | .directory => .error .isDirectory
  | .nowhere cause => .error cause
  | .file position =>
      match t.bytes? position with
      | some bytes => .ok bytes
      | none => .error .notFound

/-- The tree after the file at a path was written. -/
def write (here : List String) (t : FileTree) (path : String) (bytes : ByteArray) :
    Except FileError FileTree :=
  if asksForDirectory here t path then .error .isDirectory
  else match locate here t path with
    | .directory => .error .isDirectory
    | .nowhere cause => .error cause
    | .file position => .ok (t.put bytes position)

/-- Access to the files of a tree, where relative paths start from the directory `here`. -/
def access (here : List String) : FileAccess (StateM FileTree) := .ofState (read here) (write here)

end FileTree

end IngestPipeline
