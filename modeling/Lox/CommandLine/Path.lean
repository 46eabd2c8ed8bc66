import Lox.Text.Quoted
/-!
# `CommandLine.Path` — naming and finding scripts

A path is written without its idle parts: points for the same directory, doubled slashes, a slash at
the end. Files are found from a working directory by walking down the parts of a path.
-/
namespace Lox.CommandLine

/-- The parts of a text between slashes. -/
def splitSlashes : List Char → List (List Char)
  | [] => [[]]
  | '/' :: cs => [] :: splitSlashes cs
  | c :: cs =>
    match splitSlashes cs with
    | [] => [[c]]
    | part :: parts => (c :: part) :: parts

/-- A path: the slashes at its head, and its parts. -/
structure Path where
  root : List Char
  parts : List (List Char)
  deriving DecidableEq, Repr

namespace Path

/-- The slashes that stay at the head of a path: one for any number of them, except that two are
kept. -/
def rootOf (cs : List Char) : List Char :=
  match (cs.takeWhile (· == '/')).length with
  | 0 => []
  | 2 => ['/', '/']
  | _ => ['/']

/-- Reads a path. -/
def ofText (s : String) : Path :=
  ⟨rootOf s.toList, (splitSlashes s.toList).filter fun part => !part.isEmpty && part != ['.']⟩

/-- A path as text. The empty one is the working directory. -/
def text (p : Path) : String :=
  let body := List.intercalate ['/'] p.parts
  if p.root.isEmpty && p.parts.isEmpty then "." else String.ofList (p.root ++ body)

end Path

/-! ## Reading -/

/-- Why a file cannot be read, as the system tells it: a number, and what it stands for in words. -/
structure ReadError where
  number : Nat
  text : String
  deriving DecidableEq, Repr

namespace ReadError

/-- There is no file of the path. -/
def missing : ReadError := ⟨2, "No such file or directory"⟩

/-- A part of the path that is not the last one is a file. -/
def notADirectory : ReadError := ⟨20, "Not a directory"⟩

/-- The path is that of a directory. -/
def isADirectory : ReadError := ⟨21, "Is a directory"⟩

/-- The path, or a part of it, is too long. -/
def nameTooLong : ReadError := ⟨36, "File name too long"⟩

/-- What is said about a file that cannot be read. -/
def message (e : ReadError) (p : Path) : String :=
  "[Errno " ++ toString e.number ++ "] " ++ e.text ++ ": " ++ Text.display p.text

end ReadError

/-! ## A working directory -/

/-- The files below a working directory, each with the parts of its path. -/
structure FileTree where
  files : List (List (List Char) × List UInt8)
  deriving DecidableEq

namespace FileTree

/-- Is there a directory of this path? -/
def isDirectory (t : FileTree) (path : List (List Char)) : Bool :=
  path.isEmpty || t.files.any fun (p, _) => path.isPrefixOf p && path.length < p.length

/-- The bytes of the file of this path. -/
def bytes? (t : FileTree) (path : List (List Char)) : Option (List UInt8) :=
  (t.files.find? (·.1 == path)).map (·.2)

/-- A place on a walk: so many levels above the working directory, or at a path below it. -/
structure Spot where
  above : Nat
  below : List (List Char)
  deriving DecidableEq

/-- How many bytes a name takes. -/
def byteLength (cs : List Char) : Nat := (String.ofList cs).utf8ByteSize

/-- Walks down one part. Of the directories above only that they are there is known. -/
def enter (t : FileTree) (s : Spot) (part : List Char) : Except ReadError Spot :=
  if s.above = 0 && !t.isDirectory s.below then .error .notADirectory
  else if 255 < byteLength part then .error .nameTooLong
  else if part = ['.', '.'] then
    .ok (if s.below.isEmpty then { s with above := s.above + 1 }
      else { s with below := s.below.dropLast })
  else
    let path := s.below ++ [part]
    if s.above = 0 && (t.isDirectory path || (t.bytes? path).isSome) then .ok { s with below := path }
    else .error .missing

/-- Walks down the parts of a path. -/
def walk (t : FileTree) : Spot → List (List Char) → Except ReadError Spot
  | s, [] => .ok s
  | s, part :: parts => do walk t (← t.enter s part) parts

/-- Reads a file. The root directory is there, and nothing else is known below it. -/
def read (t : FileTree) (p : Path) : Except ReadError (List UInt8) := do
  if 4096 ≤ byteLength p.text.toList then throw .nameTooLong
  let s ← t.walk ⟨if p.root.isEmpty then 0 else 1, []⟩ p.parts
  match if s.above = 0 then t.bytes? s.below else none with
  | some bytes => return bytes
  | none => throw .isADirectory

end FileTree
end Lox.CommandLine
