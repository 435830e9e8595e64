/-!
File paths, and a tree of files and directories around a working directory. Paths are texts with a
slash between their parts; they are joined and shortened as they are spelled.

A path that is looked up in a tree is walked part by part: empty parts and dots stay in the
directory that has been reached, two dots go back, and a name leads to a file or a directory. The
directories above the working directory are there but start out empty. Absolute paths lead nowhere.
-/
namespace NodeScript

namespace FilePath

/-- Whether a part names something: neither empty nor the directory itself. -/
def isNamed (part : String) : Bool := part != "" && part != "."

/-- Drops parts at the end that name nothing, except a dot that begins the path. -/
def trimParts (parts : List String) : List String :=
  match parts with
  | [] => []
  | first :: rest =>
    let kept := (rest.reverse.dropWhile fun part => !isNamed part).reverse
    if first = "" ∧ kept.isEmpty ∧ rest.isEmpty then [] else first :: kept

/-- The directory that a path lies in. The parent of a single name is the empty path. -/
def parent (path : String) : String :=
  let parts := trimParts (path.splitOn "/")
  let kept := trimParts parts.dropLast
  if path.startsWith "/" ∧ kept.all (· == "") then "/" else "/".intercalate kept

/-- A path seen from a directory. An absolute path stays as it is. -/
def join (base path : String) : String :=
  if path.startsWith "/" then path
  else if base = "" ∨ base.endsWith "/" then base ++ path
  else base ++ "/" ++ path

end FilePath

/-- The names on the way from the working directory, after the steps above it. -/
abbrev Place := List String

/-- The directory around a place. -/
def Place.above (place : Place) : Place :=
  if place.all (· == "..") then place ++ [".."] else place.dropLast

/-- The longest name in bytes. -/
def nameLimit : Nat := 255

/-- The longest path in bytes. -/
def pathLimit : Nat := 4095

structure FileTree (α : Type) where
  files : List (Place × α)
  directories : List Place

namespace FileTree

variable {α : Type}

def empty : FileTree α := ⟨[], []⟩

def file? (t : FileTree α) (place : Place) : Option α :=
  (t.files.find? fun file => file.1 == place).map (·.2)

/-- Whether a directory is at a place. The working directory and those above it always are. -/
def isDirectory (t : FileTree α) (place : Place) : Bool :=
  place.all (· == "..") || t.directories.contains place

/-- Walks parts from a directory. -/
def walk? (t : FileTree α) : (parts : List String) → (place : Place) → Option Place
  | [], place => some place
  | part :: rest, place =>
    if !t.isDirectory place then none
    else if part = "" ∨ part = "." then walk? t rest place
    else if part = ".." then walk? t rest place.above
    else if nameLimit < part.utf8ByteSize then none
    else walk? t rest (place ++ [part])

/-- Whether a path can be looked up: it begins at the working directory, is not too long and holds
no null character, which would end it early. -/
def isPath (path : String) : Bool :=
  path != "" && !path.startsWith "/" && path.utf8ByteSize ≤ pathLimit && !path.contains '\x00'

/-- The place that a path leads to, whether or not there is anything. -/
def locate? (t : FileTree α) (path : String) : Option Place :=
  if isPath path then t.walk? (path.splitOn "/") [] else none

def read? (t : FileTree α) (path : String) : Option α :=
  (t.locate? path).bind t.file?

/-- Puts a file at a place. -/
def put (t : FileTree α) (place : Place) (content : α) : FileTree α :=
  { t with files := (t.files.filter fun file => file.1 != place) ++ [(place, content)] }

/-- Writes a file into a directory that exists. -/
def write? (t : FileTree α) (path : String) (content : α) : Option (FileTree α) :=
  (t.locate? path).bind fun place =>
    if t.isDirectory place then none else some (t.put place content)

/-- Makes a directory, unless it is there or a file is in its place. -/
def makeDirectory? (t : FileTree α) (place : Place) : Option (FileTree α) :=
  if t.isDirectory place then some t
  else if (t.file? place).isSome then none
  else some { t with directories := t.directories ++ [place] }

/-- Walks parts from a directory and makes every directory that is missing on the way, also one
that the walk leaves again. -/
def makeDirectories? : (parts : List String) → Place → FileTree α → Option (FileTree α)
  | [], _, t => some t
  | part :: rest, place, t =>
    if part = "" ∨ part = "." then makeDirectories? rest place t
    else if part = ".." then makeDirectories? rest place.above t
    else if nameLimit < part.utf8ByteSize then none
    else (t.makeDirectory? (place ++ [part])).bind (makeDirectories? rest (place ++ [part]))

/-- Writes a file and makes the directories on the way to it. -/
def add? (t : FileTree α) (path : String) (content : α) : Option (FileTree α) :=
  if isPath path then
    (makeDirectories? (path.splitOn "/").dropLast [] t).bind fun t => t.write? path content
  else none

/-- A tree of the given files, each with the directories on its way. A file that cannot be written
is left out. -/
def ofList (files : List (String × α)) : FileTree α :=
  files.foldl (fun t (path, content) => (t.add? path content).getD t) .empty

end FileTree

end NodeScript
