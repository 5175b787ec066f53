import FrameScript.Table

/-!
# Files

A tree of files below one current directory, with the errors that looking up
and reading a path can meet. Paths are texts with parts between slashes.
-/

namespace FrameScript

def separatedFrom (mark : Char) (part : List Char) : List Char → List String
  | [] => [String.ofList part.reverse]
  | c :: rest =>
    if c = mark then String.ofList part.reverse :: separatedFrom mark [] rest
    else separatedFrom mark (c :: part) rest

/-- The parts of a text between the occurrences of a character. -/
def separated (mark : Char) (text : String) : List String := separatedFrom mark [] text.toList

inductive FileError where
  | notFound
  | notDirectory
  | isDirectory
  | nameTooLong
  /-- A path cannot hold the character that ends it for the system. -/
  | nameEndsEarly
  | notText
  deriving DecidableEq, Repr

def FileError.message : FileError → String
  | notFound => "No such file or directory (os error 2)"
  | notDirectory => "Not a directory (os error 20)"
  | isDirectory => "Is a directory (os error 21)"
  | nameTooLong => "File name too long (os error 36)"
  | nameEndsEarly => "file name contained an unexpected NUL byte"
  | notText => "stream did not contain valid UTF-8"

namespace Path

def split (path : String) : List String := separated '/' path

def endsWithSlash (path : String) : Bool := path.toList.getLast? == some '/'

def join (directory name : String) : String :=
  if directory.isEmpty || endsWithSlash directory then directory ++ name
  else directory ++ "/" ++ name

/-- The part of a name after its last point; a point at the start does not count. -/
def extension? (name : String) : Option String :=
  let reversed := name.toList.reverse
  let ending := reversed.takeWhile (· ≠ '.')
  match reversed.dropWhile (· ≠ '.') with
  | _ :: _ :: _ => if name = ".." then none else some (String.ofList ending.reverse)
  | _ => none

/-- A path with an ending added to its last name. Slashes after the name are dropped. A path
that ends in no name has none. -/
def addEnding? (path ending : String) : Option String :=
  match (split path).reverse.dropWhile fun part => part = "" ∨ part = "." with
  | [] => none
  | last :: before =>
    if last = ".." then none else some ("/".intercalate (last :: before).reverse ++ ending)

end Path

inductive FileEntry where
  | directory
  | file (bytes : ByteArray)

/-- Entries by their parts from the current directory, which is itself a directory. An
absolute path begins with an empty part. -/
structure FileTree where
  entries : List (List String × FileEntry)

namespace FileTree

def empty : FileTree := ⟨[]⟩

/-- Whether a place is a directory in every tree: the current one, one above it, or the one
with all others. -/
def alwaysExists (parts : List String) : Bool := parts = [""] || parts.all (· = "..")

def find? (t : FileTree) (parts : List String) : Option FileEntry :=
  if alwaysExists parts then some .directory
  else (t.entries.find? fun e => e.1 = parts).map (·.2)

def addEntry (t : FileTree) (parts : List String) (entry : FileEntry) : FileTree :=
  if (t.find? parts).isSome then t else ⟨t.entries ++ [(parts, entry)]⟩

def addParents (t : FileTree) (parts : List String) : FileTree :=
  ((List.range parts.length).drop 1).foldl (fun t n => t.addEntry (parts.take n) .directory) t

/-- The directory above a place. Nothing is above the directory with all others; what is
above the current one has places that begin with two points. -/
def parentOf (here : List String) : List String :=
  if here = [""] then here
  else if here.isEmpty || here.getLast? == some ".." then here ++ [".."]
  else here.dropLast

/-- The place that parts lead to from another one. -/
def placeFrom (here : List String) : List String → List String
  | [] => here
  | part :: rest =>
    if part = "" ∨ part = "." then placeFrom here rest
    else if part = ".." then placeFrom (parentOf here) rest
    else placeFrom (here ++ [part]) rest

def placeOf (path : String) : List String :=
  match Path.split path with
  | "" :: parts => placeFrom [""] parts
  | parts => placeFrom [] parts

/-- Add an entry at a path, with the directories above it. -/
def add (t : FileTree) (path : String) (entry : FileEntry) : FileTree :=
  let parts := placeOf path
  (t.addParents parts).addEntry parts entry

/-- The most bytes that a part of a path may have. -/
def partLimit : Nat := 255

/-- A path has fewer bytes than this. -/
def pathLimit : Nat := 4096

/-- Go along the parts of a path from a directory. -/
def walk (t : FileTree) (here : List String) :
    List String → Except FileError (List String × FileEntry)
  | [] =>
    match t.find? here with
    | some entry => .ok (here, entry)
    | none => .error .notFound
  | part :: rest =>
    match t.find? here with
    | none => .error .notFound
    | some (.file _) => .error .notDirectory
    | some .directory =>
      if part = "" ∨ part = "." then walk t here rest
      else if part = ".." then walk t (parentOf here) rest
      else if partLimit < part.utf8ByteSize then .error .nameTooLong
      else walk t (here ++ [part]) rest

def lookup (t : FileTree) (path : String) : Except FileError (List String × FileEntry) :=
  if path.toList.contains '\x00' then .error .nameEndsEarly
  else if pathLimit ≤ path.utf8ByteSize then .error .nameTooLong
  else
    match Path.split path with
    | [""] => .error .notFound
    | "" :: parts => t.walk [""] parts
    | parts => t.walk [] parts

def readBytes (t : FileTree) (path : String) : Except FileError ByteArray :=
  match t.lookup path with
  | .ok (_, .file bytes) => .ok bytes
  | .ok (_, .directory) => .error .isDirectory
  | .error e => .error e

def readText (t : FileTree) (path : String) : Except FileError String :=
  match t.readBytes path with
  | .ok bytes =>
    match String.fromUTF8? bytes with
    | some text => .ok text
    | none => .error .notText
  | .error e => .error e

/-- The text of the file at a path without a byte order mark at its start. -/
def readUnmarkedText (t : FileTree) (path : String) : Except FileError String :=
  (t.readText path).map fun text =>
    match text.toList with
    | '\ufeff' :: rest => String.ofList rest
    | _ => text

def isDirectory (t : FileTree) (path : String) : Bool :=
  match t.lookup path with
  | .ok (_, .directory) => true
  | _ => false

def isFile (t : FileTree) (path : String) : Bool :=
  match t.lookup path with
  | .ok (_, .file _) => true
  | _ => false

def insertName (name : String) : List String → List String
  | [] => [name]
  | first :: rest => if name < first then name :: first :: rest else first :: insertName name rest

/-- The sorted names of the files right below the directory at a path. -/
def fileNames (t : FileTree) (path : String) : List String :=
  match t.lookup path with
  | .ok (here, .directory) =>
    (t.entries.filterMap fun e =>
      match e with
      | (parts, .file _) => if parts.dropLast = here then parts.getLast? else none
      | (_, .directory) => none).foldr insertName []
  | _ => []

end FileTree
end FrameScript
