/-!
# Workspaces

The files that a command can see: a working directory, the texts of files, and directories. The
parts of a path between slashes are its names; empty ones and `.` are passed over.

A path is used in two ways. *Resolving* it looks at its names alone, and `..` takes back the name
before it: this gives the place of a file to be read or written. *Walking* along it enters one
directory after the other, so that `..` needs the directory that it leaves.

## Main definitions

* `Workspace`; a place in it is the list of the names from the root of the file system on.
* `Workspace.resolve`, `fullPath`: the place of a path, and the full path of a place.
* `Workspace.isFile`, `Workspace.isDirectory`, `Workspace.has`.
* `Workspace.walk`, `Workspace.leadsSomewhere`: where names lead, directory by directory.
* `Workspace.read?`: the text of a file, with its line breaks made uniform.
* `Workspace.put`, `Workspace.obstacleTo`: a file with a new text, and what keeps it from being
  opened.

## Implementation notes

A directory exists when something lies in it, when the working directory does, or when it is listed.
Names and paths have greatest lengths, counted in bytes; nothing longer can be looked for, and a
name that is too long is found to be so only when its directory has been reached.
-/

namespace Schemata

abbrev Place := List String

structure Workspace where
  /-- The working directory. -/
  root : Place
  files : List (Place × String)
  directories : List Place := []

/-- The pieces of a text between the occurrences of a character. -/
def splitChar (separator : Char) : List Char → List (List Char)
  | [] => [[]]
  | c :: rest =>
    if c = separator then [] :: splitChar separator rest
    else (splitChar separator rest).modifyHead (c :: ·)

/-- The names in a path. -/
def namesIn (path : String) : List String :=
  ((splitChar '/' path.toList).map String.ofList).filter fun s => s ≠ "" ∧ s ≠ "."

/-- The last name in a path; nothing when there is none. -/
def lastName (path : String) : String := (namesIn path).getLast?.getD ""

/-- A path starts at the root of the file system. -/
def isAbsolute (path : String) : Bool := path.toList.head? == some '/'

/-- The full path of a place. -/
def fullPath (place : Place) : String := "/" ++ String.intercalate "/" place

/-- A path without what is passed over. -/
def cleanPath (path : String) : String :=
  let names := namesIn path
  if isAbsolute path then fullPath names
  else if names.isEmpty then "."
  else String.intercalate "/" names

/-- The place that names lead to, whatever is there. -/
def follow (place : Place) (names : List String) : Place :=
  names.foldl (fun reached name => if name = ".." then reached.dropLast else reached ++ [name])
    place

/-- The greatest length of a name, in bytes. -/
def longestName : Nat := 255

/-- The greatest length of a path, in bytes. -/
def longestPath : Nat := 4095

namespace Workspace

/-- The place where a path starts. -/
def origin (w : Workspace) (path : String) : Place := if isAbsolute path then [] else w.root

def resolve (w : Workspace) (path : String) : Place := follow (w.origin path) (namesIn path)

def isFile (w : Workspace) (place : Place) : Bool := (w.files.lookup place).isSome

/-- One place lies inside another. -/
def liesIn (inside outside : Place) : Bool :=
  outside.isPrefixOf inside && outside.length < inside.length

def isDirectory (w : Workspace) (place : Place) : Bool :=
  place.isPrefixOf w.root || w.directories.any (place.isPrefixOf ·)
    || w.files.any fun file => liesIn file.1 place

def has (w : Workspace) (place : Place) : Bool := w.isFile place || w.isDirectory place

/-! ### Walking -/

/-- What keeps a path from being walked along or a file from being written. -/
inductive Obstacle where
  | isDirectory
  | notDirectory
  | missingDirectory
  | nameTooLong
  deriving DecidableEq, Repr

/-- The place that names lead to, each in the directory reached before it. Whether there is
something at the end does not matter. -/
def walk (w : Workspace) : Place → List String → Except Obstacle Place
  | place, [] => .ok place
  | place, name :: rest =>
    if w.isFile place then .error .notDirectory
    else if !w.isDirectory place then .error .missingDirectory
    else if name = ".." then walk w place.dropLast rest
    else if longestName < name.utf8ByteSize then .error .nameTooLong
    else walk w (place ++ [name]) rest

/-- Whether a path leads to something; for a path that is too long this cannot be said. No path
holds the character of code 0. -/
def leadsSomewhere (w : Workspace) (path : String) : Except Obstacle Bool :=
  if path.toList.contains '\x00' then .ok false
  else if longestPath < (cleanPath path).utf8ByteSize then .error .nameTooLong
  else match w.walk (w.origin path) (namesIn path) with
    | .ok place => .ok (w.has place)
    | .error .nameTooLong => .error .nameTooLong
    | .error _ => .ok false

/-- A path shortened to its last name, if it leads to something. -/
def shorten (w : Workspace) (path : String) : Except Obstacle String := do
  return if ← w.leadsSomewhere path then lastName path else path

/-! ### Texts -/

/-- All line breaks made line feeds. -/
def uniformBreaks : List Char → List Char
  | '\r' :: '\n' :: rest => '\n' :: uniformBreaks rest
  | '\r' :: rest => '\n' :: uniformBreaks rest
  | c :: rest => c :: uniformBreaks rest
  | [] => []

def read? (w : Workspace) (place : Place) : Option String :=
  (w.files.lookup place).map fun text => String.ofList (uniformBreaks text.toList)

def putFile (place : Place) (text : String) : List (Place × String) → List (Place × String)
  | [] => [(place, text)]
  | (p, t) :: rest => if p = place then (p, text) :: rest else (p, t) :: putFile place text rest

/-- The workspace with a text in the file at a place. -/
def put (w : Workspace) (place : Place) (text : String) : Workspace :=
  { w with files := putFile place text w.files }

/-- What keeps a file from being opened for writing. -/
def obstacleTo (w : Workspace) (place : Place) : Option Obstacle :=
  if longestPath < (fullPath place).utf8ByteSize then some .nameTooLong
  else match w.walk [] place with
    | .error obstacle => some obstacle
    | .ok _ => if w.isDirectory place then some .isDirectory else none

end Workspace

end Schemata
