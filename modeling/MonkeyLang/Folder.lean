import MonkeyLang.OrderedMap
import MonkeyLang.Text.Lines

/-!
# Folders

Files, and the paths that lead to them.

## Main Definitions

* `Folder` — contents of files
* `Folder.ofFiles` — the folder that holds some named files
* `Folder.read` — the contents of the file to which a path leads
* `PathFailure` — why a path leads to no file

## Design Notes

A path is walked part by part, beginning in the folder.  An empty part and a single dot stay where
they are, a double dot leaves a folder.  All of them need a folder to stand in, so a slash behind
the name of a file leads nowhere.

The folder has surroundings: those are folders too, and nothing is known to be in them.
-/

namespace MonkeyLang

/-- Why a path leads to no file. -/
inductive PathFailure where
  /-- There is nothing at its end, or on its way. -/
  | missing
  /-- It leads to a folder. -/
  | folder
  /-- It goes on behind a file. -/
  | notAFolder
  /-- It is longer than a path can be, or has a part that is. -/
  | tooLong
  /-- It holds a character that no path holds. -/
  | impossible
deriving DecidableEq

/-- The parts of a path: what stands between its slashes. -/
def pathParts : List Char → List (List Char)
  | [] => [[]]
  | c :: rest => if c = '/' then [] :: pathParts rest else Text.growFirst c (pathParts rest)

/-- How many bytes a part of a path can have. -/
def longestPart : Nat := 255

/-- How many bytes a path can have. -/
def longestPath : Nat := 4095

/-- The contents of files, stored under the parts of their paths. -/
structure Folder where
  files : OrderedMap (List String) ByteArray := []

namespace Folder

/-- The folder that holds files under the given names. -/
def ofFiles (files : List (String × ByteArray)) : Folder :=
  let store (stored : OrderedMap (List String) ByteArray) (file : String × ByteArray) :=
    let parts := ((pathParts file.1.toList).map String.ofList).filter fun p => p ≠ "" ∧ p ≠ "."
    OrderedMap.insert parts file.2 stored
  ⟨files.foldl store []⟩

/-- The contents of the file with these parts. -/
def file? (f : Folder) (parts : List String) : Option ByteArray := OrderedMap.find? parts f.files

/-- Whether there are files in a folder with these parts. -/
def hasFolder (f : Folder) (parts : List String) : Bool :=
  f.files.any fun (inner, _) => parts.isPrefixOf inner && parts != inner

/-- A place on the way of a path: in the folder, below these parts, or in the surroundings. -/
inductive Place where
  | inside (parts : List String)
  | outside
deriving DecidableEq

/-- The place around a place. -/
def Place.outer : Place → Place
  | inside [] => outside
  | inside parts => inside parts.dropLast
  | outside => outside

/-- Whether a file is at a place. -/
def hasFileAt (f : Folder) : Place → Bool
  | .inside parts => (f.file? parts).isSome
  | .outside => false

/-- What has a name in the folder at a place. -/
def find (f : Folder) (name : String) : Place → Except PathFailure Place
  | .inside parts =>
    let inner := parts ++ [name]
    if (f.file? inner).isSome || f.hasFolder inner then .ok (.inside inner) else .error .missing
  | .outside => .error .missing

/-- Where a part of a path leads. -/
def step (f : Folder) (place : Place) (part : String) : Except PathFailure Place :=
  if f.hasFileAt place then .error .notAFolder
  else if part = "" ∨ part = "." then .ok place
  else if part = ".." then .ok place.outer
  else if longestPart < part.utf8ByteSize then .error .tooLong
  else f.find part place

/-- Where parts of a path lead. -/
def walk (f : Folder) (place : Place) : List String → Except PathFailure Place
  | [] => .ok place
  | part :: parts =>
    match f.step place part with
    | .error failure => .error failure
    | .ok place => f.walk place parts

/-- The place at the end of a path.  One that begins with a slash does not begin in the folder. -/
def placeOf (f : Folder) (path : String) : Except PathFailure Place :=
  if '\x00' ∈ path.toList then .error .impossible
  else if path = "" then .error .missing
  else if longestPath < path.utf8ByteSize then .error .tooLong
  else
    let start := if path.toList.head? = some '/' then .outside else .inside []
    f.walk start ((pathParts path.toList).map String.ofList)

/-- The contents of the file to which a path leads. -/
def read (f : Folder) (path : String) : Except PathFailure ByteArray :=
  match f.placeOf path with
  | .error failure => .error failure
  | .ok .outside => .error .folder
  | .ok (.inside parts) =>
    match f.file? parts with
    | some contents => .ok contents
    | none => .error .folder

end Folder

end MonkeyLang
