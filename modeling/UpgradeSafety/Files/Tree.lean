import UpgradeSafety.Failure

/-!
# Paths and trees of files

A path is a list of names behind a root, which is empty for a path relative to the working folder.
Empty names and single points mean nothing and are left out; a double point leads to the folder
above and is kept.

The files and folders that a program works on. Everything stands at a *place*, the list of the names
that lead to it. Every file stands in a folder.
-/

namespace UpgradeSafety.Files

/-! ## Paths -/

/-- A path. -/
structure Path where
  root : String := ""
  parts : List String := []
  deriving DecidableEq, Repr, Inhabited

namespace Path

/-- The root that a path is written with. Exactly two slashes are a root of their own. -/
def rootOf : List Char → String
  | '/' :: '/' :: '/' :: _ => "/"
  | '/' :: '/' :: _ => "//"
  | '/' :: _ => "/"
  | _ => ""

/-- Reads a path. -/
def ofText (s : String) : Path :=
  ⟨rootOf s.toList, (s.splitOn "/").filter fun part => !part.isEmpty && part != "."⟩

/-- A path as it is written; the working folder is a single point. -/
def text (p : Path) : String :=
  if p.root.isEmpty && p.parts.isEmpty then "." else p.root ++ "/".intercalate p.parts

/-- The path that a text leads to from a folder. -/
def join (p : Path) (s : String) : Path :=
  let q := ofText s
  if q.root.isEmpty then { p with parts := p.parts ++ q.parts } else q

/-- What stands in a folder under a name without slashes. -/
def child (p : Path) (name : String) : Path := { p with parts := p.parts ++ [name] }

/-- The folder that holds what a path leads to. -/
def parent (p : Path) : Path := { p with parts := p.parts.dropLast }

end Path

/-! ## Trees -/

/-- The names that lead to a file or folder, without double points. -/
abbrev Place := List String

/-- Files with their contents, in the order in which they were made, and folders. -/
structure Tree where
  files : List (Place × List UInt8) := []
  folders : List Place := []
  deriving DecidableEq, Repr, Inhabited

namespace Tree

/-- Whether a folder stands at a place. The working folder and the root always do. -/
def isFolderAt (t : Tree) (place : Place) : Bool :=
  place.isEmpty || place == ["/"] || t.folders.contains place

/-- The content of the file at a place. -/
def contentAt? (t : Tree) (place : Place) : Option (List UInt8) := t.files.lookup place

/-- Goes from one place to another by a name; there is a way up only from folders. -/
def step (t : Tree) (place : Place) (part : String) : Option Place :=
  if part == ".." then if t.isFolderAt place then some place.dropLast else none
  else some (place ++ [part])

/-- Where a path starts. -/
def start (p : Path) : Place := if p.root.isEmpty then [] else ["/"]

/-- The place that a path leads to. -/
def place? (t : Tree) (p : Path) : Option Place := p.parts.foldlM t.step (start p)

/-- Whether a path leads to a folder. -/
def isFolder (t : Tree) (p : Path) : Bool := (t.place? p).any t.isFolderAt

/-- Whether a path leads to a file or folder. -/
def has (t : Tree) (p : Path) : Bool :=
  (t.place? p).any fun place => t.isFolderAt place || (t.contentAt? place).isSome

/-- The places on the way to a place, the place itself left out. -/
def placesAbove (place : Place) : List Place :=
  (List.range place.length).map fun n => place.take n

/-- Reads a file. -/
def read (t : Tree) (p : Path) : Except Failure (List UInt8) :=
  match t.place? p with
  | none => .error (.fault .fileNotFound)
  | some place =>
    match t.contentAt? place with
    | some content => .ok content
    | none =>
      if t.isFolderAt place then .error (.fault .isDirectory)
      else if (placesAbove place).any fun q => (t.contentAt? q).isSome then
        .error (.fault .notADirectory)
      else .error (.fault .fileNotFound)

/-- Makes the folder at a place, unless it is there. `last` tells that no further one is to be made
inside it. -/
def addFolder (t : Tree) (place : Place) (last : Bool) : Except Failure Tree :=
  if t.isFolderAt place then .ok t
  else if (t.contentAt? place).isSome then
    .error (.fault (if last then .fileExists else .notADirectory))
  else .ok { t with folders := t.folders ++ [place] }

/-- Makes the folders that a list of names leads to from a place. -/
def makeFoldersFrom (t : Tree) (place : Place) : List String → Except Failure Tree
  | [] => .ok t
  | part :: rest =>
    if part == ".." then t.makeFoldersFrom place.dropLast rest
    else do
      let t ← t.addFolder (place ++ [part]) rest.isEmpty
      t.makeFoldersFrom (place ++ [part]) rest

/-- Makes the folder that a path leads to, and the folders above it. -/
def makeFolder (t : Tree) (p : Path) : Except Failure Tree := t.makeFoldersFrom (start p) p.parts

/-- Puts a content at a place. -/
def put (t : Tree) (place : Place) (content : List UInt8) : Tree :=
  if t.files.any (·.1 == place) then
    { t with files := t.files.map fun f => if f.1 == place then (place, content) else f }
  else { t with files := t.files ++ [(place, content)] }

/-- Writes a file into a folder that is there. -/
def write (t : Tree) (p : Path) (content : List UInt8) : Except Failure Tree :=
  match t.place? p with
  | none => .error (.fault .fileNotFound)
  | some place =>
    if t.isFolderAt place then .error (.fault .isDirectory)
    else if t.isFolderAt place.dropLast then .ok (t.put place content)
    else .error (.fault .fileNotFound)

/-- Writes a file, and makes the folders above it. -/
def writeDeep (t : Tree) (p : Path) (content : List UInt8) : Except Failure Tree := do
  (← t.makeFolder p.parent).write p content

/-- Removes a file. -/
def remove (t : Tree) (p : Path) : Except Failure Tree := do
  let _ ← t.read p
  match t.place? p with
  | some place => .ok { t with files := t.files.filter (·.1 != place) }
  | none => .ok t

/-- Moves a file to another path, in place of the file there. -/
def rename (t : Tree) (p q : Path) : Except Failure Tree := do
  let content ← t.read p
  (← t.remove p).write q content

/-- A path beside another one, whose name is longer than every name in use. -/
def pathBeside (t : Tree) (p : Path) : Path :=
  let lengths := (t.files.map (·.1) ++ t.folders).map fun q => (q.getLastD "").length
  let fill := "".pushn '_' (lengths.foldl (· + ·) 0)
  p.parent.child ("." ++ p.parts.getLastD "" ++ "." ++ fill ++ ".tmp")

/-- The name of what stands directly inside a folder. -/
def nameInside? (folder place : Place) : Option String :=
  if place.dropLast == folder && !place.isEmpty && place != folder then place.getLast? else none

/-- The paths of everything in a folder whose name ends as given, by increasing name. -/
def listEnding (t : Tree) (folder : Path) (ending : String) : List Path :=
  match t.place? folder with
  | none => []
  | some place =>
    let names := (t.files.map (·.1) ++ t.folders).filterMap (nameInside? place)
    let wanted := names.filter fun name => ending.toList.isSuffixOf name.toList
    (wanted.mergeSort fun a b => decide (a ≤ b)).map folder.join

end Tree

end UpgradeSafety.Files
