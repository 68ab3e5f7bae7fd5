/-
A store of directories and files. Paths are walked name by name, and the first name that cannot be
passed decides the error. Of the operations only creating and writing change a store, and only at
one path. Files of a store are converted one after the other, each as those before it have left it.
-/
import Redate.Stream

namespace Redate

/-- The names from the root of a store down to an entry. -/
abbrev Path := List String

/-- Directories and files by their paths. -/
structure Store where
  directories : List Path
  files : List (Path × ByteArray)

namespace Store

/-! ## Entries -/

/-- What a path can lead to. -/
inductive Entry
  | directory
  | file (bytes : ByteArray)

/-- What stands at a path. The root is a directory of every store. -/
def get? (s : Store) (p : Path) : Option Entry :=
  if p = [] ∨ p ∈ s.directories then some .directory
  else (s.files.lookup p).map .file

/-- The store with a file at a path, in place of any file there. -/
def put (s : Store) (p : Path) (bytes : ByteArray) : Store :=
  { s with files := (p, bytes) :: s.files.filter (·.1 != p) }

theorem lookup_filter_ne {files : List (Path × ByteArray)} {p q : Path} (h : q ≠ p) :
    (files.filter (·.1 != p)).lookup q = files.lookup q := by
  induction files with
  | nil => rfl
  | cons f files ih =>
    by_cases hf : f.1 = p
    · have hq : (q == f.1) = false := by simpa [hf] using h
      rw [List.filter_cons_of_neg (by simp [hf]), ih, List.lookup_cons, hq]
    · rw [List.filter_cons_of_pos (by simp [hf]), List.lookup_cons, List.lookup_cons, ih]

theorem get?_put_self {s : Store} {p : Path} {bytes : ByteArray}
    (h : ¬ (p = [] ∨ p ∈ s.directories)) : (s.put p bytes).get? p = some (.file bytes) := by
  simp [get?, put, h]

theorem get?_put_of_ne {s : Store} {p q : Path} {bytes : ByteArray} (h : q ≠ p) :
    (s.put p bytes).get? q = s.get? q := by
  have hq : (q == p) = false := by simpa using h
  simp [get?, put, List.lookup_cons, hq, lookup_filter_ne h]

/-! ## Paths -/

/-- The names of a written path, between its slashes. -/
def splitSlashes : List Char → List (List Char)
  | [] => [[]]
  | c :: rest =>
    if c = '/' then [] :: splitSlashes rest
    else
      match splitSlashes rest with
      | [] => [[c]]
      | name :: names => (c :: name) :: names

/-- The names of a written path as texts. -/
def pathNames (path : String) : List String :=
  (splitSlashes path.toList).map String.ofList

/-- The longest name of an entry, in bytes. -/
def nameLimit : Nat := 255

/-- The longest written path, in bytes. -/
def pathLimit : Nat := 4095

/-- Where a walk over a path ends. -/
inductive Place
  | directory
  | file (p : Path) (bytes : ByteArray)
  /-- Nothing has this name in the directory that the path leads to. -/
  | vacant (p : Path)

/-- The walk over the names of a path from the directory `here`. A file can only be the last name;
a directory may be passed by an empty name or a dot, and left by two dots. -/
def walk (s : Store) (here : Path) : List String → Except FileError Place
  | [] => .ok .directory
  | name :: names =>
    if name = "" ∨ name = "." then s.walk here names
    else if name = ".." then s.walk here.dropLast names
    else if nameLimit < name.utf8ByteSize then .error .nameTooLong
    else
      match s.get? (here ++ [name]) with
      | some .directory => s.walk (here ++ [name]) names
      | some (.file bytes) =>
        if names = [] then .ok (.file (here ++ [name]) bytes) else .error .notADirectory
      | none => if names = [] then .ok (.vacant (here ++ [name])) else .error .notFound

/-- Why a written path is refused before any of its names is looked at. -/
def refusal? (path : String) : Option FileError :=
  if '\x00' ∈ path.toList then some .nulInName
  else if pathLimit < path.utf8ByteSize then some .nameTooLong
  else none

/-- Where a written path leads to, from the root. -/
def resolve (s : Store) (path : String) : Except FileError Place :=
  match refusal? path with
  | some cause => .error cause
  | none => s.walk [] (pathNames path)

/-! ## Reading and creating -/

/-- The bytes of a file. -/
def read (s : Store) (path : String) : Except FileError ByteArray :=
  match s.resolve path with
  | .error cause => .error cause
  | .ok .directory => .error .isADirectory
  | .ok (.file _ bytes) => .ok bytes
  | .ok (.vacant _) => .error .notFound

/-- The names before the last one, empty ones at the end apart; none if there is no last name. -/
def namesBefore? (names : List String) : Option (List String) :=
  match names.reverse.dropWhile (· = "") with
  | [] => none
  | _ :: before => some before.reverse

/-- Where a file of this path can be created. A path that ends in a slash names a directory, there
or not, provided that the way to it can be walked. -/
def creatable (s : Store) (path : String) : Except FileError Path :=
  match refusal? path with
  | some cause => .error cause
  | none =>
    match namesBefore? (pathNames path) with
    | none => .error .isADirectory
    | some before =>
      if path.toList.getLast? = some '/' then
        (s.walk [] (before ++ [""])).bind fun _ => .error .isADirectory
      else
        match s.walk [] (pathNames path) with
        | .error cause => .error cause
        | .ok .directory => .error .isADirectory
        | .ok (.file p _) | .ok (.vacant p) => .ok p

/-- The files of a store: a file is created empty, in place of any file of its path. -/
def fileSystem : FileSystem (StateM Store) where
  read path := fun s => (s.read path, s)
  create path := fun s =>
    match s.creatable path with
    | .error cause => (.error cause, s)
    | .ok p => (.ok fun bytes s => (.ok (), s.put p bytes), s.put p ByteArray.empty)

/-! ## Building and listing -/

/-- Every directory that leads to a path, the path included. -/
def ancestors (p : Path) : List Path :=
  (List.range p.length).map fun n => p.take (n + 1)

/-- The store with these directories and files, and the directories that lead to them. -/
def ofEntries (directories : List String) (files : List (String × ByteArray)) : Store :=
  let names (path : String) : Path := (pathNames path).filter (· ≠ "")
  { directories :=
      directories.flatMap (fun d => ancestors (names d))
        ++ files.flatMap (fun f => ancestors (names f.1).dropLast)
    files := files.map fun f => (names f.1, f.2) }

/-- The files of a store by their written paths. -/
def listing (s : Store) : List (String × ByteArray) :=
  s.files.map fun (p, bytes) => ("/".intercalate p, bytes)

end Store

/-! ## Conversions -/

/-- The conversion of one file of a store into another, and the store afterwards. -/
def Converter.convertStored (c : Converter) (s : Store) (source target : String) :
    Except FileError Report × Store :=
  let ((result, _), s) := c.convertFile Store.fileSystem source target s
  (result, s)

/-- A file to convert, where to, and with which formats. -/
structure FileTask where
  converter : Converter
  source : String
  target : String

namespace Store

/-- The store after a run of conversions. -/
def afterTasks (s : Store) (tasks : List FileTask) : Store :=
  tasks.foldl (fun s t => (t.converter.convertStored s t.source t.target).2) s

/-- What the conversions of a run return, each on the store that the ones before it have left. -/
def convertTasks (s : Store) : List FileTask → List (Except FileError Report)
  | [] => []
  | t :: tasks =>
    let (result, s') := t.converter.convertStored s t.source t.target
    result :: s'.convertTasks tasks

end Store

end Redate
