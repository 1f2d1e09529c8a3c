import Mathlib.Data.List.Basic

namespace Paths

structure Name where
  text : String
  valid : text ∉ ["", ".", ".."] ∧ '/' ∉ text.toList ∧ '\x00' ∉ text.toList

inductive Node where
  | file
  | special
  | directory (entries : List (Name × Node))

abbrev Location := List String

namespace Node

def entry? (name : String) : Node → Option Node
  | directory entries => (entries.find? (·.1.text == name)).map Prod.snd
  | _ => none

def at? (root : Node) : Location → Option Node
  | [] => some root
  | name :: rest => (root.entry? name).bind (·.at? rest)

def isDirectory : Node → Bool
  | directory _ => true
  | _ => false

def isFile : Node → Bool
  | file => true
  | _ => false

/-- One component of a path, looked up from `here`; the parent of the root is the root. -/
def step (root : Node) (here : Location) (name : String) : Option Location :=
  if (root.at? here).any isDirectory then
    if name = "." then some here
    else if name = ".." then some here.dropLast
    else if (root.at? (here ++ [name])).isSome then some (here ++ [name])
    else none
  else none

def resolve (root : Node) (start : Location) (parts : List String) : Option Location :=
  parts.foldlM root.step start

end Node

def lexicalStep (here : Location) (name : String) : Location :=
  if name = "." then here else if name = ".." then here.dropLast else here ++ [name]

def lexical (start : Location) (parts : List String) : Location := parts.foldl lexicalStep start

theorem Node.step_lexical {root : Node} {here there : Location} {name : String}
    (stepped : root.step here name = some there) : there = lexicalStep here name := by
  unfold step at stepped
  unfold lexicalStep
  split at stepped
  · split at stepped
    · cases stepped
      rw [if_pos ‹_›]
    · split at stepped
      · cases stepped
        rw [if_neg ‹_›, if_pos ‹_›]
      · split at stepped
        · cases stepped
          rw [if_neg ‹_›, if_neg ‹_›]
        · cases stepped
  · cases stepped

/-- In a tree without links a path can lead nowhere but where its text says. -/
theorem Node.resolve_lexical {root : Node} {start there : Location} {parts : List String}
    (resolved : root.resolve start parts = some there) : there = lexical start parts := by
  induction parts generalizing start with
  | nil =>
    cases resolved
    rfl
  | cons name parts ih =>
    obtain ⟨here, stepped, rest⟩ := Option.bind_eq_some_iff.mp resolved
    rw [ih rest, Node.step_lexical stepped]
    rfl

theorem Node.resolve_append (root : Node) (start : Location) (first second : List String) :
    root.resolve start (first ++ second) = (root.resolve start first).bind (root.resolve · second) :=
  List.foldlM_append

structure Path where
  absolute : Bool
  parts : List String

namespace Path

def parse (text : String) : Path where
  absolute := text.toList.head? = some '/'
  parts := ((text.toList.splitOn '/').map String.ofList).filter fun part => part ≠ "" ∧ part ≠ "."

def join (left right : Path) : Path :=
  if right.absolute then right else ⟨left.absolute, left.parts ++ right.parts⟩

end Path

structure FileSystem where
  root : Node
  cwd : Location

namespace FileSystem

variable (fs : FileSystem)

def locate (path : Path) : Option Location := fs.root.resolve (if path.absolute then [] else fs.cwd) path.parts

def isDir (path : Path) : Bool := ((fs.locate path).bind fs.root.at?).any Node.isDirectory

def isFile (path : Path) : Bool := ((fs.locate path).bind fs.root.at?).any Node.isFile

def Contains (dir path : Path) : Prop :=
  ∃ home, fs.locate dir = some home ∧ ∀ there, fs.locate path = some there → home <+: there

variable {fs}

theorem locate_join_relative {left right : Path} (relative : right.absolute = false) :
    fs.locate (left.join right) = (fs.locate left).bind (fs.root.resolve · right.parts) := by
  rw [Path.join, relative, locate, locate]
  exact fs.root.resolve_append _ left.parts right.parts

theorem locate_join_absolute {left right : Path} (absolute : right.absolute = true) :
    fs.locate (left.join right) = fs.root.resolve [] right.parts := by
  rw [Path.join, if_pos absolute, locate, if_pos absolute]

theorem located_of_isDir {path : Path} (directory : fs.isDir path = true) : ∃ home, fs.locate path = some home := by
  cases located : fs.locate path with
  | some home => exact ⟨home, rfl⟩
  | none =>
    rw [isDir, located] at directory
    cases directory

theorem located_of_isFile {path : Path} (file : fs.isFile path = true) : ∃ there, fs.locate path = some there := by
  cases located : fs.locate path with
  | some there => exact ⟨there, rfl⟩
  | none =>
    rw [isFile, located] at file
    cases file

def target (home : Location) (right : Path) : Location := lexical (if right.absolute then [] else home) right.parts

theorem locate_join {left right : Path} {home there : Location} (located : fs.locate left = some home)
    (joined : fs.locate (left.join right) = some there) : there = target home right := by
  unfold target
  cases absolute : right.absolute with
  | true =>
    rw [locate_join_absolute absolute] at joined
    exact Node.resolve_lexical joined
  | false =>
    rw [locate_join_relative absolute, located, Option.bind_some] at joined
    exact Node.resolve_lexical joined

end FileSystem

end Paths
