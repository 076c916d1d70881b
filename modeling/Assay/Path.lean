-- Names of files: how a path is spelt, and what stands under it in a tree of
-- files.
namespace Assay

/-! ## Paths -/

/-- A path: the slashes it starts from, if it is absolute, and its parts. -/
structure Path where
  root : String
  parts : List String
  deriving DecidableEq, Repr

namespace Path

/-- The root of a path spelt like this. Two slashes at the front are kept, three are one. -/
def rootOf (text : List Char) : String :=
  match (text.takeWhile (· = '/')).length with
  | 0 => ""
  | 2 => "//"
  | _ => "/"

/-- The path spelt like this. Empty parts and single points say nothing and are dropped. -/
def ofString (text : String) : Path :=
  ⟨rootOf text.toList, (text.splitOn "/").filter (fun part => part ≠ "" ∧ part ≠ ".")⟩

/-- The spelling of a path. The path without parts is a single point. -/
def render (path : Path) : String :=
  if path.root = "" ∧ path.parts = [] then "." else path.root ++ "/".intercalate path.parts

/-- The most bytes that one part may have. -/
def maxPartSize : Nat := 255

/-- The most bytes that a whole path may have. -/
def maxSize : Nat := 4095

end Path

/-! ## Files -/

/-- What stands under a path. -/
inductive Entry where
  | missing
  | directory
  | file (bytes : List UInt8)
  deriving DecidableEq, Repr

/-- Why a path cannot be looked up. -/
inductive PathFault where
  /-- A part, or the path as a whole, has more bytes than names may have. -/
  | nameTooLong
  deriving DecidableEq, Repr

/-- A working directory, given by what stands in it under paths of parts. A path leads through
directories that need not be listed themselves. -/
structure FileTree where
  entries : List (List String × Entry)

namespace FileTree

/-- What stands under some parts. -/
def entryAt (tree : FileTree) (parts : List String) : Entry :=
  match tree.entries.lookup parts with
  | some entry => entry
  | none =>
    if parts = [] ∨ tree.entries.any (fun entry => parts.isPrefixOf entry.1) then .directory
    else .missing

/-- Where some parts lead from a place in the tree, or from outside of it (`none`). A step is
possible from a directory only, and outside there are just the directories further up. A part is
measured when its turn comes: a path that leads nowhere earlier is just missing. -/
def walk (tree : FileTree) : Option (List String) → List String → Except PathFault Entry
  | some place, [] => .ok (tree.entryAt place)
  | none, [] => .ok .directory
  | some place, part :: rest =>
    if tree.entryAt place ≠ .directory then .ok .missing
    else if part = ".." then
      walk tree (if place = [] then none else some place.dropLast) rest
    else if Path.maxPartSize < part.utf8ByteSize then .error .nameTooLong
    else walk tree (some (place ++ [part])) rest
  | none, part :: rest =>
    if part = ".." then walk tree none rest
    else if Path.maxPartSize < part.utf8ByteSize then .error .nameTooLong
    else .ok .missing

/-- What stands under a path, from the working directory on. No file has a zero character in its
name, so that such a path is missing whatever its length; any other is measured as a whole
before it is followed. -/
def find (tree : FileTree) (path : Path) : Except PathFault Entry :=
  if '\x00' ∈ path.render.toList then .ok .missing
  else if Path.maxSize < path.render.utf8ByteSize then .error .nameTooLong
  else tree.walk (if path.root = "" then some [] else none) path.parts

end FileTree

end Assay
