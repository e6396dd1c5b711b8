import TargetDiscovery.Config.Files

/-!
# Trees of files

A path is followed component by component from the working directory; an empty component and `.`
stay, `..` goes up, and each but the last must lead to a directory. A directory itself can be
opened and reads as empty.
-/

set_option autoImplicit false

namespace TargetDiscovery

/-- Where a path leads: to a place below the working directory, or above it. -/
inductive Place
  | below (components : List Bytes)
  | above
  deriving DecidableEq, Repr

namespace Place

def root : Place := below []

def parent : Place → Place
  | below [] => above
  | below components => below components.dropLast
  | above => above

/-- What has a name at a place; above the working directory there is nothing to be found. -/
def child? (name : Bytes) : Place → Option Place
  | below components => some (below (components ++ [name]))
  | above => none

def enter? (component : Bytes) (p : Place) : Option Place :=
  if component.isEmpty || component == ascii "." then some p
  else if component == ascii ".." then some p.parent
  else p.child? component

end Place

/-- The contents of files by the components of their paths. -/
structure Tree where
  contents : List (List Bytes × Bytes)

namespace Tree

def components (path : Bytes) : List Bytes :=
  (Bytes.pieces Path.separator path).filter fun c => !(c.isEmpty || c == ascii ".")

def ofList (files : List (Bytes × Bytes)) : Tree :=
  ⟨files.map fun (path, text) => (components path, text)⟩

/-- Whether there is a directory: files lie in it, or it is the working directory or above. -/
def isDirectory (t : Tree) : Place → Bool
  | .above => true
  | .below components =>
    components.isEmpty || t.contents.any fun (p, _) =>
      components.length < p.length && components.isPrefixOf p

/-- Follows components; each step must start in a directory. -/
def follow (t : Tree) (p : Place) : List Bytes → Option Place
  | [] => some p
  | c :: rest =>
    if t.isDirectory p then
      match p.enter? c with
      | some next => t.follow next rest
      | none => none
    else none

/-- The content of the file at a place; a directory reads as empty. -/
def contentAt? (t : Tree) (p : Place) : Option Bytes :=
  match t.contents.find? fun (c, _) => Place.below c = p with
  | some (_, text) => some text
  | none => if t.isDirectory p then some [] else none

/-- The content of what a path leads to; a path ends at its first zero byte. -/
def read? (t : Tree) (path : Bytes) : Option Bytes :=
  let path := Bytes.toNul path
  if path.isEmpty || Path.isAbsolute path then none
  else (t.follow .root (Bytes.pieces Path.separator path)).bind t.contentAt?

def files (t : Tree) : Files := ⟨t.read?⟩

end Tree

end TargetDiscovery
