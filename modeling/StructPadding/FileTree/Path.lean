-- SUMMARY: Paths as written, compared by their components.

/-!
# Paths

A path keeps the spelling it was given. Two paths are compared by their components: doubled slashes, slashes
at the end and dots in the middle make no difference, a dot at the beginning does.
-/

namespace StructPadding

/-- One step of a path. The order of the constructors is the order of components. -/
inductive Component
  | root
  | current
  | parent
  | name (s : String)
  deriving DecidableEq, Ord, Repr

structure Path where
  text : String
  deriving DecidableEq, Repr, Inhabited

namespace Path

/-- The pieces of a path between its slashes. -/
def pieces (p : Path) : List String := (p.text.toList.splitOn '/').map String.ofList

def isAbsolute (p : Path) : Bool := p.text.toList.head? == some '/'

/-- The component of a piece other than a leading dot, if it is one. -/
def component? : String → Option Component
  | "" | "." => none
  | ".." => some .parent
  | s => some (.name s)

def components (p : Path) : List Component :=
  if p.isAbsolute then .root :: p.pieces.filterMap component?
  else if p.pieces.head? = some "." then .current :: p.pieces.filterMap component?
  else p.pieces.filterMap component?

/-- Paths in order of their components. -/
def compare (p q : Path) : Ordering := Ord.compare p.components q.components

/-- Whether two paths have the same components. -/
def same (p q : Path) : Bool := p.components == q.components

/-- The components of the directory that holds the path. -/
def directory (p : Path) : List Component := p.components.dropLast

/-- The path of an entry of a directory. -/
def entry (p : Path) (name : String) : Path :=
  if p.text.toList.getLast? = some '/' then ⟨p.text ++ name⟩ else ⟨p.text ++ "/" ++ name⟩

/-- A list of paths without those that follow one with the same components. -/
def dedup : List Path → List Path
  | [] => []
  | [p] => [p]
  | p :: q :: rest => if p.same q then dedup (p :: rest) else p :: dedup (q :: rest)

/-- The paths in order, each once, in the spelling that comes first in the list. -/
def normalize (ps : List Path) : List Path := dedup (ps.mergeSort fun p q => (p.compare q).isLE)

end Path

end StructPadding
