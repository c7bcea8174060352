import ProjectBuild.Path.Basic

/-!
# Maps and sets of paths

Finite maps keyed by path, held as a list in path order. Keys are compared by components;
replacing a value keeps the spelling under which the key was first inserted.
-/

namespace ProjectBuild

/-- A finite map from paths, in path order. -/
structure PathMap (α : Type) where
  entries : List (Path × α) := []
  deriving Inhabited, Repr, DecidableEq

namespace PathMap

variable {α : Type}

def empty : PathMap α := {}

def insertEntry (key : Path) (value : α) : List (Path × α) → List (Path × α)
  | [] => [(key, value)]
  | (k, v) :: rest =>
    match Path.compare key k with
    | .lt => (key, value) :: (k, v) :: rest
    | .eq => (k, value) :: rest
    | .gt => (k, v) :: insertEntry key value rest

/-- Binds `key`, replacing the value it had. -/
def insert (m : PathMap α) (key : Path) (value : α) : PathMap α :=
  ⟨insertEntry key value m.entries⟩

def get? (m : PathMap α) (key : Path) : Option α :=
  (m.entries.find? fun entry => entry.1.same key).map Prod.snd

def contains (m : PathMap α) (key : Path) : Bool :=
  m.entries.any fun entry => entry.1.same key

def erase (m : PathMap α) (key : Path) : PathMap α :=
  ⟨m.entries.filter fun entry => !entry.1.same key⟩

def size (m : PathMap α) : Nat :=
  m.entries.length

def keys (m : PathMap α) : List Path :=
  m.entries.map Prod.fst

/-- Bindings one after the other: a later one of a key replaces the value and leaves the key as it
is spelled. -/
def insertAll (bindings : List (Path × α)) : PathMap α :=
  bindings.foldl (fun m entry => m.insert entry.1 entry.2) empty

/-- Bindings at once: a later one of a key replaces an earlier one, the spelling of the key as
well. -/
def ofList (bindings : List (Path × α)) : PathMap α :=
  bindings.foldl (fun m entry => (m.erase entry.1).insert entry.1 entry.2) empty

end PathMap

/-- A finite set of paths, in path order. -/
abbrev PathSet := PathMap Unit

namespace PathSet

/-- Adds a path; one that is present keeps its spelling. -/
def add (s : PathSet) (p : Path) : PathSet :=
  s.insert p ()

def ofPaths (paths : List Path) : PathSet :=
  paths.foldl add PathMap.empty

end PathSet

namespace Path

/-- Puts a path into a list in path order, behind the paths that equal it. -/
def insertSorted (p : Path) : List Path → List Path
  | [] => [p]
  | q :: rest => if compare p q = .lt then p :: q :: rest else q :: insertSorted p rest

/-- The paths in path order; paths that are the same keep their order. -/
def sort (paths : List Path) : List Path :=
  paths.foldl (fun sorted p => insertSorted p sorted) []

/-- The list `p :: rest` without the paths that equal their left neighbour. -/
def dedupFrom (p : Path) : List Path → List Path
  | [] => [p]
  | q :: rest => if p.same q then dedupFrom p rest else p :: dedupFrom q rest

/-- A list without the paths that equal their left neighbour. -/
def dedupSorted : List Path → List Path
  | [] => []
  | p :: rest => dedupFrom p rest

end Path

end ProjectBuild
