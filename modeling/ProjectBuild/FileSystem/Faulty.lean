import ProjectBuild.FileSystem.Basic
import ProjectBuild.Path.Map

/-!
# Faulty files

A filesystem on which certain calls fail, to see what the rest of the library makes of it. Asking
whether a file exists and when it changed never fails.
-/

namespace ProjectBuild

/-- The paths on which each kind of call fails. -/
structure FaultPlan where
  read : List Path := []
  write : List Path := []
  remove : List Path := []
  list : List Path := []
  deriving Inhabited

/-- A filesystem under a plan of faults. -/
structure FaultyFs (σ : Type) where
  files : σ
  plan : FaultPlan := {}

namespace FaultyFs

/-- Whether a plan names a path. -/
def strikes (paths : List Path) (path : Path) : Bool :=
  paths.any path.same

def injected (path : Path) : IoFailure :=
  ⟨path, .injected⟩

variable {σ : Type}

/-- A call that leads to a new state, unless it is to fail. -/
def guarded {α : Type} (fs : FaultyFs σ) (paths : List Path) (path : Path)
    (call : Except IoFailure α × σ) : Except IoFailure α × FaultyFs σ :=
  if strikes paths path then (.error (injected path), fs)
  else (call.1, { fs with files := call.2 })

instance [FileSystem σ] : FileSystem (FaultyFs σ) where
  isFile fs := FileSystem.isFile fs.files
  modified? fs := FileSystem.modified? fs.files
  read fs path :=
    if strikes fs.plan.read path then ⟨.error (injected path), []⟩
    else FileSystem.read fs.files path
  list fs dir prune :=
    if strikes fs.plan.list dir then ⟨.error (injected dir), []⟩
    else FileSystem.list fs.files dir prune
  write fs path text := fs.guarded fs.plan.write path (FileSystem.write fs.files path text)
  replace fs path text := fs.guarded fs.plan.write path (FileSystem.replace fs.files path text)
  remove fs path := fs.guarded fs.plan.remove path (FileSystem.remove fs.files path)
  fileBound fs := FileSystem.fileBound fs.files

end FaultyFs

end ProjectBuild
