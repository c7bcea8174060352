import ProjectBuild.FileSystem.Basic
import ProjectBuild.Path.Map

/-!
# Files in memory

A filesystem that is a map from paths to files. There are no directories apart from the files in
them. A logical clock advances by one second with every write, so a file written later always has
a later time.
-/

namespace ProjectBuild

structure MemoryFile where
  content : ByteArray
  modified : Time
  deriving Inhabited

structure MemoryFs where
  files : PathMap MemoryFile := {}
  /-- Seconds on the clock. -/
  clock : Nat := 0
  deriving Inhabited

namespace MemoryFs

/-- The time of the next write. -/
def nextTime (fs : MemoryFs) : Time :=
  .ofEpoch (fs.clock + 1) 0

/-- Adds or replaces a file. -/
def put (fs : MemoryFs) (path : Path) (content : ByteArray) : MemoryFs :=
  ⟨fs.files.insert path ⟨content, fs.nextTime⟩, fs.clock + 1⟩

/-- Gives a file a new time; one that does not exist is created empty. -/
def touch (fs : MemoryFs) (path : Path) : MemoryFs :=
  match fs.files.get? path with
  | some file => fs.put path file.content
  | none => fs.put path ByteArray.empty

/-- The contents of a file, or why they cannot be had. -/
def text (fs : MemoryFs) (path : Path) : Except IoFailure String :=
  match fs.files.get? path with
  | none => .error ⟨path, .absent⟩
  | some file =>
    match Utf8.decode file.content with
    | .ok text => .ok text
    | .error fault => .error ⟨path, .notText fault⟩

/-- Whether a file lies below `dir` with no pruned directory in between. -/
def isListed (dir : Path) (prune : Path → Bool) (file : Path) : Bool :=
  Path.isWithin dir file && !file.same dir &&
    !(file.ancestors.takeWhile fun ancestor => !ancestor.same dir).any prune

/-- The files below a directory. -/
def listed (fs : MemoryFs) (dir : Path) (prune : Path → Bool) : List Path :=
  fs.files.keys.filter (isListed dir prune)

instance : FileSystem MemoryFs where
  isFile fs path := fs.files.contains path
  modified? fs path := (fs.files.get? path).map MemoryFile.modified
  read fs path := ⟨fs.text path, [.read path]⟩
  list fs dir prune := ⟨.ok (fs.listed dir prune), []⟩
  write fs path text := (.ok (), fs.put path text.toUTF8)
  replace fs path text := (.ok (), fs.put path text.toUTF8)
  remove fs path := (.ok (fs.files.contains path), { fs with files := fs.files.erase path })
  fileBound fs := fs.files.size

end MemoryFs

end ProjectBuild
