/-!
# Paths

A path is kept as it was spelled, and it is understood through its **components**: the root, a
leading `.`, every `..`, and the names. Repeated and trailing slashes and inner `.` segments
spell the same components, and all comparisons are made on components, so two spellings of one
path are the same key everywhere in this library.

Operations that return a path (`parent?`, `join`, `afterDir?`) keep the spelling of what is
left; `ofComponents` writes the one canonical spelling of a list of components.
-/

namespace ProjectBuild

/-- One component of a path. -/
inductive Component where
  /-- The leading `/` of an absolute path. -/
  | root
  /-- A leading `.` of a relative path. -/
  | current
  /-- A `..`, which is never folded away by reading a path. -/
  | parent
  /-- A name. -/
  | name (text : String)
  deriving DecidableEq, Repr, Inhabited

namespace Component

/-- Kinds of component ascend in this rank: root, `.`, `..`, names. -/
def rank : Component → Nat
  | root => 0
  | current => 1
  | parent => 2
  | name _ => 3

/-- The spelling of a component; the root is spelled by the slash that precedes all others. -/
def spelling : Component → String
  | root => ""
  | current => "."
  | parent => ".."
  | name text => text

/-- Components compare by kind, then names by their characters. -/
def compare : Component → Component → Ordering :=
  compareLex (compareOn rank) (compareOn spelling)

/-- The component that an inner segment stands for: nothing if it is empty or `.`. -/
def ofSegment? : List Char → Option Component
  | [] => none
  | ['.'] => none
  | ['.', '.'] => some parent
  | segment => some (name (String.ofList segment))

end Component

/-- A path, as spelled. -/
structure Path where
  text : String
  deriving Inhabited, Repr, DecidableEq

namespace Path

instance : Coe String Path := ⟨fun text => ⟨text⟩⟩

instance : ToString Path := ⟨Path.text⟩

/-! ## Segments -/

/-- The segments between slashes; a text without a slash is one segment. -/
def splitSlash : List Char → List (List Char)
  | [] => [[]]
  | c :: rest =>
    if c = '/' then [] :: splitSlash rest
    else match splitSlash rest with
      | [] => [[c]]
      | segment :: segments => (c :: segment) :: segments

/-- Segments written with a slash between neighbours. -/
def joinSlash : List (List Char) → List Char
  | [] => []
  | [segment] => segment
  | segment :: segments => segment ++ '/' :: joinSlash segments

/-- A segment together with the component it stands for, if any. -/
abbrev Marked := List Char × Option Component

def markInner (segments : List (List Char)) : List Marked :=
  segments.map fun segment => (segment, Component.ofSegment? segment)

/-- A path cut into its leading slash and its marked segments. Only the first segment of a
relative path can stand for `.`. -/
structure Cut where
  rooted : Bool
  segments : List Marked

def cut (p : Path) : Cut :=
  match p.text.toList with
  | '/' :: rest => ⟨true, markInner (splitSlash rest)⟩
  | chars =>
    match splitSlash chars with
    | ['.'] :: rest => ⟨false, (['.'], some .current) :: markInner rest⟩
    | segments => ⟨false, markInner segments⟩

/-- The spelling of a cut. -/
def Cut.toPath (c : Cut) : Path :=
  let body := joinSlash (c.segments.map Prod.fst)
  ⟨String.ofList (if c.rooted then '/' :: body else body)⟩

/-- Segments without the meaningless ones in front. -/
def dropBlank : List Marked → List Marked
  | (_, none) :: rest => dropBlank rest
  | segments => segments

/-- Segments without the meaningless ones at the end. -/
def dropBlankEnd (segments : List Marked) : List Marked :=
  (dropBlank segments.reverse).reverse

/-! ## Components -/

/-- The components of a path. -/
def components (p : Path) : List Component :=
  let c := p.cut
  let body := c.segments.filterMap Prod.snd
  if c.rooted then .root :: body else body

/-- The canonical spelling of components: names with one slash between neighbours. -/
def ofComponents : List Component → Path
  | .root :: rest => ⟨"/" ++ "/".intercalate (rest.map Component.spelling)⟩
  | rest => ⟨"/".intercalate (rest.map Component.spelling)⟩

def isAbsolute (p : Path) : Bool :=
  p.cut.rooted

/-- Number of components. -/
def depth (p : Path) : Nat :=
  p.components.length

/-- Two paths are the same if their components are. -/
def same (p q : Path) : Bool :=
  p.components == q.components

/-- Paths compare component by component; a path comes before everything inside it. -/
def compare (p q : Path) : Ordering :=
  List.compareLex Component.compare p.components q.components

/-- The last component, if it is a name. -/
def fileName? (p : Path) : Option String :=
  match p.components.getLast? with
  | some (.name text) => some text
  | _ => none

/-- A name up to its last dot. A name without a dot, or whose only dot leads, is its own stem. -/
def stemOf (name : String) : String :=
  let reversed := name.toList.reverse
  match reversed.dropWhile (· != '.') with
  | _ :: before@(_ :: _) => String.ofList before.reverse
  | _ => name

/-- The file name up to its last dot. -/
def fileStem? (p : Path) : Option String :=
  p.fileName?.map stemOf

/-! ## Moving between paths -/

/-- The path without its last component, spelled as before. The root and the empty path have
none. -/
def parent? (p : Path) : Option Path :=
  let c := p.cut
  match (dropBlankEnd c.segments).reverse with
  | [] => none
  | _ :: rest => some { c with segments := (dropBlank rest).reverse }.toPath

/-- The directory of a path; the empty path where there is none. -/
def dir (p : Path) : Path :=
  p.parent?.getD ⟨""⟩

/-- The path `other` as seen from `base`. An absolute path replaces the base. -/
def join (base other : Path) : Path :=
  if other.isAbsolute then other
  else if base.text = "" then other
  else if base.text.toList.getLast? = some '/' then ⟨base.text ++ other.text⟩
  else ⟨base.text ++ "/" ++ other.text⟩

/-- The path with its file name replaced. -/
def withFileName (p : Path) (name : String) : Path :=
  match p.fileName? with
  | some _ => p.dir.join ⟨name⟩
  | none => p.join ⟨name⟩

/-- Whether `p` equals `dir` or lies inside it. -/
def isWithin (dir p : Path) : Bool :=
  dir.components.isPrefixOf p.components

/-- Segments after the first `n` that mean something. -/
def dropMeaning : Nat → List Marked → List Marked
  | 0, segments => segments
  | _ + 1, [] => []
  | n + 1, (_, none) :: rest => dropMeaning (n + 1) rest
  | n + 1, (_, some _) :: rest => dropMeaning n rest

/-- What is left of a path below a directory that contains it, spelled as before. -/
def afterDir? (dir p : Path) : Option Path :=
  if isWithin dir p then
    let c := p.cut
    let n := dir.components.length
    some (
      if n = 0 then { c with segments := dropBlankEnd c.segments }.toPath
      else
        let rest := dropMeaning (if c.rooted then n - 1 else n) c.segments
        Cut.toPath ⟨false, dropBlankEnd (dropBlank rest)⟩)
  else none

/-- The first `n` proper ancestors, nearest first. -/
def ancestorsUpTo : Nat → Path → List Path
  | 0, _ => []
  | n + 1, p =>
    match p.parent? with
    | none => []
    | some parent => parent :: ancestorsUpTo n parent

/-- The proper ancestors of a path, nearest first: one for each component. -/
def ancestors (p : Path) : List Path :=
  ancestorsUpTo p.depth p

end Path

end ProjectBuild
