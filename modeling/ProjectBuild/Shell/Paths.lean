import ProjectBuild.Shell.Fields
import ProjectBuild.Shell.State

/-!
# Paths that match

A field with a pattern in it stands for all paths that match, if there are any. Patterns match
between slashes, and a name that begins with a dot only matches a pattern that does.
-/

namespace ProjectBuild.Shell.Paths

/-- Characters between slashes. -/
def segments : List Marked → List (List Marked)
  | [] => [[]]
  | (c, quoted) :: rest =>
    if c == '/' then [] :: segments rest
    else match segments rest with
      | [] => [[(c, quoted)]]
      | segment :: others => ((c, quoted) :: segment) :: others

/-- The names in a directory that a pattern matches, as bytes. -/
def matchingNames (s : State) (dir : String) (pattern : List PatternItem) : List String :=
  match s.node? (if dir = "" then "." else dir) with
  | .ok (location, .directory _) =>
    let names := "." :: ".." :: (s.world.disk.namesIn location).map Raw.ofText
    names.filter fun name =>
      Pattern.accepts pattern name.toList &&
        (name.toList.head? != some '.' || pattern.head? == some (.exactly '.'))
  | _ => []

/-- Whether a path names anything; a link need not lead anywhere. -/
def names (s : State) (raw : String) : Bool :=
  match s.world.disk.locateEntry s.directory (State.path raw) with
  | .ok location => (s.world.disk.node? location).isSome
  | .error _ => false

/-- The paths that begin in one way and go on with segments that match. -/
def matching (s : State) (start : String) : List (List Marked) → List String
  | [] => [start]
  | [segment] =>
    if Pattern.isActive segment then
      (matchingNames s start (Pattern.items segment)).map (start ++ ·)
    else
      let path := start ++ String.ofList (Pattern.literal segment)
      if names s path then [path] else []
  | segment :: rest =>
    if Pattern.isActive segment then
      (matchingNames s start (Pattern.items segment)).flatMap fun name =>
        matching s (start ++ name ++ "/") rest
    else matching s (start ++ String.ofList (Pattern.literal segment) ++ "/") rest

/-- The paths that a field stands for; itself, if nothing matches. -/
def ofField (s : State) (field : List Atom) : List String :=
  let chars := Piece.marked field
  let itself := [String.ofList (chars.map Prod.fst)]
  if s.isSet 'f' || !(segments chars).any Pattern.isActive then itself
  else match matching s "" (segments chars) with
    | [] => itself
    | found => found.mergeSort fun a b => decide (a ≤ b)

end ProjectBuild.Shell.Paths
