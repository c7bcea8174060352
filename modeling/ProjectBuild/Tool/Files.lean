import ProjectBuild.Tool.Basic

/-!
# Tools on files

Making, copying, moving, linking, removing and listing files and directories.
-/

namespace ProjectBuild.Tool

/-! ## Paths -/

/-- The last name in a path. -/
def baseName (file : String) : String :=
  let chars := (file.toList.reverse.dropWhile (· == '/')).reverse
  if chars.isEmpty then (if file = "" then "" else "/")
  else String.ofList ((chars.reverse.takeWhile (· != '/')).reverse)

/-- What stands in front of the last name in a path. -/
def parentName (file : String) : String :=
  let chars := file.toList.reverse.dropWhile (· == '/')
  let above := (chars.dropWhile (· != '/')).dropWhile (· == '/')
  if above.isEmpty then (if file.toList.head? == some '/' then "/" else ".")
  else String.ofList above.reverse

/-- A path to a name in a directory. -/
def below (dir name : String) : String :=
  if dir.toList.getLast? == some '/' then dir ++ name else dir ++ "/" ++ name

/-- The names in a directory. -/
def namesIn (location : Location) : Tool (List String) := do
  return ((← get).disk.namesIn location).map Raw.ofText

/-- Whether anything, if only a link, goes by a path. -/
def exists? (file : String) : Tool Bool := do
  return (← findEntry file).toOption.isSome

/-- Reports a change that failed. -/
def report (problem : Option SystemFault) (text : String) : Tool Nat := do
  match problem with
  | none => return 0
  | some fault =>
    complain (text ++ ": " ++ fault.phrase)
    return 1

/-! ## Making and removing -/

/-- The paths above a path that can be made on the way to it, the shortest one first. -/
def pathsTo (file : String) : List String :=
  let chars := file.toList
  ((List.range (chars.length + 1)).filterMap fun n =>
    if 0 < n && (chars[n]? == some '/' || n == chars.length) && chars[n - 1]? != some '/' then
      some (String.ofList (chars.take n))
    else none)

/-- Makes a directory with all that is missing above it. -/
def makeParents (verbose : Bool) : List String → Tool Nat
  | [] => return 0
  | file :: rest => do
    if ← isDirectory file then makeParents verbose rest
    else match ← change fun disk directory => disk.makeDirectory directory (path file) with
      | none =>
        if verbose then printLine ((← name) ++ ": created directory " ++ quoted file)
        makeParents verbose rest
      | some .alreadyExists =>
        let fault := if rest.isEmpty then SystemFault.alreadyExists else .notDirectory
        report (some fault) ("cannot create directory " ++ quoted file)
      | problem => report problem ("cannot create directory " ++ quoted file)

def makeDirectories (arguments : List String) : Tool Nat := do
  let g ← given {
    letters := "pvm:Z"
    long := [("parents", 'p'), ("verbose", 'v'), ("mode", 'm')] } arguments
  if g.operands.isEmpty then usage 1 "missing operand"
  each (fun file => do
    if g.has 'p' then makeParents (g.has 'v') (pathsTo file)
    else
      let problem ← change fun disk directory => disk.makeDirectory directory (path file)
      if problem.isNone && g.has 'v' then
        printLine ((← name) ++ ": created directory " ++ quoted file)
      report problem ("cannot create directory " ++ quoted file)) g.operands

/-- Removes an empty directory; why that failed is told. -/
def removeEmpty (file : String) : Tool (Option SystemFault) := do
  match ← findEntry file with
  | .error fault => return some fault
  | .ok (location, .directory _) =>
    if ((← get).disk.namesIn location).isEmpty then
      change fun disk directory => disk.removeTree directory (path file)
    else return some .notEmpty
  | .ok _ => return some .notDirectory

def removeDirectories (arguments : List String) : Tool Nat := do
  let g ← given {
    letters := "pv"
    long := [("parents", 'p'), ("verbose", 'v')] } arguments
  if g.operands.isEmpty then usage 1 "missing operand"
  each (fun file => do
    let chain := if g.has 'p' then (pathsTo file).reverse else [file]
    let rec remove : List String → Tool Nat
      | [] => return 0
      | file :: rest => do
        if g.has 'v' then printLine ((← name) ++ ": removing directory, " ++ quoted file)
        match ← removeEmpty file with
        | none => remove rest
        | problem => report problem ("failed to remove " ++ quoted file)
    remove chain) g.operands

/-- How files are removed. -/
structure Removal where
  deep : Bool
  forced : Bool
  verbose : Bool
  emptyDirectories : Bool

/-- Says what has been removed. -/
def Removal.tell (r : Removal) (what file : String) : Tool Unit := do
  if r.verbose then printLine (what ++ quoted file)

/-- Removes anything at a path with all below it, at most so many levels. -/
def Removal.remove (r : Removal) : Nat → String → Tool Nat
  | 0, _ => return 1
  | n + 1, file => do
    let failed (fault : SystemFault) : Tool Nat := report (some fault) ("cannot remove " ++ quoted file)
    match ← findEntry file with
    | .error .notFound => if r.forced then return 0 else failed .notFound
    | .error .notDirectory => if r.forced then return 0 else failed .notDirectory
    | .error fault => failed fault
    | .ok (location, .directory _) =>
      if !r.deep && !r.emptyDirectories then failed .isDirectory
      else
        let names ← namesIn location
        if !r.deep && !names.isEmpty then failed .notEmpty
        else
          let status ← each (fun name => r.remove n (below file name)) names
          -- something below could not be removed, so the directory stays
          if status != 0 then return status
          else match ← change fun disk directory => disk.removeTree directory (path file) with
            | none =>
              r.tell "removed directory " file
              return 0
            | some fault => failed fault
    | .ok _ =>
      match ← change fun disk directory => disk.removeFile directory (path file) with
      | none =>
        r.tell "removed " file
        return 0
      | some fault => failed fault

/-- Trees are no deeper than this. -/
def depthLimit : Nat := 4096

def removeFiles (arguments : List String) : Tool Nat := do
  let g ← given {
    letters := "dfirRvI"
    long := [("recursive", 'r'), ("force", 'f'), ("verbose", 'v'), ("dir", 'd')] } arguments
  if g.operands.isEmpty && !g.has 'f' then usage 1 "missing operand"
  let removal : Removal :=
    ⟨g.has 'r' || g.has 'R', g.has 'f', g.has 'v', g.has 'd'⟩
  each (fun file => do
    let last := baseName file
    if removal.deep && (last = "." || last = "..") then
      complain ("refusing to remove '.' or '..' directory: skipping " ++ quoted file)
      return 1
    else if removal.deep && last = "/" then
      complain "it is dangerous to operate recursively on '/'"
      complain "use --no-preserve-root to override this failsafe"
      return 1
    else removal.remove depthLimit file) g.operands

/-! ## Copying, moving and linking -/

/-- Files, and the directory or path that they are to be put at. -/
structure Transfer where
  sources : List String
  /-- The path that one source gets. -/
  target : String → String

/-- What the operands of a tool say about where files go. `plain` says that the last operand is
no directory. -/
def transfer (g : Given) (plain : Bool) : Tool Transfer := do
  match g.text? 't' with
  | some dir => return ⟨g.operands, fun source => below dir (baseName source)⟩
  | none =>
    match g.operands.reverse with
    | [] => usage 1 "missing file operand"
    | [only] => usage 1 ("missing destination file operand after " ++ quoted only)
    | last :: others =>
      if !plain && (← isDirectory last) then
        return ⟨others.reverse, fun source => below last (baseName source)⟩
      else if 1 < others.length then
        if plain then usage 1 ("extra operand " ++ quoted (g.operands.getD 2 ""))
        else
          let fault := match ← find last with
            | .ok _ => SystemFault.notDirectory
            | .error fault => fault
          fail 1 ("target " ++ quoted last ++ ": " ++ fault.phrase)
      else return ⟨others.reverse, fun _ => last⟩

/-- Whether two paths lead to the same place. -/
def same? (a b : String) : Tool Bool := do
  match ← find a, ← find b with
  | .ok (here, _), .ok (there, _) => return here == there
  | _, _ => return false

/-- How files are copied. -/
structure Copying where
  deep : Bool
  keepsTimes : Bool
  keepsLinks : Bool
  forced : Bool
  verbose : Bool
  keepsExisting : Bool

/-- Copies the bytes of a file. -/
def Copying.copyFile (c : Copying) (source target : String) (node : DiskNode) : Tool Nat := do
  if ← same? source target then
    complain (quoted source ++ " and " ++ quoted target ++ " are the same file")
    return 1
  else if ← isDirectory target then
    complain ("cannot overwrite directory " ++ quoted target ++ " with non-directory")
    return 1
  else
    let (content, executable) := match node with
      | .file content _ executable => (content, executable)
      | _ => (ByteArray.empty, false)
    let wasThere := (← find target).toOption.isSome
    let problem ← change fun disk directory =>
      match disk.writeFile directory (path target) content with
      | (.ok (), disk) =>
        -- a file that was there keeps its own mode
        if executable && !wasThere then disk.setExecutable directory (path target) true
        else (.ok (), disk)
      | failed => failed
    match problem with
    | some .isDirectory => report (some .notDirectory) ("cannot create regular file " ++ quoted target)
    | some fault => report (some fault) ("cannot create regular file " ++ quoted target)
    | none =>
      if c.keepsTimes then
        if let some time := Disk.timeOf? node then
          let _ ← change fun disk directory => disk.setTime directory (path target) time
      if c.verbose then printLine (quoted source ++ " -> " ++ quoted target)
      return 0

/-- Copies what is at a path, at most so many levels. -/
def Copying.copy (c : Copying) : Nat → String → String → Tool Nat
  | 0, _, _ => return 1
  | n + 1, source, target => do
    match ← if c.keepsLinks then findEntry source else find source with
    | .error fault => report (some fault) ("cannot stat " ++ quoted source)
    | .ok (location, node) =>
      if c.keepsExisting && (← exists? target) then return 0
      else match node with
        | .directory _ =>
          if !c.deep then
            complain ("-r not specified; omitting directory " ++ quoted source)
            return 1
          else
            let there ← find target
            let isInside := match (← get).disk.locate (← read).directory (path target) with
              | .ok other => location.isPrefixOf other
              | .error _ => false
            match there with
            | .ok (_, .directory _) =>
              -- copying would go on for ever, as what is copied would grow
              if isInside then
                complain ("cannot copy a directory, " ++ quoted source ++ ", into itself, " ++
                  quoted target)
                return 1
              else copyAll n source target location
            | .ok _ =>
              complain ("cannot overwrite non-directory " ++ quoted target ++ " with directory " ++
                quoted source)
              return 1
            | .error _ =>
              if isInside then
                complain ("cannot copy a directory, " ++ quoted source ++ ", into itself, " ++
                  quoted target)
                return 1
              else match ← change fun disk directory =>
                  disk.makeDirectory directory (path target) with
                | none =>
                  if c.verbose then printLine (quoted source ++ " -> " ++ quoted target)
                  copyAll n source target location
                | some fault =>
                  report (some fault) ("cannot create directory " ++ quoted target)
        | .link goal =>
          if c.forced || (← exists? target) then
            -- a link is made anew, and is not written through
            let _ ← change fun disk directory => disk.removeFile directory (path target)
          report (← change fun disk directory => disk.makeLink directory (path target) goal)
            ("cannot create symbolic link " ++ quoted target)
        | node => c.copyFile source target node
where
  /-- Copies what is in a directory. -/
  copyAll (n : Nat) (source target : String) (location : Location) : Tool Nat := do
    each (fun name => c.copy n (below source name) (below target name)) (← namesIn location)

def copyFiles (arguments : List String) : Tool Nat := do
  let g ← given {
    letters := "abdfilnprRst:TuvLPHx"
    long := [("recursive", 'r'), ("force", 'f'), ("verbose", 'v'), ("archive", 'a'),
      ("no-clobber", 'n'), ("target-directory", 't'), ("no-target-directory", 'T')] } arguments
  let transfer ← transfer g (g.has 'T')
  let c : Copying := {
    deep := g.has 'r' || g.has 'R' || g.has 'a'
    keepsTimes := g.has 'p' || g.has 'a'
    keepsLinks := g.has 'a' || g.has 'P' || g.has 'd' ||
      ((g.has 'r' || g.has 'R') && !g.has 'L')
    forced := g.has 'f'
    verbose := g.has 'v'
    keepsExisting := g.has 'n' }
  each (fun source => c.copy depthLimit source (transfer.target source)) transfer.sources

/-- Moves one file or directory. -/
def moveFile (g : Given) (source target : String) : Tool Nat := do
  let directory := (← read).directory
  match ← findEntry source with
  | .error fault => report (some fault) ("cannot stat " ++ quoted source)
  | .ok (from', node) =>
    let isMovedDirectory := match node with
      | .directory _ => true
      | _ => false
    let there := ← findEntry target
    let sameEntry := match there with
      | .ok (place, _) => place == from'
      | .error _ => false
    let inside := match (← get).disk.locateEntry directory (Disk.withoutEndSlash (path target)) with
      | .ok place => from'.isPrefixOf place && place != from'
      | .error _ => false
    if g.has 'n' && there.toOption.isSome then return 0
    else if sameEntry then
      complain (quoted source ++ " and " ++ quoted target ++ " are the same file")
      return 1
    else if isMovedDirectory && inside then
      complain ("cannot move " ++ quoted source ++ " to a subdirectory of itself, " ++
        quoted target)
      return 1
    else match there, isMovedDirectory with
      | .ok (_, .directory _), false =>
        complain ("cannot overwrite directory " ++ quoted target ++ " with non-directory")
        return 1
      | .ok (place, .directory _), true =>
        -- only an empty directory gives way to another one
        if ((← get).disk.namesIn place).isEmpty then
          let _ ← change fun disk directory => disk.removeTree directory (path target)
          moved
        else
          report (some .notEmpty) ("cannot move " ++ quoted source ++ " to " ++ quoted target)
      | .ok _, true =>
        complain ("cannot overwrite non-directory " ++ quoted target ++ " with directory " ++
          quoted source)
        return 1
      | _, _ => moved
where
  moved : Tool Nat := do
    match ← change fun disk directory =>
        disk.rename directory (path source) (Disk.withoutEndSlash (path target)) with
    | none =>
      if g.has 'v' then printLine ("renamed " ++ quoted source ++ " -> " ++ quoted target)
      return 0
    | some fault =>
      report (some fault) ("cannot move " ++ quoted source ++ " to " ++ quoted target)

def moveFiles (arguments : List String) : Tool Nat := do
  let g ← given {
    letters := "bfint:Tuv"
    long := [("force", 'f'), ("verbose", 'v'), ("no-clobber", 'n'), ("target-directory", 't'),
      ("no-target-directory", 'T')] } arguments
  let transfer ← transfer g (g.has 'T')
  each (fun source => moveFile g source (transfer.target source)) transfer.sources

/-- Makes one link. -/
def linkFile (g : Given) (source target : String) : Tool Nat := do
  let symbolic := g.has 's'
  let kind := if symbolic then "symbolic link " else "hard link "
  match ← findEntry source with
  | .error fault =>
    if !symbolic then report (some fault) ("failed to access " ++ quoted source) else make kind
  | .ok (_, .directory _) =>
    if !symbolic then
      complain (quoted source ++ ": hard link not allowed for directory")
      return 1
    else make kind
  | .ok _ => make kind
where
  make (kind : String) : Tool Nat := do
    if g.has 'f' && (← exists? target) && !(← isDirectory target) then
      let _ ← change fun disk directory => disk.removeFile directory (path target)
    else if g.has 'f' && g.has 'n' then
      let _ ← change fun disk directory => disk.removeFile directory (path target)
    let problem ← change fun disk directory =>
      if g.has 's' then disk.makeLink directory (path target) (path source)
      -- a file has one name only here, so a hard link is a copy
      else match disk.contents directory (path source) with
        | .error fault => (.error fault, disk)
        | .ok content =>
          if disk.holds directory (path target) then (.error .alreadyExists, disk)
          else disk.writeFile directory (path target) content
    if problem.isNone && g.has 'v' then
      printLine (quoted target ++ (if g.has 's' then " -> " else " => ") ++ quoted source)
    match problem, g.has 's' with
    | some .alreadyExists, false =>
      report problem ("failed to create " ++ kind ++ quoted target)
    | some _, false =>
      report problem ("failed to create " ++ kind ++ quoted target ++ " => " ++ quoted source)
    | problem, _ => report problem ("failed to create " ++ kind ++ quoted target)

def linkFiles (arguments : List String) : Tool Nat := do
  let g ← given {
    letters := "bdfinst:TvLPr"
    long := [("symbolic", 's'), ("force", 'f'), ("verbose", 'v'), ("no-dereference", 'n'),
      ("target-directory", 't'), ("no-target-directory", 'T')] } arguments
  match g.operands with
  | [] => usage 1 "missing file operand"
  | [only] => linkFile g only (baseName only)
  | operands =>
    let last := operands.getLastD ""
    let isLink := match ← findEntry last with
      | .ok (_, .link _) => true
      | _ => false
    let transfer ← transfer g (g.has 'T' || (g.has 'n' && isLink))
    each (fun source => linkFile g source (transfer.target source)) transfer.sources

/-! ## Times and modes -/

/-- The time that a text in seconds names. -/
def timeOf? (text : String) : Option Time :=
  match text.toList with
  | '@' :: digits => (String.ofList digits).toNat?.map fun n => .ofEpoch n 0
  | _ => none

/-- The time that files are given: another file's, a stated one, or that of now. -/
def timeFor (g : Given) (now : Time) : Tool Time := do
  match g.text? 'd', g.text? 'r' with
  | some text, _ =>
    match timeOf? text with
    | some time => return time
    | none =>
      if text = "now" then return now else fail 1 ("invalid date format " ++ quoted text)
  | none, some file =>
    match ← find file with
    | .ok (_, node) => return (Disk.timeOf? node).getD now
    | .error fault =>
      fail 1 ("failed to get attributes of " ++ quoted file ++ ": " ++ fault.phrase)
  | none, none => return now

def touchFiles (arguments : List String) : Tool Nat := do
  let g ← given {
    letters := "acd:fhmr:t:"
    long := [("no-create", 'c'), ("date", 'd'), ("reference", 'r')] } arguments
  if g.operands.isEmpty then usage 1 "missing file operand"
  let time ← timeFor g (← get).disk.now
  each (fun file => do
    match ← change fun disk directory => disk.setTime directory (path file) time with
    | none => return 0
    | some .notFound =>
      if g.has 'c' then return 0
      else match ← change fun disk directory => disk.writeFile directory (path file) .empty with
        | none =>
          let _ ← change fun disk directory => disk.setTime directory (path file) time
          return 0
        | some .isDirectory => report (some .notFound) ("setting times of " ++ quoted file)
        | problem => report problem ("cannot touch " ++ quoted file)
    | problem => report problem ("cannot touch " ++ quoted file)) g.operands

/-- Whether a mode lets the owner run a file, after what was so before. -/
def runnable? (before : Bool) (mode : String) : Option Bool :=
  if mode ≠ "" && mode.toList.all fun c => '0' ≤ c && c ≤ '7' then
    some (mode.toList.foldl (fun n c => n * 8 + (c.toNat - 48)) 0 / 64 % 2 == 1)
  else (mode.splitOn ",").foldlM (fun runs part =>
    let who := part.toList.takeWhile "ugoa".toList.contains
    let forOwner := who.isEmpty || who.contains 'u' || who.contains 'a'
    match part.toList.drop who.length with
    | op :: letters =>
      if letters.all "rwxXst".toList.contains then
        let names := letters.contains 'x'
        match op with
        | '+' => some (runs || (forOwner && names))
        | '-' => some (runs && !(forOwner && names))
        | '=' => some (if forOwner then names else runs)
        | _ => none
      else none
    | [] => none) before

def changeModes (arguments : List String) : Tool Nat := do
  -- A mode can begin with a hyphen.
  let (modes, arguments) := match arguments with
    | first :: rest =>
      match first.toList with
      | '-' :: c :: _ => if "rwx".toList.contains c then ([first], rest) else ([], arguments)
      | _ => ([], arguments)
    | [] => ([], [])
  let g ← given {
    letters := "cfvR"
    long := [("recursive", 'R'), ("verbose", 'v'), ("quiet", 'f')] } arguments
  match modes ++ g.operands with
  | [] => usage 1 "missing operand"
  | [mode] => usage 1 ("missing operand after " ++ quoted mode)
  | mode :: files =>
    if (runnable? false mode).isNone then usage 1 ("invalid mode: " ++ quoted mode)
    else each (fun file => do
      match ← find file with
      | .error fault => report (some fault) ("cannot access " ++ quoted file)
      | .ok (_, .file _ _ executable) =>
        let runs := (runnable? executable mode).getD executable
        report (← change fun disk directory => disk.setExecutable directory (path file) runs)
          ("changing permissions of " ++ quoted file)
      | .ok _ => return 0) files

/-! ## Listing -/

/-- What stands behind a name in a list. -/
def mark (g : Given) (node : DiskNode) : String :=
  match node with
  | .directory _ => if g.has 'F' || g.has 'p' then "/" else ""
  | .link _ => if g.has 'F' then "@" else ""
  | .file _ _ true => if g.has 'F' then "*" else ""
  | .program => if g.has 'F' then "*" else ""
  | _ => ""

/-- Whether a name is listed. -/
def isListed (g : Given) (name : String) : Bool :=
  g.has 'a' || g.has 'A' || name.toList.head? != some '.'

/-- Names in the order in which they are listed. -/
def ordered (g : Given) (names : List String) : List String :=
  if g.has 'r' then names.reverse else names

/-- Prints a name. -/
def listName (g : Given) (file : String) (shown : String) : Tool Unit := do
  let node := match ← findEntry file with
    | .ok (_, node) => node
    | .error _ => .void
  printLine (shown ++ mark g node)

/-- Lists what is in a directory, at most so many levels deep. -/
def listDirectory (g : Given) (titled : Bool) : Nat → Bool → String → Tool Unit
  | 0, _, _ => return
  | n + 1, isFirst, file => do
    match ← find file with
    | .ok (location, .directory _) =>
      if titled then
        if !isFirst then print "\n"
        printLine (file ++ ":")
      let names := (← namesIn location).filter (isListed g)
      let shown := ordered g ((if g.has 'a' then [".", ".."] else []) ++ names)
      shown.forM fun name => listName g (below file name) name
      if g.has 'R' then
        (ordered g names).forM fun name => do
          if let .ok (_, .directory _) := ← findEntry (below file name) then
            listDirectory g titled n false (below file name)
    | _ => return

def listFiles (arguments : List String) : Tool Nat := do
  let g ← given {
    letters := "1aAdFpRrtSUhlgGnioLHmxCcuqQNkBbsvX"
    long := [("all", 'a'), ("almost-all", 'A'), ("directory", 'd'), ("recursive", 'R'),
      ("reverse", 'r')]
    failure := 2 } arguments
  let operands := if g.operands.isEmpty then ["."] else g.operands
  let status ← each (fun file => do
    match ← find file with
    | .error fault =>
      if (← findEntry file).toOption.isSome then return 0
      else
        complain ("cannot access " ++ quoted file ++ ": " ++ fault.phrase)
        return 2
    | .ok _ => return 0) operands
  let sorted := ordered g (operands.mergeSort fun a b => decide (a ≤ b))
  let found ← sorted.filterM exists?
  let files ← found.filterM fun file => do return g.has 'd' || !(← isDirectory file)
  let dirs ← found.filterM fun file => do return !g.has 'd' && (← isDirectory file)
  files.forM fun file => listName g file file
  let titled := 1 < operands.length || g.has 'R'
  let _ ← dirs.foldlM (fun isFirst dir => do
    listDirectory g titled depthLimit isFirst dir
    return false) files.isEmpty
  return status

end ProjectBuild.Tool
