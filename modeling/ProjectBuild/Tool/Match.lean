import ProjectBuild.Tool.Expression
import ProjectBuild.Tool.Words

/-!
# Tools that look for text and files
-/

namespace ProjectBuild.Tool

/-! ## Lines that match -/

/-- What `grep` looks for, and how. -/
structure Quest where
  given : Given
  expressions : List Expression

namespace Quest

def has (q : Quest) (c : Char) : Bool :=
  q.given.has c

/-- The first match of some expressions, and the longest of those. -/
def earliest (all : List Expression) (before after : List Char) :
    Option (Expression.Place × Expression.Place) :=
  (all.filterMap fun e => e.search before after).foldl (fun best found =>
    match best with
    | none => some found
    | some (start, stop) =>
      let (start', stop') := found
      if start.after.length < start'.after.length ||
          (start.after.length == start'.after.length &&
            stop'.after.length < stop.after.length) then some found
      else best) none

/-- The matches in a line that hold something, from left to right. -/
def found (all : List Expression) : Nat → List Char → List Char → List String
  | 0, _, _ => []
  | n + 1, before, after =>
    match earliest all before after with
    | none => []
    | some (start, stop) =>
      let taken := start.after.take (start.after.length - stop.after.length)
      if taken.isEmpty then
        match stop.after with
        | c :: rest => found all n (c :: stop.before) rest
        | [] => []
      else String.ofList taken :: found all n stop.before stop.after

/-- The expressions, in the way that matches are asked for. -/
def asked (q : Quest) : List Expression :=
  q.expressions.map fun e =>
    if q.has 'x' then Expression.sequence .startLine (.sequence e .endLine)
    else if q.has 'w' then
      .sequence (.boundary fun before _ => !before)
        (.sequence e (.boundary fun _ after => !after))
    else e

/-- Whether some expression matches a line in the way that is asked for. -/
def selects (q : Quest) (line : List Char) : Bool :=
  (q.asked.any fun e => e.isMatch line) != q.has 'v'

/-- The number that an option gives. -/
def bound? (q : Quest) (c : Char) : Option Nat :=
  (q.given.text? c).bind count?

/-- A line of a file with its number and whether it is selected. -/
structure Candidate where
  line : List Char
  number : Nat
  isSelected : Bool

/-- The lines up to the last one that counts, and the lines behind it. -/
def upToLast (most : Option Nat) : List Candidate → List Candidate × List Candidate
  | [] => ([], [])
  | c :: rest =>
    if most == some 0 then ([], c :: rest)
    else
      let most := if c.isSelected then most.map (· - 1) else most
      let (front, behind) := upToLast most rest
      (c :: front, behind)

/-- Prints selected lines with lines around them: `before` are the last lines that were not printed,
`after` lines are still to be printed. -/
def showLines (q : Quest) (label : String) (leading trailing : Nat) (hasShown : Bool)
    (before : List Candidate) (after : Nat) : List Candidate → Tool Unit
  | [] => return
  | c :: rest => do
    let mark (c : Candidate) (sign : String) : String :=
      (if label = "" then "" else label ++ sign) ++
        (if q.has 'n' then toString (c.number + 1) ++ sign else "")
    let around (c : Candidate) : Tool Unit := do
      if !q.has 'o' then printLine (mark c "-" ++ String.ofList (trimEnd c.line))
    let separates := q.has 'A' || q.has 'B' || q.has 'C'
    if c.isSelected then
      let shown := (before.take leading).reverse
      -- lines were left out since the last that was printed
      if separates && hasShown && after == 0 && shown.length < before.length then printLine "--"
      shown.forM around
      let line := trimEnd c.line
      if q.has 'o' then
        if !q.has 'v' then
          (found q.asked (line.length + 1) [] line).forM fun part =>
            printLine (mark c ":" ++ part)
      else printLine (mark c ":" ++ String.ofList line)
      showLines q label leading trailing true [] trailing rest
    else if 0 < after then
      around c
      showLines q label leading trailing hasShown [] (after - 1) rest
    else showLines q label leading trailing hasShown (c :: before) 0 rest

/-- Looks at one file, and tells whether anything was found, and how many bytes were used. -/
def look (q : Quest) (titled : Bool) (file : String) (text : String) : Tool (Bool × Nat) := do
  let all := (lines text.toList).zipIdx.map fun (line, n) =>
    (⟨line, n, q.selects (trimEnd line)⟩ : Candidate)
  let (front, behind) := upToLast (q.bound? 'm') all
  let count := (front.filter Candidate.isSelected).length
  let title := if file = "-" then "(standard input)" else file
  let label := if titled then title else ""
  let around := q.bound? 'C'
  let leading := ((q.bound? 'B').or around).getD 0
  let trailing := ((q.bound? 'A').or around).getD 0
  if q.has 'q' then pure ()
  else if q.has 'l' then
    if 0 < count then printLine title
  else if q.has 'L' then
    if count = 0 then printLine title
  else if q.has 'c' then
    printLine ((if label = "" then "" else label ++ ":") ++ toString count)
  else
    -- Behind the last line that counts, only lines around it are printed.
    let following := behind.takeWhile fun c => !c.isSelected
    q.showLines label leading trailing false [] 0
      (front ++ if q.has 'm' then following.take trailing else [])
  let used := if q.has 'q' && 0 < count then
      let read := (front.takeWhile fun c => !c.isSelected).foldl (fun n c => n + c.line.length) 0
      min text.length ((read / 65536 + 1) * 65536)
    else front.foldl (fun n c => n + c.line.length) 0
  return (if q.has 'L' then count == 0 else 0 < count, used)

end Quest

/-- The files below some paths. -/
def filesBelow : Nat → String → Tool (List String)
  | 0, _ => return []
  | n + 1, file => do
    match ← findEntry file with
    | .ok (location, .directory _) =>
      let names ← namesIn location
      return (← names.mapM fun name => filesBelow n (below file name)).flatten
    | .ok (_, .link _) => return []
    | _ => return [file]

/-- Turns numbers behind hyphens into options. -/
def withAround : List String → List String
  | [] => []
  | "--" :: rest => "--" :: rest
  | argument :: rest =>
    match argument.toList with
    | '-' :: digits =>
      if !digits.isEmpty && digits.all Char.isDigit then
        "-C" :: String.ofList digits :: withAround rest
      else argument :: withAround rest
    | _ => argument :: withAround rest

/-- Prints the lines of files that match. Patterns can be spelled in the extended way, or stand for
themselves. -/
def printMatches (extended literal : Bool) (arguments : List String) : Tool Nat := do
  let g ← given {
    letters := "EFGPe:f:iyvwxclLqsonHhm:rRazbA:B:C:K::"
    long := [("extended-regexp", 'E'), ("fixed-strings", 'F'), ("regexp", 'e'),
      ("ignore-case", 'i'), ("invert-match", 'v'), ("word-regexp", 'w'), ("line-regexp", 'x'),
      ("count", 'c'), ("files-with-matches", 'l'), ("files-without-match", 'L'), ("quiet", 'q'),
      ("silent", 'q'), ("no-messages", 's'), ("only-matching", 'o'), ("line-number", 'n'),
      ("with-filename", 'H'), ("no-filename", 'h'), ("max-count", 'm'), ("recursive", 'r'),
      ("after-context", 'A'), ("before-context", 'B'), ("context", 'C'), ("color", 'K')]
    failure := 2 } (withAround arguments)
  let stated := g.options.filterMap fun option => if option.1 == 'e' then some option.2 else none
  -- without an option the first operand is the pattern
  let (patterns, operands) := if stated.isEmpty && !g.has 'f' then
      (g.operands.take 1, g.operands.drop 1) else (stated, g.operands)
  let listed ← match g.text? 'f' with
    | none => pure []
    | some file =>
      match ← contents file with
      | .ok text => pure (plainLines text)
      | .error fault => fail 2 (file ++ ": " ++ fault.phrase)
  if patterns.isEmpty && !g.has 'f' then
    let name ← name
    let _ ← writeTo 2 ("Usage: " ++ name ++ " [OPTION]... PATTERNS [FILE]...\nTry '" ++ name ++
      " --help' for more information.\n")
    return 2
  else
    let anyCase := g.has 'i' || g.has 'y'
    let expressions ← ((patterns ++ listed).flatMap (·.splitOn "\n")).mapM fun text => do
      if literal || g.has 'F' then return Expression.ofLiteral anyCase text
      else match Expression.ofText ⟨extended || g.has 'E' || g.has 'P', anyCase⟩ text with
        | .ok e => return e
        | .error problem => fail 2 problem.text
    let deep := g.has 'r' || g.has 'R'
    let files ← if deep then do
        let found := (← (inputs operands).mapM fun file =>
          filesBelow depthLimit (if file = "-" then "." else file)).flatten
        pure (if operands.isEmpty then found.map fun file => String.ofList (file.toList.drop 2)
          else found)
      else pure (inputs operands)
    let titled := ((1 < files.length || deep) && !g.has 'h') || g.has 'H'
    let (any, failed) ← files.foldlM (fun ((any, failed) : Bool × Bool) file => do
      match ← if file = "-" then lookAt 0 else contents file with
      | .ok text =>
        let (found, used) ← Quest.look ⟨g, expressions⟩ titled file text
        -- what has been looked at is taken from the input, in whole blocks
        if file = "-" then passOver 0 65536 used
        return (any || found, failed)
      | .error fault =>
        if !g.has 's' then complain (file ++ ": " ++ fault.phrase)
        return (any, true)) (false, false)
    return if failed && !(any && g.has 'q') then 2 else if any then 0 else 1

/-! ## Finding files -/

/-- What is asked of a path. -/
inductive Question where
  | named (anyCase : Bool) (pattern : String)
  | pathMatches (pattern : String)
  | kind (letter : Char)
  | isEmpty
  | always
  | prints (ending : Char)
  | deletes
  | runs (words : List String) (together : Bool)
  | not (inner : Question)
  | both (first second : Question)
  | either (first second : Question)
  deriving Inhabited

/-- Whether a text matches a pattern with stars and question marks. -/
def globs : Nat → List Char → List Char → Bool
  | 0, _, _ => false
  | _ + 1, [], text => text.isEmpty
  | n + 1, '*' :: rest, text =>
    globs n rest text || (match text with
      | _ :: behind => globs n ('*' :: rest) behind
      | [] => false)
  | n + 1, '?' :: rest, _ :: text => globs n rest text
  | n + 1, '\\' :: c :: rest, text =>
    match text with
    | d :: behind => c == d && globs n rest behind
    | [] => false
  | n + 1, '[' :: rest, d :: text =>
    match Expression.bracket (match rest with
      | '!' :: more => '^' :: more
      | rest => rest) with
    | .ok (holds, behind) => holds d && globs n behind text
    | .error _ => d == '[' && globs n rest text
  | n + 1, c :: rest, d :: text => c == d && globs n rest text
  | _ + 1, _ :: _, [] => false

def globMatches (pattern text : String) : Bool :=
  globs (2 * (pattern.length + text.length) + 2) pattern.toList text.toList

mutual

/-- Reads questions of which one has to hold. -/
def questions : Nat → List String → Tool (Question × List String)
  | 0, words => return (.always, words)
  | n + 1, words => do
    let (first, rest) ← conjunction n words
    match rest with
    | word :: behind =>
      if word = "-o" || word = "-or" then
        let (others, rest) ← questions n behind
        return (.either first others, rest)
      else return (first, rest)
    | [] => return (first, [])

/-- Reads questions that all have to hold. -/
def conjunction : Nat → List String → Tool (Question × List String)
  | 0, words => return (.always, words)
  | n + 1, words => do
    let (first, rest) ← question n words
    match rest with
    | [] => return (first, [])
    | word :: behind =>
      if word = "-o" || word = "-or" || word = ")" then return (first, rest)
      else
        let (others, rest) ← conjunction n (if word = "-a" || word = "-and" then behind else rest)
        return (.both first others, rest)

/-- Reads one question. -/
def question : Nat → List String → Tool (Question × List String)
  | 0, words => return (.always, words)
  | n + 1, words => do
    match words with
    | "!" :: rest =>
      let (inner, rest) ← question n rest
      return (.not inner, rest)
    | "-not" :: rest =>
      let (inner, rest) ← question n rest
      return (.not inner, rest)
    | "(" :: rest =>
      let (inner, rest) ← questions n rest
      return (inner, rest.tail)
    | "-name" :: pattern :: rest => return (.named false pattern, rest)
    | "-iname" :: pattern :: rest => return (.named true pattern, rest)
    | "-path" :: pattern :: rest => return (.pathMatches pattern, rest)
    | "-type" :: letter :: rest => return (.kind (letter.toList.headD 'f'), rest)
    | "-empty" :: rest => return (.isEmpty, rest)
    | "-true" :: rest => return (.always, rest)
    | "-print" :: rest => return (.prints '\n', rest)
    | "-print0" :: rest => return (.prints (Char.ofNat 0), rest)
    | "-delete" :: rest => return (.deletes, rest)
    -- limits of the depth are no questions: the search reads them itself
    | "-maxdepth" :: _ :: rest => return (.always, rest)
    | "-mindepth" :: _ :: rest => return (.always, rest)
    | "-exec" :: rest =>
      let command := rest.takeWhile fun word => word ≠ ";" && word ≠ "+"
      let ended := rest.drop command.length
      if ended.isEmpty then fail 1 "missing argument to '-exec'"
      else return (.runs command (ended.head? == some "+"), ended.tail)
    | word :: rest =>
      if ["-name", "-iname", "-path", "-type", "-maxdepth", "-mindepth"].contains word &&
          rest.isEmpty then
        fail 1 ("missing argument to '" ++ word ++ "'")
      else if word.toList.head? == some '-' then fail 1 ("unknown predicate '" ++ word ++ "'")
      else fail 1 ("paths must precede expression: '" ++ word ++ "'")
    | [] => return (.always, [])

end

/-- Whether a question has an effect of its own. -/
def Question.acts : Question → Bool
  | .prints _ => true
  | .deletes => true
  | .runs _ _ => true
  | .not inner => inner.acts
  | .both first second => first.acts || second.acts
  | .either first second => first.acts || second.acts
  | _ => false

/-- The letter of a kind of node. -/
def kindOf : DiskNode → Char
  | .directory _ => 'd'
  | .file _ _ _ => 'f'
  | .link _ => 'l'
  | .void => 'c'
  | .program => 'f'

/-- Answers a question about a path. -/
def Question.answer (execute : Execution) (file : String) (node : DiskNode) :
    Question → Tool Bool
  | .named anyCase pattern =>
    let last := baseName file
    return if anyCase then globMatches pattern.toLower last.toLower else globMatches pattern last
  | .pathMatches pattern => return globMatches pattern file
  | .kind letter => return kindOf node == letter
  | .isEmpty => do
    match ← findEntry file with
    | .ok (location, .directory _) => return (← namesIn location).isEmpty
    | .ok (_, .file content _ _) => return content.isEmpty
    | _ => return false
  | .always => return true
  | .prints ending => do
    print (file ++ String.ofList [ending])
    return true
  | .deletes => do
    if file = "." then return true
    else
      let status ← Removal.remove ⟨false, false, false, true⟩ 1 file
      return status == 0
  | .runs words _ => do
    let call := words.map fun word => file.intercalate (word.splitOn "\x7b\x7d")
    match ← callProgram execute (← read).environment call with
    | .ok exit => return exit.isSuccess
    | .error fault =>
      complain (quoted (call.headD "") ++ ": " ++ fault.phrase)
      return false
  | .not inner => do return !(← inner.answer execute file node)
  | .both first second => do
    if ← first.answer execute file node then second.answer execute file node else return false
  | .either first second => do
    if ← first.answer execute file node then return true else second.answer execute file node

/-- A walk through a directory tree. -/
structure Walk where
  question : Question
  /-- Whether what is in a directory comes before it. -/
  insideFirst : Bool
  least : Nat
  most : Option Nat

/-- Walks at most so many levels. -/
def Walk.from (k : Walk) (execute : Execution) : Nat → Nat → String → Tool Nat
  | 0, _, _ => return 1
  | n + 1, level, file => do
    match ← findEntry file with
    | .error fault =>
      complain (quoted file ++ ": " ++ fault.phrase)
      return 1
    | .ok (location, node) =>
      let ask : Tool Unit := do
        if k.least ≤ level then
          let _ ← k.question.answer execute file node
      if !k.insideFirst then ask
      let status ← match node with
        | .directory _ =>
          if k.most.all (level < ·) then
            each (fun name => k.from execute n (level + 1) (below file name)) (← namesIn location)
          else pure 0
        | _ => pure 0
      if k.insideFirst then ask
      return status

def findFiles (execute : Execution) (arguments : List String) : Tool Nat := do
  let isQuestion (word : String) : Bool :=
    word = "!" || word = "(" || (word.toList.head? == some '-' && 1 < word.length)
  let starts := arguments.takeWhile fun word => !isQuestion word
  let words := arguments.drop starts.length
  let (question, rest) ← if words.isEmpty then pure (Question.always, [])
    else questions (8 * words.length + 8) words
  if !rest.isEmpty then fail 1 ("paths must precede expression: '" ++ rest.headD "" ++ "'")
  else
    let boundAfter (name : String) : Option Nat :=
      ((words.dropWhile (· ≠ name)).drop 1).head?.bind count?
    let walk : Walk := {
      question := if question.acts then question else .both question (.prints '\n')
      insideFirst := words.contains "-delete" || words.contains "-depth"
      least := (boundAfter "-mindepth").getD 0
      most := boundAfter "-maxdepth" }
    each (walk.from execute depthLimit 0) (if starts.isEmpty then ["."] else starts)

end ProjectBuild.Tool
