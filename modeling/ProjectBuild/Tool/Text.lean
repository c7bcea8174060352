import ProjectBuild.Tool.Files

/-!
# Tools on text

Tools that read files or the standard input and write a part or a form of what they read.
-/

namespace ProjectBuild.Tool

/-- The files that a tool reads: the standard input, if none is named. -/
def inputs (operands : List String) : List String :=
  if operands.isEmpty then ["-"] else operands

/-- Reads a file, or complains about it. -/
def readFile (file : String) : Tool (Option String) := do
  match ← contents file with
  | .ok text => return some text
  | .error fault =>
    complain (quotedIfNeeded file ++ ": " ++ fault.phrase)
    return none

/-- Reads all files, and tells whether all could be read. -/
def readAll (operands : List String) : Tool (Nat × String) := do
  (inputs operands).foldlM (fun (status, text) file => do
    match ← readFile file with
    | some more => return (status, text ++ more)
    | none => return (1, text)) (0, "")

/-- A number without a sign. -/
def count? (text : String) : Option Nat :=
  if text ≠ "" && text.toList.all Char.isDigit then text.toNat? else none

/-- A number filled up with blanks in front. -/
def rightAligned (width : Nat) (text : String) : String :=
  String.ofList (List.replicate (width - text.length) ' ') ++ text

/-! ## Whole files -/

/-- A character as it can be seen. -/
def visible (tabs others : Bool) (c : Char) : List Char :=
  let n := c.toNat
  if c == '\t' then (if tabs then ['^', 'I'] else [c])
  else if !others || c == '\n' then [c]
  else
    let low := n % 128
    let shown := if low < 32 then ['^', Char.ofNat (low + 64)]
      else if low = 127 then ['^', '?'] else [Char.ofNat low]
    if n < 128 then shown else ['M', '-'] ++ shown

/-- Lines as `cat` prints them. -/
structure Numbering where
  number : Nat := 1
  /-- Whether the line before was empty. -/
  wasBlank : Bool := false

def concatenate (arguments : List String) : Tool Nat := do
  let g ← given {
    letters := "AbeEnstTuv"
    long := [("show-all", 'A'), ("number-nonblank", 'b'), ("show-ends", 'E'), ("number", 'n'),
      ("squeeze-blank", 's'), ("show-tabs", 'T'), ("show-nonprinting", 'v')] } arguments
  let ends := g.has 'E' || g.has 'e' || g.has 'A'
  let tabs := g.has 'T' || g.has 't' || g.has 'A'
  let others := g.has 'v' || g.has 'e' || g.has 't' || g.has 'A'
  -- no option changes anything, so the text is passed on as it is
  let isPlain := g.options.all fun option => option.1 == 'u'
  let (_, status) ← (inputs g.operands).foldlM (fun ((n, status) : Numbering × Nat) file => do
    match ← readFile file with
    | none => return (n, 1)
    | some text =>
      if isPlain then
        print text
        return (n, status)
      else
        let n ← (lines text.toList).foldlM (fun (n : Numbering) line => do
          let chars := trimEnd line
          if g.has 's' && chars.isEmpty && n.wasBlank then return n
          else
            let isNumbered := if g.has 'b' then !chars.isEmpty else g.has 'n'
            if isNumbered then print (rightAligned 6 (toString n.number) ++ "\t")
            print (String.ofList (chars.flatMap (visible tabs others)))
            if line.getLast? == some '\n' then print (if ends then "$\n" else "\n")
            return ⟨if isNumbered then n.number + 1 else n.number, chars.isEmpty⟩) n
        return (n, status)) ({}, 0)
  return status

def reverseLines (arguments : List String) : Tool Nat := do
  let g ← given { letters := "" } arguments
  each (fun file => do
    match ← readFile file with
    | some text =>
      (lines text.toList).reverse.forM fun line => print (String.ofList line)
      return 0
    | none => return 1) (inputs g.operands)

/-- Copies the standard input to files. -/
def copyInput (arguments : List String) : Tool Nat := do
  let g ← given { letters := "aip", long := [("append", 'a')] } arguments
  let text := match ← readFrom 0 with
    | .ok text => text
    | .error _ => ""
  let status ← each (fun file => do
    let bytes := Raw.bytes text
    match ← change fun disk directory =>
        if g.has 'a' then disk.appendFile directory (path file) bytes
        else disk.writeFile directory (path file) bytes with
    | none => return 0
    | some fault =>
      complain (quotedIfNeeded file ++ ": " ++ fault.phrase)
      return 1) g.operands
  print text
  return status

/-! ## Beginnings and ends -/

/-- How much of a file is printed. -/
inductive Extent where
  /-- So many lines or bytes from the near end. -/
  | some (count : Nat)
  /-- All but so many at the far end. -/
  | allBut (count : Nat)

/-- The extent that a number with a sign stands for. -/
def extent? (text : String) : Option (Char × Nat) :=
  match text.toList with
  | '-' :: digits => (count? (String.ofList digits)).map fun n => ('-', n)
  | '+' :: digits => (count? (String.ofList digits)).map fun n => ('+', n)
  | _ => (count? text).map fun n => (' ', n)

/-- Turns a number behind a hyphen into an option. -/
def oldCount (arguments : List String) : List String :=
  match arguments with
  | first :: rest =>
    match first.toList with
    | '-' :: c :: more =>
      if c.isDigit && more.all Char.isDigit then "-n" :: String.ofList (c :: more) :: rest
      else arguments
    | _ => arguments
  | [] => []

/-- A part of a text that is printed. -/
structure Excerpt where
  chars : List Char
  /-- The number of characters that are used. What follows can be read again. -/
  used : Nat
  /-- The size of the blocks that are read. -/
  block : Nat

/-- Prints a part of each file, under its name if there are several. -/
def printParts (g : Given) (part : List Char → Excerpt) : Tool Nat := do
  let files := inputs g.operands
  let titled := (1 < files.length || g.has 'v') && !g.has 'q'
  let (_, status) ← files.foldlM (fun ((isFirst, status) : Bool × Nat) file => do
    match ← if file = "-" then lookAt 0 else contents file with
    | .error .isDirectory =>
      if titled then print ((if isFirst then "" else "\n") ++ "==> " ++ file ++ " <==\n")
      complain ("error reading " ++ quoted file ++ ": " ++ SystemFault.isDirectory.phrase)
      return (false, 1)
    | .error fault =>
      complain ("cannot open " ++ quoted file ++ " for reading: " ++ fault.phrase)
      return (isFirst, 1)
    | .ok text =>
      let title := if file = "-" then "standard input" else file
      if titled then print ((if isFirst then "" else "\n") ++ "==> " ++ title ++ " <==\n")
      let excerpt := part text.toList
      if file = "-" then passOver 0 excerpt.block excerpt.used
      print (String.ofList excerpt.chars)
      return (false, status)) (true, 0)
  return status

def printStart (arguments : List String) : Tool Nat := do
  let g ← given {
    letters := "c:n:qvz"
    long := [("bytes", 'c'), ("lines", 'n'), ("quiet", 'q'), ("silent", 'q'), ("verbose", 'v')] }
    (oldCount arguments)
  let inBytes := g.has 'c'
  let text := (g.text? 'c').getD ((g.text? 'n').getD "10")
  match extent? text with
  | none => fail 1 ("invalid number of " ++ (if inBytes then "bytes" else "lines") ++ ": " ++ quoted text)
  | some (sign, n) =>
    printParts g fun chars =>
      let cut {α : Type} (all : List α) : List α :=
        if sign == '-' then all.take (all.length - n) else all.take n
      let shown := if inBytes then cut chars else (cut (lines chars)).flatten
      -- What follows is not read, unless the end has to be known.
      let block := if sign == '-' then chars.length + 1 else if inBytes then 1 else 8192
      ⟨shown, shown.length, block⟩

def printEnd (arguments : List String) : Tool Nat := do
  let g ← given {
    letters := "c:n:qvfz"
    long := [("bytes", 'c'), ("lines", 'n'), ("quiet", 'q'), ("silent", 'q'), ("verbose", 'v')] }
    (oldCount arguments)
  let inBytes := g.has 'c'
  let text := (g.text? 'c').getD ((g.text? 'n').getD "10")
  match extent? text with
  | none => fail 1 ("invalid number of " ++ (if inBytes then "bytes" else "lines") ++ ": " ++ quoted text)
  | some (sign, n) =>
    printParts g fun chars =>
      let cut {α : Type} (all : List α) : List α :=
        if sign == '+' then all.drop (n - 1) else all.drop (all.length - n)
      ⟨if inBytes then cut chars else (cut (lines chars)).flatten, chars.length, 1⟩

/-! ## Counting -/

/-- The counts of a file, in the order in which they are printed. -/
def counts (g : Given) (text : String) : List Nat :=
  let chars := text.toList
  let newlines := (chars.filter (· == '\n')).length
  let isBlank (c : Char) : Bool := c == ' ' || (9 ≤ c.toNat && c.toNat ≤ 13)
  let (words, _) := chars.foldl
    (fun (n, inWord) c =>
      if isBlank c then (n, false) else if inWord then (n, true) else (n + 1, true))
    ((0, false) : Nat × Bool)
  let longest := ((lines chars).map fun line => (trimEnd line).length).foldl max 0
  let asks := g.options.isEmpty
  (if asks || g.has 'l' then [newlines] else []) ++ (if asks || g.has 'w' then [words] else []) ++
    (if g.has 'm' then [chars.length] else []) ++
    (if asks || g.has 'c' then [chars.length] else []) ++ (if g.has 'L' then [longest] else [])

def countWords (arguments : List String) : Tool Nat := do
  let g ← given {
    letters := "clLmw"
    long := [("bytes", 'c'), ("chars", 'm'), ("lines", 'l'), ("words", 'w'),
      ("max-line-length", 'L')] } arguments
  let files := inputs g.operands
  let found ← files.mapM fun file => do
    match ← contents file with
    | .ok text => return (file, some (counts g text), none)
    | .error fault =>
      return (file, if fault == .isDirectory then some (counts g "") else none, some fault)
  let rows : List (String × List Nat) := found.filterMap fun entry => entry.2.1.map fun row => (entry.1, row)
  let width := (rows.headD ("", [])).2.length
  let sizes ← files.mapM fun file => do
    match ← find file with
    | .ok (_, .file content _ _) => return some content.size
    | _ => return none
  let regular := sizes.filterMap id
  let total : List Nat := (List.range width).map fun i =>
    rows.foldl (fun n row => n + row.2.getD i 0) 0
  let least := if regular.length < files.length && found.any (fun entry => entry.2.2 != some .notFound && (entry.1 = "-" || entry.2.2.isSome)) then 7 else 1
  -- as wide as the sum of the sizes, which no count exceeds
  let columns := if width = 1 && files.length = 1 then 1
    else max least (toString (regular.foldl (· + ·) 0)).length
  let line (row : List Nat) (label : String) : String :=
    " ".intercalate (row.map fun n => rightAligned columns (toString n)) ++
      (if label = "" then "" else " " ++ label)
  found.forM fun (file, row, fault) => do
    if let some fault := fault then complain (quotedIfNeeded file ++ ": " ++ fault.phrase)
    if let some row := row then printLine (line row (if g.operands.isEmpty then "" else file))
  if 1 < files.length then printLine (line total "total")
  return if found.any fun entry => entry.2.2.isSome then 1 else 0

/-! ## Sorting -/

/-- The number at the start of a line: whether it is negative, and its digits before and behind the
point. -/
def numberAt (line : List Char) : Int × List Char :=
  let chars := line.dropWhile fun c => c == ' ' || c == '\t'
  let (negative, chars) := match chars with
    | '-' :: rest => (true, rest)
    | chars => (false, chars)
  let whole := chars.takeWhile Char.isDigit
  let fraction := match chars.drop whole.length with
    | '.' :: rest => rest.takeWhile Char.isDigit
    | _ => []
  -- Eighteen places are enough to tell numbers apart.
  let places := (fraction ++ List.replicate 18 '0').take 18
  let value : Int := ((whole ++ places).foldl (fun n c => n * 10 + (c.toNat - 48)) 0 : Nat)
  (if negative then -value else value, chars)

/-- The part of a line that a key names: fields from one on, up to another. -/
structure Key where
  first : Nat
  last : Option Nat
  letters : List Char

/-- A key from its text, as in `2,3n`. -/
def key? (text : String) : Option Key :=
  match text.splitOn "," with
  | [one] =>
    let digits := one.toList.takeWhile Char.isDigit
    (count? (String.ofList digits)).map fun n => ⟨n, none, one.toList.drop digits.length⟩
  | [one, other] =>
    let digits := one.toList.takeWhile Char.isDigit
    let ends := other.toList.takeWhile Char.isDigit
    match count? (String.ofList digits), count? (String.ofList ends) with
    | some n, some m =>
      some ⟨n, some m, one.toList.drop digits.length ++ other.toList.drop ends.length⟩
    | _, _ => none
  | _ => none

/-- The fields of a line: between separators, or at the starts of blanks. -/
def sortFields (separator : Option Char) (line : String) : List String :=
  match separator with
  | some c => line.splitOn (String.ofList [c])
  | none =>
    let step (state : Array (List Char) × List Char × Bool) (c : Char) :
        Array (List Char) × List Char × Bool :=
      let (found, current, inWord) := state
      let isBlank := c == ' ' || c == '\t'
      if isBlank && inWord then (found.push current.reverse, [c], false)
      else (found, c :: current, !isBlank)
    let (found, current, _) := line.toList.foldl step (#[], [], false)
    (found.push current.reverse).toList.map String.ofList

/-- What lines are compared by. -/
def keyText (separator : Option Char) (k : Key) (line : String) : String :=
  let fields := sortFields separator line
  let chosen := (fields.drop (k.first - 1)).take (match k.last with
    | some last => last + 1 - k.first
    | none => fields.length)
  (match separator with
    | some c => String.ofList [c]
    | none => "").intercalate chosen

/-- Compares two texts in the way that letters ask for. -/
def compareBy (letters : List Char) (a b : String) : Ordering :=
  let trim (s : String) : String :=
    if letters.contains 'b' then String.ofList (s.toList.dropWhile fun c => c == ' ' || c == '\t')
    else s
  let fold (s : String) : String := if letters.contains 'f' then s.toUpper else s
  let result :=
    if letters.contains 'n' || letters.contains 'g' then
      compare (numberAt a.toList).1 (numberAt b.toList).1
    else compare (fold (trim a)) (fold (trim b))
  if letters.contains 'r' then result.swap else result

/-- Compares two lines: by keys, and as a whole if those are equal. -/
def compareLines (g : Given) (keys : List Key) (separator : Option Char) (a b : String) :
    Ordering :=
  let global := g.options.map Prod.fst |>.filter "bfgnr".toList.contains
  let byKeys := if keys.isEmpty then compareBy global a b
    else keys.foldl (fun result k =>
      match result with
      | .eq =>
        compareBy (if k.letters.isEmpty then global else k.letters) (keyText separator k a)
          (keyText separator k b)
      | result => result) .eq
  match byKeys with
  | .eq => if g.has 's' || g.has 'u' then .eq else
      let whole := compare a b
      if g.has 'r' then whole.swap else whole
  | result => result

def sortLines (arguments : List String) : Tool Nat := do
  let g ← given {
    letters := "bcCdfghik:mMno:rRst:uVz"
    long := [("ignore-leading-blanks", 'b'), ("check", 'c'), ("ignore-case", 'f'), ("key", 'k'),
      ("numeric-sort", 'n'), ("output", 'o'), ("reverse", 'r'), ("stable", 's'),
      ("field-separator", 't'), ("unique", 'u')]
    failure := 2 } arguments
  let keys := g.options.filterMap fun option => if option.1 == 'k' then key? option.2 else none
  let separator := (g.text? 't').bind fun text => text.toList.head?
  let all ← (inputs g.operands).foldlM (fun (found : List String) file => do
    match ← contents file with
    | .ok text => return found ++ plainLines text
    | .error fault =>
      let verb := if fault == .isDirectory then "read failed: " else "cannot read: "
      fail 2 (verb ++ quotedIfNeeded file ++ ": " ++ fault.phrase)) []
  let order := compareLines g keys separator
  if g.has 'c' then
    let rec check (n : Nat) : List String → Tool Nat
      | a :: b :: rest => do
        let result := order a b
        if result == .gt || (g.has 'u' && result == .eq) then
          complain ((inputs g.operands).headD "-" ++ ":" ++ toString (n + 1) ++ ": disorder: " ++ b)
          return 1
        else check (n + 1) (b :: rest)
      | _ => return 0
    check 1 all
  else
    let sorted := all.mergeSort fun a b => order a b != .gt
    -- equal lines stand together now, and the first of them stays
    let kept := if g.has 'u' then
        (sorted.foldl (fun (found : List String) line =>
          match found with
          | last :: _ => if order last line == .eq then found else line :: found
          | [] => [line]) []).reverse
      else sorted
    let text := String.join (kept.map (· ++ "\n"))
    match g.text? 'o' with
    | none =>
      print text
      return 0
    | some file =>
      match ← change fun disk directory => disk.writeFile directory (path file) (Raw.bytes text) with
      | none => return 0
      | some fault => fail 2 ("open failed: " ++ quotedIfNeeded file ++ ": " ++ fault.phrase)

def dropRepeats (arguments : List String) : Tool Nat := do
  let g ← given {
    letters := "cdDf:is:uw:z"
    long := [("count", 'c'), ("repeated", 'd'), ("ignore-case", 'i'), ("unique", 'u')] } arguments
  let text ← match ← contents (g.operands.headD "-") with
    | .ok text => pure text
    | .error fault => fail 1 (quotedIfNeeded (g.operands.headD "-") ++ ": " ++ fault.phrase)
  let fold (line : String) : String := if g.has 'i' then line.toLower else line
  let groups := (plainLines text).foldl (fun (found : List (String × Nat)) line =>
    match found with
    | (last, n) :: others =>
      if fold last = fold line then (last, n + 1) :: others else (line, 1) :: found
    | [] => [(line, 1)]) []
  let shown := groups.reverse.filter fun (_, n) =>
    (!g.has 'd' || 1 < n) && (!g.has 'u' || n == 1)
  let output := String.join (shown.map fun (line, n) =>
    (if g.has 'c' then rightAligned 7 (toString n) ++ " " else "") ++ line ++ "\n")
  match g.operands.tail.head? with
  | some file =>
    report (← change fun disk directory => disk.writeFile directory (path file) (Raw.bytes output))
      (quotedIfNeeded file)
  | none =>
    print output
    return 0

/-! ## Characters and fields -/

/-- Characters that a set of them names, in order. -/
def setChars : Nat → List Char → List Char
  | 0, _ => []
  | _, [] => []
  | n + 1, '[' :: ':' :: rest =>
    let name := String.ofList (rest.takeWhile (· != ':'))
    -- behind the closing colon and bracket
    let behind := rest.drop (name.length + 2)
    let holds (c : Char) : Bool := match name with
      | "alpha" => c.isAlpha
      | "digit" => c.isDigit
      | "alnum" => c.isAlphanum
      | "upper" => c.isUpper
      | "lower" => c.isLower
      | "space" => c == ' ' || (9 ≤ c.toNat && c.toNat ≤ 13)
      | "blank" => c == ' ' || c == '\t'
      | "punct" => 0x20 < c.toNat && c.toNat < 0x7F && !c.isAlphanum
      | "cntrl" => c.toNat < 32 || c.toNat == 127
      | "print" => 0x20 ≤ c.toNat && c.toNat < 0x7F
      | "graph" => 0x20 < c.toNat && c.toNat < 0x7F
      | "xdigit" => c.isDigit || ('a' ≤ c.toLower && c.toLower ≤ 'f')
      | _ => false
    ((List.range 256).map Char.ofNat).filter holds ++ setChars n behind
  | n + 1, '\\' :: c :: rest =>
    let digits := ((c :: rest).take 3).takeWhile fun c => '0' ≤ c && c ≤ '7'
    if digits.isEmpty then
      let meant := match c with
        | 'n' => '\n'
        | 't' => '\t'
        | 'r' => '\x0d'
        | 'a' => '\x07'
        | 'b' => '\x08'
        | 'f' => '\x0c'
        | 'v' => '\x0b'
        | c => c
      meant :: setChars n rest
    else Char.ofNat (digits.foldl (fun n c => n * 8 + (c.toNat - 48)) 0 % 256) ::
      setChars n ((c :: rest).drop digits.length)
  | n + 1, a :: '-' :: b :: rest =>
    ((List.range (b.toNat + 1 - a.toNat)).map fun i => Char.ofNat (a.toNat + i)) ++ setChars n rest
  | n + 1, c :: rest => c :: setChars n rest

/-- Leaves out characters that repeat the one before. -/
def squeeze (holds : Char → Bool) : Option Char → List Char → List Char
  | _, [] => []
  | before, c :: rest =>
    if before == some c && holds c then squeeze holds before rest
    else c :: squeeze holds (some c) rest

def translate (arguments : List String) : Tool Nat := do
  let g ← given {
    letters := "cCdst"
    long := [("complement", 'c'), ("delete", 'd'), ("squeeze-repeats", 's'), ("truncate-set1", 't')]
    permutes := false } arguments
  let text := match ← readFrom 0 with
    | .ok text => text
    | .error _ => ""
  let charsOf (text : String) : List Char := setChars (text.length + 1) text.toList
  match g.operands with
  | [] => usage 1 "missing operand"
  | first :: rest =>
    let named := charsOf first
    let complement := g.has 'c' || g.has 'C'
    let inFirst (c : Char) : Bool := named.contains c != complement
    match rest with
    | [] =>
      if !g.has 'd' && !g.has 's' then
        complain ("missing operand after " ++ quoted first)
        let _ ← writeTo 2 "Two strings must be given when translating.\n"
        let _ ← writeTo 2 ("Try '" ++ (← name) ++ " --help' for more information.\n")
        return 1
      else
        let kept := if g.has 'd' then text.toList.filter fun c => !inFirst c else text.toList
        print (String.ofList (if g.has 's' then squeeze inFirst none kept else kept))
        return 0
    | second :: _ =>
      let targets := charsOf second
      let last := targets.getLastD ' '
      let place (c : Char) : Char :=
        if complement then (if inFirst c then last else c)
        else match named.reverse.idxOf? c with
          | none => c
          -- the last occurrence counts; a short second set goes on with its last character
          | some i => (targets[named.length - 1 - i]?).getD last
      let kept := if g.has 'd' then text.toList.filter fun c => !inFirst c
        else text.toList.map place
      print (String.ofList (if g.has 's' then squeeze targets.contains none kept else kept))
      return 0

/-- The numbers that a list such as `1,3-5` names. -/
def inRanges (text : String) : Option (Nat → Bool) :=
  (text.splitOn ",").foldlM (fun holds part =>
    match part.splitOn "-" with
    | [one] => (count? one).bind fun n => if n = 0 then none else some fun i => holds i || i == n
    | [low, high] =>
      let low? := if low = "" then some 1 else count? low
      let high? := if high = "" then some none else (count? high).map some
      match low?, high? with
      | some low, some high =>
        if low = 0 || part = "-" then none
        else some fun i => holds i || (low ≤ i && high.all (i ≤ ·))
      | _, _ => none
    | _ => none) fun _ => false

def cutFields (arguments : List String) : Tool Nat := do
  let g ← given {
    letters := "b:c:d:f:nsz"
    long := [("bytes", 'b'), ("characters", 'c'), ("delimiter", 'd'), ("fields", 'f'),
      ("only-delimited", 's'), ("complement", 'C'), ("output-delimiter", 'O')] } arguments
  let chosen := (g.text? 'f').or ((g.text? 'c').or (g.text? 'b'))
  match chosen with
  | none => usage 1 "you must specify a list of bytes, characters, or fields"
  | some text =>
    match inRanges text with
    | none => usage 1 ("invalid " ++ (if g.has 'f' then "field" else "byte/character") ++
        " value " ++ quoted text)
    | some holds =>
      let mark := ((g.text? 'd').getD "\t")
      if mark.length != 1 then usage 1 "the delimiter must be a single character"
      else
        let pick {α : Type} (all : List α) : List α :=
          (all.zipIdx.filter fun entry => holds (entry.2 + 1)).map Prod.fst
        let cut (line : String) : Option String :=
          if g.has 'f' then
            -- a line without the mark is passed on whole, or left out
            let fields := line.splitOn mark
            if fields.length = 1 then (if g.has 's' then none else some line)
            else some (mark.intercalate (pick fields))
          else some (String.ofList (pick line.toList))
        each (fun file => do
          match ← readFile file with
          | none => return 1
          | some text =>
            ((plainLines text).filterMap cut).forM printLine
            return 0) (inputs g.operands)

end ProjectBuild.Tool
