import ProjectBuild.Shell.Builtin.Basic
import ProjectBuild.Shell.Search
import ProjectBuild.Shell.Source

/-!
# Commands on names of commands

Aliases, and what names stand for.
-/

namespace ProjectBuild.Shell.Builtin

/-- Prints an alias as it can be read again. -/
def printAlias (entry : String × String) : Act Unit :=
  Act.printLine (entry.1 ++ "=" ++ quoted entry.2)

/-- Defines an alias in place of one of that name. -/
def setAlias (name value : String) (s : State) : State :=
  { s with aliases :=
    if (s.aliases.lookup name).isSome then
      s.aliases.map fun entry => if entry.1 = name then (name, value) else entry
    else s.aliases ++ [(name, value)] }

/-- Complains on the standard error output, without saying where. -/
def grumble (text : String) : Act Unit :=
  modify fun s => (s.write 2 (text ++ "\n")).2

/-- The name and the value in the definition of an alias. A name has a character at least. -/
def cutAlias (word : String) : String × Option String :=
  match word.toList with
  | [] => ("", none)
  | c :: rest =>
    let (name, value) := cutBinding (String.ofList rest)
    (String.ofList (c :: name.toList), value)

/-- Defines or prints aliases. -/
def defineAliases : Builtin := fun arguments => do
  if arguments.isEmpty then
    (listed 39 (← get).aliases).forM printAlias
    return 0
  else arguments.foldlM (fun status word => do
    match cutAlias word with
    | (name, some value) =>
      modify (setAlias name value)
      return status
    | (name, none) =>
      match (← get).aliases.lookup name with
      | some value =>
        printAlias (name, value)
        return status
      | none =>
        grumble ("alias: " ++ name ++ " not found")
        return 1) 0

/-- Takes aliases away. -/
def dropAliases : Builtin := fun arguments => do
  let (options, operands) ← Options.read "a" arguments
  if !options.isEmpty then
    modify fun s => { s with aliases := [] }
    return 0
  else operands.foldlM (fun status name => do
    let s ← get
    if (s.aliases.lookup name).isSome then
      set { s with aliases := s.aliases.filter fun entry => entry.1 != name }
      return status
    else
      grumble ("unalias: " ++ name ++ " not found")
      return 1) 0

/-! ## What names stand for -/

/-- The first path of a program that exists. -/
def existing (s : State) (paths : List String) : Option String :=
  paths.head?.bind fun path => if (s.node? path).toOption.isSome then some path else none

/-- Says what a name stands for, in a sentence or as it would be called. -/
def describe (inWords : Bool) (searchPath : Option String) (name : String) : Act Nat := do
  let s ← get
  let say (words plain : String) : Act Nat := do
    Act.printLine (if inWords then name ++ words else plain)
    return 0
  if keywords.contains name then say " is a shell keyword" name
  else match s.aliases.lookup name with
    | some value =>
      if inWords then say (" is an alias for " ++ value) ""
      else
        Act.print "alias "
        printAlias (name, value)
        return 0
    | none =>
      let meaning := Search.meaning s true (searchPath.getD s.searchPath) name
      let known := if searchPath.isNone then s.remembered.lookup name else none
      match meaning with
      | .function _ => say " is a shell function" name
      | .builtin =>
        let kind := if specialBuiltins.contains name then "special " else ""
        say (" is a " ++ kind ++ "shell builtin") name
      | .program paths =>
        match known.or (existing s paths) with
        | some path =>
          if searchPath.isNone then Search.remember name meaning
          say ((if known.isSome then " is a tracked alias for " else " is ") ++ path) path
        | none => notFound
      | .unknown _ => notFound
where
  notFound : Act Nat := do
    if inWords then Act.printLine (name ++ ": not found")
    return 127

/-- Says what names stand for. -/
def describeEach : Builtin := fun arguments => do
  arguments.foldlM (fun status name => do
    return max status (← describe true none name)) 0

/-- Says what the first name stands for, as the options ask. -/
def describeCommand : Builtin := fun arguments => do
  let (options, operands) ← Options.read "pvV" arguments
  let has (letter : Char) : Bool := options.any fun option => option.1 == letter
  match operands with
  | name :: _ =>
    if has 'v' || has 'V' then
      describe (has 'V') (if has 'p' then some State.defaultPath else none) name
    else return 0
  | [] => return 0

/-- Finds programs, or prints those that have been found. -/
def rememberPrograms : Builtin := fun arguments => do
  let (options, operands) ← Options.read "r" arguments
  if !options.isEmpty then
    modify fun s => { s with remembered := [] }
    return 0
  else if operands.isEmpty then
    (listed 31 (← get).remembered).forM fun entry => Act.printLine entry.2
    return 0
  else operands.foldlM (fun status name => do
    modify fun s => { s with
      remembered := s.remembered.filter fun entry => entry.1 != name }
    let s ← get
    let meaning := Search.meaning s true s.searchPath name
    match meaning with
    | .unknown fault =>
      Act.warn (name ++ ": " ++ Search.complaint fault)
      return 1
    | meaning =>
      Search.remember name meaning
      return status) 0

end ProjectBuild.Shell.Builtin
