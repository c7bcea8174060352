import ProjectBuild.Shell.Runner

/-!
# Simple commands

A simple command is expanded first, then its streams are redirected, then its variables are
assigned, and at last it is looked up and called. Assignments in front of a name hold for that
call only, unless the name is that of a special built-in command.
-/

namespace ProjectBuild.Shell

/-- A command with its arguments, as far as it is known before it is called. -/
structure Invocation where
  /-- All fields of the command. -/
  fields : List String := []
  /-- The fields from the name on that is called. -/
  words : List String := []
  /-- Whether the first name is that of a special command; there may be none. -/
  isSpecial : Option Bool := none
  /-- Whether assignments in front hold for the call only. -/
  isTemporary : Bool := false
  /-- Whether the command that is called can be a function. -/
  withFunctions : Bool := true
  /-- Where the command is looked for, if it has been said. -/
  searchPath : Option String := none
  deriving Inhabited

namespace Invocation

/-! ## Expansion -/

/-- The fields of a word that can be an assignment. -/
def argument (substitute : Substitution) (declares : Bool) (w : Word) : Act (List String) := do
  if declares && (assignment? w).isSome then return [← Expand.assigned substitute w]
  else Expand.fields substitute w

/-- The fields of the first word that has some, and the words behind it. -/
def firstFields (substitute : Substitution) : List Word → Act (List String × List Word)
  | [] => return ([], [])
  | w :: rest => do
    let fields ← Expand.fields substitute w
    if fields.isEmpty then firstFields substitute rest else return (fields, rest)

/-- What the options of the command that calls another one come to. -/
inductive OptionCut where
  /-- They go on in the next field. `usesDefault` says that the default path was asked for. -/
  | unfinished (ended usesDefault : Bool)
  /-- Another command is called. -/
  | calls (words : List String) (usesDefault : Bool)
  /-- No other command is called. -/
  | itself

/-- Cuts options off in front of some fields. -/
def cutOptions (usesDefault : Bool) : List String → OptionCut
  | [] => .unfinished false usesDefault
  | field :: rest =>
    match field.toList with
    | ['-', '-'] => if rest.isEmpty then .unfinished true usesDefault else .calls rest usesDefault
    | '-' :: c :: more =>
      if (c :: more).all (· == 'p') then cutOptions true rest else .itself
    | _ => .calls (field :: rest) usesDefault

/-- Cuts options off in front of fields and words that are still to be expanded. -/
def cutCommand (substitute : Substitution) (fields : List String) :
    OptionCut → List Word → Act (List String × OptionCut × List Word)
  | .unfinished ended usesDefault, w :: rest => do
    let found ← Expand.fields substitute w
    let cut := if ended then
        (if found.isEmpty then OptionCut.unfinished true usesDefault else .calls found usesDefault)
      else cutOptions usesDefault found
    cutCommand substitute (fields ++ found) cut rest
  | cut, rest => return (fields, cut, rest)

/-- Goes on with what the fields begin with. The command that calls another one can be called by
itself, at most so often. -/
def resolve (substitute : Substitution) : Nat → Invocation → List String → List Word → Act Invocation
  | 0, call, fields, _ => return { call with words := fields }
  | n + 1, call, fields, rest => do
    let s ← get
    let name := fields.headD ""
    let finish (call : Invocation) (declares : Bool) (seen words : List String) (rest : List Word) :
        Act Invocation := do
      let others ← rest.flatMapM (argument substitute declares)
      return { call with fields := call.fields ++ seen ++ others, words := words ++ others }
    match Search.meaning s call.withFunctions (call.searchPath.getD s.searchPath) name with
    | .builtin =>
      let special := specialBuiltins.contains name
      let call := if call.isSpecial.isSome then call
        else { call with isSpecial := some special, isTemporary := !special }
      if name ≠ "command" then finish call (declaringBuiltins.contains name) fields fields rest
      else
        let (seen, cut, rest) ← cutCommand substitute fields (cutOptions false fields.tail) rest
        match cut with
        | .calls words usesDefault =>
          -- the command that is called is looked up again, and not among the functions
          let front := seen.take (seen.length - words.length)
          let call := { call with
            fields := call.fields ++ front
            isTemporary := true
            withFunctions := false
            searchPath := if usesDefault then some State.defaultPath else call.searchPath }
          resolve substitute n call words rest
        | _ => finish call false seen seen rest
    | _ => finish { call with isTemporary := true } false fields fields rest

/-- Commands that call commands are nested no deeper than this. -/
def nestingLimit : Nat := 1000

/-- Expands the words of a simple command. -/
def ofWords (substitute : Substitution) (words : List Word) : Act Invocation := do
  let (fields, rest) ← firstFields substitute words
  if fields.isEmpty then return {} else resolve substitute nestingLimit {} fields rest

/-! ## Tracing -/

/-- What traced commands are marked with. -/
def traceMark (r : Runner) : Act String := do
  let text := ((← get).value? "PS4").getD ""
  match Reader.expandable.run (.ofText text.toList) with
  | .error _ => return text
  | .ok (w, _) =>
    Act.guarded (fun before after => { after with options := before.options }) do
      modify (ShellOption.set false 'x')
      Expand.document r.substitute w

/-- Writes a command to the stream for complaints as it was before the command's redirections. -/
def trace (r : Runner) (errors : Option Nat) (texts : List String) : Act Unit := do
  if (← get).isSet 'x' then
    let line := (← traceMark r) ++ " ".intercalate texts ++ "\n"
    modify fun s =>
      match errors.bind fun id => (s.world.write id (Raw.bytes line)).toOption with
      | some world => { s with world := world }
      | none => s

/-! ## Programs -/

/-- A process of the shell. -/
def process (s : State) (words : List String) : Process where
  number := s.process
  parent := s.parentProcess
  arguments := words
  environment := s.exported
  directory := s.directory
  descriptors := s.descriptors

/-- What runs files that are in no format of a program. -/
def shellPath : String := "/bin/sh"

/-- As `execute`; a file in no format of a program is run as a script. -/
def orScript (execute : Execution) : Execution := fun path process w =>
  match execute path process w with
  | .error .notRunnable =>
    execute shellPath { process with arguments := shellPath :: path :: process.arguments.tail } w
  | result => result

/-- Runs the first of some files that can be run. -/
def runFirst (execute : Execution) (process : Process) (w : World) (fault : SystemFault) :
    List String → Except SystemFault (Exit × World)
  | [] => .error fault
  | path :: rest =>
    match orScript execute path process w with
    | .ok result => .ok result
    | .error found =>
      let isAbsent := found == .notFound || found == .notDirectory
      runFirst execute process w (if isAbsent then fault else found) rest

/-- The status of a command that cannot be run. -/
def faultStatus : SystemFault → Nat
  | .notFound => 127
  | .notDirectory => 127
  | .nameTooLong => 127
  | .tooManyLinks => 127
  | _ => 126

/-- Complains about a program that cannot be run. -/
def refuse (name : String) (fault : SystemFault) : Act Unit := do
  Act.warn (name ++ ": " ++ Search.complaint fault)
  Act.setStatus (faultStatus fault)

/-- Whether a program takes so long that jobs are done before it is. -/
def takesTime (name : String) : Bool :=
  (name.splitOn "/").getLast? == some "sleep"

/-- Runs a program and waits for it. -/
def program (r : Runner) (paths words : List String) : Act Unit := do
  let name := words.headD ""
  if takesTime name then r.settle
  let s ← get
  let run (process : Process) (w : World) := runFirst r.execute process w .notFound paths
  match Execution.fork s.world (process s words) run with
  | .ok (exit, world) =>
    set { s with world := world }
    Runner.finished exit
  | .error fault => refuse name fault

/-- Runs a program in place of the shell. -/
def exec (r : Runner) (searchPath : Option String) : Builtin := fun words => do
  match words with
  | [] => return 0
  | name :: _ =>
    let s ← get
    let paths := if name.toList.contains '/' then [name]
      else Search.candidates (searchPath.getD s.searchPath) name
    match runFirst r.execute (process s words) s.world .notFound paths with
    | .ok (.code n, world) =>
      set { s with world := world, status := n, traps := [] }
      Act.stop .exit
    | .ok (.signal n, world) =>
      set { s with world := world }
      Act.stop (.killed n)
    | .error fault =>
      refuse name fault
      Act.stop .exit

/-! ## Built-in commands that run commands -/

/-- The path of a script that is run in the shell itself. -/
def scriptPath? (s : State) (name : String) : Option String :=
  if name.toList.contains '/' then some name
  else (Search.candidates s.searchPath name).find? fun path =>
    match s.node? path with
    | .ok (_, .file _ _ _) => true
    | _ => false

/-- The text of a script file. A directory holds no text. -/
def scriptText (s : State) (path : String) : Except SystemFault String :=
  match s.world.disk.contents s.directory (State.path path) with
  | .ok content => .ok (Raw.ofBytes content)
  | .error .isDirectory => .ok ""
  | .error fault => .error fault

/-- Runs a script in the shell itself. -/
def dot (r : Runner) : Builtin := fun arguments => do
  let (_, operands) ← Options.read "" arguments
  match operands with
  | [] => return 0
  | name :: _ =>
    let s ← get
    match scriptPath? s name with
    | none => Act.fail (name ++ ": not found")
    | some path =>
      match scriptText s path with
      | .error fault => Act.fail ("cannot open " ++ path ++ ": " ++ Opening.readProblem fault)
      | .ok text =>
        modify fun s => { s with command := some path }
        let status ← r.script false text
        modify fun s => { s with skip := if s.skip = .function then .nothing else s.skip }
        return status

/-- The built-in command of a name. -/
def builtin (r : Runner) (tested : Bool) (call : Invocation) (name : String) : Builtin :=
  match name with
  | "eval" => fun arguments => r.script tested (" ".intercalate arguments)
  | "." => dot r
  | "exec" => exec r call.searchPath
  | "wait" => Builtin.wait r.settle
  | name => (Builtin.named? name).getD Builtin.succeed

/-- Runs a built-in command. Its failure ends the shell if it is special. -/
def callBuiltin (name : String) (act : Act Nat) (isSpecial : Bool) : Act Unit := do
  let before := (← get).command
  modify fun s => { s with command := some name }
  let (outcome : Except Stop Nat) ← fun s =>
    let (outcome, after) := act s
    (.ok outcome, after)
  let written ← Act.flush
  match outcome with
  | .ok status =>
    if !written then Act.warn (name ++ ": I/O error")
    modify fun s => { s with
      command := before, status := if written then status else status ||| 1 }
  | .error why =>
    modify fun s => { s with command := before }
    if why != .fault || isSpecial then Act.stop why

/-! ## Functions -/

/-- Functions are nested no deeper than this. -/
def functionLimit : Nat := 1000

/-- Calls a function. -/
def callFunction (r : Runner) (tested : Bool) (f : FunctionBody) (arguments : List String) :
    Act Unit := do
  let s ← get
  if functionLimit < s.depth + 1 then
    Act.fail ("Maximum function recursion depth (" ++ toString functionLimit ++ ") reached")
  else
    Act.guarded
      (fun before after => { after with
        arguments := before.arguments
        optionIndex := before.optionIndex
        optionPlace := before.optionPlace
        loops := before.loops
        depth := before.depth
        skip := if after.skip = .function then .nothing else after.skip })
      do
        set { s with
          arguments := arguments, optionIndex := 1, optionPlace := none, loops := 0
          depth := s.depth + 1 }
        r.command tested f.body

/-! ## Calling -/

/-- Calls what the name of a command stands for. -/
def invoke (r : Runner) (tested : Bool) (call : Invocation) : Act Unit := do
  match call.words with
  | [] => modify fun s => { s with status := s.outputStatus }
  | name :: arguments =>
    let s ← get
    let meaning := Search.meaning s call.withFunctions (call.searchPath.getD s.searchPath) name
    match meaning with
    | .function f => callFunction r tested f arguments
    | .builtin =>
      callBuiltin name (builtin r tested call name arguments) (call.isSpecial == some true)
    | .program paths =>
      if call.searchPath.isNone then Search.remember name meaning
      program r paths call.words
    | .unknown fault =>
      Act.warn (name ++ ": " ++ Search.complaint fault)
      Act.setStatus 127

/-- Assigns variables, for the call only or for good. -/
def assignEach (r : Runner) (call : Invocation) :
    List (String × Word) → Act (List String)
  | [] => return []
  | (name, w) :: rest => do
    let value ← Expand.assigned r.substitute w
    if call.isTemporary then Builtin.makeLocal true (name ++ "=" ++ value)
    else
      Act.assign name value
      if call.words.head? == some "exec" && 1 < call.words.length then
        modify fun s => s.putVariable name
          { (s.variableOf? name).getD ⟨none, false, false⟩ with exported := true }
    return (name ++ "=" ++ value) :: (← assignEach r call rest)

/-- Puts back what was assigned for the call only. -/
def forget (_ after : State) : State :=
  match after.locals with
  | noted :: others => Builtin.restoreLocals noted { after with locals := others }
  | [] => after

/-- Runs a simple command once its words are expanded. -/
def perform (r : Runner) (tested : Bool) (call : Invocation) (assignments : List (String × Word))
    (redirects : List Redirect) : Act Unit := do
  let errors := (← get).descriptors.lookup 2
  let isPermanent := call.words.head? == some "exec"
  let restore := if isPermanent then fun _ after => after else Redirection.restore
  let act : Act Unit := Act.guarded restore do
    if ← Redirection.perform r.substitute redirects then
      let assigned ← assignEach r call assignments
      trace r errors (assigned ++ call.fields)
      invoke r tested call
    else
      Act.setStatus 2
      if call.isSpecial == some true then Act.stop .fault
  if call.isTemporary then
    Act.guarded forget do
      modify fun s => { s with locals := [] :: s.locals }
      act
  else act

end Invocation

/-- Runs a simple command. -/
def Runner.simple (r : Runner) (tested : Bool) (line : Nat) (assignments words : List Word)
    (redirects : List Redirect) : Act Unit := do
  modify fun s => { s with line := line, outputStatus := 0 }
  let call ← Invocation.ofWords r.substitute words
  Invocation.perform r tested call (assignments.filterMap assignment?) redirects

end ProjectBuild.Shell
