import ProjectBuild.Shell.Invocation

/-!
# Running commands

Compound commands are run by running the commands in them. The depth to which commands are nested
when they run is bounded, as the memory of a real shell is; a shell that goes deeper is killed.
-/

namespace ProjectBuild.Shell

namespace Runner

/-! ## Loops -/

/-- What a loop does after its condition or body has been run: whether it ends. -/
def leavesLoop : Act Bool := do
  let s ← get
  match s.skip with
  | .nothing => return false
  | .function => return true
  | .loops n =>
    set { s with skip := if n ≤ 1 then .nothing else .loops (n - 1) }
    return true
  | .rounds n =>
    set { s with skip := if n ≤ 1 then .nothing else .rounds (n - 1) }
    return 1 < n

/-- At most so many rounds of a loop, as long as its condition succeeds or fails. The status is that
of the last body. -/
def rounds (kind : LoopKind) (condition body : Act Unit) : Nat → Nat → Act Unit
  | 0, _ => Act.stop (.killed Signal.overflow)
  | n + 1, status => do
    condition
    let s ← get
    if s.isSkipping then
      let isReturn := s.skip = .function
      if ← leavesLoop then Act.setStatus (if isReturn then s.status else status)
      else rounds kind condition body n status
    else if (s.status == 0) != (kind == .while) then Act.setStatus status
    else
      body
      let status := (← get).status
      if ← leavesLoop then Act.setStatus status else rounds kind condition body n status

/-- More rounds than any loop makes that ends. -/
def roundLimit : Nat := 1000000000000

/-- A round for each value of a variable. -/
def eachRound (name : String) (body : Act Unit) : List String → Act Unit
  | [] => return
  | value :: rest => do
    Act.assign name value
    body
    if ← leavesLoop then return else eachRound name body rest

/-- Runs a loop; inside of it there is one loop more around. -/
def inLoop (act : Act Unit) : Act Unit :=
  Act.guarded (fun before after => { after with loops := before.loops }) do
    modify fun s => { s with loops := s.loops + 1 }
    act

/-! ## Selections -/

/-- Whether some pattern matches a subject. -/
def matchesAny (r : Runner) (subject : String) : List Word → Act Bool
  | [] => return false
  | w :: rest => do
    let pattern ← Expand.pattern r.substitute w
    if Pattern.accepts pattern subject.toList then return true
    else r.matchesAny subject rest

/-- Runs the first body with a pattern that matches a subject. -/
def select (r : Runner) (tested : Bool) (subject : String) : Arms → Act Unit
  | [] => Act.setStatus 0
  | (patterns, body) :: rest => do
    if ← r.matchesAny subject patterns then
      match body with
      | .nothing => Act.setStatus 0
      | body => r.command tested body
    else r.select tested subject rest

/-! ## Commands that run apart -/

/-- Runs commands, each of which reads what the one before it has written, up to a limit. Tells
whether one has read all of an input that was cut off there, and might have gone on. -/
def pipelineWithin (r : Runner) (tested : Bool) (limit : Nat) (input : Option Nat) :
    List Command → Act Bool
  | [] => return false
  | c :: rest => do
    let s ← get
    let (output, world) := s.world.openPipe (some limit)
    set { s with world := world }
    let wasCut := input.any world.isOverfull
    let exit ← r.apart do
      if let some id := input then modify fun s => s.setDescriptor 0 (some id)
      if !rest.isEmpty then modify fun s => s.setDescriptor 1 (some output)
      r.command tested c
    let w := (← get).world
    let mightGoOn := wasCut && !w.isOverfull output && input.all fun id => (w.written id).isEmpty
    if let some id := input then
      -- nothing writes to the pipe or reads from it any more
      modify fun s => { s with world := s.world.setStream id .null }
    if rest.isEmpty then
      finished exit
      return mightGoOn
    else
      modify Builtin.noticeJobs
      Builtin.tellExit exit
      return mightGoOn || (← r.pipelineWithin tested limit (some output) rest)

/-- Runs a pipeline, with a greater limit as long as that might make a difference. What has been run
with a limit that is too low does not count. -/
def pipeline (r : Runner) (tested : Bool) (commands : List Command) : Nat → Nat → Act Unit
  | 0, limit => do
    let _ ← r.pipelineWithin tested limit none commands
    return
  | n + 1, limit => fun s =>
    match r.pipelineWithin tested limit none commands s with
    | (.ok true, _) => r.pipeline tested commands n (16 * limit) s
    | (outcome, after) => (outcome.map fun _ => (), after)

/-- The most that a stream between two programs holds as long as the second one does not need
more. -/
def pipeLimit : Nat := 65536

/-- The limit of a pipeline is raised at most so often. -/
def pipeRaises : Nat := 2

/-- The least number of a job that is not in use. -/
def freeJob (s : State) : Nat :=
  let isFree (n : Nat) : Bool :=
    !s.jobs.any fun job => job.number == n && !(job.isNoticed && job.work.isNone)
  ((List.range (s.jobs.length + 1)).map (· + 1)).find? isFree |>.getD 1

/-- Leaves a command running. It has nothing to read. -/
def leaveRunning (c : Command) : Act Unit :=
  modify fun s =>
    let (process, world) := s.world.begin
    let (input, world) := world.openStream .null
    let inner := (Runner.split s process).setDescriptor 0 (some input)
    let number := freeJob s
    { s with
      world := world
      status := 0
      lastBackground := some process
      jobs := { number := number, process := process, work := some (c, inner) } ::
        s.jobs.filter fun job => job.number != number }

/-! ## All commands -/

/-- Runs a command. Its failure ends the shell if the shell is set so, and nothing tests it. -/
def checked (tested : Bool) (act : Act Unit) : Act Unit := do
  let ends := !tested && (← get).isSet 'e'
  act
  if ends && (← get).status != 0 then Act.stop .exit

/-- Runs the second of two commands, depending on how the first one ended. -/
def join (r : Runner) (tested : Bool) (how : Junction) (first second : Command) : Act Unit := do
  r.command (tested || how != .sequence) first
  let s ← get
  let goesOn := match how with
    | .sequence => true
    | .both => s.status == 0
    | .either => s.status != 0
  if goesOn && !s.isSkipping then r.command tested second

/-- Runs a command by running the commands in it. -/
def dispatch (r : Runner) (tested : Bool) (c : Command) : Act Unit := do
  match c with
  | .nothing => return
  | .simple line assignments words redirects =>
    checked tested (r.simple tested line assignments words redirects)
  | .join how first second => r.join tested how first second
  | .pipeline commands => checked tested (r.pipeline tested commands pipeRaises pipeLimit)
  | .negated inner =>
    r.command true inner
    modify fun s => { s with status := if s.status = 0 then 1 else 0 }
  -- a condition is tested, so its failure does not end the script
  | .branch condition body otherwise =>
    r.command true condition
    let s ← get
    if s.isSkipping then return
    else if s.status = 0 then r.command tested body
    else match otherwise with
      | .nothing => Act.setStatus 0
      | otherwise => r.command tested otherwise
  | .loop kind condition body =>
    inLoop (rounds kind (r.command true condition) (r.command tested body) roundLimit 0)
  | .each line name words body =>
    modify fun s => { s with line := line }
    let values ← words.flatMapM (Expand.fields r.substitute)
    Act.setStatus 0
    inLoop (eachRound name (r.command tested body) values)
  | .select line subject arms =>
    modify fun s => { s with line := line }
    let subject ← Expand.text r.substitute subject
    r.select tested subject arms
  | .redirected line inner redirects =>
    modify fun s => { s with line := line }
    Act.guarded Redirection.restore do
      if ← Redirection.perform r.substitute redirects then r.command tested inner
      else Act.setStatus 2
  | .subshell line inner redirects =>
    checked tested do
      modify fun s => { s with line := line }
      finished (← r.apart do
        if ← Redirection.perform r.substitute redirects then r.command tested inner
        else
          Act.setStatus 2
          Act.stop .fault)
  | .background inner => leaveRunning inner
  | .define line name body =>
    modify fun s => { s with
      functions := (name, ⟨line, body⟩) :: s.functions.filter fun entry => entry.1 != name
      status := 0 }

/-- Runs a command in which commands are nested no deeper than this. -/
def evaluate (execute : Execution) : Nat → Bool → Command → Act Unit
  | 0, _, _ => Act.stop (.killed Signal.overflow)
  | n + 1, tested, c => do
    let r : Runner := ⟨evaluate execute n, execute⟩
    if (← get).isSet 'n' then return
    else
      r.dispatch tested c
      r.notice

/-- Commands can be nested this deep when they run. -/
def depthLimit : Nat := 12000

/-- How a shell runs commands that runs programs in this way. -/
def ofExecution (execute : Execution) : Runner :=
  ⟨evaluate execute depthLimit, execute⟩

end Runner

end ProjectBuild.Shell
