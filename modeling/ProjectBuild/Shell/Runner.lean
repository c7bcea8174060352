import ProjectBuild.Process.World
import ProjectBuild.Shell.Builtin.Table
import ProjectBuild.Shell.Grammar
import ProjectBuild.Shell.Redirection

/-!
# Scripts, shells that are split off, and signals

What a shell does around single commands: it reads a script command by command, splits off shells
that work on a copy of its state, runs what is trapped when signals come, and ends. How one
command is run is a parameter.
-/

namespace ProjectBuild.Shell

/-- How commands and programs are run. -/
structure Runner where
  /-- Runs a command; a failure of one that is tested does not end the shell. -/
  command (tested : Bool) (c : Command) : Act Unit
  execute : Execution

namespace Runner

/-! ## Scripts -/

/-- Reads and runs at most so many commands of a script. The status is that of the last one. -/
def commands (r : Runner) (tested : Bool) : Nat → ReaderState → Nat → Act Nat
  | 0, _, status => return status
  | n + 1, reader, status => do
    let s ← get
    let reader := { reader with
      aliases := s.aliases, nextDocument := s.nextDocument, documents := s.documents }
    match Reader.completeCommand.run reader with
    | .error complaint =>
      modify fun s => { s with line := complaint.line }
      Act.fail complaint.text
    | .ok (none, _) => return status
    | .ok (some c, reader) =>
      modify fun s => { s with
        nextDocument := reader.nextDocument, documents := reader.documents }
      r.command tested c
      let s ← get
      let status := match c with
        | .nothing => status
        | _ => s.status
      if s.isSkipping then return status else r.commands tested n reader status

/-- Runs a script. -/
def script (r : Runner) (tested : Bool) (text : String) : Act Nat :=
  let chars := text.toList.filter fun c => c.toNat != 0
  r.commands tested (chars.length + 1) (.ofText chars) 0

/-! ## Signals -/

/-- Runs what is trapped. The status is what it was before. -/
def trapped (r : Runner) (text : String) : Act Unit := do
  let s ← get
  set { s with trapStatus := s.trapStatus.or (some s.status) }
  let _ ← r.script false text
  modify fun after => { after with
    trapStatus := s.trapStatus
    status := if after.isSkipping then after.status else s.status }

/-- Notices at most so many signals. -/
def noticeUpTo (r : Runner) : Nat → Act Unit
  | 0 => return
  | n + 1 => do
    let s ← get
    match s.world.notice? s.process with
    | none => return
    | some (signal, world) =>
      set { s with world := world }
      match if Signal.isCertain signal then none else s.traps.lookup signal with
      | some text => if text ≠ "" then r.trapped text
      | none => if !Signal.isHarmless signal then Act.stop (.killed signal)
      r.noticeUpTo n

/-- Notices the signals that have come. -/
def notice (r : Runner) : Act Unit := do
  let s ← get
  if s.world.signals.isEmpty || s.isSkipping then return
  else r.noticeUpTo s.world.signals.length

/-! ## The end of a shell -/

/-- How a shell ends that does not go on. -/
def exitOf (outcome : Except Stop Unit) (s : State) : Exit :=
  match outcome with
  | .error (.killed signal) => .signal signal
  | _ => .code (s.status % 256)

/-- Runs what is trapped for the end of the shell. The shell keeps its status unless that ends it
in another way. -/
def runExitTrap (r : Runner) (s : State) : Exit × State :=
  match s.traps.lookup 0 with
  | none => (.code (s.status % 256), s)
  | some text =>
    let ready := { Builtin.setTrap none 0 s with
      skip := .nothing, trapStatus := some s.status, command := none }
    match r.script false text ready with
    | (.ok _, after) => (.code (s.status % 256), after)
    | (.error why, after) => (exitOf (.error why) after, after)

/-- Runs something and ends. -/
def ending (r : Runner) (act : Act Unit) (s : State) : Exit × State :=
  match act s with
  | (.error (.killed signal), after) => (.signal signal, after)
  | (_, after) => r.runExitTrap after

/-! ## Shells that are split off -/

/-- A shell that is split off: only traps that ignore a signal stay. -/
def split (s : State) (process : Nat) : State :=
  { s with
    process := process
    jobs := []
    traps := s.traps.filter fun entry => entry.2 = "" }

/-- Carries out a job. -/
def settleJob (r : Runner) (process : Nat) : Act Unit := do
  let s ← get
  match (s.jobs.find? fun job => job.process == process).bind Job.work with
  | none => return
  | some (c, inner) =>
    let (exit, after) := r.ending (r.command false c) { inner with world := s.world }
    let (exit, world) := Execution.settle process exit after.world
    let finish (job : Job State) : Job State :=
      if job.process == process then { job with work := none, exit := exit } else job
    set { Builtin.changeJobs finish s with world := world }

/-- Carries out the jobs that are left. -/
def settle (r : Runner) : Act Unit := do
  (← get).jobs.reverse.forM fun job => r.settleJob job.process

/-- Runs a shell to its end, and the jobs that it leaves. -/
def whole (r : Runner) (act : Act Unit) (s : State) : Exit × World :=
  let (exit, after) := r.ending act s
  (exit, (r.settle after).2.world)

/-- Runs something in a shell that is split off. -/
def apart (r : Runner) (act : Act Unit) : Act Exit := fun s =>
  let (process, world) := s.world.begin
  let (exit, world) := r.whole act (split { s with world := world } process)
  let (exit, world) := Execution.settle process exit world
  (.ok exit, { s with world := world })

/-- Takes note of how a process ended that the shell has waited for. -/
def finished (exit : Exit) : Act Unit := do
  modify Builtin.noticeJobs
  Builtin.tellExit exit
  Act.setStatus (Signal.statusOf exit)

/-- The output of a command that is run apart. -/
def substitute (r : Runner) : Substitution := fun c => do
  match c with
  | .nothing => return ""
  | c =>
    let s ← get
    let (id, world) := s.world.openPipe
    set { s with world := world }
    let exit ← r.apart do
      modify fun s => s.setDescriptor 1 (some id)
      r.command false c
    modify Builtin.noticeJobs
    Builtin.tellExit exit
    let s ← get
    let output := Raw.ofBytes (s.world.written id)
    set { s with
      world := s.world.setStream id .null, outputStatus := Signal.statusOf exit }
    return String.ofList (output.toList.filter fun c => c.toNat != 0)

end Runner

end ProjectBuild.Shell
