import ProjectBuild.Shell.Builtin.Names
import ProjectBuild.Shell.Signal

/-!
# Commands on processes

Signals, commands that were left running, and limits. A command that is left running is carried out
when the shell waits or ends, so what it does comes after what the script does in the meantime.
-/

namespace ProjectBuild.Shell.Builtin

/-! ## Jobs -/

/-- What becomes of the jobs: each is changed or kept. -/
def changeJobs (change : Job State → Job State) (s : State) : State :=
  { s with jobs := s.jobs.map change }

/-- The job that a word with a percent sign names. -/
def jobOf? (s : State) (word : String) : Option (Job State) :=
  match word.toList with
  | ['%', '%'] => s.jobs.head?
  | ['%', '+'] => s.jobs.head?
  | ['%'] => s.jobs.head?
  | ['%', '-'] => s.jobs.tail.head?
  | '%' :: digits =>
    (String.ofList digits).toNat?.bind fun n => s.jobs.find? fun job => job.number == n
  | _ => none

/-- How a job is doing. -/
def jobState (job : Job State) : String :=
  match job.work, job.exit with
  | some _, _ => "Running"
  | none, .code 0 => "Done"
  | none, .code n => "Done(" ++ toString n ++ ")"
  | none, .signal n => Signal.description n

/-- The sign of the current job and of the one before it. -/
def jobSign (s : State) (job : Job State) : String :=
  if s.jobs.head?.any fun other => other.number == job.number then "+"
  else if s.jobs.tail.head?.any fun other => other.number == job.number then "-"
  else " "

/-- Prints a job. -/
def printJob (withProcess : Bool) (job : Job State) : Act Unit := do
  let s ← get
  let start := "[" ++ toString job.number ++ "] " ++ jobSign s job ++ " "
  let process := if withProcess then toString job.process ++ " " else ""
  Act.printLine (ShellOption.padded 33 (start ++ process ++ jobState job))

/-- Lists jobs; one that is done is forgotten then. -/
def listJobs : Builtin := fun arguments => do
  let (options, operands) ← Options.read "lp" arguments
  let s ← get
  let chosen ← if operands.isEmpty then pure s.jobs
    else operands.mapM fun word => do
      match jobOf? s word with
      | some job => return job
      | none => Act.fail ("No such job: " ++ word)
  chosen.forM fun job => do
    match options.getLast? with
    | some ('p', _) => Act.printLine (toString job.process)
    | option => printJob option.isSome job
    if job.work.isNone then
      modify fun s => { s with jobs := s.jobs.filter fun other => other.number != job.number }
  return 0

/-- Goes on with a job, which needs a terminal. -/
def resumeJob : Builtin := fun arguments => do
  let s ← get
  match arguments with
  | [] =>
    match s.jobs.head? with
    | none => Act.fail "No current job"
    | some _ => Act.fail "job (null) not created under job control"
  | word :: _ =>
    match jobOf? s word with
    | none => Act.fail ("No such job: " ++ word)
    | some _ => Act.fail ("job " ++ word ++ " not created under job control")

/-- Forgets which jobs' ends are still to be told. -/
def noticeJobs (s : State) : State :=
  changeJobs (fun job => if job.work.isNone then { job with isNoticed := true } else job) s

/-- Tells of a process that a signal has killed. -/
def tellExit (exit : Exit) : Act Unit := do
  match exit with
  | .signal n =>
    if n != Signal.interrupt && n != Signal.broken then grumble (Signal.description n)
  | .code _ => pure ()

/-- Waits for jobs; `settle` has all of them done. -/
def wait (settle : Act Unit) : Builtin := fun arguments => do
  let (_, operands) ← Options.read "" arguments
  if operands.isEmpty then
    settle
    modify noticeJobs
    return 0
  else operands.foldlM (fun _ word => do
    let process? ← if word.toList.head? == some '%' then
        match jobOf? (← get) word with
        | some job => pure (some job.process)
        | none => Act.fail ("No such job: " ++ word)
      else do
        let n ← number word
        pure (some n)
    settle
    match (← get).jobs.find? fun job => some job.process == process? with
    | none => return 127
    | some job =>
      if !job.isNoticed then tellExit job.exit
      modify fun s => changeJobs
        (fun other => if other.process == job.process then { other with isNoticed := true }
          else other) s
      return Signal.statusOf job.exit) 0

/-! ## Signals -/

def killUsage : String :=
  "Usage: kill [-s sigspec | -signum | -sigspec] [pid | job]... or\nkill -l [exitstatus]"

/-- Ends a job that is still to be carried out, unless the signal does nothing. -/
def killJob (process signal : Nat) (job : Job State) : Job State :=
  if job.process == process && job.work.isSome && !Signal.isHarmless signal then
    { job with work := none, exit := .signal signal }
  else job

/-- Sends a signal to a process, or says why not. -/
def sendTo (signal : Nat) (word : String) : Act Nat := do
  let absent : Act Nat := do
    Act.warn (SystemFault.noProcess.phrase ++ "\n")
    return 1
  match word.toList with
  | '%' :: _ =>
    match jobOf? (← get) word with
    | some _ => absent
    | none => Act.fail ("No such job: " ++ word)
  | '-' :: digits =>
    let _ ← number (String.ofList digits)
    absent
  | _ =>
    let process ← number word
    let s ← get
    if s.jobs.any fun job => job.process == process && !job.isNoticed then
      set (changeJobs (killJob process signal) s)
      return 0
    else match s.world.send process signal with
      | .ok world =>
        set { s with world := world }
        return 0
      | .error _ => absent

/-- Lists the names of signals, or the one that a status stands for. -/
def listSignals : List String → Act Nat
  | [] => do
    Act.printLine "0"
    Signal.names.tail.forM Act.printLine
    return 0
  | word :: _ => do
    let n ← number word
    let signal := if 128 < n then n - 128 else n
    match if signal = 0 then none else Signal.names[signal]? with
    | some name =>
      Act.printLine name
      return 0
    | none => Act.fail ("invalid signal number or exit status: " ++ word)

/-- The signal that a word with a hyphen names. -/
def signalOf? (word : String) : Option Nat :=
  match word.toList with
  | '-' :: name => Signal.ofText? 1 (String.ofList name)
  | _ => none

/-- Sends signals to processes. -/
def kill : Builtin := fun arguments => do
  let usage : Act Nat := Act.fail killUsage
  let sendAll (signal : Nat) (operands : List String) : Act Nat :=
    if operands.isEmpty then usage
    else operands.foldlM (fun status word => do
      return max status (← sendTo signal word)) 0
  match arguments with
  | [] => usage
  | first :: rest =>
    match signalOf? first with
    | some signal => sendAll signal rest
    | none =>
      let (options, operands) ← Options.read "ls:" arguments
      let isList := options.any fun option => option.1 == 'l'
      match (options.filter fun option => option.1 == 's').getLast? with
      | some (_, name) =>
        match Signal.ofText? 1 name with
        | some signal => if isList then usage else sendAll signal operands
        | none => Act.fail ("invalid signal number or name: " ++ name)
      | none => if isList then listSignals operands else sendAll Signal.termination operands

/-! ## Traps -/

/-- Sets what is run when a signal comes. -/
def setTrap (action : Option String) (signal : Nat) (s : State) : State :=
  let others := s.traps.filter fun entry => entry.1 != signal
  { s with traps := match action with
    | none => others
    | some text => (signal, text) :: others }

/-- Prints the traps as they can be read again. -/
def printTraps : Act Unit := do
  let sorted := (← get).traps.mergeSort fun a b => decide (a.1 ≤ b.1)
  sorted.forM fun (signal, text) =>
    Act.printLine ("trap -- " ++ quoted text ++ " " ++ Signal.names.getD signal "")

/-- Sets traps for signals up to one that there is none of. -/
def setTraps (action : Option String) : List String → Act Nat
  | [] => return 0
  | word :: rest => do
    match Signal.ofText? 0 word with
    | some signal =>
      modify (setTrap action signal)
      setTraps action rest
    | none =>
      grumble ("trap: " ++ word ++ ": bad trap")
      return 1

/-- Sets or prints what is run when signals come. -/
def trap : Builtin := fun arguments => do
  let (_, operands) ← Options.read "" arguments
  match operands with
  | [] =>
    printTraps
    return 0
  | [word] => setTraps none [word]
  | action :: words =>
    let isNumber := action.toList.all Char.isDigit && action ≠ "" &&
      (Signal.ofText? 0 action).isSome
    if isNumber then setTraps none operands
    else setTraps (if action = "-" then none else some action) words

/-! ## Limits -/

/-- Permissions of the owner, the group and others, three bits each. -/
def classShifts : List (Char × Nat) := [('u', 6), ('g', 3), ('o', 0)]

def permissionBits : List (Char × Nat) := [('r', 4), ('w', 2), ('x', 1)]

/-- A mask in words: what is permitted. -/
def maskInWords (mask : Nat) : String :=
  ",".intercalate (classShifts.map fun (c, shift) =>
    let missing := mask / Nat.pow 2 shift % 8
    String.ofList (c :: '=' :: permissionBits.filterMap fun (letter, bit) =>
      if missing / bit % 2 = 0 then some letter else none))

/-- A number with four octal digits. -/
def fourOctals (n : Nat) : String :=
  String.ofList ([512, 64, 8, 1].map fun place => Char.ofNat (48 + n / place % 8))

/-- What one part of a mask in words permits, after what was permitted before. -/
def permit? (permitted : Nat) (part : List Char) : Option Nat :=
  let who := part.takeWhile fun c => c == 'a' || (classShifts.lookup c).isSome
  let classes := if who.isEmpty || who.contains 'a' then ['u', 'g', 'o'] else who
  match part.drop who.length with
  | op :: letters =>
    (letters.mapM fun c => permissionBits.lookup c).bind fun bits =>
      let spread := classShifts.map fun (c, shift) =>
        if classes.contains c then bits.eraseDups.foldl (· + ·) 0 * Nat.pow 2 shift else 0
      let scope := classShifts.map fun (c, shift) =>
        if classes.contains c then 7 * Nat.pow 2 shift else 0
      let spread := spread.foldl (· + ·) 0
      let scope := scope.foldl (· + ·) 0
      match op with
      | '+' => some (permitted ||| spread)
      | '-' => some (permitted ^^^ (permitted &&& spread))
      | '=' => some ((permitted ^^^ (permitted &&& scope)) ||| spread)
      | _ => none
  | [] => none

/-- Says or sets who may not do what with new files. -/
def mask : Builtin := fun arguments => do
  let (options, operands) ← Options.read "S" arguments
  let s ← get
  match operands with
  | [] => Act.printLine (if options.isEmpty then fourOctals s.mask else maskInWords s.mask)
  | text :: _ =>
    if (text.toList.head?).any Char.isDigit then
      if text.toList.all fun c => '0' ≤ c && c ≤ '7' then
        set { s with mask := (Numeral.digits 8 0 0 text.toList).1 % 512 }
      else Act.fail ("Illegal number: " ++ text)
    else match (text.splitOn ",").foldlM (fun n part => permit? n part.toList) (511 - s.mask) with
      | some permitted => set { s with mask := 511 - permitted }
      | none => Act.fail ("Illegal mode: " ++ text)
  return 0

/-- Limits of what a process uses: letters, names and values. -/
def limits : List (Char × String × String) := [
  ('t', "time(seconds)", "unlimited"), ('f', "file(blocks)", "unlimited"),
  ('d', "data(kbytes)", "unlimited"), ('s', "stack(kbytes)", "8192"),
  ('c', "coredump(blocks)", "0"), ('m', "memory(kbytes)", "unlimited"),
  ('l', "locked memory(kbytes)", "8192"), ('p', "process", "unlimited"),
  ('n', "nofiles", "1048576"), ('v', "vmemory(kbytes)", "unlimited"),
  ('w', "locks", "unlimited"), ('r', "rtprio", "0")]

/-- Says the limits of what the shell uses. They cannot be changed. -/
def limit : Builtin := fun arguments => do
  let (options, operands) ← Options.read "HSatfdscmlpnvwr" arguments
  let letters := options.map Prod.fst
  if letters.contains 'a' then
    limits.forM fun (_, name, value) => Act.printLine (ShellOption.padded 20 name ++ " " ++ value)
  else if operands.isEmpty then
    let letter := ((letters.filter fun c => c != 'H' && c != 'S').getLast?).getD 'f'
    match limits.lookup letter with
    | some (_, value) => Act.printLine value
    | none => pure ()
  return 0

end ProjectBuild.Shell.Builtin
