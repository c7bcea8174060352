import ProjectBuild.Shell.Start
import ProjectBuild.Tool.Calculation
import ProjectBuild.Tool.Edit
import ProjectBuild.Tool.Match

/-!
# The machine

The programs that there are, the files that every disk has besides those of the user, and how a
program is launched by its name.
-/

namespace ProjectBuild.Machine

/-! ## Programs -/

/-- A tool that does what a built-in command of the shell does. -/
def ofBuiltin (act : Shell.Builtin) : Program := fun process w =>
  let s := Shell.State.ofProcess process w
  let (outcome, after) := (do
    let status ← act process.arguments.tail
    let _ ← Shell.Act.flush
    Shell.Act.setStatus status : Shell.Act Unit) s
  (Shell.Runner.exitOf outcome after, after.world)

/-- The tools that call no program. -/
def tools : List (String × Program) := [
  ("[", ofBuiltin Shell.Builtin.bracket), ("basename", Tool.program Tool.printBaseName),
  ("cat", Tool.program Tool.concatenate), ("chmod", Tool.program Tool.changeModes),
  ("cp", Tool.program Tool.copyFiles), ("cut", Tool.program Tool.cutFields),
  ("dirname", Tool.program Tool.printParent), ("echo", Tool.program Tool.printArguments),
  ("egrep", Tool.program (Tool.printMatches true false)), ("expr", Tool.program Tool.evaluate),
  ("false", Tool.program fun _ => return 1),
  ("fgrep", Tool.program (Tool.printMatches false true)),
  ("grep", Tool.program (Tool.printMatches false false)),
  ("head", Tool.program Tool.printStart), ("ln", Tool.program Tool.linkFiles),
  ("ls", Tool.program Tool.listFiles), ("mkdir", Tool.program Tool.makeDirectories),
  ("mv", Tool.program Tool.moveFiles), ("printenv", Tool.program Tool.printVariables),
  ("printf", ofBuiltin Shell.Builtin.printf), ("pwd", Tool.program Tool.printDirectory),
  ("readlink", Tool.program Tool.printLinks), ("rm", Tool.program Tool.removeFiles),
  ("rmdir", Tool.program Tool.removeDirectories), ("sed", Tool.program Tool.editText),
  ("seq", Tool.program Tool.printSequence), ("sleep", Tool.program Tool.sleep),
  ("sort", Tool.program Tool.sortLines), ("tac", Tool.program Tool.reverseLines),
  ("tail", Tool.program Tool.printEnd), ("tee", Tool.program Tool.copyInput),
  ("test", ofBuiltin Shell.Builtin.condition), ("touch", Tool.program Tool.touchFiles),
  ("tr", Tool.program Tool.translate), ("true", Tool.program fun _ => return 0),
  ("uniq", Tool.program Tool.dropRepeats), ("wc", Tool.program Tool.countWords),
  ("yes", Tool.program Tool.printForever)]

/-- The programs that call others. -/
def callers : List (String × (Execution → Program)) := [
  ("dash", Shell.program), ("sh", Shell.program),
  ("env", fun execute => Tool.program (Tool.inEnvironment execute)),
  ("find", fun execute => Tool.program (Tool.findFiles execute)),
  ("xargs", fun execute => Tool.program (Tool.callWithInput execute))]

/-- The program of a name. -/
def program? (execute : Execution) (name : String) : Option Program :=
  (tools.lookup name).or ((callers.lookup name).map fun program => program execute)

/-- Runs files in processes that are nested no deeper than this. -/
def executionUpTo : Nat → Execution
  | 0 => fun _ _ _ => .error .noProcess
  | n + 1 => Execution.ofPrograms (program? (executionUpTo n))

/-- Processes are nested no deeper than this. -/
def processLimit : Nat := 200

def execution : Execution :=
  executionUpTo processLimit

/-! ## Files -/

/-- The users that there are. -/
def users : String := "root:x:0:0:root:/root:/bin/bash
daemon:x:1:1:daemon:/usr/sbin:/usr/sbin/nologin
bin:x:2:2:bin:/bin:/usr/sbin/nologin
sys:x:3:3:sys:/dev:/usr/sbin/nologin
sync:x:4:65534:sync:/bin:/bin/sync
games:x:5:60:games:/usr/games:/usr/sbin/nologin
man:x:6:12:man:/var/cache/man:/usr/sbin/nologin
lp:x:7:7:lp:/var/spool/lpd:/usr/sbin/nologin
mail:x:8:8:mail:/var/mail:/usr/sbin/nologin
news:x:9:9:news:/var/spool/news:/usr/sbin/nologin
uucp:x:10:10:uucp:/var/spool/uucp:/usr/sbin/nologin
proxy:x:13:13:proxy:/bin:/usr/sbin/nologin
www-data:x:33:33:www-data:/var/www:/usr/sbin/nologin
backup:x:34:34:backup:/var/backups:/usr/sbin/nologin
list:x:38:38:Mailing List Manager:/var/list:/usr/sbin/nologin
irc:x:39:39:ircd:/run/ircd:/usr/sbin/nologin
nobody:x:65534:65534:nobody:/nonexistent:/usr/sbin/nologin
"

def directories : List Location := [
  ["dev"], ["dev", "fd"], ["etc"], ["home"], ["opt"], ["proc"], ["root"], ["run"], ["sys"], ["tmp"],
  ["usr"], ["usr", "bin"], ["usr", "lib"], ["usr", "local"], ["usr", "local", "bin"],
  ["usr", "local", "sbin"], ["usr", "sbin"], ["usr", "share"], ["var"], ["var", "tmp"]]

def links : List (Location × String) := [
  (["bin"], "usr/bin"), (["lib"], "usr/lib"), (["sbin"], "usr/sbin")]

/-- The time of everything that the system has. -/
def installed : Time :=
  .ofEpoch 946684800 0

/-- The files of the system. -/
def nodes : List (Location × DiskNode) :=
  directories.map (·, .directory installed) ++
    links.map (fun (location, target) => (location, .link ⟨target⟩)) ++
    (["null", "stdin", "stdout", "stderr", "tty", "zero"].map fun name => (["dev", name], .void)) ++
    (tools.map Prod.fst ++ callers.map Prod.fst).map (fun name => (["usr", "bin", name], .program)) ++
    [(["etc", "passwd"], .file users.toUTF8 installed false)]

/-- A disk with the files of the system and others, which take their places. -/
def diskWith (others : List (Location × DiskNode)) (now : Time) : Disk where
  nodes := nodes.filter (fun entry => (others.lookup entry.1).isNone) ++ others
  now := now

/-! ## Launching -/

/-- The nanoseconds that a call takes. -/
def callTime : Nat := 20000000

/-- The first of several bindings of each name. -/
def firstBindings (environment : Environment) : Environment :=
  environment.foldl
    (fun found entry => if (found.lookup entry.1).isSome then found else found ++ [entry]) []

/-- Launches programs by their names. -/
def launch : Launcher := fun call disk =>
  let environment := (firstBindings call.environment).map fun (name, value) =>
    (Raw.ofText name, Raw.ofText value)
  let name := Raw.ofText call.program
  let world := World.start (disk.elapse callTime)
  let process : Process := {
    number := world.lastProcess
    parent := 1
    arguments := name :: call.arguments.map Raw.ofText
    environment := environment
    directory := call.directory
    descriptors := World.startDescriptors }
  let searchPath := (environment.lookup "PATH").getD Execution.defaultPath
  match Execution.fork world process (execution.search searchPath name) with
  | .error fault => (.error fault, disk)
  | .ok (exit, world) => (.ok ⟨exit, world.written 1, world.written 2⟩, world.disk)

end ProjectBuild.Machine
