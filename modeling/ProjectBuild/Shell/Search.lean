import ProjectBuild.Shell.State

/-!
# What names of commands stand for

A name stands for a function, for a command that is built in, or for a program. A name with a slash
is the path of a program; any other one is looked for in the directories of the search path.
-/

namespace ProjectBuild.Shell

/-- Commands that are built in, and whose failure does not end the shell. -/
def regularBuiltins : List String := [
  "[", "alias", "bg", "cd", "chdir", "command", "echo", "false", "fg", "getopts", "hash", "jobs",
  "kill", "printf", "pwd", "read", "test", "true", "type", "ulimit", "umask", "unalias", "wait"]

/-- Commands that are built in, and whose failure ends the shell. -/
def specialBuiltins : List String := [
  ".", ":", "break", "continue", "eval", "exec", "exit", "export", "local", "readonly", "return",
  "set", "shift", "times", "trap", "unset"]

/-- Built-in commands whose arguments can be assignments. -/
def declaringBuiltins : List String := ["alias", "export", "local", "readonly"]

inductive Meaning where
  | function (found : FunctionBody)
  | builtin
  /-- A program at one of these paths; the first one can be run. -/
  | program (paths : List String)
  | unknown (fault : SystemFault)
  deriving Inhabited

namespace Search

/-- The directories of a search path. -/
def directories (searchPath : String) : List String :=
  searchPath.splitOn ":"

/-- A name in a directory; the current one goes without saying. -/
def inDirectory (dir name : String) : String :=
  if dir = "" then name else dir ++ "/" ++ name

/-- The paths that a name could have. -/
def candidates (searchPath name : String) : List String :=
  (directories searchPath).map fun dir => inDirectory dir name

/-- Whether a node can be run. -/
def isProgramFile : DiskNode → Bool
  | .file _ _ executable => executable
  | .program => true
  | _ => false

/-- The candidates from the first one on that can be run, or why there is none. -/
def programIn (s : State) (fault : SystemFault) : List String → Except SystemFault (List String)
  | [] => .error fault
  | path :: rest =>
    match s.node? path with
    | .ok (_, node) =>
      if isProgramFile node then .ok (path :: rest) else programIn s .permissionDenied rest
    | .error found =>
      let isAbsent := found == .notFound || found == .notDirectory
      programIn s (if isAbsent then fault else found) rest

/-- The program that a name stands for. -/
def program (s : State) (searchPath name : String) : Meaning :=
  if name.toList.contains '/' then .program [name]
  else match programIn s .notFound (candidates searchPath name) with
    | .ok paths => .program paths
    | .error fault => .unknown fault

/-- What a name stands for; functions can be left out. -/
def meaning (s : State) (withFunctions : Bool) (searchPath name : String) : Meaning :=
  match if withFunctions then s.functions.lookup name else none with
  | some f => .function f
  | none =>
    if specialBuiltins.contains name || regularBuiltins.contains name then .builtin
    else program s searchPath name

/-- What the shell calls the absence of a program. -/
def complaint : SystemFault → String
  | .notFound => "not found"
  | .notDirectory => "not found"
  | fault => fault.phrase

/-- Remembers where a program was found. -/
def remember (name : String) (meaning : Meaning) : Act Unit :=
  match meaning with
  | .program (path :: _) => modify fun s =>
    if name.toList.contains '/' || (s.remembered.lookup name).isSome then s
    else { s with remembered := s.remembered ++ [(name, path)] }
  | _ => return

end Search

end ProjectBuild.Shell
