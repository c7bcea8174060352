import ProjectBuild.Error.Basic

/-!
# Exit codes

What the command line reports to its caller.
-/

namespace ProjectBuild

inductive ExitCode where
  /-- Also when there was nothing to do. -/
  | success
  | generalError
  /-- The command line itself was wrong. -/
  | usageError
  /-- The projects form no valid graph; nothing was built. -/
  | invalidGraph
  /-- Some project failed or was skipped. -/
  | buildFailure
  | cancelled
  deriving DecidableEq, Repr, Inhabited

namespace ExitCode

def toNat : ExitCode → Nat
  | success => 0
  | generalError => 1
  | usageError => 2
  | invalidGraph => 3
  | buildFailure => 4
  | cancelled => 130

end ExitCode

/-- The code of a run that an error ended. -/
def Error.exitCode (e : Error) : ExitCode :=
  if e.isStructural then .invalidGraph
  else match e with
    | .cancelled => .cancelled
    | _ => .generalError

end ProjectBuild
