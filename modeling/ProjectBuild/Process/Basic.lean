import ProjectBuild.Disk.Basic

/-!
# Processes

A program that is called with arguments in a directory of a disk, and what it leaves behind.
-/

namespace ProjectBuild

/-- Variables of an environment; of several bindings of a name the first counts. -/
abbrev Environment := List (String × String)

structure Call where
  program : String
  arguments : List String
  directory : Location
  environment : Environment
  deriving Inhabited

/-- How a process ends. -/
inductive Exit where
  | code (n : Nat)
  /-- It was killed by a signal. -/
  | signal (n : Nat)
  deriving DecidableEq, Repr, Inhabited

def Exit.isSuccess : Exit → Bool
  | code n => n == 0
  | signal _ => false

structure ProcessResult where
  exit : Exit
  /-- Bytes on the standard output. -/
  output : ByteArray
  /-- Bytes on the standard error output. -/
  errors : ByteArray

/-- Runs programs on a disk; a program that cannot be started changes nothing. -/
abbrev Launcher := Call → Disk → Except SystemFault ProcessResult × Disk

end ProjectBuild
