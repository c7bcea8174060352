import ProjectBuild.Process.Basic
import ProjectBuild.Shell.Numeral

/-!
# Signals

The signals of the system by their numbers. Zero is no signal; as a trap, it stands for the end of
the shell.
-/

namespace ProjectBuild.Shell.Signal

/-- The names of signals, from zero on. -/
def names : List String := [
  "EXIT", "HUP", "INT", "QUIT", "ILL", "TRAP", "ABRT", "BUS", "FPE", "KILL", "USR1", "SEGV",
  "USR2", "PIPE", "ALRM", "TERM", "16", "CHLD", "CONT", "STOP", "TSTP", "TTIN", "TTOU", "URG",
  "XCPU", "XFSZ", "VTALRM", "PROF", "WINCH", "IO", "PWR", "SYS", "32", "33", "RTMIN"] ++
  ((List.range 15).map fun n => "RTMIN+" ++ toString (n + 1)) ++
  ((List.range 14).map fun n => "RTMAX-" ++ toString (14 - n)) ++ ["RTMAX"]

/-- The signal of a name or number, from `least` on. -/
def ofText? (least : Nat) (text : String) : Option Nat :=
  match text.toList.all Char.isDigit, text.toNat? with
  | true, some n => if n < names.length then some n else none
  | _, _ =>
    (List.range names.length).find? fun n =>
      least ≤ n && (names.getD n "").toUpper == text.toUpper

/-- What is said of a process that a signal has killed. -/
def description (n : Nat) : String :=
  match n with
  | 1 => "Hangup"
  | 2 => "Interrupt"
  | 3 => "Quit"
  | 4 => "Illegal instruction"
  | 5 => "Trace/breakpoint trap"
  | 6 => "Aborted"
  | 7 => "Bus error"
  | 8 => "Floating point exception"
  | 9 => "Killed"
  | 10 => "User defined signal 1"
  | 11 => "Segmentation fault"
  | 12 => "User defined signal 2"
  | 13 => "Broken pipe"
  | 14 => "Alarm clock"
  | 15 => "Terminated"
  | 16 => "Stack fault"
  | 24 => "CPU time limit exceeded"
  | 25 => "File size limit exceeded"
  | 26 => "Virtual timer expired"
  | 27 => "Profiling timer expired"
  | 29 => "I/O possible"
  | 30 => "Power failure"
  | 31 => "Bad system call"
  | n => if n < 32 then "Unknown signal " ++ toString n
    else "Real-time signal " ++ toString (n - 34)

/-- Signals that do nothing unless they are caught. -/
def isHarmless (n : Nat) : Bool :=
  [0, 17, 18, 23, 28].contains n

/-- Signals that cannot be caught. -/
def isCertain (n : Nat) : Bool :=
  n == 9 || n == 19

def interrupt : Nat := 2

def broken : Nat := 13

def termination : Nat := 15

/-- What a process is killed by that goes too deep. -/
def overflow : Nat := 11

/-- The status that stands for the end of a process. -/
def statusOf : Exit → Nat
  | .code n => n
  | .signal n => 128 + n

end ProjectBuild.Shell.Signal
