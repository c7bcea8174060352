import ProjectBuild.Process.Basic
import ProjectBuild.Status.Basic

/-!
# Colors on the console

Whether output is colored, and how the label of a status looks. The flag decides if it says
`always` or `never`; otherwise the environment does, and colors are off where output does not go
to a terminal unless they are forced. Marks in front of a line are pictures only in color.
-/

namespace ProjectBuild

/-- How text is written to the console. -/
structure Palette where
  color : Bool
  deriving DecidableEq, Repr, Inhabited

namespace Palette

/-- Whether the environment asks for colors in output that does not go to a terminal. -/
def detect (env : Environment) : Bool :=
  if (env.lookup "NO_COLOR").isSome then false
  else if env.lookup "CLICOLOR" = some "0" then false
  else match env.lookup "CLICOLOR_FORCE" with
    | some value => value ≠ "0" && value ≠ ""
    | none => false

/-- The palette for a flag, in any case of letters. -/
def ofFlag (flag : String) (env : Environment) : Palette :=
  match flag.toLower with
  | "always" => ⟨true⟩
  | "never" => ⟨false⟩
  | _ => ⟨detect env⟩

/-- The control sequence that selects a mode of display. -/
def select (mode : Nat) : String :=
  "\x1b[" ++ toString mode ++ "m"

/-- Text in some modes of display; afterwards all modes are off. -/
def styled (p : Palette) (modes : List Nat) (text : String) : String :=
  if p.color && !modes.isEmpty then String.join (modes.map select) ++ text ++ select 0 else text

def bold : Nat := 1
def dim : Nat := 2
def red : Nat := 31
def green : Nat := 32
def yellow : Nat := 33

/-- How a status is shown. -/
def modesOf : Status → List Nat
  | .built => [green]
  | .upToDate => [green]
  | .stale => [yellow]
  | .building => [yellow]
  | .failed => [red, bold]
  | .skipped => [dim]
  | .unknown => []

/-- A picture in color, a plain mark otherwise. -/
def mark (p : Palette) (picture plain : String) : String :=
  if p.color then picture else plain

/-- Width of status labels. -/
def labelWidth : Nat := 10

def pad (width : Nat) (text : String) : String :=
  text ++ String.ofList (List.replicate (width - text.length) ' ')

/-- The label of a status, at a fixed width. -/
def statusLabel (p : Palette) (status : Status) : String :=
  p.styled (modesOf status) (pad labelWidth status.label)

end Palette

end ProjectBuild
