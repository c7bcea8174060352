import ProjectBuild.Compile.Job
import ProjectBuild.Resolution

/-!
# Scripted compilers

A compiler that follows a script: which projects fail and how, which outputs it writes, what it
warns about, and when it cancels the run. It serves to rehearse a build.
-/

namespace ProjectBuild

/-- Which of the expected outputs are written. -/
inductive Emission where
  | all
  | scripts
  | declarations
  | none
  deriving DecidableEq, Repr, Inhabited

def Emission.includes (emission : Emission) (output : Path) : Bool :=
  match emission with
  | all => true
  | scripts => !output.isDeclaration
  | declarations => output.isDeclaration
  | none => false

structure CompileScript where
  /-- Whether references are verified first. -/
  verify : Bool := true
  /-- Diagnostics of the projects that fail, by the text of the configuration path. -/
  failures : List (String × List String) := []
  /-- Other errors. -/
  errors : List (String × Error) := []
  emissions : List (String × Emission) := []
  warnings : List (String × List String) := []
  /-- Projects whose compile cancels the run at its end. -/
  cancelling : List Path := []
  deriving Inhabited

namespace CompileScript

/-- The job's end after everything has been written. -/
def conclude {σ : Type} (script : CompileScript) (project : Path) : Job σ :=
  let messages := (script.warnings.lookup project.text).getD []
  if script.cancelling.any project.same then .step Site.cancel fun _ => .done (.ok messages)
  else .done (.ok messages)

/-- The outputs that are written for a project. -/
def emitted (script : CompileScript) (p : Project) : List Path :=
  p.expectedOutputs.filter ((script.emissions.lookup p.configPath.text).getD .all).includes

variable {σ : Type} [FileSystem σ]

/-- What is done once references are verified. -/
def perform (script : CompileScript) (p : Project) : Job σ :=
  match script.failures.lookup p.configPath.text with
  | some diagnostics => .done (.error (.compile p.configPath diagnostics))
  | none =>
    match script.errors.lookup p.configPath.text with
    | some error => .done (.error error)
    | none => Job.writeEach "// emitted" (script.emitted p) (script.conclude p.configPath)

/-- The compiler that follows the script. -/
def compiler (script : CompileScript) : Compiler σ := fun g i =>
  Job.look fun s =>
    if s.cancelled then .done (.error .cancelled)
    else if script.verify then
      match Resolution.verifyReferences s.files g i with
      | .error e => .done (.error e)
      | .ok () => script.perform (g.node i)
    else script.perform (g.node i)

end CompileScript

end ProjectBuild
