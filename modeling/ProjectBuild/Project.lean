import ProjectBuild.Config.Basic
import ProjectBuild.Hash.XXH3
import ProjectBuild.Path.Extension
import ProjectBuild.Path.Map

/-!
# Projects

One project of the graph: its configuration, the directories it works in, its inputs, and the
files that building it produces. An output keeps the input's name relative to the root directory,
moved below the output directory, with the extension replaced.
-/

namespace ProjectBuild

/-- One independently buildable project, identified by the path of its configuration. -/
structure Project where
  configPath : Path
  /-- Directory of the configuration. -/
  configDir : Path
  /-- Directory that the inputs' relative names start from. -/
  rootDir : Path
  /-- Directory that outputs are written below. -/
  outDir : Path
  /-- Whether declarations are emitted; always so for a referenced project. -/
  declaration : Bool
  /-- Whether nothing but declarations is emitted. -/
  emitDeclarationOnly : Bool
  /-- Configuration paths of the referenced projects, in declaration order. -/
  references : List Path
  /-- Inputs, in path order. -/
  inputs : List Path
  config : ProjectConfig
  /-- Fingerprint of the configuration's text. -/
  configFingerprint : String
  deriving DecidableEq, Repr, Inhabited

namespace Project

/-- A project that works in its configuration's directory. -/
def ofConfig (configPath : Path) (config : ProjectConfig) : Project where
  configPath := configPath
  configDir := configPath.dir
  rootDir := configPath.dir
  outDir := configPath.dir
  declaration := config.emitsDeclarations
  emitDeclarationOnly := config.options.emitDeclarationOnly.getD false
  references := []
  inputs := []
  config := config
  configFingerprint := fingerprint config.describe

/-- Short name: the name of the configuration's directory. -/
def name (p : Project) : String :=
  p.configDir.fileName?.getD p.configPath.text

/-- Where the output with this extension goes for an input; nothing for an input outside the root
directory and for ambient declarations. -/
def outputFor? (p : Project) (extension : String) (input : Path) : Option Path := do
  let relative ← Path.afterDir? p.rootDir input
  if relative.isDeclaration then none
  else return p.outDir.join (← relative.replaceExtension? extension)

/-- The declaration an input is compiled to, if any. -/
def declarationFor? (p : Project) (input : Path) : Option Path :=
  p.outputFor? ".d.ts" input

/-- The script an input is compiled to, if any. -/
def scriptFor? (p : Project) (input : Path) : Option Path :=
  if p.emitDeclarationOnly then none else p.outputFor? ".js" input

/-- The outputs of one input. -/
def outputsOf (p : Project) (input : Path) : List Path :=
  (if p.declaration then (p.declarationFor? input).toList else []) ++
    (p.scriptFor? input).toList

/-- Every file that a successful compile produces, in path order. -/
def expectedOutputs (p : Project) : List Path :=
  Path.dedupSorted (Path.sort (p.inputs.flatMap p.outputsOf))

/-- Where the record of the last build is kept. -/
def recordPath (p : Project) : Path :=
  p.outDir.join ⟨p.configPath.fileStem?.getD "tsconfig" ++ ".tsbuildinfo"⟩

end Project

end ProjectBuild
