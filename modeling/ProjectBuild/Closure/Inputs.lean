import ProjectBuild.Config.Reader
import ProjectBuild.Glob.Set
import ProjectBuild.Path.Ancestor
import ProjectBuild.Path.Normal
import ProjectBuild.Project

/-!
# Inputs of a project

A project takes the files it lists, and the source files below its configuration's directory that
its patterns include and do not exclude. A directory that is excluded, or that outputs are written
to, is not looked into. A declaration beside its own source is that source's output and no input.
-/

namespace ProjectBuild

/-- Directories that are never input unless a project says otherwise. -/
def defaultExcludes : List String := ["node_modules", "bower_components", "jspm_packages"]

/-- Patterns of a project that states neither files nor patterns. -/
def defaultIncludes : List String := ["**/*"]

namespace ProjectConfig

/-- The patterns that select inputs: none for a project that only lists files. -/
def inputPatterns (config : ProjectConfig) : List String :=
  match config.includes, config.files with
  | some patterns, _ => patterns
  | none, some _ => []
  | none, none => defaultIncludes

/-- Compiles patterns. -/
def compilePatterns (patterns : List String) : Except Error GlobSet :=
  (GlobSet.ofPatterns patterns).mapError .pattern

/-- The patterns of what is no input. -/
def excludeSet (config : ProjectConfig) : Except Error GlobSet :=
  compilePatterns (config.excludes.getD defaultExcludes)

/-- The first listed file that does not exist. -/
def missingFile? {σ : Type} [FileSystem σ] (fs : σ) (configDir : Path) (config : ProjectConfig) :
    Option Path :=
  ((config.files.getD []).map fun file => Path.absolutize configDir ⟨file⟩).find? fun file =>
    !FileSystem.isFile fs file

end ProjectConfig

/-- Which files below a configuration's directory are inputs. -/
structure InputRule where
  configDir : Path
  included : GlobSet
  excluded : GlobSet
  /-- An output directory that does not contain the configuration's directory. -/
  outDir : Option Path

namespace InputRule

/-- Whether a set of patterns accepts a path, as seen from the configuration's directory. -/
def names (rule : InputRule) (patterns : GlobSet) (path : Path) : Bool :=
  match Path.afterDir? rule.configDir path with
  | some relative => patterns.accepts relative
  | none => false

/-- Whether a directory is not looked into. -/
def prunes (rule : InputRule) (dir : Path) : Bool :=
  (match rule.outDir with
    | some outDir => dir.same outDir
    | none => false) || rule.names rule.excluded dir

/-- Whether outputs are written to where a file lies. -/
def isOutput (rule : InputRule) (file : Path) : Bool :=
  match rule.outDir with
  | some outDir => Path.isWithin outDir file
  | none => false

/-- Whether a file that was found is an input. -/
def selects (rule : InputRule) (file : Path) : Bool :=
  file.isSource && !rule.isOutput file && rule.names rule.included file &&
    !rule.names rule.excluded file

end InputRule

namespace Closure

/-- Whether a file is a declaration whose source, of either kind, is among the files. -/
def isGenerated (files : PathSet) (file : Path) : Bool :=
  file.isDeclaration && [SourceKind.plain, SourceKind.markup].any fun kind =>
    match file.replaceExtension? kind.extension with
    | some source => files.contains source
    | none => false

/-- The files without generated declarations, in path order. -/
def withoutGenerated (files : PathSet) : List Path :=
  files.keys.filter fun file => !isGenerated files file

variable {σ : Type} [FileSystem σ]

/-- The files below the configuration's directory that the patterns select. -/
def selectedFiles (fs : σ) (configDir : Path) (config : ProjectConfig) (outDir : Option Path) :
    Noted (Except Error (List Path)) :=
  let patterns := config.inputPatterns
  if patterns.isEmpty then ⟨.ok [], []⟩
  else
    match ProjectConfig.compilePatterns patterns with
    | .error e => ⟨.error e, []⟩
    | .ok included =>
      match config.excludeSet with
      | .error e => ⟨.error e, []⟩
      | .ok excluded =>
        let rule : InputRule := {
          configDir, included, excluded
          -- an output directory around everything would leave nothing to be found
          outDir := outDir.filter fun outDir => !Path.isWithin outDir configDir }
        let found := FileSystem.list fs configDir rule.prunes
        match found.value with
        | .error failure => ⟨.error (.io failure), found.notes⟩
        | .ok files => ⟨.ok (files.filter rule.selects), found.notes⟩

/-- The inputs of a project, in path order. -/
def inputs (fs : σ) (configDir : Path) (config : ProjectConfig) (outDir : Option Path) :
    Noted (Except Error (List Path)) :=
  match config.missingFile? fs configDir with
  | some file =>
    ⟨.error (.config (configDir.join ⟨configFileName⟩) (.missingInput file)), []⟩
  | none =>
    let listed := (config.files.getD []).map fun file => Path.absolutize configDir ⟨file⟩
    let selected := selectedFiles fs configDir config outDir
    ⟨selected.value.map fun found => withoutGenerated (PathSet.ofPaths (listed ++ found)),
      selected.notes⟩

end Closure

end ProjectBuild

/-!
## From configuration to project

The directories of a project are those its configuration states. Without a root directory, a
project with references starts from its configuration's directory and any other from the deepest
directory that holds its sources; without an output directory, outputs go to the root directory.
Every source has to lie below the root directory.
-/

namespace ProjectBuild.Closure

/-- The root directory of a project with these inputs. -/
def rootDir (configDir : Path) (config : ProjectConfig) (inputs : List Path) : Path :=
  match config.options.rootDir with
  | some dir => Path.absolutize configDir ⟨dir⟩
  | none =>
    if config.references.isSome then configDir
    else (Path.commonAncestor? (inputs.filter fun file => !file.isDeclaration)).getD configDir

/-- The first source outside the root directory. -/
def outsider? (p : Project) : Option Path :=
  p.inputs.find? fun file => !file.isDeclaration && !Path.isWithin p.rootDir file

/-- A project with these inputs, in the directories its configuration asks for. -/
def arrange (loaded : LoadedConfig) (references inputs : List Path) : Project :=
  let p := Project.ofConfig loaded.path loaded.config
  -- the root directory is inferred from the inputs, so it is set after them
  let root := rootDir p.configDir loaded.config inputs
  { p with
    configFingerprint := loaded.fingerprint
    references
    inputs
    rootDir := root
    outDir := match loaded.config.options.outDir with
      | some dir => Path.absolutize p.configDir ⟨dir⟩
      | none => root }

variable {σ : Type} [FileSystem σ]

/-- The project of a configuration, whose references have been resolved. -/
def project (fs : σ) (loaded : LoadedConfig) (references : List Path) :
    Noted (Except Error Project) :=
  let configDir := loaded.path.dir
  let outDir := loaded.config.options.outDir.map fun dir => Path.absolutize configDir ⟨dir⟩
  let found := inputs fs configDir loaded.config outDir
  ⟨found.value.bind fun inputs =>
      let p := arrange loaded references inputs
      match outsider? p with
      | some file => .error (.config p.configPath (.outsideRoot file p.rootDir))
      | none => .ok p,
    found.notes⟩

end ProjectBuild.Closure
