import ProjectBuild.Proofs.Closure.Directories
import ProjectBuild.Proofs.Closure.Inputs
import ProjectBuild.Proofs.Resolution

/-! # How outputs mirror sources

    A project below absolute roots maps its sources into its output directory
    (`Project.MapsOutputs`): an output lies where its source lies below the root
    directory, under the same stem (`Project.MirrorsAt`).  Nothing else has outputs.
    Stem and place are all that an output forgets, except for the extension: so two
    sources meet in an output only if one is the other with markup
    (`Project.twins_of_shared`).  A source that is named as the root directory of
    its own project is left without outputs. -/

namespace ProjectBuild

/-- A plain source and one with markup that differ in their extension alone. -/
def Path.Twins (plain markup : Path) : Prop :=
  ∃ (front : List Component) (stem : String),
    plain.components = front ++ [.name (stem ++ ".ts")] ∧
      markup.components = front ++ [.name (stem ++ ".tsx")]

/-- A source file that is no declaration. -/
def Path.IsImplementation (p : Path) : Prop :=
  p.isSource = true ∧ p.isDeclaration = false

namespace Project

/-- An output has the place of its source, in the output directory instead of the
    root directory, and its stem. -/
def MirrorsAt (p : Project) (extension : String) (source output : Path) : Prop :=
  ∃ (front : List Component) (stem : String) (kind : SourceKind), stem ≠ "" ∧
    kind ≠ .declaration ∧
    source.components = p.rootDir.components ++ (front ++ [.name (stem ++ kind.extension)]) ∧
    output.components = p.outDir.components ++ (front ++ [.name (stem ++ extension)])

/-- Outputs mirror the sources of a project. -/
structure MapsOutputs (p : Project) : Prop where
  ascending : p.expectedOutputs.Pairwise fun q r => Path.compare q r = .lt
  within : ∀ output ∈ p.expectedOutputs, Path.isWithin p.outDir output = true
  named : ∀ output ∈ p.expectedOutputs, ∃ stem : String, stem ≠ "" ∧
    (output.fileName? = some (stem ++ ".d.ts") ∨ output.fileName? = some (stem ++ ".js"))
  /-- Among normal inputs no `..` leads out of the output directory. -/
  normal : (∀ input ∈ p.inputs, input.Normal) → ∀ output ∈ p.expectedOutputs, output.Normal
  script : p.emitDeclarationOnly = false → ∀ input ∈ p.inputs, input.IsImplementation →
    input.same p.rootDir = false → ∃ output ∈ p.expectedOutputs, p.MirrorsAt ".js" input output
  declared : p.declaration = true → ∀ input ∈ p.inputs, input.IsImplementation →
    input.same p.rootDir = false → ∃ output ∈ p.expectedOutputs, p.MirrorsAt ".d.ts" input output
  /-- Every output is that of such a source. -/
  source : ∀ output ∈ p.expectedOutputs, ∃ input ∈ p.inputs, input.IsImplementation ∧
    input.same p.rootDir = false ∧
      (p.emitDeclarationOnly = false ∧ p.MirrorsAt ".js" input output ∨
        p.declaration = true ∧ p.MirrorsAt ".d.ts" input output)
  ambient : ∀ input ∈ p.inputs, input.isDeclaration = true ∨ input.same p.rootDir = true →
    p.outputsOf input = []
  shared : ∀ a ∈ p.inputs, ∀ b ∈ p.inputs, a.same b = false → ∀ q ∈ p.outputsOf a,
    ∀ r ∈ p.outputsOf b, q.same r = true → a.Twins b ∨ b.Twins a

variable {p : Project}

/-! ## Places and stems -/

/-- An output mirrors its input below the output directory. -/
theorem mirrorsAt_of_outputFor? (hroot : p.rootDir.components ≠ []) {extension : String}
    (hextension : extension = ".js" ∨ extension = ".d.ts") {input output : Path}
    (h : p.outputFor? extension input = some output) : p.MirrorsAt extension input output := by
  have hproduct : '/' ∉ extension.toList ∧ 2 < extension.toList.length := by
    rcases hextension with rfl | rfl
    · decide
    · decide
  obtain ⟨front, stem, kind, hstem, hkind, -, hinput, houtput⟩ :=
    components_outputFor? h hproduct.1 hproduct.2
  exact ⟨front, stem, kind, hstem, hkind, hinput, houtput (Or.inl hroot)⟩

/-- Only implementations below the root directory have outputs. -/
theorem isImplementation_of_mem_outputsOf {input output : Path} (h : output ∈ p.outputsOf input) :
    input.IsImplementation ∧ input.same p.rootDir = false := by
  have hone : ∀ extension, p.outputFor? extension input = some output →
      input.IsImplementation ∧ input.same p.rootDir = false := by
    intro extension h
    obtain ⟨-, hsource, hambient, hne⟩ := isSource_of_outputFor? h
    exact ⟨⟨hsource, hambient⟩, hne⟩
  rcases mem_outputsOf.mp h with ⟨-, h⟩ | ⟨-, h⟩
  · exact hone ".d.ts" h
  · exact hone ".js" h

/-- Outputs of one extension at the same place have sources that differ in theirs. -/
theorem MirrorsAt.eq_or_twins {extension : String} {a b q r : Path}
    (ha : p.MirrorsAt extension a q) (hb : p.MirrorsAt extension b r)
    (h : q.components = r.components) :
    a.components = b.components ∨ a.Twins b ∨ b.Twins a := by
  obtain ⟨front, stem, kind, -, hkind, ha, hq⟩ := ha
  obtain ⟨front', stem', kind', -, hkind', hb, hr⟩ := hb
  rw [hq, hr, List.append_cancel_left_eq] at h
  obtain ⟨rfl, hname⟩ := List.append_inj' h rfl
  obtain rfl : stem = stem' := by
    have hname := Component.name.inj (List.singleton_inj.mp hname)
    rw [← String.toList_inj, String.toList_append, String.toList_append] at hname
    exact String.toList_inj.mp (List.append_cancel_right hname)
  rw [← List.append_assoc] at ha hb
  cases kind with
  | declaration => exact absurd rfl hkind
  | plain =>
      cases kind' with
      | declaration => exact absurd rfl hkind'
      | plain => exact Or.inl (ha.trans hb.symm)
      | markup => exact Or.inr (Or.inl ⟨_, stem, ha, hb⟩)
  | markup =>
      cases kind' with
      | declaration => exact absurd rfl hkind'
      | plain => exact Or.inr (Or.inr ⟨_, stem, hb, ha⟩)
      | markup => exact Or.inl (ha.trans hb.symm)

/-- A declaration is no script. -/
theorem declaration_ne_script {a b q r : Path} (hq : p.outputFor? ".d.ts" a = some q)
    (hr : p.outputFor? ".js" b = some r) : q.components ≠ r.components := by
  intro heq
  obtain ⟨stem, hstem, hlast⟩ := getLast?_outputFor? hq (by decide) (by decide)
  obtain ⟨stem', -, hlast'⟩ := getLast?_outputFor? hr (by decide) (by decide)
  have hambient := Path.isDeclaration_of_getLast? hlast hstem
  rw [Path.isDeclaration_congr heq] at hambient
  have hsource := Path.isSource_product hlast' (by decide)
  unfold Path.isSource at hsource
  unfold Path.isDeclaration at hambient
  rw [beq_iff_eq.mp hambient] at hsource
  cases hsource

/-- **Sources that share an output** differ in their extension alone. -/
theorem twins_of_shared (hroot : p.rootDir.components ≠ []) {a b q r : Path}
    (hab : a.same b = false) (hq : q ∈ p.outputsOf a) (hr : r ∈ p.outputsOf b)
    (hsame : q.same r = true) : a.Twins b ∨ b.Twins a := by
  have heq := Path.same_iff.mp hsame
  have hne := Path.same_eq_false_iff.mp hab
  rcases mem_outputsOf.mp hq with ⟨-, hq⟩ | ⟨-, hq⟩
  · rcases mem_outputsOf.mp hr with ⟨-, hr⟩ | ⟨-, hr⟩
    · exact ((mirrorsAt_of_outputFor? hroot (Or.inr rfl) hq).eq_or_twins
        (mirrorsAt_of_outputFor? hroot (Or.inr rfl) hr) heq).resolve_left hne
    · exact absurd heq (declaration_ne_script hq hr)
  · rcases mem_outputsOf.mp hr with ⟨-, hr⟩ | ⟨-, hr⟩
    · exact absurd heq.symm (declaration_ne_script hr hq)
    · exact ((mirrorsAt_of_outputFor? hroot (Or.inl rfl) hq).eq_or_twins
        (mirrorsAt_of_outputFor? hroot (Or.inl rfl) hr) heq).resolve_left hne

/-- An implementation below the root directory has its output among those expected. -/
theorem exists_mirrorsAt (hroot : p.rootDir.components ≠ []) {extension : String}
    (hextension : extension = ".js" ∨ extension = ".d.ts") {input : Path}
    (hinput : input ∈ p.inputs) (himpl : input.IsImplementation)
    (hwithin : Path.isWithin p.rootDir input = true) (hne : input.same p.rootDir = false)
    (hemit : ∀ output, p.outputFor? extension input = some output → output ∈ p.outputsOf input) :
    ∃ output ∈ p.expectedOutputs, p.MirrorsAt extension input output := by
  have hsome : (p.outputFor? extension input).isSome = !input.same p.rootDir :=
    isSome_outputFor? hwithin himpl.1 himpl.2
  rw [hne] at hsome
  obtain ⟨output, houtput⟩ := Option.isSome_iff_exists.mp hsome
  obtain ⟨kept, hkept, hsame⟩ := exists_mem_expectedOutputs hinput (hemit output houtput)
  obtain ⟨front, stem, kind, hstem, hkind, hsource, hplace⟩ :=
    mirrorsAt_of_outputFor? hroot hextension houtput
  exact ⟨kept, hkept, front, stem, kind, hstem, hkind, hsource,
    (Path.same_iff.mp hsame).trans hplace⟩

/-- The names of outputs end in the extensions of declarations and scripts. -/
theorem fileName?_expectedOutputs {output : Path} (h : output ∈ p.expectedOutputs) :
    ∃ stem : String, stem ≠ "" ∧
      (output.fileName? = some (stem ++ ".d.ts") ∨ output.fileName? = some (stem ++ ".js")) := by
  obtain ⟨input, -, h⟩ := mem_expectedOutputs h
  obtain ⟨stem, hstem, hlast | hlast⟩ := getLast?_outputsOf h
  · exact ⟨stem, hstem, Or.inl (Path.fileName?_of_getLast? hlast)⟩
  · exact ⟨stem, hstem, Or.inr (Path.fileName?_of_getLast? hlast)⟩

/-- **Where an output comes from.** -/
theorem exists_source (hroot : p.rootDir.components ≠ []) {output : Path}
    (h : output ∈ p.expectedOutputs) : ∃ input ∈ p.inputs, input.IsImplementation ∧
      input.same p.rootDir = false ∧
        (p.emitDeclarationOnly = false ∧ p.MirrorsAt ".js" input output ∨
          p.declaration = true ∧ p.MirrorsAt ".d.ts" input output) := by
  obtain ⟨input, hinput, h⟩ := mem_expectedOutputs h
  obtain ⟨himpl, hne⟩ := isImplementation_of_mem_outputsOf h
  refine ⟨input, hinput, himpl, hne, ?_⟩
  rcases mem_outputsOf.mp h with ⟨hemit, h⟩ | ⟨hemit, h⟩
  · exact Or.inr ⟨hemit, mirrorsAt_of_outputFor? hroot (Or.inr rfl) h⟩
  · exact Or.inl ⟨hemit, mirrorsAt_of_outputFor? hroot (Or.inl rfl) h⟩

/-- Outputs of normal inputs are normal below a normal output directory. -/
theorem normal_expectedOutputs (hroot : p.rootDir.components ≠ []) (hout : p.outDir.Normal)
    (hinputs : ∀ input ∈ p.inputs, input.Normal) {output : Path}
    (h : output ∈ p.expectedOutputs) : output.Normal := by
  obtain ⟨input, hinput, h⟩ := mem_expectedOutputs h
  rcases mem_outputsOf.mp h with ⟨-, h⟩ | ⟨-, h⟩
  · exact normal_outputFor? h (by decide) (by decide) (hinputs input hinput) hroot hout
  · exact normal_outputFor? h (by decide) (by decide) (hinputs input hinput) hroot hout

/-- A source that is the root directory leaves no name for an output. -/
theorem outputsOf_rootDir {input : Path} (h : input.same p.rootDir = true) :
    p.outputsOf input = [] := by
  refine List.eq_nil_iff_forall_not_mem.mpr fun output houtput => ?_
  exact Bool.false_ne_true ((isImplementation_of_mem_outputsOf houtput).2.symm.trans h)

/-- No output is an implementation. -/
theorem not_isImplementation {output : Path} (h : output ∈ p.expectedOutputs) :
    ¬ output.IsImplementation := by
  rintro ⟨hsource, hambient⟩
  rcases output_cases h with hnot | ⟨hdeclaration, -⟩
  · exact Bool.false_ne_true (hnot.symm.trans hsource)
  · exact Bool.false_ne_true (hambient.symm.trans hdeclaration)

/-- **The outputs of a project** in a normal directory mirror its sources. -/
theorem LoadedFrom.mapsOutputs {σ : Type} [FileSystem σ] {fs : σ} (h : p.LoadedFrom fs)
    (hdir : p.configPath.dir.Normal) : p.MapsOutputs := by
  have hroot : p.rootDir.components ≠ [] :=
    Path.components_ne_nil (h.isAbsolute_rootDir hdir.isAbsolute)
  exact {
    ascending := Path.ascending_dedupSorted (Path.ordered_sort _)
    within := fun output houtput => isWithin_outDir hroot houtput
    named := fun output houtput => fileName?_expectedOutputs houtput
    normal := fun hinputs output houtput =>
      normal_expectedOutputs hroot (h.normal_outDir hdir (h.normal_rootDir hdir hinputs)) hinputs
        houtput
    script := fun hemit input hinput himpl hne =>
      exists_mirrorsAt hroot (Or.inl rfl) hinput himpl (h.isWithin_rootDir hinput himpl.2) hne
        fun output houtput => mem_outputsOf.mpr (Or.inr ⟨hemit, houtput⟩)
    declared := fun hemit input hinput himpl hne =>
      exists_mirrorsAt hroot (Or.inr rfl) hinput himpl (h.isWithin_rootDir hinput himpl.2) hne
        fun output houtput => mem_outputsOf.mpr (Or.inl ⟨hemit, houtput⟩)
    source := fun output houtput => exists_source hroot houtput
    ambient := fun input _ hnone => hnone.elim outputsOf_declaration outputsOf_rootDir
    shared := fun a _ b _ hab q hq r hr hsame => twins_of_shared hroot hab hq hr hsame }

end Project

/-- **Outputs mirror sources**, in every project of a graph that is loaded from
    absolute roots, none of whose configurations is the root itself; and no output
    is the record of any project, or an implementation itself. -/
theorem loadGraph_mapsOutputs {σ : Type} [FileSystem σ] {fs : σ} {roots : List Path} {g : Graph}
    (hg : (loadGraph fs roots).value = .ok g) (hroots : ∀ root ∈ roots, root.isAbsolute = true)
    (hrooted : ∀ i < g.size, (g.node i).configPath.components ≠ [.root]) {i : Nat}
    (hi : i < g.size) :
    (g.node i).MapsOutputs ∧ ∀ output ∈ (g.node i).expectedOutputs,
      ¬ output.IsImplementation ∧ ∀ p : Project, p.recordPath.same output = false := by
  refine ⟨((loadGraph_sound hg).2 i hi).mapsOutputs
    ((Graph.normal_configPath hg hroots hrooted hi).dir (hrooted i hi)), fun output houtput =>
    ⟨Project.not_isImplementation houtput, fun p => ?_⟩⟩
  exact Path.same_eq_false_iff.mpr (Project.recordPath_ne_output houtput)

/-- A project with a source in plain and in markup form, and a declaration. -/
def twinFiles : MemoryFs :=
  .ofTexts [("/r/tsconfig.json",
      "\x7b\"compilerOptions\": \x7b\"outDir\": \"lib\", \"declaration\": true\x7d, \"files\": [\"a.ts\", \"a.tsx\", \"b.d.ts\"]\x7d"),
    ("/r/a.ts", ""), ("/r/a.tsx", ""), ("/r/b.d.ts", "")]

def twinGraph : Graph :=
  (loadGraph twinFiles [⟨"/r"⟩]).value.toOption.getD {}

/-- Both forms of the source have the same outputs, which mirror them; the declaration
    has none. -/
theorem loadGraph_mapsOutputs_twins :
    (loadGraph twinFiles [⟨"/r"⟩]).value = .ok twinGraph ∧
    (twinGraph.node 0).expectedOutputs = [⟨"/r/lib/a.d.ts"⟩, ⟨"/r/lib/a.js"⟩] ∧
    (∃ output ∈ (twinGraph.node 0).expectedOutputs,
      (twinGraph.node 0).MirrorsAt ".js" ⟨"/r/a.tsx"⟩ output) ∧
    ((⟨"/r/a.ts"⟩ : Path).Twins ⟨"/r/a.tsx"⟩ ∨ (⟨"/r/a.tsx"⟩ : Path).Twins ⟨"/r/a.ts"⟩) ∧
    (twinGraph.node 0).outputsOf ⟨"/r/b.d.ts"⟩ = [] := by
  have hloaded : (loadGraph twinFiles [⟨"/r"⟩]).value = .ok twinGraph :=
    Graph.loaded_of_isSome (by decide +kernel)
  have hfacts : (∀ i < twinGraph.size, (twinGraph.node i).configPath.components ≠ [.root]) ∧
      0 < twinGraph.size ∧
      (twinGraph.node 0).inputs = [⟨"/r/a.ts"⟩, ⟨"/r/a.tsx"⟩, ⟨"/r/b.d.ts"⟩] ∧
      (twinGraph.node 0).expectedOutputs = [⟨"/r/lib/a.d.ts"⟩, ⟨"/r/lib/a.js"⟩] ∧
      (twinGraph.node 0).outputsOf ⟨"/r/a.ts"⟩ = [⟨"/r/lib/a.d.ts"⟩, ⟨"/r/lib/a.js"⟩] ∧
      (twinGraph.node 0).outputsOf ⟨"/r/a.tsx"⟩ = [⟨"/r/lib/a.d.ts"⟩, ⟨"/r/lib/a.js"⟩] ∧
      (twinGraph.node 0).emitDeclarationOnly = false ∧
      (⟨"/r/a.tsx"⟩ : Path).same (twinGraph.node 0).rootDir = false := by decide +kernel
  obtain ⟨hrooted, hsize, hinputs, houtputs, hplain, hmarkup, hemit, hinside⟩ := hfacts
  obtain ⟨hmaps, -⟩ := loadGraph_mapsOutputs hloaded (by decide) hrooted hsize
  refine ⟨hloaded, houtputs, ?_, ?_, ?_⟩
  · exact hmaps.script hemit ⟨"/r/a.tsx"⟩ (by rw [hinputs]; decide) ⟨by decide, by decide⟩ hinside
  · exact hmaps.shared ⟨"/r/a.ts"⟩ (by rw [hinputs]; decide) ⟨"/r/a.tsx"⟩
      (by rw [hinputs]; decide) (by decide) ⟨"/r/lib/a.js"⟩ (by rw [hplain]; decide)
      ⟨"/r/lib/a.js"⟩ (by rw [hmarkup]; decide) (by decide)
  · exact hmaps.ambient ⟨"/r/b.d.ts"⟩ (by rw [hinputs]; decide) (Or.inl (by decide))

end ProjectBuild
