import ProjectBuild.Proofs.Closure.Directories
import ProjectBuild.Proofs.Resolution

/-! # Imports across loaded projects

    In a graph that is loaded an import crosses into a reference only where that
    reference answers for the file, and then it ends at a declaration below the
    output directory (`resolve_crosses`).

    Verifying the references of a project resolves their sources as if the
    project imported them.  It asks each reference for its own declarations as
    long as no other root directory holds its sources as closely
    (`Graph.RootsApart`); where one does, another reference is asked, or none. -/

namespace ProjectBuild

open Resolution

/-- A source that crosses into a direct reference when it is imported. -/
structure Graph.Crosses (g : Graph) (i : Nat) (path : Path) (j : Nat) : Prop extends
    g.LeadsTo i path j where
  source : path.isSource = true
  notAmbient : path.isDeclaration = false

/-- The sources of the direct references of a project lie in no other root
    directory as deep: neither in that of another direct reference nor in the
    project's own. -/
structure Graph.RootsApart (g : Graph) (i : Nat) : Prop where
  normal : ∀ j ∈ g.dependencies i, ∀ source ∈ (g.node j).inputs, source.isDeclaration = false →
    source.normalize = source
  own : ∀ j ∈ g.dependencies i, ∀ source ∈ (g.node j).inputs, source.isDeclaration = false →
    Path.isWithin (g.node i).rootDir source = true → rootDepth g i < rootDepth g j
  others : ∀ j ∈ g.dependencies i, ∀ source ∈ (g.node j).inputs, source.isDeclaration = false →
    ∀ k ∈ g.dependencies i, k ≠ j → Path.isWithin (g.node k).rootDir source = true →
      rootDepth g k < rootDepth g j

/-- The declarations that the direct references of a project emit, one for each of
    their sources. -/
def Graph.Emits (g : Graph) (i : Nat) (d : Path) : Prop :=
  ∃ j ∈ g.dependencies i, ∃ source ∈ (g.node j).inputs, source.isSource = true ∧
    source.isDeclaration = false ∧ (g.node j).declarationFor? source = some d

/-- The declarations that stand for the sources of the direct references of a
    project when it imports them, whichever reference answers. -/
def Graph.Asks (g : Graph) (i : Nat) (d : Path) : Prop :=
  ∃ j ∈ g.dependencies i, ∃ source ∈ (g.node j).inputs, source.isDeclaration = false ∧
    ∃ k, g.LeadsTo i source.normalize k ∧
      (g.node k).declarationFor? source.normalize = some d

/-! ## Sources that cross -/

section
variable {g : Graph} {i j : Nat} {path : Path}

/-- What a reference emits a declaration for crosses into it. -/
theorem Graph.LeadsTo.crosses (h : g.LeadsTo i path j) {d : Path}
    (hd : (g.node j).declarationFor? path = some d) : g.Crosses i path j := by
  obtain ⟨-, hsource, hambient, -⟩ := Project.isSource_of_outputFor? hd
  exact ⟨h, hsource, hambient⟩

/-- **A source that crosses has a declaration**, unless it is the root directory. -/
theorem Graph.Crosses.isSome_declarationFor? (h : g.Crosses i path j) :
    ((g.node j).declarationFor? path).isSome = !path.same (g.node j).rootDir :=
  Project.isSome_outputFor? h.within h.source h.notAmbient

/-- The root directory itself has no declaration, whichever reference answers. -/
theorem Graph.Crosses.declarationFor?_eq_none (h : g.Crosses i path j)
    (hsame : path.same (g.node j).rootDir = true) {k : Nat} (hk : g.LeadsTo i path k) :
    (g.node k).declarationFor? path = none := by
  obtain rfl := leadsTo_unique hk h.toLeadsTo
  have hnone := h.isSome_declarationFor?
  rw [hsame] at hnone
  exact Option.isNone_iff_eq_none.mp (Option.isSome_eq_false_iff.mp hnone)

end

namespace Resolution

/-! ## Imports -/

/-- The declaration that a reference answers with leads nowhere else. -/
theorem resolve_declaration_again {σ τ : Type} [FileSystem σ] [FileSystem τ] {files : σ}
    {roots : List Path} {g : Graph} (hg : (loadGraph files roots).value = .ok g)
    (hroots : ∀ root ∈ roots, root.isAbsolute = true)
    (hrooted : ∀ i < g.size, (g.node i).configPath.components ≠ [.root])
    {fs : τ} {i j : Nat} {file d : Path} (hj : g.LeadsTo i file.normalize j)
    (hd : (g.node j).declarationFor? file.normalize = some d) :
    resolve fs g i d = .ok (.unchanged d) := by
  obtain ⟨hroot, hout⟩ := Graph.normal_dirs hg hroots hrooted (mem_dependencies_of_leadsTo hj)
  have hfile : file.normalize.Normal := by
    have habsolute := Path.isAbsolute_of_isWithin hroot.isAbsolute hj.within
    exact Path.normalize_normalize file ▸ Path.normal_normalize habsolute
  have hnormal : d.normalize = d := (Project.normal_outputFor? hd (by decide) (by decide) hfile
    (Path.components_ne_nil hroot.isAbsolute) hout).normalize_eq
  have hagain : resolve fs g i d = .ok (.unchanged d.normalize) :=
    resolve_of_isDeclaration (hnormal.symm ▸ Project.isDeclaration_of_declarationFor? hd)
  rwa [hnormal] at hagain

/-- **Imports cross a reference only into its declarations.**  The reference that
    answers for a source is named, with the declaration it emits if that is there
    and for lack of it otherwise; all else is left alone.  Only the direct
    references count, and what has been found leads nowhere else.  (A source that
    is the root directory of the reference has no name below it: it is left alone,
    as the reference emits nothing for it.) -/
theorem resolve_crosses {σ τ : Type} [FileSystem σ] [FileSystem τ] {files : σ} {roots : List Path}
    {g : Graph} (hg : (loadGraph files roots).value = .ok g)
    (hroots : ∀ root ∈ roots, root.isAbsolute = true)
    (hrooted : ∀ i < g.size, (g.node i).configPath.components ≠ [.root])
    (fs : τ) (i : Nat) (file : Path) :
    (∀ d project, resolve fs g i file = .ok (.declaration d project) →
      ∃ j, g.Crosses i file.normalize j ∧ project = (g.node j).configPath ∧
        FileSystem.isFile fs d = true ∧ (g.node j).DeclaresAt file.normalize d) ∧
    (∀ j, g.Crosses i file.normalize j → file.normalize.same (g.node j).rootDir = false →
      ∃ d, (g.node j).DeclaresAt file.normalize d ∧
        resolve fs g i file = if FileSystem.isFile fs d then
          .ok (.declaration d (g.node j).configPath) else .error (.notBuilt (g.node j).configPath)) ∧
    (∀ j, g.Crosses i file.normalize j → file.normalize.same (g.node j).rootDir = true →
      resolve fs g i file = .ok (.unchanged file.normalize)) ∧
    ((∀ j, ¬ g.Crosses i file.normalize j) →
      resolve fs g i file = .ok (.unchanged file.normalize)) ∧
    (∀ (g' : Graph) i', (g'.node i').rootDir = (g.node i).rootDir →
      (g'.dependencies i').map g'.node = (g.dependencies i).map g.node →
      resolve fs g' i' file = resolve fs g i file) ∧
    ∀ found, resolve fs g i file = .ok found →
      resolve fs g i found.path = .ok (.unchanged found.path) := by
  have hroot : ∀ {j}, g.LeadsTo i file.normalize j → (g.node j).rootDir.components ≠ [] :=
    fun hj => Path.components_ne_nil
      (Graph.normal_dirs hg hroots hrooted (mem_dependencies_of_leadsTo hj)).1.isAbsolute
  refine ⟨fun d project h => ?_, fun j hj hinside => ?_, fun j hj hsame => ?_, fun hnone => ?_,
    fun g' i' hown hnodes => resolve_congr hown hnodes, fun found hfound => ?_⟩
  · rcases found_cases h with ⟨j, d', hj, hd, hthere, hfound⟩ | ⟨-, hfound⟩
    · cases hfound
      exact ⟨j, hj.crosses hd, rfl, hthere, Project.declaresAt_of_declarationFor? (hroot hj) hd⟩
    · cases hfound
  · have hthere := hj.isSome_declarationFor?
    rw [hinside] at hthere
    obtain ⟨d, hd⟩ := Option.isSome_iff_exists.mp hthere
    exact ⟨d, Project.declaresAt_of_declarationFor? (hroot hj.toLeadsTo) hd,
      resolve_of_leadsTo hj.toLeadsTo hd⟩
  · exact resolve_eq_unchanged fun k hk => hj.declarationFor?_eq_none hsame hk
  · exact resolve_eq_unchanged fun j hj => Option.eq_none_iff_forall_ne_some.mpr fun d hd =>
      hnone j (hj.crosses hd)
  · rcases found_cases hfound with ⟨j, d, hj, hd, -, rfl⟩ | ⟨hnone, rfl⟩
    · exact resolve_declaration_again hg hroots hrooted hj hd
    · exact (resolve_normalize fs g i file).trans (resolve_eq_unchanged hnone)

/-- The declaration of the first of two projects is there. -/
def emittedFiles : MemoryFs :=
  pairFiles.put ⟨"/r/core/a.d.ts"⟩ ByteArray.empty

/-- The second of two projects imports the source of the first: it is led to the
    declaration, once that has been emitted, and from there nowhere else. -/
theorem resolve_crosses_pair :
    (∃ d, (pairGraph.node 0).DeclaresAt ⟨"/r/core/a.ts"⟩ d ∧
      resolve pairFiles pairGraph 1 ⟨"/r/core/./a.ts"⟩ = if FileSystem.isFile pairFiles d then
        .ok (.declaration d (pairGraph.node 0).configPath)
      else .error (.notBuilt (pairGraph.node 0).configPath)) ∧
    resolve emittedFiles pairGraph 1 ⟨"/r/core/./a.ts"⟩
      = .ok (.declaration ⟨"/r/core/a.d.ts"⟩ ⟨"/r/core/tsconfig.json"⟩) ∧
    resolve emittedFiles pairGraph 1 ⟨"/r/core/a.d.ts"⟩ = .ok (.unchanged ⟨"/r/core/a.d.ts"⟩) := by
  have hfacts : (∀ i < pairGraph.size, (pairGraph.node i).configPath.components ≠ [.root]) ∧
      target? pairGraph 1 ⟨"/r/core/a.ts"⟩ = some 0 ∧
      (⟨"/r/core/a.ts"⟩ : Path).same (pairGraph.node 0).rootDir = false ∧
      (resolve emittedFiles pairGraph 1 ⟨"/r/core/./a.ts"⟩).toOption
        = some (.declaration ⟨"/r/core/a.d.ts"⟩ ⟨"/r/core/tsconfig.json"⟩) := by decide +kernel
  obtain ⟨hrooted, htarget, hinside, hfound⟩ := hfacts
  have hroots : ∀ root ∈ [(⟨"/r/app"⟩ : Path)], root.isAbsolute = true := by decide +kernel
  have hnormal : (⟨"/r/core/./a.ts"⟩ : Path).normalize = ⟨"/r/core/a.ts"⟩ := by decide +kernel
  have hresolved := eq_ok_of_toOption hfound
  obtain ⟨-, hanswer, -⟩ := resolve_crosses pairGraph_loaded hroots hrooted pairFiles 1
    ⟨"/r/core/./a.ts"⟩
  obtain ⟨-, -, -, -, -, hsettled⟩ := resolve_crosses pairGraph_loaded hroots hrooted emittedFiles 1
    ⟨"/r/core/./a.ts"⟩
  have hagain := hsettled _ hresolved
  rw [hnormal] at hanswer
  exact ⟨hanswer 0 ⟨target?_eq_some.mp htarget, by decide +kernel, by decide +kernel⟩ hinside,
    hresolved, hagain⟩

/-- A project with three references, of which two lie in one directory and the
    third is configured by a file that is the root. -/
def astrayFiles : MemoryFs :=
  .ofTexts [("/", "\x7b\"compilerOptions\": \x7b\"outDir\": \"lib\"\x7d, \"references\": []\x7d"),
    ("/l/a.json", "\x7b\"compilerOptions\": \x7b\"outDir\": \"oa\"\x7d, \"references\": []\x7d"),
    ("/l/b.json", "\x7b\"compilerOptions\": \x7b\"outDir\": \"ob\"\x7d, \"references\": []\x7d"),
    ("/l/x.ts", ""),
    ("/p/tsconfig.json", "\x7b\"files\": [\"m.ts\"], \"references\": [\x7b\"path\": \"../l/a.json\"\x7d, \x7b\"path\": \"../l/b.json\"\x7d, \x7b\"path\": \"/\"\x7d]\x7d"),
    ("/p/m.ts", "")]

def astrayGraph : Graph :=
  (loadGraph astrayFiles [⟨"/p"⟩]).value.toOption.getD {}

/-- Two declarations that have been emitted. -/
def astrayOutputs : MemoryFs :=
  .ofTexts [("/l/ob/x.d.ts", ""), ("/q/y.d.ts", "")]

/-- Of two references in one directory only the last is asked for its declaration,
    though nothing is deeper than the other; and a configuration that is the root
    has the empty path for its directory, so a declaration can lie beside its
    source instead of below the output directory. -/
theorem resolve_astray :
    (loadGraph astrayFiles [⟨"/p"⟩]).value = .ok astrayGraph ∧
    (¬ ∀ j ∈ astrayGraph.dependencies 3,
      Path.isWithin (astrayGraph.node j).rootDir ⟨"/l/x.ts"⟩ = true →
      (∀ k ∈ astrayGraph.dependencies 3,
        Path.isWithin (astrayGraph.node k).rootDir ⟨"/l/x.ts"⟩ = true →
          rootDepth astrayGraph k ≤ rootDepth astrayGraph j) →
      (Path.isWithin (astrayGraph.node 3).rootDir ⟨"/l/x.ts"⟩ = true →
        rootDepth astrayGraph 3 < rootDepth astrayGraph j) →
      (∀ d, (astrayGraph.node j).declarationFor? ⟨"/l/x.ts"⟩ = some d →
        FileSystem.isFile astrayOutputs d = false) →
      resolve astrayOutputs astrayGraph 3 ⟨"/l/x.ts"⟩
        = .error (.notBuilt (astrayGraph.node j).configPath)) ∧
    ¬ ∀ d project, resolve astrayOutputs astrayGraph 3 ⟨"/q/y.ts"⟩ = .ok (.declaration d project) →
      ∃ j ∈ astrayGraph.dependencies 3, (astrayGraph.node j).configPath = project ∧
        Path.isWithin (astrayGraph.node j).outDir d = true := by
  have hfacts : ((loadGraph astrayFiles [⟨"/p"⟩]).value.toOption.isSome = true ∧
      0 ∈ astrayGraph.dependencies 3 ∧
      Path.isWithin (astrayGraph.node 0).rootDir ⟨"/l/x.ts"⟩ = true ∧
      (∀ k ∈ astrayGraph.dependencies 3,
        Path.isWithin (astrayGraph.node k).rootDir ⟨"/l/x.ts"⟩ = true →
          rootDepth astrayGraph k ≤ rootDepth astrayGraph 0) ∧
      Path.isWithin (astrayGraph.node 3).rootDir ⟨"/l/x.ts"⟩ = false ∧
      (astrayGraph.node 0).declarationFor? ⟨"/l/x.ts"⟩ = some ⟨"/l/oa/x.d.ts"⟩) ∧
      (resolve astrayOutputs astrayGraph 3 ⟨"/l/x.ts"⟩).toOption
        = some (.declaration ⟨"/l/ob/x.d.ts"⟩ ⟨"/l/b.json"⟩) ∧
      (resolve astrayOutputs astrayGraph 3 ⟨"/q/y.ts"⟩).toOption
        = some (.declaration ⟨"/q/y.d.ts"⟩ ⟨"/"⟩) ∧
      ∀ j ∈ astrayGraph.dependencies 3, (astrayGraph.node j).configPath = ⟨"/"⟩ →
        Path.isWithin (astrayGraph.node j).outDir ⟨"/q/y.d.ts"⟩ = false := by decide +kernel
  obtain ⟨⟨hsome, hmem, hwithin, hdeepest, hown, hd⟩, htie, hroot, hastray⟩ := hfacts
  refine ⟨Graph.loaded_of_isSome hsome, fun h => ?_, fun h => ?_⟩
  · -- the tie is settled for the last reference, whose declaration is there
    have hmissing : ∀ d, (astrayGraph.node 0).declarationFor? ⟨"/l/x.ts"⟩ = some d →
        FileSystem.isFile astrayOutputs d = false := by
      intro d hd'
      obtain rfl := Option.some.inj (hd.symm.trans hd')
      decide +kernel
    have hown' : Path.isWithin (astrayGraph.node 3).rootDir ⟨"/l/x.ts"⟩ = true →
        rootDepth astrayGraph 3 < rootDepth astrayGraph 0 := fun hin => by
      rw [hown] at hin
      cases hin
    have herror := h 0 hmem hwithin hdeepest hown' hmissing
    rw [eq_ok_of_toOption htie] at herror
    cases herror
  · obtain ⟨j, hj, hpath, hwithin⟩ := h _ _ (eq_ok_of_toOption hroot)
    rw [hastray j hj hpath] at hwithin
    cases hwithin

/-! ## Verified references -/

/-- Sources with no closer root directory are answered for by their own project. -/
theorem leadsTo_of_rootsApart {σ : Type} [FileSystem σ] {files : σ} {roots : List Path} {g : Graph}
    (hg : (loadGraph files roots).value = .ok g) {i j : Nat} (hapart : g.RootsApart i)
    (hj : j ∈ g.dependencies i) {source : Path} (hsource : source ∈ (g.node j).inputs)
    (hambient : source.isDeclaration = false) : g.LeadsTo i source j := by
  have hwell := loadGraph_wellFormed hg
  have hloaded := (loadGraph_sound hg).2 j (hwell.dependency_lt hj).2
  have hothers := hapart.others j hj source hsource hambient
  obtain ⟨front, back, hsplit⟩ := List.append_of_mem hj
  have hnodup := hwell.toProper.dependencies_nodup i
  rw [hsplit] at hnodup hothers
  refine ⟨hloaded.isWithin_rootDir hsource hambient, ⟨front, back, hsplit, ?_, ?_⟩,
    hapart.own j hj source hsource hambient⟩
  · intro k hk hholds
    have hne : k ≠ j := (List.nodup_append.mp hnodup).2.2 k hk j List.mem_cons_self
    exact Nat.le_of_lt (hothers k (List.mem_append_left _ hk) hne hholds)
  · intro k hk hholds
    have hne : k ≠ j := by
      rintro rfl
      exact (List.nodup_cons.mp (List.nodup_append.mp hnodup).2.1).1 hk
    exact hothers k (List.mem_append_right _ (List.mem_cons_of_mem j hk)) hne hholds

/-- Where no other root directory is as close, each source asks for the declaration
    that its own project emits. -/
theorem asks_iff_emits {σ : Type} [FileSystem σ] {files : σ} {roots : List Path} {g : Graph}
    (hg : (loadGraph files roots).value = .ok g) {i : Nat} (hapart : g.RootsApart i) (d : Path) :
    g.Asks i d ↔ g.Emits i d := by
  constructor
  · rintro ⟨j, hj, source, hsource, hambient, k, hk, hd⟩
    rw [hapart.normal j hj source hsource hambient] at hk hd
    obtain rfl := leadsTo_unique hk (leadsTo_of_rootsApart hg hapart hj hsource hambient)
    obtain ⟨-, hkind, -, -⟩ := Project.isSource_of_outputFor? hd
    exact ⟨k, hj, source, hsource, hkind, hambient, hd⟩
  · rintro ⟨j, hj, source, hsource, -, hambient, hd⟩
    have hnormal := hapart.normal j hj source hsource hambient
    have hleads := leadsTo_of_rootsApart hg hapart hj hsource hambient
    exact ⟨j, hj, source, hsource, hambient, j, hnormal.symm ▸ hleads, hnormal.symm ▸ hd⟩

/-- Verifying succeeds exactly if what is asked for is there. -/
theorem verifyReferences_iff_asks {τ : Type} [FileSystem τ] (fs : τ) (g : Graph) (i : Nat) :
    verifyReferences fs g i = .ok () ↔ ∀ d, g.Asks i d → FileSystem.isFile fs d = true := by
  rw [verifyReferences_eq_ok]
  constructor
  · rintro h d ⟨j, hj, source, hsource, hambient, k, hk, hd⟩
    exact h j hj source hsource hambient k d hk hd
  · intro h j hj source hsource hambient k d hk hd
    exact h d ⟨j, hj, source, hsource, hambient, k, hk, hd⟩

/-- What is emitted can be there with no other file. -/
theorem exists_files_emits (g : Graph) (i : Nat) :
    ∃ fs : MemoryFs, ∀ d, FileSystem.isFile fs d = true ↔ ∃ e, g.Emits i e ∧ e.same d = true := by
  obtain ⟨fs, hfs⟩ := MemoryFs.exists_files ((g.dependencies i).flatMap fun j =>
    (g.node j).inputs.filterMap (g.node j).declarationFor?)
  refine ⟨fs, fun d => (hfs d).trans (exists_congr fun e => and_congr_left fun _ => ?_)⟩
  simp only [List.mem_flatMap, List.mem_filterMap]
  constructor
  · rintro ⟨j, hj, source, hsource, he⟩
    obtain ⟨-, hkind, hambient, -⟩ := Project.isSource_of_outputFor? he
    exact ⟨j, hj, source, hsource, hkind, hambient, he⟩
  · rintro ⟨j, hj, source, hsource, -, -, he⟩
    exact ⟨j, hj, source, hsource, he⟩

/-- What is asked for can be there with no other file. -/
theorem exists_files_asks (g : Graph) (i : Nat) :
    ∃ fs : MemoryFs, ∀ d, FileSystem.isFile fs d = true ↔ ∃ e, g.Asks i e ∧ e.same d = true := by
  obtain ⟨fs, hfs⟩ := MemoryFs.exists_files ((referencedSources g i).filterMap fun source =>
    (target? g i source.normalize).bind fun k => (g.node k).declarationFor? source.normalize)
  refine ⟨fs, fun d => (hfs d).trans (exists_congr fun e => and_congr_left fun _ => ?_)⟩
  simp only [List.mem_filterMap, referencedSources, List.mem_flatMap, List.mem_filter,
    Bool.not_eq_true', Option.bind_eq_some_iff, target?_eq_some]
  constructor
  · rintro ⟨source, ⟨j, hj, hsource, hambient⟩, k, hk, he⟩
    exact ⟨j, hj, source, hsource, hambient, k, hk, he⟩
  · rintro ⟨j, hj, source, hsource, hambient, k, hk, he⟩
    exact ⟨source, ⟨j, hj, hsource, hambient⟩, k, hk, he⟩

/-- **Which declarations are asked for** when the references of a project are
    verified: of each source, that of the reference which answers for it.  They are
    the ones that the references emit if no other root directory is as close to the
    sources; and only if they are, up to spelling, does verifying tell from the
    files whether each reference has emitted its own. -/
theorem verifyReferences_asks {σ : Type} [FileSystem σ] {files : σ} {roots : List Path} {g : Graph}
    (hg : (loadGraph files roots).value = .ok g) (i : Nat) :
    (∀ {τ : Type} [FileSystem τ] (fs : τ), verifyReferences fs g i = .ok () ↔
      ∀ d, g.Asks i d → FileSystem.isFile fs d = true) ∧
    (g.RootsApart i → ∀ d, g.Asks i d ↔ g.Emits i d) ∧
    ((∀ fs : MemoryFs, verifyReferences fs g i = .ok () ↔
        ∀ d, g.Emits i d → FileSystem.isFile fs d = true) ↔
      (∀ d, g.Emits i d → ∃ e, g.Asks i e ∧ e.same d = true) ∧
        ∀ d, g.Asks i d → ∃ e, g.Emits i e ∧ e.same d = true) := by
  refine ⟨fun fs => verifyReferences_iff_asks fs g i, asks_iff_emits hg, ?_⟩
  constructor
  · intro h
    constructor
    · -- files that satisfy the verification and nothing else
      obtain ⟨fs, hfs⟩ := exists_files_asks g i
      have hverified := (verifyReferences_iff_asks fs g i).mpr fun d hd =>
        (hfs d).mpr ⟨d, hd, Path.same_iff.mpr rfl⟩
      exact fun d hd => (hfs d).mp ((h fs).mp hverified d hd)
    · obtain ⟨fs, hfs⟩ := exists_files_emits g i
      have hverified := (h fs).mpr fun d hd => (hfs d).mpr ⟨d, hd, Path.same_iff.mpr rfl⟩
      exact fun d hd => (hfs d).mp ((verifyReferences_iff_asks fs g i).mp hverified d hd)
  · rintro ⟨hemits, hasks⟩ fs
    rw [verifyReferences_iff_asks]
    constructor
    · intro h d hd
      obtain ⟨e, he, hsame⟩ := hemits d hd
      exact MemoryFs.isFile_of_same hsame (h e he)
    · intro h d hd
      obtain ⟨e, he, hsame⟩ := hasks d hd
      exact MemoryFs.isFile_of_same hsame (h e he)

/-- The sources of the first of two projects lie in no other root directory; when
    its references are verified for the second, its declarations are there. -/
theorem verifyReferences_asks_pair :
    (∀ d, pairGraph.Asks 1 d ↔ pairGraph.Emits 1 d) ∧
    ∀ d, pairGraph.Emits 1 d → FileSystem.isFile emittedFiles d = true := by
  have hfacts : (verifyReferences emittedFiles pairGraph 1).toOption = some () ∧
      ∀ j ∈ pairGraph.dependencies 1, ∀ source ∈ (pairGraph.node j).inputs,
        source.isDeclaration = false → source.normalize = source ∧
          (Path.isWithin (pairGraph.node 1).rootDir source = true →
            rootDepth pairGraph 1 < rootDepth pairGraph j) ∧
          ∀ k ∈ pairGraph.dependencies 1, k ≠ j →
            Path.isWithin (pairGraph.node k).rootDir source = true →
              rootDepth pairGraph k < rootDepth pairGraph j := by decide +kernel
  obtain ⟨hverified, hfacts⟩ := hfacts
  have hapart : pairGraph.RootsApart 1 :=
    ⟨fun j hj source hsource hambient => (hfacts j hj source hsource hambient).1,
      fun j hj source hsource hambient => (hfacts j hj source hsource hambient).2.1,
      fun j hj source hsource hambient => (hfacts j hj source hsource hambient).2.2⟩
  obtain ⟨hverify, hsame, -⟩ := verifyReferences_asks pairGraph_loaded 1
  exact ⟨hsame hapart, fun d hd => (hverify emittedFiles).mp (eq_ok_of_toOption hverified) d
    ((hsame hapart d).mpr hd)⟩

end Resolution

end ProjectBuild
