import ProjectBuild.Proofs.Path.Normal
import ProjectBuild.Resolution

/-! # Where an import leads

    An import leads to a direct reference whose root directory holds the file,
    the deepest and of equally deep ones the last, unless the importing project
    has the file in a root directory of its own that is as deep
    (`Graph.LeadsTo`).  That reference answers for it: with the declaration that
    it emits, or with an error if that is missing (`resolve_of_leadsTo`).  All
    else is left alone (`resolve_eq_unchanged`). -/

namespace ProjectBuild

open Resolution

/-- A direct reference that an import of a file into a project leads to. -/
structure Graph.LeadsTo (g : Graph) (i : Nat) (path : Path) (j : Nat) : Prop where
  within : Path.isWithin (g.node j).rootDir path = true
  /-- No direct reference that holds the file is deeper, and none behind it is as deep. -/
  deepest : ∃ front back, g.dependencies i = front ++ j :: back ∧
    (∀ k ∈ front, Path.isWithin (g.node k).rootDir path = true → rootDepth g k ≤ rootDepth g j) ∧
    ∀ k ∈ back, Path.isWithin (g.node k).rootDir path = true → rootDepth g k < rootDepth g j
  own : Path.isWithin (g.node i).rootDir path = true → rootDepth g i < rootDepth g j

/-- A declaration that a project emits: below its output directory, under the
    name that the source has below its root directory. -/
def Project.DeclaresAt (p : Project) (source declaration : Path) : Prop :=
  ∃ (front : List Component) (stem : String) (kind : SourceKind), stem ≠ "" ∧
    kind ≠ .declaration ∧
    source.components = p.rootDir.components ++ (front ++ [.name (stem ++ kind.extension)]) ∧
    declaration.components = p.outDir.components ++ (front ++ [.name (stem ++ ".d.ts")])

/-! ## Sources and their declarations -/

namespace Project

open ProjectBuild.Path

/-- **What has an output** is a source below the root directory, and not that
    directory itself. -/
theorem isSource_of_outputFor? {p : Project} {extension : String} {input output : Path}
    (h : p.outputFor? extension input = some output) :
    isWithin p.rootDir input = true ∧ input.isSource = true ∧ input.isDeclaration = false ∧
      input.same p.rootDir = false := by
  obtain ⟨relative, stem, kind, hrelative, hname, hcut, hambient, -⟩ := outputFor?_ok h
  have hcomponents := components_afterDir? hrelative
  have hne : relative.components ≠ [] :=
    List.getLast?_isSome.mp (Option.isSome_of_eq_some (fileName?_eq_some hname))
  have hnameInput : input.fileName? = some (stem ++ kind.extension) := by
    unfold fileName? at hname ⊢
    rwa [hcomponents, List.getLast?_append_of_ne_nil _ hne]
  have hkind : input.sourceKind? = some kind := by
    rw [sourceKind?_eq hnameInput, hcut]
    rfl
  refine ⟨isWithin_iff.mpr (hcomponents ▸ List.prefix_append _ _), ?_, ?_, ?_⟩
  · unfold isSource
    rw [hkind]
    rfl
  · unfold isDeclaration
    rw [hkind]
    exact beq_false_of_ne fun heq => hambient (Option.some.inj heq)
  · rw [same_eq_false_iff, hcomponents]
    exact fun heq => hne (List.append_right_eq_self.mp heq)

/-- Declarations have no outputs. -/
theorem outputsOf_declaration {p : Project} {input : Path} (h : input.isDeclaration = true) :
    p.outputsOf input = [] := by
  refine List.eq_nil_iff_forall_not_mem.mpr fun output houtput => ?_
  rcases mem_outputsOf.mp houtput with ⟨-, houtput⟩ | ⟨-, houtput⟩
  · exact Bool.false_ne_true ((isSource_of_outputFor? houtput).2.2.1.symm.trans h)
  · exact Bool.false_ne_true ((isSource_of_outputFor? houtput).2.2.1.symm.trans h)

/-- The declaration of a source lies where its project declares it. -/
theorem declaresAt_of_declarationFor? {p : Project} {source declaration : Path}
    (hroot : p.rootDir.components ≠ []) (h : p.declarationFor? source = some declaration) :
    p.DeclaresAt source declaration := by
  obtain ⟨front, stem, kind, hstem, hkind, -, hsource, hdeclaration⟩ :=
    components_outputFor? h (by decide) (by decide)
  exact ⟨front, stem, kind, hstem, hkind, hsource, hdeclaration (Or.inl hroot)⟩

/-- What a source is declared by has the extension of declarations. -/
theorem isDeclaration_of_declarationFor? {p : Project} {source declaration : Path}
    (h : p.declarationFor? source = some declaration) : declaration.isDeclaration = true := by
  obtain ⟨stem, hstem, hlast⟩ := getLast?_outputFor? h (by decide) (by decide)
  exact isDeclaration_of_getLast? hlast hstem

end Project

namespace Resolution

/-! ## The reference that answers -/

/-- One more index is the last of the largest, or leaves it as it was. -/
theorem lastMaximal_concat {key : Nat → Nat} {indices : List Nat} {last i : Nat} :
    lastMaximal key (indices ++ [last]) = some i ↔
      (i = last ∧ ∀ j, lastMaximal key indices = some j → key j ≤ key last) ∨
      (lastMaximal key indices = some i ∧ key last < key i) := by
  unfold lastMaximal
  rw [List.foldl_append, List.foldl_cons, List.foldl_nil]
  cases hbest : indices.foldl _ none with
  | none => simp [eq_comm]
  | some j =>
      by_cases hle : key j ≤ key last
      · simp only [if_pos hle, Option.some.injEq]
        constructor
        · rintro rfl
          exact Or.inl ⟨rfl, fun k hk => hk ▸ hle⟩
        · rintro (⟨rfl, -⟩ | ⟨rfl, hlt⟩)
          · rfl
          · exact absurd hle (Nat.not_le.mpr hlt)
      · simp only [if_neg hle, Option.some.injEq]
        constructor
        · rintro rfl
          exact Or.inr ⟨rfl, Nat.not_le.mp hle⟩
        · rintro (⟨-, hall⟩ | ⟨rfl, -⟩)
          · exact absurd (hall j rfl) hle
          · rfl

/-- Among indices there always is a last one with the greatest key. -/
theorem exists_lastMaximal (key : Nat → Nat) {indices : List Nat} (h : indices ≠ []) :
    ∃ i, lastMaximal key indices = some i := by
  obtain ⟨front, last, rfl⟩ := (List.eq_nil_or_concat' indices).resolve_left h
  cases hbest : lastMaximal key front with
  | none => exact ⟨last, lastMaximal_concat.mpr (Or.inl ⟨rfl, fun j hj => by
      rw [hbest] at hj
      cases hj⟩)⟩
  | some j =>
      rcases Nat.lt_or_ge (key last) (key j) with hlt | hle
      · exact ⟨j, lastMaximal_concat.mpr (Or.inr ⟨hbest, hlt⟩)⟩
      · refine ⟨last, lastMaximal_concat.mpr (Or.inl ⟨rfl, fun k hk => ?_⟩)⟩
        rw [hbest] at hk
        exact Option.some.inj hk ▸ hle

/-- **The last of the largest**: none in front of it is larger, and all behind it
    are smaller. -/
theorem lastMaximal_eq_some {key : Nat → Nat} {indices : List Nat} {i : Nat} :
    lastMaximal key indices = some i ↔ ∃ front back, indices = front ++ i :: back ∧
      (∀ k ∈ front, key k ≤ key i) ∧ ∀ k ∈ back, key k < key i := by
  induction indices using List.reverseRecOn generalizing i with
  | nil =>
      constructor
      · intro h
        cases h
      · rintro ⟨front, back, h, -⟩
        exact absurd h.symm (List.append_ne_nil_of_right_ne_nil _ (List.cons_ne_nil _ _))
  | append_singleton indices last ih =>
      rw [lastMaximal_concat]
      constructor
      · rintro (⟨rfl, hall⟩ | ⟨hi, hlt⟩)
        · -- as large as the former answer, so as large as all in front
          refine ⟨indices, [], rfl, fun k hk => ?_, List.forall_mem_nil _⟩
          obtain ⟨j, hj⟩ := exists_lastMaximal key (List.ne_nil_of_mem hk)
          obtain ⟨front, back, rfl, hfront, hback⟩ := ih.mp hj
          have hle : key k ≤ key j := by
            rcases List.mem_append.mp hk with hk | hk
            · exact hfront k hk
            · rcases List.mem_cons.mp hk with rfl | hk
              · exact Nat.le_refl _
              · exact Nat.le_of_lt (hback k hk)
          exact Nat.le_trans hle (hall j hj)
        · obtain ⟨front, back, rfl, hfront, hback⟩ := ih.mp hi
          refine ⟨front, back ++ [last], by simp, hfront, fun k hk => ?_⟩
          rcases List.mem_append.mp hk with hk | hk
          · exact hback k hk
          · exact List.mem_singleton.mp hk ▸ hlt
      · rintro ⟨front, back, heq, hfront, hback⟩
        -- the last index is the answer itself, or stands behind it
        rcases List.eq_nil_or_concat' back with rfl | ⟨back, last', rfl⟩
        · obtain ⟨rfl, hlast⟩ := List.append_inj' heq rfl
          obtain rfl := List.singleton_injective hlast
          refine Or.inl ⟨rfl, fun j hj => hfront j ?_⟩
          obtain ⟨front', back', heq', -⟩ := ih.mp hj
          rw [heq']
          exact List.mem_append_right _ List.mem_cons_self
        · rw [← List.cons_append, ← List.append_assoc] at heq
          obtain ⟨rfl, hlast⟩ := List.append_inj' heq rfl
          obtain rfl := List.singleton_injective hlast
          refine Or.inr ⟨ih.mpr ⟨front, back, rfl, hfront, fun k hk => ?_⟩, ?_⟩
          · exact hback k (List.mem_append_left _ hk)
          · exact hback last (List.mem_append_right _ (List.mem_singleton_self last))

/-- The owner of a file is the deepest reference that holds it. -/
theorem owner?_eq_some {g : Graph} {i j : Nat} {path : Path} :
    owner? g i path = some j ↔ Path.isWithin (g.node j).rootDir path = true ∧
      ∃ front back, g.dependencies i = front ++ j :: back ∧
        (∀ k ∈ front, Path.isWithin (g.node k).rootDir path = true →
          rootDepth g k ≤ rootDepth g j) ∧
        ∀ k ∈ back, Path.isWithin (g.node k).rootDir path = true →
          rootDepth g k < rootDepth g j := by
  unfold owner?
  rw [lastMaximal_eq_some]
  constructor
  · rintro ⟨front', back', heq, hfront, hback⟩
    -- `others` are references between the holders that do not hold the file
    obtain ⟨front, rest, hsplit, rfl, hrest⟩ := List.filter_eq_append_iff.mp heq
    obtain ⟨others, back, rfl, hothers, hj, rfl⟩ := List.filter_eq_cons_iff.mp hrest
    refine ⟨hj, front ++ others, back, by rw [hsplit, List.append_assoc], ?_, ?_⟩
    · intro k hk hholds
      rcases List.mem_append.mp hk with hk | hk
      · exact hfront k (List.mem_filter.mpr ⟨hk, hholds⟩)
      · exact absurd hholds (hothers k hk)
    · exact fun k hk hholds => hback k (List.mem_filter.mpr ⟨hk, hholds⟩)
  · rintro ⟨hj, front, back, hsplit, hfront, hback⟩
    refine ⟨front.filter fun k => Path.isWithin (g.node k).rootDir path,
      back.filter fun k => Path.isWithin (g.node k).rootDir path, ?_, ?_, ?_⟩
    · simp only [hsplit, List.filter_append, List.filter_cons, hj, if_true]
    · exact fun k hk => hfront k (List.mem_filter.mp hk).1 (List.mem_filter.mp hk).2
    · exact fun k hk => hback k (List.mem_filter.mp hk).1 (List.mem_filter.mp hk).2

/-- **The reference that answers for a file.** -/
theorem target?_eq_some {g : Graph} {i j : Nat} {path : Path} :
    target? g i path = some j ↔ g.LeadsTo i path j := by
  have hown : ∀ k, (Path.isWithin (g.node i).rootDir path &&
      decide (rootDepth g k ≤ rootDepth g i)) = true ↔
        ¬ (Path.isWithin (g.node i).rootDir path = true → rootDepth g i < rootDepth g k) := by
    intro k
    rw [Bool.and_eq_true, decide_eq_true_eq, Classical.not_imp, Nat.not_lt]
  unfold target?
  constructor
  · intro h
    obtain ⟨k, howner, hk⟩ := Option.bind_eq_some_iff.mp h
    split at hk
    · cases hk
    · rename_i hclose
      obtain rfl := Option.some.inj hk
      obtain ⟨hwithin, hdeepest⟩ := owner?_eq_some.mp howner
      exact ⟨hwithin, hdeepest, not_not.mp fun h => hclose ((hown k).mpr h)⟩
  · intro h
    refine Option.bind_eq_some_iff.mpr ⟨j, owner?_eq_some.mpr ⟨h.within, h.deepest⟩, ?_⟩
    rw [if_neg fun hclose => (hown j).mp hclose h.own]
    rfl

/-- **A path leads to one reference at most.** -/
theorem leadsTo_unique {g : Graph} {i j k : Nat} {path : Path} (hj : g.LeadsTo i path j)
    (hk : g.LeadsTo i path k) : j = k :=
  Option.some.inj ((target?_eq_some.mpr hj).symm.trans (target?_eq_some.mpr hk))

/-- A path leads to direct references only. -/
theorem mem_dependencies_of_leadsTo {g : Graph} {i j : Nat} {path : Path}
    (h : g.LeadsTo i path j) : j ∈ g.dependencies i := by
  obtain ⟨front, back, hsplit, -⟩ := h.deepest
  rw [hsplit]
  exact List.mem_append_right _ List.mem_cons_self

/-! ## Its answer -/

variable {σ : Type} [FileSystem σ] {fs : σ} {g : Graph} {i : Nat} {file : Path}

/-- **The reference answers with its declaration**, or with an error if that is
    not there. -/
theorem resolve_of_leadsTo {j : Nat} {d : Path} (h : g.LeadsTo i file.normalize j)
    (hd : (g.node j).declarationFor? file.normalize = some d) :
    resolve fs g i file = if FileSystem.isFile fs d then .ok (.declaration d (g.node j).configPath)
      else .error (.notBuilt (g.node j).configPath) := by
  obtain ⟨-, -, hdeclaration, -⟩ := Project.isSource_of_outputFor? hd
  unfold resolve
  simp only [target?_eq_some.mpr h]
  unfold redirect
  rw [hdeclaration, if_neg Bool.false_ne_true, hd]

/-- A file that no reference has a declaration for is left alone. -/
theorem resolve_eq_unchanged
    (h : ∀ j, g.LeadsTo i file.normalize j → (g.node j).declarationFor? file.normalize = none) :
    resolve fs g i file = .ok (.unchanged file.normalize) := by
  unfold resolve
  cases htarget : target? g i file.normalize with
  | none => simp only [htarget]
  | some j => simp only [htarget, redirect, h j (target?_eq_some.mp htarget), ite_self]

/-- One of the two happens. -/
theorem answer_cases (g : Graph) (i : Nat) (path : Path) :
    (∃ j d, g.LeadsTo i path j ∧ (g.node j).declarationFor? path = some d) ∨
      ∀ j, g.LeadsTo i path j → (g.node j).declarationFor? path = none := by
  by_cases h : ∃ j d, g.LeadsTo i path j ∧ (g.node j).declarationFor? path = some d
  · exact Or.inl h
  · refine Or.inr fun j hj => Option.eq_none_iff_forall_ne_some.mpr fun d hd => h ⟨j, d, hj, hd⟩

/-- **What a file resolves to**: a declaration that is there, of the reference that
    answers for it, or the file itself if none does. -/
theorem found_cases {found : Resolution} (h : resolve fs g i file = .ok found) :
    (∃ j d, g.LeadsTo i file.normalize j ∧ (g.node j).declarationFor? file.normalize = some d ∧
      FileSystem.isFile fs d = true ∧ found = .declaration d (g.node j).configPath) ∨
    ((∀ j, g.LeadsTo i file.normalize j → (g.node j).declarationFor? file.normalize = none) ∧
      found = .unchanged file.normalize) := by
  rcases answer_cases g i file.normalize with ⟨j, d, hj, hd⟩ | hnone
  · rw [resolve_of_leadsTo hj hd] at h
    split at h
    · rename_i hthere
      cases h
      exact Or.inl ⟨j, d, hj, hd, hthere, rfl⟩
    · cases h
  · rw [resolve_eq_unchanged hnone] at h
    cases h
    exact Or.inr ⟨hnone, rfl⟩

/-- Other spellings lead to the same place. -/
theorem resolve_normalize (fs : σ) (g : Graph) (i : Nat) (file : Path) :
    resolve fs g i file.normalize = resolve fs g i file := by
  unfold resolve
  rw [Path.normalize_normalize]

/-- Declarations are left alone. -/
theorem resolve_of_isDeclaration (h : file.normalize.isDeclaration = true) :
    resolve fs g i file = .ok (.unchanged file.normalize) := by
  refine resolve_eq_unchanged fun j _ => Option.eq_none_iff_forall_ne_some.mpr fun d hd => ?_
  obtain ⟨-, -, hdeclaration, -⟩ := Project.isSource_of_outputFor? hd
  rw [h] at hdeclaration
  cases hdeclaration

/-! ## What it depends on -/

/-- The same projects have the same answer, whatever their numbers. -/
theorem leadsTo_congr {g' : Graph} {i' j : Nat} {path : Path}
    (hroot : (g'.node i').rootDir = (g.node i).rootDir)
    (hnodes : (g'.dependencies i').map g'.node = (g.dependencies i).map g.node)
    (h : g.LeadsTo i path j) : ∃ j', g'.LeadsTo i' path j' ∧ g'.node j' = g.node j := by
  obtain ⟨front, back, hsplit, hfront, hback⟩ := h.deepest
  rw [hsplit, List.map_append, List.map_cons] at hnodes
  obtain ⟨front', rest', hsplit', hfront', hrest'⟩ := List.map_eq_append_iff.mp hnodes
  obtain ⟨j', back', rfl, hj', hback'⟩ := List.map_eq_cons_iff.mp hrest'
  have hsame : ∀ {k' : Nat} {indices' indices : List Nat},
      indices'.map g'.node = indices.map g.node → k' ∈ indices' →
      ∃ k ∈ indices, g.node k = g'.node k' := by
    intro k' indices' indices hmap hk'
    exact List.mem_map.mp (hmap ▸ List.mem_map_of_mem hk')
  refine ⟨j', ⟨?_, ⟨front', back', hsplit', fun k' hk' hholds => ?_, fun k' hk' hholds => ?_⟩,
    ?_⟩, hj'⟩
  · rw [hj']
    exact h.within
  · obtain ⟨k, hk, hnode⟩ := hsame hfront' hk'
    unfold rootDepth
    rw [hj', ← hnode]
    exact hfront k hk (hnode ▸ hholds)
  · obtain ⟨k, hk, hnode⟩ := hsame hback' hk'
    unfold rootDepth
    rw [hj', ← hnode]
    exact hback k hk (hnode ▸ hholds)
  · unfold rootDepth
    rw [hroot, hj']
    exact h.own

/-- **Only the direct references count**, as the projects that they are, and the
    project's own root directory. -/
theorem resolve_congr {g' : Graph} {i' : Nat}
    (hroot : (g'.node i').rootDir = (g.node i).rootDir)
    (hnodes : (g'.dependencies i').map g'.node = (g.dependencies i).map g.node) :
    resolve fs g' i' file = resolve fs g i file := by
  rcases answer_cases g i file.normalize with ⟨j, d, hj, hd⟩ | hnone
  · obtain ⟨j', hj', hnode⟩ := leadsTo_congr hroot hnodes hj
    rw [resolve_of_leadsTo hj hd, resolve_of_leadsTo hj' (hnode ▸ hd), hnode]
  · rw [resolve_eq_unchanged hnone]
    refine resolve_eq_unchanged fun j' hj' => ?_
    obtain ⟨j, hj, hnode⟩ := leadsTo_congr hroot.symm hnodes.symm hj'
    rw [← hnode]
    exact hnone j hj

/-! ## All sources at once -/

/-- A file resolves unless the reference that answers for it lacks its
    declaration. -/
theorem exists_resolve_iff :
    (∃ found, resolve fs g i file = .ok found) ↔ ∀ j d, g.LeadsTo i file.normalize j →
      (g.node j).declarationFor? file.normalize = some d → FileSystem.isFile fs d = true := by
  constructor
  · rintro ⟨found, hfound⟩ j d hj hd
    rw [resolve_of_leadsTo hj hd] at hfound
    by_contra hmissing
    rw [if_neg hmissing] at hfound
    cases hfound
  · intro h
    rcases answer_cases g i file.normalize with ⟨j, d, hj, hd⟩ | hnone
    · rw [resolve_of_leadsTo hj hd, if_pos (h j d hj hd)]
      exact ⟨_, rfl⟩
    · exact ⟨_, resolve_eq_unchanged hnone⟩

/-- Files are all resolved if each of them is. -/
theorem resolveAll_eq_ok {files : List Path} :
    resolveAll fs g i files = .ok () ↔ ∀ file ∈ files, ∃ found, resolve fs g i file = .ok found := by
  induction files with
  | nil => exact iff_of_true rfl (List.forall_mem_nil _)
  | cons file rest ih =>
      rw [List.forall_mem_cons, ← ih, resolveAll]
      cases hfile : resolve fs g i file with
      | ok found => exact ⟨fun h => ⟨⟨found, rfl⟩, h⟩, fun h => h.2⟩
      | error e =>
          constructor
          · intro h
            cases h
          · rintro ⟨⟨found, hfound⟩, -⟩
            cases hfound

/-- **What is verified**: that no reference that answers for a source of a direct
    reference lacks its declaration. -/
theorem verifyReferences_eq_ok :
    verifyReferences fs g i = .ok () ↔ ∀ j ∈ g.dependencies i, ∀ source ∈ (g.node j).inputs,
      source.isDeclaration = false → ∀ k d, g.LeadsTo i source.normalize k →
        (g.node k).declarationFor? source.normalize = some d → FileSystem.isFile fs d = true := by
  unfold verifyReferences
  rw [resolveAll_eq_ok]
  simp only [exists_resolve_iff, referencedSources, List.mem_flatMap, List.mem_filter,
    Bool.not_eq_true']
  exact ⟨fun h j hj source hsource hnot => h source ⟨j, hj, hsource, hnot⟩,
    fun h source ⟨j, hj, hsource, hnot⟩ => h j hj source hsource hnot⟩

end Resolution

end ProjectBuild
