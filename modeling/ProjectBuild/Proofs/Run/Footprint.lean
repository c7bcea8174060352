import ProjectBuild.Proofs.Compile.Contract
import ProjectBuild.Proofs.Graph.Level
import ProjectBuild.Proofs.Record.Store
import ProjectBuild.Proofs.Run.Level
import ProjectBuild.Run.Build

/-! # What a run leaves behind

    Decisions change neither files nor records.  The steps of a worker edit the
    files in memory (`Stage.step_files`): the record file of its project, and
    whatever its compile edits.  A level takes the records of the projects that
    it has built into account and keeps the others
    (`Progress.recordOf?_collected`). -/

namespace ProjectBuild

open Staleness (recordOf? stampOf? Records)

/-! ## Files -/

namespace Stage

/-- The job that a worker is at makes only such edits. -/
def CompilesOnly (ok : MemoryFs.Edit → Prop) : Stage MemoryFs → Prop
  | compiling job => job.Only ok
  | _ => True

/-- **What a worker's step does to the files**: it edits the project's record
    file, or it is a step of the compile. -/
theorem step_files (w : Workplace MemoryFs) (i : Nat) {ok : MemoryFs.Edit → Prop}
    {stage : Stage MemoryFs} (h : stage.CompilesOnly ok) (run : Run MemoryFs) :
    ∃ es, (stage.step w i run).2.site.files = run.site.files.edits es ∧
      ∀ e ∈ es, e.path = (w.graph.node i).recordPath ∨ ok e := by
  have hrecord : ∀ (e : MemoryFs.Edit), e.path = (w.graph.node i).recordPath →
      ∀ e' ∈ [e], e'.path = (w.graph.node i).recordPath ∨ ok e' := by
    intro e hpath e' he'
    rw [List.mem_singleton.mp he']
    exact Or.inl hpath
  rcases step_site w i stage run with
    ⟨effect, next, rfl, hsite⟩ | ⟨-, hsame | hremoved | ⟨text, hreplaced⟩⟩
  · obtain ⟨⟨es, hes, hok⟩, -⟩ := h run.site
    exact ⟨es, (congrArg Site.files hsite).trans hes, fun e he => Or.inr (hok e he)⟩
  · exact ⟨[], hsame, fun e he => nomatch he⟩
  · exact ⟨[.remove (w.graph.node i).recordPath], hremoved, hrecord _ rfl⟩
  · exact ⟨[.write (w.graph.node i).recordPath text.toUTF8], hreplaced, hrecord _ rfl⟩

/-- A compile is begun as the compiler says, and goes on as its job says. -/
theorem step_compilesOnly (w : Workplace MemoryFs) (i : Nat) {ok : MemoryFs.Edit → Prop}
    (hcompiler : (w.compiler w.graph i).Only ok) {stage : Stage MemoryFs}
    (h : stage.CompilesOnly ok) (run : Run MemoryFs) :
    (stage.step w i run).1.CompilesOnly ok := by
  obtain ⟨entries, hmove⟩ := step_moves w i stage run
  generalize stage.step w i run = next at hmove ⊢
  cases hmove with
  | handed => exact hcompiler
  | worked effect next => exact (h run.site).2
  | _ => exact True.intro

end Stage

variable {σ : Type}

/-! ## Decisions -/

namespace Progress

/-- A project is skipped, stale, or up to date because it was found so. -/
theorem ruling_cases (options : BuildOptions) (reason : Reason) :
    (ruling options reason).1 = .skipped ∨ (ruling options reason).1 = .stale ∨
      (ruling options reason).1 = .upToDate ∧ reason = .upToDate := by
  cases reason with
  | cancelled => exact Or.inl rfl
  | upstreamBlocked project => exact Or.inl rfl
  | upToDate =>
      by_cases hforce : options.force = true
      · exact Or.inr (Or.inl (by simp only [ruling, if_pos hforce]))
      · exact Or.inr (Or.inr ⟨by simp only [ruling, if_neg hforce], rfl⟩)
  | _ => exact Or.inr (Or.inl rfl)

/-- A project is up to date only if it was found so. -/
theorem ruling_eq_upToDate {options : BuildOptions} {reason : Reason}
    (h : (ruling options reason).1 = .upToDate) : reason = .upToDate := by
  rcases ruling_cases options reason with h' | h' | ⟨-, h'⟩
  · exact nomatch h'.symm.trans h
  · exact nomatch h'.symm.trans h
  · exact h'

/-- Only an up-to-date project is left as it is. -/
theorem ruling_ne_built (options : BuildOptions) (reason : Reason) :
    (ruling options reason).1 ≠ .built := by
  intro h
  rcases ruling_cases options reason with h' | h' | ⟨h', -⟩
  · exact nomatch h'.symm.trans h
  · exact nomatch h'.symm.trans h
  · exact nomatch h'.symm.trans h

section
variable [FileSystem σ] {g : Graph} {options : BuildOptions}

/-- What the decisions of a level keep of the run. -/
structure Opened (s s' : Progress σ) (front : List Nat) : Prop where
  files : s'.run.site.files = s.run.site.files
  journal : ∃ entries, s'.run.journal = s.run.journal ++ entries ∧ ∀ e ∈ entries, e.Announces
  records : s'.records = s.records
  size : s'.run.statuses.size = s.run.statuses.size
  others : ∀ j, j ∉ front → s'.run.statuses.get j = s.run.statuses.get j

omit [FileSystem σ] in
theorem Opened.refl (s : Progress σ) : Opened s s [] :=
  ⟨rfl, ⟨[], (List.append_nil _).symm, fun _ he => nomatch he⟩, rfl, rfl, fun _ _ => rfl⟩

omit [FileSystem σ] in
theorem Opened.interrupt {s s' : Progress σ} {front : List Nat} (h : Opened s s' front) :
    Opened s (s'.interrupt true) front :=
  ⟨h.files, h.journal, h.records, h.size, h.others⟩

/-- One more decision. -/
theorem Opened.decide {s s' : Progress σ} {front : List Nat} (h : Opened s s' front) (i : Nat) :
    Opened s (Progress.decide g options s' i) (front ++ [i]) := by
  constructor
  case files =>
    rw [decide_site]
    exact h.files
  case journal =>
    obtain ⟨entries, hjournal, hentries⟩ := h.journal
    obtain ⟨more, hmore, hannounce⟩ := decide_journal g options s' i
    refine ⟨entries ++ more, by rw [hmore, hjournal, List.append_assoc], ?_⟩
    intro e he
    exact (List.mem_append.mp he).elim (hentries e) (hannounce e)
  case records => exact h.records
  case size =>
    rw [decide_statuses, StatusTable.size_publish]
    exact h.size
  case others =>
    intro j hj
    rw [List.mem_append, List.mem_singleton, not_or] at hj
    rw [decide_get_ne g options s' hj.2]
    exact h.others j hj.1

/-- A decision that is not about a cancellation checks against the files and records of
    before all decisions. -/
theorem Opened.ground_cases {s s' : Progress σ} {front : List Nat} (h : Opened s s' front)
    (i : Nat) :
    (s'.run.site.cancelled = true ∧ ground g s' i = .cancelled) ∨
      ground g s' i = Staleness.check s.run.site.files g s'.run.statuses s.records i := by
  unfold ground
  rw [h.files, h.records]
  by_cases hcancelled : s'.run.site.cancelled = true
  · exact Or.inl ⟨hcancelled, if_pos hcancelled⟩
  · exact Or.inr (if_neg hcancelled)

omit [FileSystem σ] in
/-- Decisions give nothing to the compiler. -/
theorem Opened.handed {s s' : Progress σ} {front : List Nat} (h : Opened s s' front) :
    s'.run.handed = s.run.handed := by
  obtain ⟨entries, hjournal, hannounce⟩ := h.journal
  simp only [Run.handed, hjournal, List.filterMap_append]
  refine List.append_right_eq_self.mpr (List.filterMap_eq_nil_iff.mpr fun e he => ?_)
  cases e with
  | handed i => exact (hannounce _ he).elim
  | _ => rfl

/-- A status that was decided on, with the statuses that the decision was based
    on. -/
def Decided (g : Graph) (options : BuildOptions) (s s' : Progress σ) (level : List Nat)
    (i : Nat) : Prop :=
  ∃ (statuses : StatusTable) (reason : Reason),
    (∀ j, j ∉ level → statuses.get j = s.run.statuses.get j) ∧
    s'.run.statuses.get i = (ruling options reason).1 ∧
    (reason = .cancelled ∨
      reason = Staleness.check s.run.site.files g statuses s.records i)

/-- **The decisions of a level** are checks against the files and records that
    the level began with. -/
theorem decideEach_spec (g : Graph) (options : BuildOptions) {level : List Nat}
    (hnodup : level.Nodup) (s : Progress σ) (hlt : ∀ i ∈ level, i < s.run.statuses.size)
    (interruptions : List Bool) :
    Opened s (decideEach g options s interruptions level) level ∧
      ∀ i ∈ level, Decided g options s (decideEach g options s interruptions level) level i := by
  refine decideEach_induct_nodup g options s interruptions hnodup
    (P := fun front s' => Opened s s' front ∧ ∀ i ∈ front, Decided g options s s' level i) ?_ ?_ ?_
  · exact fun _ front s' h => ⟨h.1.interrupt, h.2⟩
  · rintro front i s' hi hfresh hfront ⟨hopened, hdecided⟩
    have hsize : i < s'.run.statuses.size := hopened.size.symm ▸ hlt i hi
    refine ⟨hopened.decide i, ?_⟩
    intro j hj
    rcases List.mem_append.mp hj with hj | hj
    · obtain ⟨statuses, reason, hstatuses, hget, hreason⟩ := hdecided j hj
      refine ⟨statuses, reason, hstatuses, ?_, hreason⟩
      have hne : j ≠ i := fun heq => hfresh (heq ▸ hj)
      rw [decide_get_ne g options s' hne]
      exact hget
    · rw [List.mem_singleton.mp hj]
      -- decided just now: the others of the level do not matter to the check
      refine ⟨s'.run.statuses, ground g s' i, ?_, ?_, ?_⟩
      · exact fun j hj => hopened.others j fun hmem => hj (hfront hmem)
      · rw [decide_statuses]
        exact StatusTable.get_publish hsize _
      · exact (hopened.ground_cases i).imp_left And.right
  · exact ⟨Opened.refl s, fun i hi => nomatch hi⟩

/-- A project that has been decided on is skipped or to be built, or a check has
    found it up to date. -/
theorem Decided.cases {s s' : Progress σ} {level : List Nat} {i : Nat}
    (h : Decided g options s s' level i) :
    s'.run.statuses.get i = .skipped ∨ s'.run.statuses.get i = .stale ∨
      s'.run.statuses.get i = .upToDate ∧ ∃ statuses : StatusTable,
        (∀ j, j ∉ level → statuses.get j = s.run.statuses.get j) ∧
        Staleness.check s.run.site.files g statuses s.records i = .upToDate := by
  obtain ⟨statuses, reason, hothers, hget, hreason⟩ := h
  rcases ruling_cases options reason with hskipped | hstale | ⟨hup, hground⟩
  · exact Or.inl (hget.trans hskipped)
  · exact Or.inr (Or.inl (hget.trans hstale))
  · refine Or.inr (Or.inr ⟨hget.trans hup, statuses, hothers, ?_⟩)
    rcases hreason with hcancelled | hcheck
    · exact nomatch hcancelled.symm.trans hground
    · exact hcheck.symm.trans hground

end

/-! ## Records -/

theorem collect_records (s : Progress σ) (worker : Worker σ) :
    (s.collect worker).records = match worker.record? with
      | some record => s.records.set worker.index (some record)
      | none => s.records := by
  have hgiven : (if s.run.statuses.get worker.index = .skipped
      then { s with reasons := s.reasons.set worker.index .cancelled } else s).records
        = s.records := by
    split <;> rfl
  unfold collect
  cases worker.record? with
  | none => exact hgiven
  | some record =>
      exact congrArg (fun records : Records => records.set worker.index (some record)) hgiven

/-- Only a project of the graph has a record. -/
theorem lt_of_recordOf? {records : Records} {i : Nat} {r : BuildRecord}
    (h : recordOf? records i = some r) : i < records.length := by
  unfold recordOf? at h
  by_contra hge
  rw [List.getElem?_eq_none (Nat.le_of_not_lt hge)] at h
  exact nomatch h

/-- A record that was set is the project's. -/
theorem recordOf?_set (records : Records) {i : Nat} (hi : i < records.length)
    (record : Option BuildRecord) : recordOf? (records.set i record) i = record := by
  unfold recordOf?
  rw [List.getElem?_set_self hi]
  rfl

/-- Setting a record leaves those of the other projects. -/
theorem recordOf?_set_ne (records : Records) {i j : Nat} (h : j ≠ i)
    (record : Option BuildRecord) :
    recordOf? (records.set i record) j = recordOf? records j := by
  unfold recordOf?
  rw [List.getElem?_set_ne h.symm]

theorem collect_records_length (s : Progress σ) (worker : Worker σ) :
    (s.collect worker).records.length = s.records.length := by
  rw [collect_records]
  cases worker.record? with
  | none => rfl
  | some record => exact List.length_set

/-- What a worker brings back concerns its own project only. -/
theorem recordOf?_collect_ne (s : Progress σ) {worker : Worker σ} {j : Nat}
    (h : j ≠ worker.index) : recordOf? (s.collect worker).records j = recordOf? s.records j := by
  rw [collect_records]
  cases worker.record? with
  | none => rfl
  | some record => exact recordOf?_set_ne _ h _

/-- A worker's project gets the record that the worker brings, or keeps its own. -/
theorem recordOf?_collect (s : Progress σ) {worker : Worker σ}
    (h : worker.index < s.records.length) :
    recordOf? (s.collect worker).records worker.index
      = worker.record?.or (recordOf? s.records worker.index) := by
  rw [collect_records]
  cases worker.record? with
  | none => rfl
  | some record => exact recordOf?_set _ h _

theorem foldl_collect_records_length (crew : Crew σ) (s : Progress σ) :
    (crew.foldl collect s).records.length = s.records.length := by
  induction crew generalizing s with
  | nil => rfl
  | cons worker rest ih =>
      rw [List.foldl_cons, ih, collect_records_length]

/-- A project without a worker keeps its record. -/
theorem recordOf?_collected_ne {crew : Crew σ} {j : Nat} (h : j ∉ crew.map Worker.index)
    (s : Progress σ) : recordOf? (crew.foldl collect s).records j = recordOf? s.records j := by
  induction crew generalizing s with
  | nil => rfl
  | cons worker rest ih =>
      rw [List.map_cons, List.mem_cons, not_or] at h
      rw [List.foldl_cons, ih h.2, recordOf?_collect_ne s h.1]

/-- **The records that a crew brings back** replace those of its projects. -/
theorem recordOf?_collected {crew : Crew σ} (hnodup : (crew.map Worker.index).Nodup)
    {worker : Worker σ} (hmem : worker ∈ crew) (s : Progress σ)
    (hlt : worker.index < s.records.length) :
    recordOf? (crew.foldl collect s).records worker.index
      = worker.record?.or (recordOf? s.records worker.index) := by
  induction crew generalizing s with
  | nil => exact nomatch hmem
  | cons first rest ih =>
      rw [List.map_cons, List.nodup_cons] at hnodup
      rw [List.foldl_cons]
      rcases List.mem_cons.mp hmem with rfl | hrest
      · rw [recordOf?_collected_ne hnodup.1, recordOf?_collect s hlt]
      · have hne : worker.index ≠ first.index := by
          intro heq
          exact hnodup.1 (heq ▸ List.mem_map_of_mem hrest)
        rw [ih hnodup.2 hrest _ (by rw [collect_records_length]; exact hlt),
          recordOf?_collect_ne s hne]

/-! ## Levels -/

section
variable [FileSystem σ]

/-- **A level sets the statuses of its own projects only.** -/
theorem level_statuses (g : Graph) (options : BuildOptions) (compiler : Compiler σ)
    (schedule : LevelSchedule) {s : Progress σ} {part : List Nat} (hnodup : part.Nodup)
    (hlt : ∀ i ∈ part, i < s.run.statuses.size) :
    (level g options compiler schedule s part).run.statuses.size = s.run.statuses.size ∧
      ∀ j, j ∉ part → (level g options compiler schedule s part).run.statuses.get j
        = s.run.statuses.get j := by
  have hopened := (decideEach_spec g options hnodup s hlt
    schedule.interruptions).1
  by_cases hdry : options.dryRun = true
  · have heq : level g options compiler schedule s part
        = decideEach g options s schedule.interruptions part := by
      unfold level
      rw [if_pos hdry]
    rw [heq]
    exact ⟨hopened.size, hopened.others⟩
  · rw [Bool.not_eq_true] at hdry
    rw [level_eq hdry, build_run]
    have hwork := Crew.work_statuses
      ⟨g, compiler, (decideEach g options s schedule.interruptions part).records⟩
      (stale_nodup hnodup (decideEach g options s schedule.interruptions part)) schedule.turns
      (decideEach g options s schedule.interruptions part).run
      (fun i hi => hopened.size.symm ▸ hlt i (mem_stale.mp hi).1)
      (fun i hi => (mem_stale.mp hi).2)
    refine ⟨hwork.1.trans hopened.size, fun j hj => ?_⟩
    exact (hwork.2.1 j fun h => hj (mem_stale.mp h).1).trans (hopened.others j hj)

variable {g : Graph} {compiler : Compiler σ} {turns : List Turn} {s : Progress σ}
  {part : List Nat}

/-- Building a part of a level is collecting what its workers bring. -/
theorem build_eq (g : Graph) (compiler : Compiler σ) (turns : List Turn) (s : Progress σ)
    (part : List Nat) :
    build g compiler turns s part
      = (Crew.work ⟨g, compiler, s.records⟩ (s.stale part) turns s.run).1.foldl collect
          { s with run := (Crew.work ⟨g, compiler, s.records⟩ (s.stale part) turns s.run).2 } :=
  rfl

/-- Building keeps a record for each project. -/
theorem build_records_length :
    (build g compiler turns s part).records.length = s.records.length :=
  foldl_collect_records_length _ _

/-- A level keeps the records of the projects that it does not build. -/
theorem recordOf?_build_ne {j : Nat} (hj : j ∉ s.stale part) :
    recordOf? (build g compiler turns s part).records j = recordOf? s.records j := by
  rw [build_eq, recordOf?_collected_ne]
  rw [Crew.work_indices]
  exact hj

/-- Of the others it takes the records that the workers bring back. -/
theorem recordOf?_build (hnodup : part.Nodup) {worker : Worker σ}
    (hmem : worker ∈ (Crew.work ⟨g, compiler, s.records⟩ (s.stale part) turns s.run).1)
    (hlt : worker.index < s.records.length) {record : Option BuildRecord}
    (hfinished : worker.stage = .finished record) :
    recordOf? (build g compiler turns s part).records worker.index
      = record.or (recordOf? s.records worker.index) := by
  have hrecord : worker.record? = record := by
    unfold Worker.record?
    rw [hfinished]
  rw [build_eq, ← hrecord]
  refine recordOf?_collected ?_ hmem _ hlt
  rw [Crew.work_indices]
  exact stale_nodup hnodup s

end

section
variable [FileSystem σ]

/-- A project that a level has left as it was, since a check found it up to
    date. -/
def LeftAlone (g : Graph) (s s' : Progress σ) (part : List Nat) (i : Nat) : Prop :=
  s'.run.statuses.get i = .upToDate ∧ recordOf? s'.records i = recordOf? s.records i ∧
    ∃ statuses : StatusTable, (∀ j, j ∉ part → statuses.get j = s.run.statuses.get j) ∧
      Staleness.check s.run.site.files g statuses s.records i = .upToDate

/-- **What a level comes to**: a project is left alone, or no dependent of it
    will be. -/
theorem level_outcome (g : Graph) (options : BuildOptions) (compiler : Compiler σ)
    (schedule : LevelSchedule) {s : Progress σ} {part : List Nat} (hnodup : part.Nodup)
    (hlt : ∀ i ∈ part, i < s.run.statuses.size) :
    (∀ j, j ∉ part → recordOf? (level g options compiler schedule s part).records j
      = recordOf? s.records j) ∧
    ∀ i ∈ part, LeftAlone g s (level g options compiler schedule s part) part i ∨
      ((level g options compiler schedule s part).run.statuses.get i).isRebuild = true ∨
      ((level g options compiler schedule s part).run.statuses.get i).blocksDependents = true := by
  obtain ⟨hopened, hdecided⟩ := decideEach_spec g options hnodup s hlt schedule.interruptions
  generalize hs' : decideEach g options s schedule.interruptions part = s' at hopened hdecided
  -- a project whose status and record have not changed since the decision
  have hkept : ∀ i ∈ part, ∀ s'' : Progress σ,
      s''.run.statuses.get i = s'.run.statuses.get i →
      recordOf? s''.records i = recordOf? s'.records i → LeftAlone g s s'' part i ∨
        (s''.run.statuses.get i).isRebuild = true ∨
        (s''.run.statuses.get i).blocksDependents = true := by
    intro i hi s'' hstatus hrecord
    rw [hstatus]
    rcases (hdecided i hi).cases with hskipped | hstale | ⟨hup, statuses, hothers, hcheck⟩
    · rw [hskipped]
      exact Or.inr (Or.inr rfl)
    · rw [hstale]
      exact Or.inr (Or.inl rfl)
    · refine Or.inl ⟨hstatus.trans hup, ?_, statuses, hothers, hcheck⟩
      rw [hrecord, hopened.records]
  by_cases hdry : options.dryRun = true
  · have heq : level g options compiler schedule s part = s' := by
      unfold level
      rw [if_pos hdry]
      exact hs'
    rw [heq]
    exact ⟨fun j _ => by rw [hopened.records], fun i hi => hkept i hi s' rfl rfl⟩
  · rw [Bool.not_eq_true] at hdry
    rw [level_eq hdry, hs']
    have hwork := Crew.work_statuses ⟨g, compiler, s'.records⟩ (stale_nodup hnodup s')
      schedule.turns s'.run
      (fun i hi => hopened.size.symm ▸ hlt i (mem_stale.mp hi).1)
      (fun i hi => (mem_stale.mp hi).2)
    rw [← build_run] at hwork
    refine ⟨?_, ?_⟩
    · intro j hj
      rw [recordOf?_build_ne fun hmem => hj (mem_stale.mp hmem).1, hopened.records]
    · intro i hi
      by_cases hstale : i ∈ s'.stale part
      · obtain ⟨worker, -, -, ⟨record, -, hbuilt⟩ | ⟨-, hfailed | hskipped⟩⟩ :=
          hwork.2.2 i hstale
        · rw [hbuilt]
          exact Or.inr (Or.inl rfl)
        · rw [hfailed]
          exact Or.inr (Or.inr rfl)
        · rw [hskipped]
          exact Or.inr (Or.inr rfl)
      · exact hkept i hi _ (hwork.2.1 i hstale) (recordOf?_build_ne hstale)

end

/-! ## The beginning -/

/-- At first, a project's record is the one on file. -/
theorem recordOf?_start [FileSystem σ] (site : Site σ) {g : Graph} {i : Nat} (hi : i < g.size) :
    recordOf? (start site g).records i = (BuildRecord.load site.files (g.node i)).value := by
  have hrecords : (start site g).records
      = (g.nodes.map (BuildRecord.load site.files)).map Noted.value := rfl
  unfold recordOf?
  rw [hrecords, List.getElem?_map, List.getElem?_map, List.getElem?_eq_getElem hi]
  unfold Graph.node
  rw [List.getD_eq_getElem?_getD, List.getElem?_eq_getElem hi]
  rfl

theorem start_records_length [FileSystem σ] (site : Site σ) (g : Graph) :
    (start site g).records.length = g.size := by
  show ((g.nodes.map _).map _).length = g.size
  rw [List.length_map, List.length_map]
  rfl

end Progress

/-! ## Stamps of references -/

/-- The stamps that a new record bears are those that are known of
    references. -/
theorem mem_referenceStamps {g : Graph} {records : Records} {i : Nat} {entry : Path × String}
    (h : entry ∈ (referenceStamps g records i).entries) :
    ∃ k ∈ g.dependencies i,
      entry.1 = (g.node k).configPath ∧ stampOf? records k = some entry.2 := by
  obtain ⟨k, hk, hentry⟩ := List.mem_filterMap.mp (PathMap.mem_ofList h)
  obtain ⟨stamp, hstamp, rfl⟩ := Option.map_eq_some_iff.mp hentry
  exact ⟨k, hk, rfl, hstamp⟩

/-! ## The files after a run -/

section files

variable {ok : MemoryFs.Edit → Prop}

/-- A crew edits record files, and what its compiles edit. -/
theorem Crew.work_files {w : Workplace MemoryFs} (hcompiler : ∀ i, (w.compiler w.graph i).Only ok)
    {stale : List Nat} (hnodup : stale.Nodup) (turns : List Turn) (run : Run MemoryFs) :
    ∃ es, (work w stale turns run).2.site.files = run.site.files.edits es ∧
      ∀ e ∈ es, (∃ p : Project, e.path = p.recordPath) ∨ ok e := by
  have h := work_local w turns run
    (G := fun run' => ∃ es, run'.site.files = run.site.files.edits es ∧
      ∀ e ∈ es, (∃ p : Project, e.path = p.recordPath) ∨ ok e)
    (I := fun _ stage _ => stage.CompilesOnly ok) hnodup ?_ (fun _ _ _ _ _ _ _ _ _ _ h => h)
    (fun _ _ h => ⟨h, fun _ _ h => h⟩) ⟨[], rfl, fun _ he => nomatch he⟩ (fun _ _ => True.intro)
  · exact h.1
  · rintro i - stage run' ⟨es, hes, hok⟩ honly
    obtain ⟨es', hes', hok'⟩ := Stage.step_files w i honly run'
    refine ⟨⟨es ++ es', ?_, ?_⟩, Stage.step_compilesOnly w i (hcompiler i) honly run'⟩
    · rw [hes', hes, MemoryFs.edits_append]
    · intro e he
      rcases List.mem_append.mp he with he | he
      · exact hok e he
      · exact (hok' e he).imp_left fun hpath => ⟨_, hpath⟩

/-- **All that a run does to the files** is editing record files, and what
    compiles edit. -/
theorem Progress.levels_files {g : Graph} (options : BuildOptions) {compiler : Compiler MemoryFs}
    (hcompiler : ∀ i, (compiler g i).Only ok) (schedules : List LevelSchedule)
    (s : Progress MemoryFs) :
    ∃ es, (levels g options compiler s schedules g.levels).run.site.files
        = s.run.site.files.edits es ∧
      ∀ e ∈ es, (∃ p : Project, e.path = p.recordPath) ∨ ok e := by
  refine levels_induct g options compiler s schedules g.levels
    (P := fun _ s' => ∃ es, s'.run.site.files = s.run.site.files.edits es ∧
      ∀ e ∈ es, (∃ p : Project, e.path = p.recordPath) ∨ ok e) ?_ ⟨[], rfl, fun _ he => nomatch he⟩
  rintro n hn schedule s' - ⟨es, hes, hok⟩
  by_cases hdry : options.dryRun = true
  · refine ⟨es, ?_, hok⟩
    unfold level
    rw [if_pos hdry, decideEach_files]
    exact hes
  · rw [Bool.not_eq_true] at hdry
    obtain ⟨es', hes', hok'⟩ := Crew.work_files
      (w := ⟨g, compiler, (decideEach g options s' schedule.interruptions g.levels[n]).records⟩)
      hcompiler (stale_nodup (Graph.levels_getElem_nodup hn) _) schedule.turns
      (decideEach g options s' schedule.interruptions g.levels[n]).run
    refine ⟨es ++ es', ?_, ?_⟩
    · rw [level_eq hdry, build_run, hes', decideEach_files, hes, MemoryFs.edits_append]
    · exact fun e he => (List.mem_append.mp he).elim (hok e) (hok' e)

end files

end ProjectBuild
