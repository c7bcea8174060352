import ProjectBuild.Proofs.Graph.Reach
import ProjectBuild.Proofs.Run.Protocol

/-! # Staleness travels along references

    A check looks at the direct references of a project only, and at them last
    of all.  They lie in earlier levels, where every project has come to the
    end of its course, so none of them is still undecided
    (`Progress.Proceeds.settled`); and a project that is left alone references
    only projects that were left alone (`Progress.Grounded`).  Chains of
    references do the rest. -/

namespace ProjectBuild

variable {σ : Type}

/-- The statuses in which a project can end. -/
def Status.ends : List Status :=
  [.upToDate, .stale, .built, .failed, .skipped]

/-- Every course comes to an end. -/
theorem Status.courses_end (dryRun : Bool) : ∀ course ∈ Status.courses dryRun,
    course.getLast?.getD .unknown ∈ Status.ends := by
  cases dryRun <;> decide

/-- Dependents take notice of every end but the one. -/
theorem Status.upToDate_of_quiet {status : Status} (hend : status ∈ Status.ends)
    (hblocks : status.blocksDependents = false) (hrebuild : status.isRebuild = false) :
    status = .upToDate := by
  revert status
  decide

namespace Progress

/-- All projects before the level `n` that were left alone reference only such
    projects. -/
def Grounded (g : Graph) (n : Nat) (s : Progress σ) : Prop :=
  ∀ i < g.size, g.levelOf i < n → s.run.statuses.get i = .upToDate →
    ∀ j ∈ g.dependencies i, s.run.statuses.get j = .upToDate

/-- Projects of the levels that are done have come to an end. -/
theorem Proceeds.settled {g : Graph} {options : BuildOptions} {n : Nat} {s : Progress σ}
    (h : s.Proceeds g options n) {i : Nat} (hi : i < g.size) (hlevel : g.levelOf i < n) :
    s.run.statuses.get i ∈ Status.ends := by
  obtain ⟨course, hcourse, -, hstatus⟩ := h.told i hi hlevel
  rw [hstatus]
  exact Status.courses_end options.dryRun course hcourse

variable [FileSystem σ] {g : Graph} {options : BuildOptions}

/-- **One level leaves a project alone** only if all its references were left
    alone, whatever its workers and cancellations do. -/
theorem Grounded.level (hg : g.WellFormed) (compiler : Compiler σ) {n : Nat}
    (hn : n < g.levels.length) (schedule : LevelSchedule) {s : Progress σ}
    (hproceeds : s.Proceeds g options n) (h : s.Grounded g n) :
    (Progress.level g options compiler schedule s g.levels[n]).Grounded g (n + 1) := by
  have hnodup := Graph.levels_getElem_nodup hn
  have hlt : ∀ i ∈ g.levels[n], i < s.run.statuses.size :=
    fun i hi => hproceeds.size.symm ▸ ((Graph.mem_levels_getElem hn).mp hi).1
  obtain ⟨-, hothers⟩ := level_statuses g options compiler schedule hnodup hlt
  obtain ⟨-, houtcome⟩ := level_outcome g options compiler schedule hnodup hlt
  generalize Progress.level g options compiler schedule s g.levels[n] = s' at hothers houtcome ⊢
  intro i hi hlevel hup j hj
  obtain ⟨hbelow, hoff⟩ := Graph.dependency_before hg hn (Nat.le_of_lt_succ hlevel) hj
  rw [hothers j hoff]
  rcases Graph.levelOf_cases hn hi hlevel with ⟨hbefore, hpart⟩ | hpart
  · rw [hothers i hpart] at hup
    exact h i hi hbefore hup j hj
  · rcases houtcome i hpart with ⟨-, -, statuses, hseen, hcheck⟩ | hrebuild | hblocks
    · -- the check saw the references as they are, and none of them gave cause
      obtain ⟨hnone, hquiet, -⟩ := Staleness.check_upToDate_iff.mp hcheck
      have hfree : (statuses.get j).blocksDependents = false :=
        Bool.eq_false_iff.mpr fun hblocks => hnone ⟨j, hj, hblocks⟩
      have hstill := hquiet j hj
      rw [hseen j hoff] at hfree hstill
      exact Status.upToDate_of_quiet (hproceeds.settled (hg.dependency_lt hj).2 hbelow)
        hfree hstill
    · rw [hup] at hrebuild
      exact nomatch hrebuild
    · rw [hup] at hblocks
      exact nomatch hblocks

/-- Whole runs, by induction on the levels. -/
theorem levels_grounded (hg : g.WellFormed) (options : BuildOptions) (compiler : Compiler σ)
    (schedules : List LevelSchedule) (site : Site σ) :
    let s := levels g options compiler (start site g) schedules g.levels
    s.Proceeds g options g.levels.length ∧ s.Grounded g g.levels.length := by
  refine levels_induct g options compiler (start site g) schedules g.levels
    (P := fun n s => s.Proceeds g options n ∧ s.Grounded g n) ?_ ?_
  · rintro n hn schedule s - ⟨hproceeds, hgrounded⟩
    exact ⟨hproceeds.level hg compiler hn schedule, hgrounded.level hg compiler hn schedule
      hproceeds⟩
  · exact ⟨start_proceeds site g, fun _ _ hlevel => absurd hlevel (Nat.not_lt_zero _)⟩

omit [FileSystem σ] in
/-- What is grounded is grounded all the way down. -/
theorem Grounded.dependsOn (hg : g.WellFormed) {s : Progress σ} (h : s.Grounded g g.levels.length)
    {i j : Nat} (hdep : g.DependsOn i j) (hup : s.run.statuses.get i = .upToDate) :
    s.run.statuses.get j = .upToDate := by
  have hdirect : ∀ {k l : Nat}, l ∈ g.dependencies k → s.run.statuses.get k = .upToDate →
      s.run.statuses.get l = .upToDate := by
    intro k l hl hk
    have hlt := (hg.dependency_lt hl).1
    exact h k hlt (Graph.levelOf_lt_length hlt) hk l hl
  induction hdep with
  | single hij => exact hdirect hij hup
  | tail _ hjk ih => exact hdirect hjk ih

end Progress

/-- **Staleness travels upward, and all the way.**  Whatever a run begins with,
    its options, and what its compiles and cancellations do: if a project ends
    as up to date, so does everything that it depends on.  So if a project
    ends in any other way, none of its dependents, direct or not, ends as up
    to date. -/
theorem buildGraph_upToDate_dependsOn [FileSystem σ] {g : Graph} (hg : g.WellFormed)
    (options : BuildOptions) (compiler : Compiler σ) (schedules : List LevelSchedule)
    (site : Site σ) {i j : Nat} (hdep : g.DependsOn i j) :
    let run := (buildGraph options compiler schedules g site).2
    (run.statuses.get i = .upToDate → run.statuses.get j = .upToDate) ∧
      (run.statuses.get j = .stale ∨ run.statuses.get j = .built ∨
        run.statuses.get j = .failed ∨ run.statuses.get j = .skipped →
          run.statuses.get i ≠ .upToDate) ∧
      run.statuses.get i ∈ Status.ends ∧ run.statuses.get j ∈ Status.ends := by
  intro run
  obtain ⟨hproceeds, hgrounded⟩ :=
    Progress.levels_grounded hg options compiler schedules site
  have hdown : run.statuses.get i = .upToDate → run.statuses.get j = .upToDate :=
    hgrounded.dependsOn hg hdep
  obtain ⟨hi, hj⟩ := hdep.lt hg
  refine ⟨hdown, fun hother hup => ?_, hproceeds.settled hi (Graph.levelOf_lt_length hi),
    hproceeds.settled hj (Graph.levelOf_lt_length hj)⟩
  rw [hdown hup] at hother
  rcases hother with h | h | h | h <;> exact nomatch h

/-- A project without files in a directory of its own. -/
def emptyProject (dir : String) : Project :=
  { (default : Project) with
    configPath := ⟨dir ++ "/tsconfig.json"⟩
    configDir := ⟨dir⟩
    outDir := ⟨dir⟩ }

/-- Two projects without files, of which the second references the first. -/
def emptyPair : Graph where
  nodes := [emptyProject "/a", emptyProject "/b"]
  edges := [(1, 0)]

/-- The record of a project without files. -/
def emptyRecord (project stamp references : String) : String :=
  "\x7b\"version\":1,\"tool_version\":\"\",\"project\":\"" ++ project ++
    "\",\"config_fingerprint\":\"\",\"build_stamp\":\"" ++ stamp ++
    "\",\"inputs\":\x7b\x7d,\"outputs\":\x7b\x7d,\"references\":\x7b" ++ references ++ "\x7d\x7d"

/-- The files after both were built. -/
def emptyPairFiles : MemoryFs :=
  .ofTexts [
    ("/a/tsconfig.tsbuildinfo", emptyRecord "/a/tsconfig.json" "1" ""),
    ("/b/tsconfig.tsbuildinfo",
      emptyRecord "/b/tsconfig.json" "2" "\"/a/tsconfig.json\":\"1\"")]

/-- The second of two projects is up to date, and so is the first. -/
theorem buildGraph_upToDate_dependsOn_pair :
    let run := (buildGraph {} (CompileScript.compiler {}) [] emptyPair
      ⟨emptyPairFiles, false, []⟩).2
    run.statuses.get 1 = .upToDate ∧ run.statuses.get 0 = .upToDate := by
  have hwell : emptyPair.WellFormed := ⟨⟨by decide, by decide⟩, by decide⟩
  have hdep : emptyPair.DependsOn 1 0 := .single (show 0 ∈ emptyPair.dependencies 1 by decide)
  have h := buildGraph_upToDate_dependsOn (σ := MemoryFs) hwell {} (CompileScript.compiler {}) []
    ⟨emptyPairFiles, false, []⟩ hdep
  dsimp only at h ⊢
  have hsecond : (buildGraph {} (CompileScript.compiler {}) [] emptyPair
      ⟨emptyPairFiles, false, []⟩).2.statuses.get 1 = .upToDate := by
    decide +kernel
  exact ⟨hsecond, h.1 hsecond⟩

end ProjectBuild
