import ProjectBuild.Proofs.Graph.Reach
import ProjectBuild.Proofs.History.Run

/-! # No rebuild is lost

    A project that a run finds up to date was compiled after all projects that
    it depends on, however many runs there have been in between, with whatever
    roots (`Chronicle.compiled_after`).  Records carry this from run to run:
    the record of a project names the records that its references had, and
    these had been taken before its own compile began. -/

namespace ProjectBuild

open MemoryFs (Edit)
open Staleness (recordOf? stampOf? Records)

/-! ## Chronicles and their tales -/

/-- An act that forges no record; a build is one by a compiler that can be
    relied on. -/
def Act.Honest (keeps : Prop) : Act → Prop
  | .edit e => e.Honest
  | .build call => call.compiler.Reliable keeps

namespace Chronicle

variable {keeps : Prop} {c : Chronicle}

/-- What a call comes to that has loaded its graph. -/
theorem called_recounted (h : Told keeps c.files c.tale) {call : BuildCall}
    (hcall : call.compiler.Reliable keeps) {g : Graph} {report : BuildReport}
    (hg : (c.called call).1 = .ok (g, report)) :
    g.WellFormed ∧ g.Distinct ∧ ∃ s : Progress MemoryFs,
      s.Recounted keeps g call.compiler c.tale c.files g.levels.length ∧
      (c.called call).2.statuses = s.run.statuses ∧
      c.act (.build call) = ⟨s.run.site.files, s.run.taleAfter c.tale g⟩ := by
  rcases c.act_build_cases call with
    ⟨e, -, herror, -⟩ | ⟨g', report', hload, hok, hact, site, hsite, -, hrun⟩
  · exact nomatch herror.symm.trans hg
  · obtain ⟨rfl, rfl⟩ := Prod.mk.inj (Except.ok.inj (hok.symm.trans hg))
    obtain ⟨hdistinct, hloaded⟩ := loadGraph_sound hload
    have hs := Progress.levels_recounted call.options (loadGraph_wellFormed hload)
      hdistinct (fun i hi => ⟨c.files, hloaded i hi⟩) hcall call.schedules (hsite.symm ▸ h)
    rw [hsite] at hs
    refine ⟨loadGraph_wellFormed hload, hdistinct, _, hs, ?_, ?_⟩
    · rw [hrun]
      rfl
    · rw [hact, hrun]
      rfl

/-- A run works on the graph that is loaded from the files it finds. -/
theorem load_of_called {call : BuildCall} {g : Graph} {report : BuildReport}
    (hg : (c.called call).1 = .ok (g, report)) : (loadGraph c.files call.roots).value = .ok g := by
  rcases c.act_build_cases call with ⟨e, -, herror, -⟩ | ⟨g', report', hload, hok, -⟩
  · exact nomatch herror.symm.trans hg
  · obtain ⟨rfl, -⟩ := Prod.mk.inj (Except.ok.inj (hok.symm.trans hg))
    exact hload

/-- **One act** keeps files and tale fitting together. -/
theorem act_told (h : Told keeps c.files c.tale) {a : Act} (ha : a.Honest keeps) :
    Told keeps (c.act a).files (c.act a).tale := by
  cases a with
  | edit e =>
      have hes : ∀ e' ∈ [e], e'.Honest := by
        intro e' he'
        rw [List.mem_singleton.mp he']
        exact ha
      exact h.edits hes
  | build call =>
      cases hcalled : (c.called call).1 with
      | error e =>
          rcases c.act_build_cases call with ⟨-, -, -, hact⟩ | ⟨g, report, -, hok, -⟩
          · rw [hact]
            exact h
          · exact nomatch hcalled.symm.trans hok
      | ok result =>
          obtain ⟨-, -, s, hs, -, hact⟩ := called_recounted h ha hcalled
          rw [hact]
          exact hs.consistent.1

/-- **So does a whole history.** -/
theorem acts_told (h : Told keeps c.files c.tale) {as : List Act}
    (has : ∀ a ∈ as, a.Honest keeps) : Told keeps (c.acts as).files (c.acts as).tale := by
  induction as generalizing c with
  | nil => exact h
  | cons a rest ih =>
      exact ih (act_told h (has a List.mem_cons_self))
        fun a' ha' => has a' (List.mem_cons_of_mem a ha')

end Chronicle

/-! ## Records that are based on others -/

/-- The records that have been taken. -/
def Tale.records (tale : Tale) : List BuildRecord :=
  tale.filterMap fun
    | .captured _ r => some r
    | _ => none

/-- Different records have different stamps. -/
def Tale.DistinctStamps (tale : Tale) : Prop :=
  ∀ r ∈ tale.records, ∀ r' ∈ tale.records, r.buildStamp = r'.buildStamp → r = r'

instance (tale : Tale) : Decidable tale.DistinctStamps :=
  inferInstanceAs (Decidable (∀ _ ∈ _, ∀ _ ∈ _, _))

/-- What has been captured is among the records of a tale. -/
theorem Tale.mem_records {tale : Tale} {n : Nat} {p : Project} {r : BuildRecord}
    (h : tale[n]? = some (.captured p r)) : r ∈ tale.records :=
  List.mem_filterMap.mpr ⟨_, List.mem_of_getElem? h, rfl⟩

/-- A stamp on record stands for a record that was taken before. -/
theorem Tale.Chapter.taken_before {keeps : Prop} {tale : Tale} (hstamps : tale.DistinctStamps)
    {p : Project} {r r' : BuildRecord} {start finish taken : Nat}
    (h : tale.Chapter keeps p r start finish taken) (hr' : r' ∈ tale.records) {path : Path}
    (hstamp : r.references.get? path = some r'.buildStamp) :
    ∃ m p', m < start ∧ tale[m]? = some (.captured p' r') := by
  obtain ⟨m, p', r'', hm, hcaptured, hsame⟩ := h.grounded path _ hstamp
  rw [hstamps r'' (mem_records hcaptured) r' hr' hsame] at hcaptured
  exact ⟨m, p', hm, hcaptured⟩

namespace Progress.Recounted

variable {keeps : Prop} {g : Graph} {compiler : Compiler MemoryFs} {before : Tale}
  {fs : MemoryFs} {s : Progress MemoryFs}

/-- **The grounds for finding a project up to date**, at the end of a run. -/
theorem vouched_of_upToDate (h : s.Recounted keeps g compiler before fs g.levels.length)
    {i : Nat} (hi : s.run.statuses.get i = .upToDate) :
    i < g.size ∧ ∃ r, Vouched keeps g fs s i r := by
  have hlt : i < g.size := by
    rw [← h.size]
    exact StatusTable.lt_of_get_ne (hi ▸ fun h => nomatch h)
  exact ⟨hlt, h.vouched i hlt (Graph.levelOf_lt_length hlt) hi⟩

/-- The record of every project that one depends on had been taken before its
    own compile began. -/
theorem taken_before (h : s.Recounted keeps g compiler before fs g.levels.length)
    (htold : Told keeps fs before) (hstamps : before.DistinctStamps) {i j : Nat}
    (hdep : g.DependsOn i j) (hi : s.run.statuses.get i = .upToDate) :
    s.run.statuses.get j = .upToDate ∧ ∃ r', (BuildRecord.load fs (g.node j)).value = some r' ∧
      ∀ r n p start finish, (BuildRecord.load fs (g.node i)).value = some r →
        before.Chapter keeps p r start finish n →
        ∃ m p', m < start ∧ before[m]? = some (.captured p' r') := by
  -- one reference
  have hone : ∀ {i k : Nat}, k ∈ g.dependencies i → s.run.statuses.get i = .upToDate →
      s.run.statuses.get k = .upToDate ∧ ∃ r', (BuildRecord.load fs (g.node k)).value = some r' ∧
        ∀ r n p start finish, (BuildRecord.load fs (g.node i)).value = some r →
          before.Chapter keeps p r start finish n →
          ∃ m p', m < start ∧ before[m]? = some (.captured p' r') := by
    intro i k hk hi
    obtain ⟨-, r, hr⟩ := h.vouched_of_upToDate hi
    obtain ⟨hup, hstamp⟩ := hr.references k hk
    obtain ⟨-, r', hr'⟩ := h.vouched_of_upToDate hup
    refine ⟨hup, r', hr'.loaded, ?_⟩
    intro r'' n p start finish hr'' hchapter
    obtain rfl := Option.some.inj (hr.loaded.symm.trans hr'')
    obtain ⟨m, p', hm, -, -⟩ := htold.onFile _ r' (g.node k).getLast?_recordPath
      (recordAt?_of_load hr'.loaded).1
    rw [hr'.loaded] at hstamp
    exact hchapter.taken_before hstamps (Tale.mem_records hm) hstamp
  induction hdep using Relation.TransGen.head_induction_on with
  | single hij => exact hone hij hi
  | @head i k hik _ ih =>
      obtain ⟨hup, r', hr', hbefore⟩ := hone hik hi
      obtain ⟨hj, r'', hr'', hbefore'⟩ := ih hup
      refine ⟨hj, r'', hr'', ?_⟩
      intro r n p start finish hr hchapter
      obtain ⟨m, p', hm, hcaptured⟩ := hbefore r n p start finish hr hchapter
      obtain ⟨start', finish', hchapter'⟩ := htold.chapters m p' r' hcaptured
      obtain ⟨m', p'', hm', hcaptured'⟩ := hbefore' r' m p' start' finish' hr' hchapter'
      have := hchapter'.started
      have := hchapter'.finished
      exact ⟨m', p'', by omega, hcaptured'⟩

/-- The latest successful compile of an up-to-date project that has left its
    record where it is now ended before that record was taken: nothing has
    been told since. -/
theorem lastFinishAt?_lt (h : s.Recounted keeps g compiler before fs g.levels.length)
    (hdistinct : g.Distinct) (htold : Told keeps fs before) {j : Nat}
    (hj : s.run.statuses.get j = .upToDate) {n : Nat} {p : Project} {r : BuildRecord}
    (hn : before[n]? = some (.captured p r))
    (hpath : p.recordPath.components = (g.node j).recordPath.components)
    (hlatest : ∀ m d, n < m → before[m]? = some d → ¬ d.At p)
    (hproject : r.project.components = (g.node j).configPath.components) :
    ∃ finish, (s.run.taleAfter before g).lastFinishAt? (g.node j) = some finish ∧
      finish < n := by
  have hconfig : p.configPath.components = (g.node j).configPath.components := by
    rw [← htold.project_eq hn]
    exact hproject
  obtain ⟨start, finish, hchapter⟩ := htold.chapters n p r hn
  have hreturned : (s.run.taleAfter before g)[finish]? = some (.returned p true) :=
    Tale.get_append hchapter.returned
  obtain ⟨last, hlast, -⟩ := Tale.le_latest? (fun d => d.finishes && d.At (g.node j)) hreturned
    (by simp [Deed.finishes, Deed.At, Deed.About, Deed.project, hconfig, hpath])
  refine ⟨last, hlast, ?_⟩
  obtain ⟨d, hd, hwhich⟩ := Tale.latest?_spec hlast
  rw [Bool.and_eq_true, decide_eq_true_eq] at hwhich
  obtain ⟨hfinishes, hat⟩ := hwhich
  rcases Tale.get_append_cases hd with hold | ⟨-, hnew⟩
  · rcases Nat.lt_trichotomy last n with hlt | rfl | hgt
    · exact hlt
    · rw [hn] at hold
      rw [← Option.some.inj hold] at hfinishes
      cases hfinishes
    · exact absurd ⟨hat.1.trans hconfig.symm, hat.2.trans hpath.symm⟩ (hlatest last d hgt hold)
  · -- this run has told nothing of the project
    obtain ⟨i, hi, -, hstatus, hdproject⟩ := h.deeds d hnew
    by_cases hij : i = j
    · rw [hij] at hstatus
      exact absurd hj hstatus
    · exact absurd hat.1
        (hdistinct.not_about hi (h.vouched_of_upToDate hj).1 hij hdproject)

end Progress.Recounted

/-- **No rebuild is lost**: begin with files without records, and let any edits
    and builds follow, none of which forges a record.  If then a build finds
    the project `i` up to date, its latest compile began after the latest
    compile of any project `j` that it depends on had ended, as far as that
    compile left its record where the record of `j` is now.  The record of `j`
    must list an output, and different records must have different stamps. -/
theorem Chronicle.compiled_after {keeps : Prop} {fs : MemoryFs} (hfs : fs.Reachable)
    (hrecords : ∀ q : Path, q.KeepsRecords → fs.recordAt? q = none) {as : List Act}
    (has : ∀ a ∈ as, a.Honest keeps) {c : Chronicle}
    (hc : (⟨fs, []⟩ : Chronicle).acts as = c) (hstamps : c.tale.DistinctStamps)
    {call : BuildCall} (hcall : call.compiler.Reliable keeps) {g : Graph} {report : BuildReport}
    (hg : (c.called call).1 = .ok (g, report)) {i j : Nat}
    (hi : (c.called call).2.statuses.get i = .upToDate) (hdep : g.DependsOn i j)
    {r : BuildRecord} (hr : (BuildRecord.load c.files (g.node j)).value = some r)
    (houtputs : r.outputs.entries ≠ []) :
    ∃ start finish, (c.act (.build call)).tale.lastStart? (g.node i) = some start ∧
      (c.act (.build call)).tale.lastFinishAt? (g.node j) = some finish ∧ finish < start := by
  have htold : Told keeps c.files c.tale :=
    hc ▸ acts_told (.nil hfs.timely hrecords) has
  obtain ⟨hwell, hdistinct, s, hs, hstatuses, hact⟩ := called_recounted htold hcall hg
  rw [hstatuses] at hi
  -- the record of `j` had been taken when the compile of `i` began
  obtain ⟨hj, r', hr', hbefore⟩ := hs.taken_before htold hstamps hdep hi
  obtain rfl := Option.some.inj (hr'.symm.trans hr)
  obtain ⟨-, rᵢ, hvouched⟩ := hs.vouched_of_upToDate hi
  obtain ⟨hfile, hproject⟩ := recordAt?_of_load hvouched.loaded
  obtain ⟨n, p, hn, -, -⟩ := htold.onFile _ rᵢ (g.node i).getLast?_recordPath hfile
  obtain ⟨start, finish, hchapter⟩ := htold.chapters n p rᵢ hn
  obtain ⟨m, p', hm, hcaptured⟩ := hbefore rᵢ n p start finish hvouched.loaded hchapter
  have hhanded : (s.run.taleAfter c.tale g)[start]? = some (.handed p) :=
    Tale.get_append hchapter.handed
  obtain ⟨last, hlast, hle⟩ := Tale.le_lastStart? (p := g.node i)
    hhanded (Tale.get_append hchapter.returned) hchapter.started
    (by rw [← htold.project_eq hn]; exact hproject)
  -- and it was taken only once, so it is the one that the latest compile has left
  obtain ⟨hfile', hproject'⟩ := recordAt?_of_load hr
  obtain ⟨m', p'', hm', hpath, hlatest⟩ := htold.onFile _ r' (g.node j).getLast?_recordPath hfile'
  obtain ⟨start', finish', hchapter'⟩ := htold.chapters m p' r' hcaptured
  obtain ⟨start'', finish'', hchapter''⟩ := htold.chapters m' p'' r' hm'
  have honce : m' = m := hchapter''.unique hchapter' hm' hcaptured houtputs
  obtain ⟨last', hlast', hlt⟩ := hs.lastFinishAt?_lt hdistinct htold hj hm' hpath hlatest hproject'
  rw [hact]
  exact ⟨last, last', hlast, hlast', by omega⟩

end ProjectBuild
