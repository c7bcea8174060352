import ProjectBuild.Proofs.History.Order
import ProjectBuild.Proofs.Run.Idempotence

/-! # Records that are left elsewhere

    A build finds projects up to date if the files that their records are about
    are as a run has left them, whatever has happened in between
    (`Chronicle.called_again`).  A project keeps its record where its outputs
    go.  So the compile of a reference goes unnoticed if its outputs went
    elsewhere: its configuration moved them away and back again.  This is why
    `Chronicle.compiled_after` looks at the compiles that left their record
    where it is now, and at no others.  What a record says about outputs is
    likewise about those that were expected when it was taken
    (`Chronicle.outputs_present`). -/

namespace ProjectBuild

open MemoryFs (Edit)

/-- A file that is no newer than the files were is the one that was there. -/
theorem MemoryFs.Later.file?_eq {fs fs' : MemoryFs} (h : fs.Later fs') {q : Path}
    (hold : (fs'.file? q).any fun f => decide (f.modified.seconds ≤ fs.clock)) :
    fs'.file? q = fs.file? q := by
  obtain ⟨f, hf, hle⟩ := (Option.any_eq_true _ _).mp hold
  rcases h.fresh q f hf with hsame | ⟨n, hn, -, htime⟩
  · rw [hf, hsame]
  · have hle := of_decide_eq_true hle
    rw [htime, Time.seconds_ofEpoch] at hle
    omega

namespace Chronicle

variable {keeps : Prop} {c : Chronicle}

/-- **Whatever is done**, the files are later than before. -/
theorem act_later {a : Act} (ha : a.Honest keeps) : c.files.Later (c.act a).files := by
  cases a with
  | edit e => exact c.files.edit_later e
  | build call =>
      rcases c.act_build_cases call with
        ⟨-, -, -, hact⟩ | ⟨g, -, -, -, hact, site, hsite, -, hrun⟩
      · rw [hact]
        exact MemoryFs.Later.refl _
      · obtain ⟨es, hes, -⟩ := Progress.levels_files call.options (ha.only g) call.schedules
          (Progress.start site g)
        rw [hact, hrun, ← hsite]
        show site.files.Later (Progress.levels g call.options call.compiler
          (Progress.start site g) call.schedules g.levels).run.site.files
        rw [hes]
        exact MemoryFs.edits_later _ es

/-- After any acts, the files are later than before. -/
theorem acts_later {as : List Act} (has : ∀ a ∈ as, a.Honest keeps) :
    c.files.Later (c.acts as).files := by
  induction as generalizing c with
  | nil => exact MemoryFs.Later.refl _
  | cons a rest ih =>
      exact (act_later (has a List.mem_cons_self)).trans
        (ih fun a' ha' => has a' (List.mem_cons_of_mem a ha'))

/-- **A later build has nothing to do** if it finds the same graph, and the
    inputs, outputs and records of its projects are no newer than a build that
    ended well. -/
theorem called_again (hfs : c.files.Reachable) (htold : Told keeps c.files c.tale)
    {call : BuildCall} {as : List Act} (has : ∀ a ∈ .build call :: as, a.Honest keeps)
    {c' : Chronicle} (hc' : c.acts (.build call :: as) = c') {g : Graph}
    (hload : (loadGraph c.files call.roots).value = .ok g) (hrecords : g.DistinctRecords)
    (hdry : call.options.dryRun = false)
    (hwell : ∀ i < g.size,
      g.EndedWell c.files call.compiler i ((c.called call).2.statuses.get i))
    (call' : BuildCall) (hload' : (loadGraph c'.files call'.roots).value = .ok g)
    (hhorizon : c'.files.clock < Time.horizon)
    (hold : ∀ i < g.size, ∀ q ∈ (g.node i).inputs ++ knownOutputs c.files (g.node i) ++
      [(g.node i).recordPath], (c'.files.file? q).any fun f =>
        decide (f.modified.seconds ≤ (c.called call).2.site.files.clock))
    (hcall' : call'.compiler.Reliable keeps) (hforce : call'.options.force = false)
    (hrunning : call'.cancelled = false) (hschedules : ∀ x ∈ call'.schedules, x.Undisturbed) :
    ∃ report, (c'.called call').1 = .ok (g, report) ∧
      (∀ i < g.size, (c'.called call').2.statuses.get i = .upToDate) ∧
      (c'.act (.build call')).tale = c'.tale := by
  have htold' : Told keeps c'.files c'.tale := hc' ▸ acts_told htold has
  have hg := loadGraph_wellFormed hload
  obtain ⟨hdistinct, hloaded⟩ := loadGraph_sound hload
  -- the first run leaves all projects settled
  rcases c.act_build_cases call with
    ⟨e, herror, -⟩ | ⟨g₁, -, hload₁, -, hact, site, hsite, -, hrun⟩
  · exact nomatch herror.symm.trans hload
  obtain rfl := Except.ok.inj (hload₁.symm.trans hload)
  have hlater : (c.called call).2.site.files.Later c'.files := by
    have hrest := acts_later (c := c.act (.build call)) fun a ha =>
      has a (List.mem_cons_of_mem _ ha)
    rw [← hc']
    rw [hact] at hrest
    show MemoryFs.Later _ ((c.act (.build call)).acts as).files
    rw [hact]
    exact hrest
  rw [hrun] at hwell hold hlater
  rw [← hsite] at hloaded hwell hfs hold
  have hsteady := Progress.levels_steady hg hdistinct hrecords hloaded hfs.timely hdry hwell
  -- the other run finds them so
  rcases c'.act_build_cases call' with
    ⟨e, herror, -⟩ | ⟨g₂, report, hload₂, hok, -, site', hsite', hcancelled, hrun'⟩
  · exact nomatch herror.symm.trans hload'
  obtain rfl := Except.ok.inj (hload₂.symm.trans hload')
  rw [← hsite'] at hlater hhorizon hold
  have hidle := Progress.levels_idle call'.options call'.compiler hg hforce
    (hcancelled.trans hrunning) (fun i hi => hsteady.settled_again hg hlater.clock hhorizon
      (fun i hi q hq => hlater.file?_eq (hold i hi q hq)) hi) hschedules
  have hup : ∀ i < g₂.size, (c'.called call').2.statuses.get i = .upToDate := by
    intro i hi
    rw [hrun']
    exact hidle.done i hi (Graph.levelOf_lt_length hi)
  refine ⟨report, hok, hup, ?_⟩
  obtain ⟨-, -, s, hs, hstatuses, hact'⟩ := called_recounted htold' hcall' hok
  have hnone : s.run.deeds g₂ = [] := by
    refine List.eq_nil_iff_forall_not_mem.mpr fun d hd => ?_
    obtain ⟨i, hi, -, hne, -⟩ := hs.deeds d hd
    exact hne (hstatuses ▸ hup i hi)
  rw [hact']
  show c'.tale ++ s.run.deeds g₂ = c'.tale
  rw [hnone, List.append_nil]

end Chronicle

/-! ## Outputs that are moved away and back -/

/-- The configuration of a project that is referenced, with outputs in some
    directory. -/
def coreConfig (outDir : String) : ByteArray :=
  ("\x7b\"compilerOptions\":\x7b\"composite\":true,\"outDir\":\"" ++ outDir ++
    "\"\x7d,\"files\":[\"a.ts\"],\"references\":[]\x7d").toUTF8

def appConfig : ByteArray :=
  ("\x7b\"compilerOptions\":\x7b\"outDir\":\"../oa\"\x7d,\"files\":[\"b.ts\"]," ++
    "\"references\":[\x7b\"path\":\"../core\"\x7d]\x7d").toUTF8

def movingEdits : List Edit :=
  [.write ⟨"/r/core/tsconfig.json"⟩ (coreConfig "../o1"), .write ⟨"/r/core/a.ts"⟩ ByteArray.empty,
    .write ⟨"/r/app/tsconfig.json"⟩ appConfig, .write ⟨"/r/app/b.ts"⟩ ByteArray.empty]

def movingFiles : MemoryFs :=
  MemoryFs.edits {} movingEdits

def plainCall (root : String) : BuildCall where
  compiler := CompileScript.compiler {}
  roots := [⟨root⟩]

/-- Both projects are built; then the outputs of the one that is referenced
    move elsewhere, it is built there, and its outputs move back. -/
def movingActs : List Act :=
  [.build (plainCall "/r/app"), .edit (.write ⟨"/r/core/tsconfig.json"⟩ (coreConfig "../o2")),
    .build (plainCall "/r/core"), .edit (.write ⟨"/r/core/tsconfig.json"⟩ (coreConfig "../o1"))]

def moved : Chronicle :=
  (⟨movingFiles, []⟩ : Chronicle).acts movingActs

/-- The files come about by writing them. -/
theorem movingFiles_reachable : movingFiles.Reachable := by
  refine ⟨movingEdits, ?_⟩
  unfold movingFiles
  exact Eq.refl _

/-- The graph of the projects in these files. -/
def appGraph (fs : MemoryFs) : Graph :=
  (loadGraph fs [⟨"/r/app"⟩]).value.toOption.getD {}

/-- The graph of the two projects is the one that is loaded, unless it is empty. -/
theorem appGraph_loaded {fs : MemoryFs} (h : (appGraph fs).size ≠ 0) :
    (loadGraph fs [⟨"/r/app"⟩]).value = .ok (appGraph fs) := by
  unfold appGraph at h ⊢
  cases hload : (loadGraph fs [⟨"/r/app"⟩]).value with
  | error e =>
      rw [hload] at h
      exact absurd rfl h
  | ok g => rfl

/-- None of the configurations can be taken for a record. -/
theorem coreConfig_ofContent? : BuildRecord.ofContent? (coreConfig "../o1") = none ∧
    BuildRecord.ofContent? (coreConfig "../o2") = none ∧
    BuildRecord.ofContent? appConfig = none := by
  decide +kernel

/-- At first, no record is on file. -/
theorem movingFiles_no_record (q : Path) (hq : q.KeepsRecords) :
    movingFiles.recordAt? q = none := by
  have hhonest : ∀ e ∈ movingEdits, e.Honest := by
    intro e he
    simp only [movingEdits, List.mem_cons, List.not_mem_nil, or_false] at he
    rcases he with rfl | rfl | rfl | rfl
    · exact fun _ => coreConfig_ofContent?.1
    · exact fun _ => BuildRecord.ofContent?_empty
    · exact fun _ => coreConfig_ofContent?.2.2
    · exact fun _ => BuildRecord.ofContent?_empty
  refine Option.eq_none_iff_forall_ne_some.mpr fun r hr => ?_
  have hempty : ({} : MemoryFs).recordAt? q = some r := MemoryFs.recordAt?_edits hhonest hq hr
  exact nomatch hempty

/-- None of the acts forges a record. -/
theorem movingActs_honest : ∀ a ∈ movingActs, a.Honest True := by
  intro a ha
  simp only [movingActs, List.mem_cons, List.not_mem_nil, or_false] at ha
  rcases ha with rfl | rfl | rfl | rfl
  · exact CompileScript.compiler_reliable True rfl
  · exact fun _ => coreConfig_ofContent?.2.1
  · exact CompileScript.compiler_reliable True rfl
  · exact fun _ => coreConfig_ofContent?.1

/-- The first build. -/
def movingBuild : Run MemoryFs :=
  ((⟨movingFiles, []⟩ : Chronicle).called (plainCall "/r/app")).2

/-- The first build has built both projects, and their files lie apart. -/
theorem movingBuild_built : (appGraph movingFiles).DistinctRecords ∧
    (∀ i < 2, movingBuild.statuses.get i = .built) ∧
    (∀ i < 2, ∀ p ∈ ((appGraph movingFiles).node i).expectedOutputs,
      ∀ q ∈ (appGraph movingFiles).foreignFiles movingFiles i ++
        (appGraph movingFiles).recordPaths, p.same q = false) ∧
    ∀ i < 2, ∀ q ∈ (appGraph movingFiles).foreignFiles movingFiles i,
      ((appGraph movingFiles).node i).recordPath.same q = false := by
  unfold Graph.DistinctRecords
  decide +kernel

/-- In the end, the graph is what it was in the beginning, and what the records
    are about is no newer than the first build; but the project that is
    referenced has been compiled since.  No stamp belongs to two records. -/
theorem moved_facts :
    ((appGraph movingFiles).size = 2 ∧
      (appGraph moved.files).nodes = (appGraph movingFiles).nodes ∧
      (appGraph moved.files).edges = (appGraph movingFiles).edges ∧
      (appGraph moved.files).roots = (appGraph movingFiles).roots ∧
      moved.tale.DistinctStamps) ∧
    (moved.files.clock < Time.horizon ∧
      ∀ i < 2, ∀ q ∈ ((appGraph movingFiles).node i).inputs ++
        knownOutputs movingFiles ((appGraph movingFiles).node i) ++
        [((appGraph movingFiles).node i).recordPath],
        (moved.files.file? q).any fun f =>
          decide (f.modified.seconds ≤ movingBuild.site.files.clock)) ∧
    (∀ r ∈ moved.tale.records, r.outputs.entries ≠ []) ∧
      0 ∈ (appGraph movingFiles).dependencies 1 ∧
      moved.tale.lastStart? ((appGraph movingFiles).node 1) = some 3 ∧
      moved.tale.lastFinish? ((appGraph movingFiles).node 0) = some 7 := by
  decide +kernel

/-- In the end the same graph is loaded as in the beginning. -/
theorem moved_graph :
    (appGraph movingFiles).size = 2 ∧ appGraph moved.files = appGraph movingFiles := by
  obtain ⟨⟨hsize, hnodes, hedges, hroots, -⟩, -⟩ := moved_facts
  refine ⟨hsize, ?_⟩
  cases hmoved : appGraph moved.files with
  | mk nodes edges roots =>
      rw [hmoved] at hnodes hedges hroots
      cases hmoving : appGraph movingFiles with
      | mk nodes' edges' roots' =>
          rw [hmoving] at hnodes hedges hroots
          obtain rfl : nodes = nodes' := hnodes
          obtain rfl : edges = edges' := hedges
          obtain rfl : roots = roots' := hroots
          rfl

theorem moved_stamps : moved.tale.DistinctStamps :=
  moved_facts.1.2.2.2.2

/-- Files and tale fit together after the acts. -/
theorem moved_told : Told True moved.files moved.tale :=
  Chronicle.acts_told (c := ⟨movingFiles, []⟩)
    (.nil movingFiles_reachable.timely movingFiles_no_record) movingActs_honest

/-- **The other build finds both up to date.** -/
theorem moved_again : ∃ report,
    (moved.called (plainCall "/r/app")).1 = .ok (appGraph movingFiles, report) ∧
      (∀ i < 2, (moved.called (plainCall "/r/app")).2.statuses.get i = .upToDate) ∧
      (moved.act (.build (plainCall "/r/app"))).tale = moved.tale := by
  obtain ⟨hsize, hgraph⟩ := moved_graph
  obtain ⟨hrecords, hbuilt, houtputs, hrecord⟩ := movingBuild_built
  obtain ⟨hhorizon, hold⟩ := moved_facts.2.1
  have hload : (loadGraph movingFiles [⟨"/r/app"⟩]).value = .ok (appGraph movingFiles) :=
    appGraph_loaded (by rw [hsize]; decide)
  have hload' : (loadGraph moved.files [⟨"/r/app"⟩]).value = .ok (appGraph movingFiles) := by
    rw [← hgraph]
    exact appGraph_loaded (by rw [hgraph, hsize]; decide)
  have hwell : ∀ i < (appGraph movingFiles).size, (appGraph movingFiles).EndedWell movingFiles
      (CompileScript.compiler {}) i (movingBuild.statuses.get i) := by
    intro i hi
    rw [hsize] at hi
    have honly := CompileScript.compiler_only {} (appGraph movingFiles) i
    exact Or.inr ⟨hbuilt i hi, honly.imp fun e he => houtputs i hi e.path he, hrecord i hi,
      CompileScript.compiler_delivers rfl (appGraph movingFiles) i⟩
  have hmoved : (⟨movingFiles, []⟩ : Chronicle).acts movingActs = moved := by
    unfold moved
    exact Eq.refl _
  unfold movingActs at hmoved
  unfold movingBuild at hwell hold
  rw [← hsize] at hold ⊢
  exact Chronicle.called_again (c := ⟨movingFiles, []⟩) movingFiles_reachable
    (.nil movingFiles_reachable.timely movingFiles_no_record) movingActs_honest hmoved hload
    hrecords rfl hwell (plainCall "/r/app") hload' hhorizon hold
    (CompileScript.compiler_reliable True rfl) rfl rfl (fun _ h => nomatch h)

/-- The record of the project that is referenced is found, and lists outputs. -/
theorem moved_record : ∃ r, (BuildRecord.load moved.files ((appGraph movingFiles).node 0)).value
    = some r ∧ r.outputs.entries ≠ [] := by
  obtain ⟨report, hok, hup, -⟩ := moved_again
  obtain ⟨-, -, s, hs, hstatuses, -⟩ :=
    Chronicle.called_recounted moved_told (CompileScript.compiler_reliable True rfl) hok
  obtain ⟨-, r, hvouched⟩ := hs.vouched_of_upToDate (hstatuses ▸ hup 0 (by decide))
  obtain ⟨n, p, hn, -⟩ := moved_told.onFile _ r (Graph.node _ 0).getLast?_recordPath
    (recordAt?_of_load hvouched.loaded).1
  exact ⟨r, hvouched.loaded, moved_facts.2.2.1 r (Tale.mem_records hn)⟩

/-- A project that is up to date has been compiled after the project that it
    references, as far as that project's record is where it was then. -/
theorem Chronicle.compiled_after_moved : ∃ start finish,
    (moved.act (.build (plainCall "/r/app"))).tale.lastStart? ((appGraph movingFiles).node 1)
      = some start ∧
    (moved.act (.build (plainCall "/r/app"))).tale.lastFinishAt? ((appGraph movingFiles).node 0)
      = some finish ∧ finish < start := by
  obtain ⟨report, hok, hup, -⟩ := moved_again
  obtain ⟨r, hr, houtputs⟩ := moved_record
  have hmoved : (⟨movingFiles, []⟩ : Chronicle).acts movingActs = moved := by
    unfold moved
    exact Eq.refl _
  exact compiled_after movingFiles_reachable movingFiles_no_record movingActs_honest hmoved
    moved_stamps (CompileScript.compiler_reliable True rfl) hok (hup 1 (by decide))
    (.single moved_facts.2.2.2.1) hr houtputs

/-- **But it need not have been compiled after the project that it references**:
    the compile that ended last left its record elsewhere. -/
theorem Chronicle.compiled_before_moved :
    movingFiles.Reachable ∧ (∀ q : Path, q.KeepsRecords → movingFiles.recordAt? q = none) ∧
    (∀ a ∈ movingActs, a.Honest True) ∧ (plainCall "/r/app").compiler.Reliable True ∧
    moved.tale.DistinctStamps ∧ (∀ r ∈ moved.tale.records, r.outputs.entries ≠ []) ∧
    ∃ g report, (moved.called (plainCall "/r/app")).1 = .ok (g, report) ∧
      (moved.called (plainCall "/r/app")).2.statuses.get 1 = .upToDate ∧ g.DependsOn 1 0 ∧
      (moved.act (.build (plainCall "/r/app"))).tale.lastStart? (g.node 1) = some 3 ∧
      (moved.act (.build (plainCall "/r/app"))).tale.lastFinish? (g.node 0) = some 7 := by
  obtain ⟨report, hok, hup, htale⟩ := moved_again
  obtain ⟨-, -, houtputs, hdepends, hstart, hfinish⟩ := moved_facts
  refine ⟨movingFiles_reachable, movingFiles_no_record, movingActs_honest,
    CompileScript.compiler_reliable True rfl, moved_stamps, houtputs, _, report, hok,
    hup 1 (by decide), .single hdepends, ?_, ?_⟩
  · rw [htale]
    exact hstart
  · rw [htale]
    exact hfinish

end ProjectBuild

/-! ## The outputs of a project that is up to date

    When a run has built a project, all outputs that are expected of it exist.
    When it has found the project up to date, those exist that were expected
    when the record on file was taken (`Chronicle.outputs_present`).  The
    project may have been loaded differently then, although its configuration
    is the same: what is expected of it also depends on whether another project
    of the graph references it, and no record tells.  Where it was loaded as it is
    now, the outputs are the same (`Project.LoadedFrom.expectedOutputs_congr`), and
    none is missing. -/

namespace ProjectBuild

/-- Outputs that were recorded when all of them existed still exist, if all that
    was recorded does. -/
theorem BuildRecord.present_of_recorded {fs fs' : MemoryFs} {p : Project}
    {references : PathMap String} (h : fs.Present p.expectedOutputs [])
    (hrecorded : ∀ q ∈ (capture fs p references).outputs.keys,
      (FileSystem.modified? fs' q).isSome = true) : fs'.Present p.expectedOutputs [] := by
  intro q hq hdue
  have hget := times_get? fs p.expectedOutputs q
  rw [if_pos ⟨q, hq, rfl⟩] at hget
  obtain ⟨f, hf⟩ := Option.isSome_iff_exists.mp (h q hq hdue)
  rw [MemoryFs.modified?_eq, hf] at hget
  obtain ⟨k, hk, hsame⟩ := PathMap.mem_of_get? hget
  have hexists := hrecorded k (List.mem_map.mpr ⟨_, hk, rfl⟩)
  rw [MemoryFs.modified?_eq, Option.isSome_map, fs'.file?_congr hsame] at hexists
  exact hexists

/-- **Which outputs exist after a run**: begin with files without records, and
    let any edits and builds follow that forge no records, with compiles that
    write all expected outputs and remove nothing.  A project that a run has
    built has all its expected outputs.  A project that a run has found up to
    date has all outputs that were expected of it, with the same configuration,
    when the record on file was taken; and if it was loaded then as it is now, with
    the same settings and inputs and the same flag for declarations, it has all that
    are expected of it now. -/
theorem Chronicle.outputs_present {fs : MemoryFs} (hfs : fs.Reachable)
    (hrecords : ∀ q : Path, q.KeepsRecords → fs.recordAt? q = none) {as : List Act}
    (has : ∀ a ∈ as, a.Honest True) {c : Chronicle} (hc : (⟨fs, []⟩ : Chronicle).acts as = c)
    {call : BuildCall} (hcall : call.compiler.Reliable True) {g : Graph} {report : BuildReport}
    (hg : (c.called call).1 = .ok (g, report)) {i : Nat} (hi : i < g.size) :
    ((c.called call).2.statuses.get i = .built →
      (c.act (.build call)).files.Present (g.node i).expectedOutputs []) ∧
    ((c.called call).2.statuses.get i = .upToDate →
      ∃ (n : Nat) (p : Project) (r : BuildRecord), c.tale[n]? = some (.captured p r) ∧
        (BuildRecord.load c.files (g.node i)).value = some r ∧
        p.configPath.components = (g.node i).configPath.components ∧
        p.configFingerprint = (g.node i).configFingerprint ∧
        (c.act (.build call)).files.Present p.expectedOutputs [] ∧
        (p.config = (g.node i).config → p.inputs = (g.node i).inputs →
          p.declaration = (g.node i).declaration →
            (c.act (.build call)).files.Present (g.node i).expectedOutputs [])) := by
  have htold : Told True c.files c.tale := hc ▸ acts_told (.nil hfs.timely hrecords) has
  obtain ⟨-, -, s, hs, hstatuses, hact⟩ := called_recounted htold hcall hg
  rw [hstatuses, hact]
  refine ⟨hs.built True.intro i hi (Graph.levelOf_lt_length hi), fun hup => ?_⟩
  obtain ⟨-, r, hvouched⟩ := hs.vouched_of_upToDate hup
  obtain ⟨hfile, hproject⟩ := recordAt?_of_load hvouched.loaded
  obtain ⟨n, p, hn, -, -⟩ := htold.onFile _ r (g.node i).getLast?_recordPath hfile
  obtain ⟨start, finish, hchapter⟩ := htold.chapters n p r hn
  obtain ⟨fs', references, rfl, hpresent⟩ := hchapter.capture
  -- the recorded outputs existed when the project was checked, and nothing has removed them
  obtain ⟨run, hown, honward⟩ := hvouched.own
  obtain ⟨hfingerprint, hrecorded⟩ := Staleness.ownReason?_none hown
  have hall := honward.present True.intro
    (BuildRecord.present_of_recorded (hpresent True.intro) hrecorded)
  refine ⟨n, p, _, hn, hvouched.loaded, hproject, hfingerprint, hall, ?_⟩
  intro hconfig hinputs hdeclaration
  obtain ⟨fs₁, hloaded⟩ := htold.loaded _ (List.mem_of_getElem? hn)
  have hnode := (loadGraph_sound (load_of_called hg)).2 i hi
  exact hall.of_same fun q hq => hnode.expectedOutputs_congr hloaded hproject.symm hconfig.symm
    hinputs.symm hdeclaration.symm hq

/-- A project that a build has found up to date has the outputs that were
    expected when it was built. -/
theorem Chronicle.outputs_present_moved : ∃ (n : Nat) (p : Project) (r : BuildRecord),
    moved.tale[n]? = some (.captured p r) ∧
      p.configFingerprint = ((appGraph movingFiles).node 0).configFingerprint ∧
      (moved.act (.build (plainCall "/r/app"))).files.Present p.expectedOutputs [] := by
  obtain ⟨report, hok, hup, -⟩ := moved_again
  have hmoved : (⟨movingFiles, []⟩ : Chronicle).acts movingActs = moved := by
    unfold moved
    exact Eq.refl _
  have hlt : 0 < (appGraph movingFiles).size := moved_graph.1 ▸ Nat.two_pos
  obtain ⟨n, p, r, hn, -, -, hfingerprint, hpresent, -⟩ :=
    (outputs_present movingFiles_reachable movingFiles_no_record movingActs_honest hmoved
      (CompileScript.compiler_reliable True rfl) hok hlt).2 (hup 0 (by decide))
  exact ⟨n, p, r, hn, hfingerprint, hpresent⟩

end ProjectBuild
