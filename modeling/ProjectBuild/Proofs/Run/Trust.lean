import ProjectBuild.Proofs.Closure.Load
import ProjectBuild.Proofs.FileSystem.Faults
import ProjectBuild.Proofs.Run.Precedence

/-! # Records that can be trusted

    A record that can be read at any moment of a run is either from before the
    run, and its project has not been given to the compiler, or it was taken
    after the project's compile had succeeded (`Run.Accounts`).  So a project
    reads as never built from the beginning of its compile on until that has
    succeeded, whenever the run breaks off (`Progress.moment_accounts`).

    Several projects may share a record file.  A record written by one of them
    is none of another, since it names its project; but writing it, or
    removing it, takes the other's record away.  Nothing is asked of the files
    but that no text comes up that has not been written
    (`FileSystem.Faithful`). -/

namespace ProjectBuild

/-! ## Records on file -/

namespace BuildRecord

variable {σ : Type} [FileSystem σ]

/-- What every record is like that was taken of a project. -/
structure Authentic (p : Project) (r : BuildRecord) : Prop where
  version : r.version = currentVersion
  project : r.project = p.configPath
  inputs : r.inputs.Sorted
  outputs : r.outputs.Sorted
  references : r.references.Sorted

/-- A captured record is authentic. -/
theorem capture_authentic (fs : σ) (p : Project) {references : PathMap String}
    (h : references.Sorted) : (capture fs p references).Authentic p :=
  ⟨rfl, rfl, times_sorted fs _, times_sorted fs _, h⟩

/-- **A record on file is that of its own project only**: its text reads as no
    other record, and as a record of no other project. -/
theorem Authentic.interpret {p q : Project} {r r' : BuildRecord} {text : String}
    (h : r.Authentic p) (htext : r.toText = .ok text) (hread : interpret q text = .ok r') :
    r' = r ∧ p.configPath.components = q.configPath.components := by
  have hwritable : r.isWritable = true ∧ text = r.printer.text := by
    unfold toText at htext
    by_cases hwritable : r.isWritable = true
    · rw [if_pos hwritable] at htext
      exact ⟨hwritable, (Except.ok.inj htext).symm⟩
    · rw [if_neg hwritable] at htext
      exact nomatch htext
  obtain ⟨hwritable, rfl⟩ := hwritable
  have hcanonical : r.Canonical := by
    refine ⟨h.inputs, h.outputs, h.references, fun entry hentry => ?_⟩
    exact of_decide_eq_true (List.all_eq_true.mp hwritable entry hentry)
  have hbound : r.version < Nat.pow 2 32 := by
    rw [h.version]
    decide
  obtain ⟨hread, hrefusal⟩ := interpret_eq_ok.mp hread
  rcases ofText_printer hcanonical hbound with hown | ⟨-, mistake, hbad⟩
  · refine ⟨Except.ok.inj (hread.symm.trans hown), ?_⟩
    obtain rfl := Except.ok.inj (hread.symm.trans hown)
    rw [← h.project]
    exact (refusal?_eq_none.mp hrefusal).2
  · exact nomatch hread.symm.trans hbad

end BuildRecord

variable {σ : Type} [FileSystem σ]

/-- A job that brings up no text at any of the paths; it may remove what is
    there. -/
def Job.Spares (paths : List Path) : Job σ → Prop
  | .done _ => True
  | .step effect next => ∀ s,
    (∀ p ∈ paths, ∀ text, FileSystem.Holds (effect s).files p text →
      FileSystem.Holds s.files p text) ∧ (next s).Spares paths

/-! ## Accounts of records -/

namespace Run

/-- Where a record that can be read comes from: it was there before the run,
    and its project has not been given to the compiler; or it was taken after
    the compile had succeeded. -/
def Accounts (g : Graph) (before : σ) (run : Run σ) (i : Nat) (r : BuildRecord) : Prop :=
  Entry.handed i ∉ run.journal ∧ (BuildRecord.load before (g.node i)).value = some r ∨
    ∃ front back, run.journal = front ++ .captured i r :: back ∧ Entry.returned i true ∈ front

/-- All records that can be read are accounted for. -/
def Accounted (g : Graph) (before : σ) (run : Run σ) : Prop :=
  ∀ i < g.size, ∀ r, (BuildRecord.load run.site.files (g.node i)).value = some r →
    run.Accounts g before i r

variable {g : Graph} {before : σ} {run run' : Run σ} (entries : List Entry)

/-- An account stays one while its project is not handed over again. -/
theorem Accounts.mono {i : Nat} {r : BuildRecord} (h : run.Accounts g before i r)
    (hjournal : run'.journal = run.journal ++ entries) (hentries : Entry.handed i ∉ entries) :
    run'.Accounts g before i r := by
  rcases h with ⟨hhanded, hbefore⟩ | ⟨front, back, hsplit, hreturned⟩
  · refine Or.inl ⟨fun hmem => ?_, hbefore⟩
    rw [hjournal] at hmem
    exact (List.mem_append.mp hmem).elim hhanded hentries
  · refine Or.inr ⟨front, back ++ entries, ?_, hreturned⟩
    rw [hjournal, hsplit, List.append_assoc]
    rfl

/-- Where no text comes up and no project is given to the compiler, records
    stay accounted for. -/
theorem Accounted.mono (h : run.Accounted g before)
    (hjournal : run'.journal = run.journal ++ entries)
    (hentries : ∀ j, Entry.handed j ∉ entries)
    (hfiles : ∀ p ∈ g.recordPaths, ∀ text, FileSystem.Holds run'.site.files p text →
      FileSystem.Holds run.site.files p text) : run'.Accounted g before := by
  intro i hi r hload
  obtain ⟨text, hholds, hread⟩ := BuildRecord.load_eq_some.mp hload
  have hload' := BuildRecord.load_eq_some.mpr
    ⟨text, hfiles _ (Graph.mem_recordPaths hi) text hholds, hread⟩
  exact (h i hi r hload').mono entries hjournal (hentries i)

/-- Likewise where the files are as they were. -/
theorem Accounted.quiet (h : run.Accounted g before)
    (hjournal : run'.journal = run.journal ++ entries)
    (hentries : ∀ j, Entry.handed j ∉ entries) (hfiles : run'.site.files = run.site.files) :
    run'.Accounted g before :=
  h.mono entries hjournal hentries fun _ _ _ hholds => hfiles ▸ hholds

end Run

namespace Stage

/-- What goes with a stage of a worker: a compile writes no records; when it
    has succeeded, that is on the journal; and so is, after it, the record that
    was taken. -/
def Backed (g : Graph) (i : Nat) : Stage σ → Run σ → Prop
  | compiling job, _ => job.Spares g.recordPaths
  | returned, run => Entry.returned i true ∈ run.journal
  | recorded r, run => r.Authentic (g.node i) ∧ ∃ front back,
    run.journal = front ++ .captured i r :: back ∧ Entry.returned i true ∈ front
  | _, _ => True

/-- What backs a worker stays while the journal grows. -/
theorem Backed.mono {g : Graph} {i : Nat} {stage : Stage σ} {run run' : Run σ}
    {entries : List Entry} (h : stage.Backed g i run)
    (hjournal : run'.journal = run.journal ++ entries) : stage.Backed g i run' := by
  cases stage with
  | compiling job => exact h
  | returned =>
      show Entry.returned i true ∈ run'.journal
      rw [hjournal]
      exact List.mem_append_left _ h
  | recorded r =>
      obtain ⟨hauthentic, front, back, hsplit, hreturned⟩ := h
      refine ⟨hauthentic, front, back ++ entries, ?_, hreturned⟩
      rw [hjournal, hsplit, List.append_assoc]
      rfl
  | waiting => exact True.intro
  | started => exact True.intro
  | closing result => exact True.intro
  | finished r => exact True.intro

variable [FileSystem.Faithful σ]

/-- **A step of a worker keeps records accounted for.** -/
theorem step_accounted (w : Workplace σ) (hg : w.graph.Distinct) {before : σ} {i : Nat}
    (hi : i < w.graph.size)
    (hcompiler : (w.compiler w.graph i).Spares w.graph.recordPaths) (stage : Stage σ)
    (run : Run σ) (h : run.Accounted w.graph before) (hstage : stage.Backed w.graph i run) :
    (stage.step w i run).2.Accounted w.graph before ∧
      (stage.step w i run).1.Backed w.graph i (stage.step w i run).2 := by
  obtain ⟨entries, hmove⟩ := step_moves w i stage run
  generalize stage.step w i run = next at hmove ⊢
  have hjournal := hmove.journal
  have hkept : ∀ {result files},
      BuildRecord.invalidate run.site.files (w.graph.node i) = (result, files) →
        ∀ q text, FileSystem.Holds files q text → FileSystem.Holds run.site.files q text := by
    intro result files hremoved
    rw [BuildRecord.invalidate_files hremoved]
    exact FileSystem.Faithful.remove_holds run.site.files (w.graph.node i).recordPath
  cases hmove with
  | skipped => exact ⟨h.quiet _ hjournal (by simp) rfl, True.intro⟩
  | entered => exact ⟨h.quiet _ hjournal (by simp) rfl, True.intro⟩
  | kept hremoved =>
      exact ⟨h.mono _ hjournal (by simp) fun q _ => hkept hremoved q, True.intro⟩
  | handed hremoved =>
      refine ⟨fun j hj r hload => ?_, hcompiler⟩
      obtain ⟨text, hholds, hread⟩ := BuildRecord.load_eq_some.mp hload
      by_cases hij : j = i
      · -- the project's own record is gone
        subst hij
        exact absurd (BuildRecord.invalidate_files hremoved ▸ hholds)
          (FileSystem.Faithful.remove_gone run.site.files _ _ text
            (BuildRecord.invalidate_ok hremoved))
      · have hload' := BuildRecord.load_eq_some.mpr ⟨text, hkept hremoved _ text hholds, hread⟩
        exact (h j hj r hload').mono _ hjournal (by simpa using hij)
  | worked effect next =>
      obtain ⟨hspares, hnext⟩ := hstage run.site
      exact ⟨h.mono _ hjournal (by simp) hspares, hnext⟩
  | succeeded messages =>
      exact ⟨h.quiet _ hjournal (by simp) rfl, List.mem_append_right _ List.mem_cons_self⟩
  | failed e => exact ⟨h.quiet _ hjournal (by simp) rfl, True.intro⟩
  | captured hcaptured =>
      refine ⟨h.quiet _ hjournal (by simp) rfl, ?_, run.journal, [], rfl, hstage⟩
      rw [hcaptured]
      exact BuildRecord.capture_authentic _ _ (PathMap.sorted_ofList _)
  | @saved r result files hsaved =>
      obtain ⟨hauthentic, hback⟩ := hstage
      refine ⟨fun j hj r' hload => ?_, True.intro⟩
      show run.Accounts w.graph before j r'
      obtain ⟨text, hholds, hread⟩ := BuildRecord.load_eq_some.mp hload
      -- a record is there that was there before, or it is the one just written
      have hcases : FileSystem.Holds run.site.files (w.graph.node j).recordPath text ∨
          r.toText = .ok text := by
        rcases BuildRecord.save_cases hsaved with ⟨-, -, rfl⟩ | ⟨written, htext, rfl, -⟩
        · exact Or.inl hholds
        · refine (FileSystem.Faithful.replace_holds _ _ _ written text hholds).imp id ?_
          exact fun heq => htext.trans (congrArg _ heq.symm)
      rcases hcases with hholds | htext
      · exact h j hj r' (BuildRecord.load_eq_some.mpr ⟨text, hholds, hread⟩)
      · obtain ⟨rfl, hsame⟩ := hauthentic.interpret htext hread
        -- the record names its project, and no other has the same configuration
        have hij : i = j := by
          by_contra hne
          exact hg i hi j hj hne hsame
        subst hij
        exact Or.inr hback
  | closed result => exact ⟨h.quiet _ hjournal (by simp) (explain_files _ _ _), True.intro⟩
  | rested record => exact ⟨h, True.intro⟩

end Stage

namespace Crew

variable [FileSystem.Faithful σ]

section
variable (w : Workplace σ) (hg : w.graph.Distinct) {before : σ} {stale : List Nat}
  (hnodup : stale.Nodup) (hlt : ∀ i ∈ stale, i < w.graph.size)
  (hcompiler : ∀ i < w.graph.size, (w.compiler w.graph i).Spares w.graph.recordPaths)
  (turns : List Turn) {run : Run σ} (h : run.Accounted w.graph before)
include hg hnodup hlt hcompiler h

/-- **Any turns of a crew keep records accounted for.** -/
theorem interleave_accounted :
    (interleave w (stale.map fun i => { index := i }) run turns).2.Accounted w.graph before := by
  have hsound := interleave_local w turns hnodup (G := fun run => run.Accounted w.graph before)
    (I := fun i stage run => stage.Backed w.graph i run)
    (fun i hi stage run hG hI =>
      Stage.step_accounted w hg (hlt i hi) (hcompiler i (hlt i hi)) stage run hG hI)
    (fun i _ j _ _ stage other run _ _ hI => by
      obtain ⟨entries, hjournal, -⟩ := Stage.step_journal w i stage run
      exact hI.mono hjournal)
    (fun _ run hG => ⟨hG, fun i stage hI =>
      hI.mono (show run.cancel.journal = run.journal ++ [] from (List.append_nil _).symm)⟩)
    (sound_waiting h fun _ _ => True.intro)
  exact hsound.2.1

/-- **A crew's work is accounted for.** -/
theorem work_accounted : (work w stale turns run).2.Accounted w.graph before := by
  rw [work_eq_interleave]
  exact interleave_accounted w hg hnodup hlt hcompiler _ h

end

end Crew

/-! ## Runs -/

namespace Progress

variable {g : Graph} {options : BuildOptions} {compiler : Compiler σ} {site : Site σ}

/-- Before its first turn, a run has touched no files. -/
theorem moment_zero_files {files : σ} {cancelled : Bool} {notes : List Note}
    {schedules : List LevelSchedule} (hturns : (schedules.getD 0 {}).turns = []) :
    (moment g options compiler ⟨files, cancelled, notes⟩ schedules 0).progress.run.site.files
      = files := by
  rw [moment_run, hturns]
  exact decideEach_files g options _ _ _

/-- Decisions give no project to the compiler, either. -/
theorem decideEach_accounted (options : BuildOptions) {before : σ} {s : Progress σ}
    (h : s.run.Accounted g before) (interruptions : List Bool) (level : List Nat) :
    (decideEach g options s interruptions level).run.Accounted g before := by
  refine decideEach_induct g options s interruptions level
    (P := fun _ s => s.run.Accounted g before) ?_ ?_ h
  · exact fun _ _ s h => h
  · intro _ i _ s _ h
    obtain ⟨entries, hjournal, hannounce⟩ := decide_journal g options s i
    refine h.quiet entries hjournal (fun j hj => hannounce _ hj) ?_
    rw [decide_site]

variable [FileSystem.Faithful σ] (hg : g.Distinct)
  (hcompiler : ∀ i < g.size, (compiler g i).Spares g.recordPaths)
include hg hcompiler

/-- **A level is accounted for** once it is built. -/
theorem level_accounted {before : σ} {n : Nat} (hn : n < g.levels.length)
    (schedule : LevelSchedule) {s : Progress σ} (h : s.run.Accounted g before) :
    (level g options compiler schedule s g.levels[n]).run.Accounted g before := by
  have hdecided := decideEach_accounted options h schedule.interruptions g.levels[n]
  by_cases hdry : options.dryRun = true
  · have hlevel : level g options compiler schedule s g.levels[n]
        = decideEach g options s schedule.interruptions g.levels[n] := if_pos hdry
    rw [hlevel]
    exact hdecided
  · rw [level_eq (Bool.not_eq_true _ ▸ hdry), build_run]
    refine Crew.work_accounted ⟨g, compiler, _⟩ hg
      (stale_nodup (Graph.levels_getElem_nodup hn) _) ?_ hcompiler _ hdecided
    exact fun i hi => ((Graph.mem_levels_getElem hn).mp (mem_stale.mp hi).1).1

/-- **Every run is accounted for**, up to any of its levels. -/
theorem reach_accounted (schedules : List LevelSchedule) (n : Nat) :
    (reach g options compiler site schedules n).run.Accounted g site.files := by
  have hstart : (start site g).run.Accounted g site.files :=
    fun i _ r hload => Or.inl ⟨(fun h => nomatch h), hload⟩
  have hle : ∀ n ≤ g.levels.length,
      (reach g options compiler site schedules n).run.Accounted g site.files := fun n hn =>
    reach_induct g options compiler site schedules n
      (P := fun _ s => s.run.Accounted g site.files)
      (fun k hk schedule s h => level_accounted hg hcompiler hk schedule h) hstart hn
  rcases Nat.le_total n g.levels.length with hn | hn
  · exact hle n hn
  · rw [reach_of_le g options compiler site schedules n hn,
      ← reach_of_le g options compiler site schedules _ (Nat.le_refl _)]
    exact hle _ (Nat.le_refl _)

omit hg hcompiler in
/-- **No record is trusted that should not be.**  Whenever a run over a loaded
    graph breaks off, a project's record that can be read is the one from
    before the run, and the project has not been given to the compiler; or it
    was taken after the project's compile had succeeded.  So a project that was
    given to the compiler reads as never built unless that has succeeded. -/
theorem moment_accounts {τ : Type} [FileSystem τ] {fs : τ} {roots : List Path}
    (hload : (loadGraph fs roots).value = .ok g) (options : BuildOptions)
    (hcompiler : ∀ i < g.size, (compiler g i).Spares g.recordPaths) (site : Site σ)
    (schedules : List LevelSchedule) (n : Nat) {i : Nat} (hi : i < g.size) :
    let run := (moment g options compiler site schedules n).progress.run
    (∀ r, (BuildRecord.load run.site.files (g.node i)).value = some r →
      run.Accounts g site.files i r) ∧
    (Entry.handed i ∈ run.journal → Entry.returned i true ∉ run.journal →
      (BuildRecord.load run.site.files (g.node i)).value = none) := by
  obtain ⟨hg, -⟩ := loadGraph_sound hload
  have hreach : (reach g options compiler site schedules n).run.Accounted g site.files :=
    reach_accounted hg hcompiler schedules n
  have hopening := decideEach_accounted options hreach
    (schedules.getD n {}).interruptions (g.levels.getD n [])
  have hlt : ∀ j ∈ crewOf g options (opening g options compiler site schedules n) n,
      j < g.size := fun j hj => (Graph.mem_levels_getD (mem_crewOf g options n hj).2.1).2.1
  have hmoment : (moment g options compiler site schedules n).progress.run.Accounted g
      site.files := by
    rw [moment_run]
    exact Crew.interleave_accounted ⟨g, compiler, _⟩ hg (crewOf_nodup g options n _) hlt
      hcompiler _ hopening
  refine ⟨hmoment i hi, fun hhanded hreturned => ?_⟩
  cases hrecord : (BuildRecord.load (moment g options compiler site schedules n
      ).progress.run.site.files (g.node i)).value with
  | none => rfl
  | some r =>
      rcases hmoment i hi r hrecord with ⟨hnot, -⟩ | ⟨front, back, hsplit, hmem⟩
      · exact absurd hhanded hnot
      · refine absurd ?_ hreturned
        rw [hsplit]
        exact List.mem_append_left _ hmem

end Progress

/-! ## Two projects -/

/-- A job that edits none of some files spares them. -/
theorem Job.Only.spares {paths : List Path} {job : Job MemoryFs}
    (h : job.Only fun e => ∀ q ∈ paths, e.path.same q = false) : job.Spares paths := by
  induction job with
  | done result => exact True.intro
  | step effect next ih =>
      intro s
      obtain ⟨⟨es, hes, hok⟩, hnext⟩ := h s
      refine ⟨fun q hq text hholds => ?_, ih s hnext⟩
      obtain ⟨file, hfile, htext⟩ := MemoryFs.holds_iff.mp hholds
      rw [hes, MemoryFs.file?_edits_ne s.files fun e he =>
        Path.same_eq_false_iff.mp (hok e he q hq)] at hfile
      exact MemoryFs.holds_iff.mpr ⟨file, hfile, htext⟩

/-- The record of the first project, as if it had been built. -/
def pairRecord : BuildRecord :=
  BuildRecord.capture pairFiles (pairGraph.node 0) {}

/-- The files of two projects, of which the first has a record. -/
def recordedFiles : MemoryFs :=
  pairFiles.put (pairGraph.node 0).recordPath pairRecord.printer.text.toUTF8

theorem load_recordedFiles :
    (BuildRecord.load recordedFiles (pairGraph.node 0)).value = some pairRecord := by
  have hclock : pairFiles.clock < Time.horizon := by decide +kernel
  unfold recordedFiles pairRecord
  exact BuildRecord.load_written (MemoryFs.ofTexts_reachable _).timely hclock
    PathMap.sorted_empty

/-- A run over two projects whose first crew has taken some turns. -/
def pairRun (files : MemoryFs) (turns : List Turn) : Run MemoryFs :=
  (Progress.moment pairGraph {} (CompileScript.compiler {}) ⟨files, false, []⟩
    [{ turns := turns }] 0).progress.run

/-- A record from before the run is there when the run begins, and none is
    while the project compiles. -/
theorem Progress.moment_accounts_pair :
    (pairRun recordedFiles []).Accounts pairGraph recordedFiles 0 pairRecord ∧
      Entry.handed 0 ∈ (pairRun pairFiles [.worker 0, .worker 0]).journal ∧
      (BuildRecord.load (pairRun pairFiles [.worker 0, .worker 0]).site.files
        (pairGraph.node 0)).value = none := by
  have hsize : pairGraph.size = 2 := by decide +kernel
  have houtputs : ∀ i < 2, ∀ p ∈ (pairGraph.node i).expectedOutputs,
      ∀ q ∈ pairGraph.recordPaths, p.same q = false := by decide +kernel
  have hcompiler : ∀ i < pairGraph.size,
      (CompileScript.compiler (σ := MemoryFs) {} pairGraph i).Spares pairGraph.recordPaths := by
    intro i hi
    rw [hsize] at hi
    refine Job.Only.spares ((CompileScript.compiler_only {} pairGraph i).imp fun e he => ?_)
    exact houtputs i hi e.path he
  have hlt : 0 < pairGraph.size := by
    rw [hsize]
    decide
  have hall : ∀ files turns,
      (∀ r, (BuildRecord.load (pairRun files turns).site.files (pairGraph.node 0)).value = some r →
        (pairRun files turns).Accounts pairGraph files 0 r) ∧
      (Entry.handed 0 ∈ (pairRun files turns).journal →
        Entry.returned 0 true ∉ (pairRun files turns).journal →
        (BuildRecord.load (pairRun files turns).site.files (pairGraph.node 0)).value = none) := by
    intro files turns
    unfold pairRun
    exact moment_accounts (σ := MemoryFs) pairGraph_loaded {} hcompiler ⟨files, false, []⟩
      [{ turns := turns }] 0 hlt
  have hbegun : ∀ files, (pairRun files []).site.files = files := by
    intro files
    unfold pairRun
    exact moment_zero_files rfl
  have hjournal : Entry.handed 0 ∈ (pairRun pairFiles [.worker 0, .worker 0]).journal ∧
      Entry.returned 0 true ∉ (pairRun pairFiles [.worker 0, .worker 0]).journal := by
    decide +kernel
  exact ⟨(hall recordedFiles []).1 pairRecord ((hbegun recordedFiles).symm ▸ load_recordedFiles),
    hjournal.1, (hall pairFiles _).2 hjournal.1 hjournal.2⟩

end ProjectBuild
