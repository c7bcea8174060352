import ProjectBuild.Proofs.Closure.Load
import ProjectBuild.Proofs.History.Chronicle

/-! # What a tale tells

    Files and the tale of the runs over them fit together (`Told`): every
    record that was taken closes a chapter of its own, was based on records
    taken before the chapter began, and lists outputs that are newer than all
    those recorded by then; and the record on file of a project is the one that
    the latest chapter about it, with that record file, has left.

    The steps of the workers of a level keep this up, whatever their order
    (`Stage.telling_step`), and so does everything else that can happen.  The
    proposition `keeps` stands for compiles that remove no files: under it, a
    record lists all the outputs that were expected. -/

namespace ProjectBuild

open MemoryFs (Edit)
open Staleness (recordOf? stampOf? Records)

/-! ## Times of outputs -/

namespace BuildRecord

/-- The recorded outputs were written before the clock went beyond a moment. -/
def OutputsBy (r : BuildRecord) (moment : Nat) : Prop :=
  ∀ entry ∈ r.outputs.entries, ∃ n, n ≤ moment ∧ entry.2 = .ofEpoch n 0

/-- The recorded outputs were written after a moment. -/
def OutputsSince (r : BuildRecord) (moment : Nat) : Prop :=
  ∀ entry ∈ r.outputs.entries, ∃ n, moment < n ∧ entry.2 = .ofEpoch n 0

/-- Outputs of before a moment are of before any later one. -/
theorem OutputsBy.mono {r : BuildRecord} {moment later : Nat} (h : r.OutputsBy moment)
    (hle : moment ≤ later) : r.OutputsBy later := by
  intro entry hentry
  obtain ⟨n, hn, htime⟩ := h entry hentry
  exact ⟨n, Nat.le_trans hn hle, htime⟩

variable {fs : MemoryFs} {p : Project} {references : PathMap String}

/-- A record lists no output that is newer than the clock. -/
theorem capture_outputsBy (hfs : fs.Timely) : (capture fs p references).OutputsBy fs.clock := by
  intro entry hentry
  obtain ⟨f, hf, htime⟩ := Option.map_eq_some_iff.mp (mem_times hentry).2
  obtain ⟨n, hle, hn⟩ := hfs _ f hf
  exact ⟨n, hle, htime.symm.trans hn⟩

/-- A record of delivered outputs lists new ones only. -/
theorem capture_outputsSince {moment : Nat} (h : fs.Delivered moment p.expectedOutputs []) :
    (capture fs p references).OutputsSince moment := by
  intro entry hentry
  obtain ⟨hmem, hmod⟩ := mem_times hentry
  obtain ⟨f, hf, htime⟩ := Option.map_eq_some_iff.mp hmod
  obtain ⟨n, hn, hfn⟩ := h _ hmem List.not_mem_nil f hf
  exact ⟨n, hn, htime.symm.trans hfn⟩

/-- A record with an output cannot be both new and old. -/
theorem OutputsSince.not_by {r : BuildRecord} {moment : Nat} (h : r.OutputsSince moment)
    (hby : r.OutputsBy moment) : r.outputs.entries = [] := by
  refine List.eq_nil_iff_forall_not_mem.mpr fun entry hentry => ?_
  obtain ⟨n, hn, hnew⟩ := h entry hentry
  obtain ⟨m, hm, hold⟩ := hby entry hentry
  have hsame : (Time.ofEpoch n 0).seconds = (Time.ofEpoch m 0).seconds := by
    rw [← hnew, ← hold]
  rw [Time.seconds_ofEpoch, Time.seconds_ofEpoch] at hsame
  omega

end BuildRecord

/-! ## Chapters -/

namespace Tale

/-- **A chapter**: the compile of a project from `start` to `finish`, and the
    record that was taken after it, with nothing else about the project in
    between. -/
structure Chapter (keeps : Prop) (tale : Tale) (p : Project) (r : BuildRecord)
    (start finish taken : Nat) : Prop where
  handed : tale[start]? = some (.handed p)
  returned : tale[finish]? = some (.returned p true)
  started : start < finish
  finished : finish < taken
  alone : ∀ m d, start < m → m < taken → tale[m]? = some d → d.About p → m = finish
  capture : ∃ (fs : MemoryFs) (references : PathMap String),
    r = BuildRecord.capture fs p references ∧ (keeps → fs.Present p.expectedOutputs [])
  /-- The record is based on records that were taken before. -/
  grounded : ∀ path stamp, r.references.get? path = some stamp →
    ∃ m p' r', m < start ∧ tale[m]? = some (.captured p' r') ∧ r'.buildStamp = stamp
  /-- Its outputs are newer than all outputs that had been recorded. -/
  newer : ∃ moment, r.OutputsSince moment ∧ ∀ m p' r', m < start →
    tale[m]? = some (.captured p' r') → r'.OutputsBy moment

/-- A chapter stays one when the tale goes on. -/
theorem Chapter.append {keeps : Prop} {tale : Tale} {p : Project} {r : BuildRecord}
    {start finish taken : Nat} (h : tale.Chapter keeps p r start finish taken)
    (hlt : taken ≤ tale.length) (more : Tale) :
    (tale ++ more).Chapter keeps p r start finish taken := by
  have hstart : start < tale.length := lt_of_get h.handed
  refine ⟨get_append h.handed, get_append h.returned, h.started, h.finished, ?_, h.capture,
    ?_, ?_⟩
  · intro m d hm hm' hd
    rw [get_of_append (Nat.lt_of_lt_of_le hm' hlt)] at hd
    exact h.alone m d hm hm' hd
  · intro path stamp hstamp
    obtain ⟨m, p', r', hm, hcaptured, hr'⟩ := h.grounded path stamp hstamp
    exact ⟨m, p', r', hm, get_append hcaptured, hr'⟩
  · obtain ⟨moment, hnew, hold⟩ := h.newer
    refine ⟨moment, hnew, ?_⟩
    intro m p' r' hm hcaptured
    rw [get_of_append (Nat.lt_trans hm hstart)] at hcaptured
    exact hold m p' r' hm hcaptured

/-- Chapters of one project do not overlap. -/
theorem Chapter.before {keeps : Prop} {tale : Tale} {p : Project} {r : BuildRecord}
    {start finish taken : Nat} (h : tale.Chapter keeps p r start finish taken) {m : Nat} {d : Deed}
    (hm : m < taken) (hd : tale[m]? = some d) (habout : d.About p) (hne : d.starts = false)
    (hne' : d.finishes = false) : m < start := by
  rcases Nat.lt_trichotomy m start with hlt | rfl | hgt
  · exact hlt
  · rw [h.handed] at hd
    rw [← Option.some.inj hd] at hne
    exact nomatch hne
  · have heq := h.alone m d hgt hm hd habout
    rw [heq, h.returned] at hd
    rw [← Option.some.inj hd] at hne'
    exact nomatch hne'

/-- **A record with an output is taken once**: no other chapter about its
    project leaves the same record. -/
theorem Chapter.unique {keeps : Prop} {tale : Tale} {p p' : Project} {r : BuildRecord}
    {start finish taken start' finish' taken' : Nat}
    (h : tale.Chapter keeps p r start finish taken)
    (h' : tale.Chapter keeps p' r start' finish' taken')
    (htaken : tale[taken]? = some (.captured p r))
    (htaken' : tale[taken']? = some (.captured p' r)) (houtputs : r.outputs.entries ≠ []) :
    taken = taken' := by
  -- both records are of the project that they name
  have hproject : p.configPath.components = p'.configPath.components := by
    obtain ⟨fs, references, hr, -⟩ := h.capture
    obtain ⟨fs', references', hr', -⟩ := h'.capture
    have hpath := congrArg BuildRecord.project (hr.symm.trans hr')
    rw [BuildRecord.capture_project, BuildRecord.capture_project] at hpath
    rw [hpath]
  rcases Nat.lt_trichotomy taken taken' with hlt | heq | hgt
  · obtain ⟨moment, hnew, hold⟩ := h'.newer
    exact absurd (hnew.not_by (hold taken p r
      (h'.before hlt htaken hproject rfl rfl) htaken)) houtputs
  · exact heq
  · obtain ⟨moment, hnew, hold⟩ := h.newer
    exact absurd (hnew.not_by (hold taken' p' r
      (h.before hgt htaken' hproject.symm rfl rfl) htaken')) houtputs

end Tale

/-! ## Files and tales -/

/-- **Files fit the tale** of the runs over them. -/
structure Told (keeps : Prop) (fs : MemoryFs) (tale : Tale) : Prop where
  timely : fs.Timely
  loaded : ∀ d ∈ tale, ∃ fs' : MemoryFs, d.project.LoadedFrom fs'
  dated : ∀ (n : Nat) p r, tale[n]? = some (.captured p r) → r.OutputsBy fs.clock
  chapters : ∀ (n : Nat) p r, tale[n]? = some (.captured p r) →
    ∃ start finish, tale.Chapter keeps p r start finish n
  onFile : ∀ q r, q.KeepsRecords → fs.recordAt? q = some r → ∃ (n : Nat) (p : Project),
    tale[n]? = some (.captured p r) ∧ p.recordPath.components = q.components ∧
      ∀ m d, n < m → tale[m]? = some d → ¬ d.At p

namespace Told

variable {keeps : Prop} {fs : MemoryFs} {tale : Tale}

/-- At first there are no records, and there is nothing to tell. -/
theorem nil (hfs : fs.Timely) (hrecords : ∀ q : Path, q.KeepsRecords → fs.recordAt? q = none) :
    Told keeps fs [] := by
  refine ⟨hfs, fun d hd => (nomatch hd), fun n p r h => (nomatch h),
    fun n p r h => (nomatch h), ?_⟩
  intro q r hq hr
  rw [hrecords q hq] at hr
  exact nomatch hr

/-- A captured record names its project. -/
theorem project_eq (h : Told keeps fs tale) {n : Nat} {p : Project} {r : BuildRecord}
    (hn : tale[n]? = some (.captured p r)) : r.project = p.configPath := by
  obtain ⟨start, finish, hchapter⟩ := h.chapters n p r hn
  obtain ⟨fs', references, hr, -⟩ := hchapter.capture
  rw [hr]
  exact BuildRecord.capture_project

/-- Honest edits do not make the tale false. -/
theorem edits (h : Told keeps fs tale) {es : List Edit} (hes : ∀ e ∈ es, e.Honest) :
    Told keeps (fs.edits es) tale := by
  have hlater := fs.edits_later es
  refine ⟨hlater.timely h.timely, h.loaded,
    fun n p r hn => (h.dated n p r hn).mono hlater.clock, h.chapters, ?_⟩
  intro q r hq hr
  exact h.onFile q r hq (MemoryFs.recordAt?_edits hes hq hr)

/-- While a project is being built, it has no record on file. -/
theorem absent (h : Told keeps fs tale) {p : Project} {start : Nat}
    (hstart : tale[start]? = some (.handed p))
    (hsince : ∀ m p' r, start < m → tale[m]? = some (.captured p' r) →
      ¬ (Deed.captured p' r).About p) {q : Path} {r : BuildRecord}
    (hq : q.KeepsRecords) (hr : fs.recordAt? q = some r)
    (hpath : q.components = p.recordPath.components) :
    r.project.components ≠ p.configPath.components := by
  intro hproject
  obtain ⟨n, p', hn, hpath', hlatest⟩ := h.onFile q r hq hr
  have hp' : p'.configPath.components = p.configPath.components := by
    rw [← h.project_eq hn]
    exact hproject
  rcases Nat.lt_trichotomy n start with hlt | rfl | hgt
  · exact hlatest start _ hlt hstart ⟨hp'.symm, hpath.symm.trans hpath'.symm⟩
  · rw [hstart] at hn
    exact nomatch hn
  · exact hsince n p' r hgt hn hp'

/-- The tale goes on with a deed about a project that has no record on file. -/
theorem tell (h : Told keeps fs tale) {d : Deed}
    (hloaded : ∃ fs' : MemoryFs, d.project.LoadedFrom fs')
    (habsent : ∀ q r, q.KeepsRecords → fs.recordAt? q = some r →
      q.components = d.project.recordPath.components →
      r.project.components ≠ d.project.configPath.components)
    (hcaptured : ∀ p r, d = .captured p r → r.OutputsBy fs.clock ∧
      ∃ start finish, (tale ++ [d]).Chapter keeps p r start finish tale.length) :
    Told keeps fs (tale ++ [d]) := by
  constructor
  case timely => exact h.timely
  case loaded =>
    intro d' hd'
    rcases List.mem_append.mp hd' with hd' | hd'
    · exact h.loaded d' hd'
    · rw [List.mem_singleton.mp hd']
      exact hloaded
  case dated =>
    intro n p r hn
    rcases Tale.get_append_cases hn with hn | ⟨-, hmem⟩
    · exact h.dated n p r hn
    · exact (hcaptured p r (List.mem_singleton.mp hmem).symm).1
  case chapters =>
    intro n p r hn
    rcases Tale.get_append_cases hn with hold | ⟨hle, hmem⟩
    · obtain ⟨start, finish, hchapter⟩ := h.chapters n p r hold
      exact ⟨start, finish, hchapter.append (Nat.le_of_lt (Tale.lt_of_get hold)) [d]⟩
    · rw [Nat.le_antisymm (Tale.le_of_get_concat hn) hle]
      exact (hcaptured p r (List.mem_singleton.mp hmem).symm).2
  case onFile =>
    intro q r hq hr
    obtain ⟨n, p, hn, hpath, hlatest⟩ := h.onFile q r hq hr
    refine ⟨n, p, Tale.get_append hn, hpath, ?_⟩
    intro m d' hm hd' hat
    rcases Tale.get_append_cases hd' with hd' | ⟨-, hmem⟩
    · exact hlatest m d' hm hd' hat
    · rw [List.mem_singleton.mp hmem] at hat
      refine habsent q r hq hr (hpath.symm.trans hat.2.symm) ?_
      rw [h.project_eq hn]
      exact hat.1.symm

/-- A record goes on file after it was taken, before anything else is told of
    its project. -/
theorem save (h : Told keeps fs tale) {p : Project} {r : BuildRecord} {n : Nat}
    (hn : tale[n]? = some (.captured p r))
    (hlatest : ∀ m d, n < m → tale[m]? = some d → ¬ d.About p) (hcanonical : r.Canonical)
    (hversion : r.version = BuildRecord.currentVersion) :
    Told keeps (fs.put p.recordPath r.printer.text.toUTF8) tale := by
  have hlater := fs.put_later p.recordPath r.printer.text.toUTF8
  refine ⟨hlater.timely h.timely, h.loaded,
    fun n p r hn => (h.dated n p r hn).mono hlater.clock, h.chapters, ?_⟩
  intro q r' hq hr'
  rw [MemoryFs.recordAt?_put] at hr'
  by_cases hpath : p.recordPath.components = q.components
  · rw [if_pos hpath] at hr'
    rw [BuildRecord.ofContent?_written hcanonical hversion hr']
    exact ⟨n, p, hn, hpath, fun m d hm hd hat => hlatest m d hm hd hat.1⟩
  · rw [if_neg hpath] at hr'
    exact h.onFile q r' hq hr'

end Told

end ProjectBuild
