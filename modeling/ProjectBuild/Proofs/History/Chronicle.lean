import ProjectBuild.Proofs.Project
import ProjectBuild.Proofs.Run.Footprint

/-! # Tales and chronicles

    What runs did to projects, told in order: a project was given to the
    compiler, its compile ended, the record of its build was taken.  A deed
    names the project as the graph of its run had it, so the same project may
    appear in a tale with different inputs, outputs and record files.  A
    successful build is a *chapter* of the tale: three deeds about the project
    with none about it in between (`Tale.Chapter`).

    A chronicle is files in memory and the tale of all runs over them.  It goes
    on by edits and by builds, in any order (`Chronicle.act`).  Nobody forges a
    record: neither an edit nor a compile puts the text of a record where a
    project keeps its record (`MemoryFs.Edit.Honest`).  So every record on file
    was put there by a run. -/

namespace ProjectBuild

open MemoryFs (Edit)

/-! ## Deeds -/

/-- Something that a run did to a project. -/
inductive Deed where
  | handed (p : Project)
  | returned (p : Project) (success : Bool)
  | captured (p : Project) (record : BuildRecord)
  deriving DecidableEq, Repr

namespace Deed

def project : Deed → Project
  | handed p => p
  | returned p _ => p
  | captured p _ => p

/-- The deed concerns the project with this configuration. -/
def About (d : Deed) (p : Project) : Prop :=
  d.project.configPath.components = p.configPath.components

/-- The deed concerns this project with its record kept in the same file. -/
def At (d : Deed) (p : Project) : Prop :=
  d.About p ∧ d.project.recordPath.components = p.recordPath.components

/-- A compile begins. -/
def starts : Deed → Bool
  | handed _ => true
  | _ => false

/-- A compile ends successfully. -/
def finishes : Deed → Bool
  | returned _ success => success
  | _ => false

instance (d : Deed) (p : Project) : Decidable (d.About p) :=
  inferInstanceAs (Decidable (_ = _))

instance (d : Deed) (p : Project) : Decidable (d.At p) :=
  inferInstanceAs (Decidable (_ ∧ _))

end Deed

/-- The deed that an entry of a run's journal stands for. -/
def Entry.deed? (g : Graph) : Entry → Option Deed
  | .handed i => some (.handed (g.node i))
  | .returned i success => some (.returned (g.node i) success)
  | .captured i record => some (.captured (g.node i) record)
  | _ => none

/-- Deeds in the order in which they were done. -/
abbrev Tale := List Deed

/-- The deeds of a run. -/
def Run.deeds {σ : Type} (g : Graph) (run : Run σ) : Tale :=
  run.journal.filterMap (Entry.deed? g)

/-! ## Positions in a tale -/

namespace Tale

/-- A tale goes on without changing. -/
theorem get_append {tale more : Tale} {n : Nat} {d : Deed} (h : tale[n]? = some d) :
    (tale ++ more)[n]? = some d := by
  rw [List.getElem?_append_left (List.getElem?_eq_some_iff.mp h).1]
  exact h

/-- What has been told does not change when the tale goes on. -/
theorem get_of_append {tale more : Tale} {n : Nat} (hn : n < tale.length) :
    (tale ++ more)[n]? = tale[n]? :=
  List.getElem?_append_left hn

/-- A deed that is told has its place in the tale. -/
theorem lt_of_get {tale : Tale} {n : Nat} {d : Deed} (h : tale[n]? = some d) :
    n < tale.length :=
  (List.getElem?_eq_some_iff.mp h).1

/-- The last deed is the latest. -/
theorem le_of_get_concat {tale : Tale} {n : Nat} {last d : Deed}
    (h : (tale ++ [last])[n]? = some d) : n ≤ tale.length := by
  have hlt := lt_of_get h
  rw [List.length_append, List.length_singleton] at hlt
  exact Nat.le_of_lt_succ hlt

/-- A deed of a tale that has gone on was there before, or is one of the new
    ones. -/
theorem get_append_cases {tale more : Tale} {n : Nat} {d : Deed}
    (h : (tale ++ more)[n]? = some d) :
    tale[n]? = some d ∨ tale.length ≤ n ∧ d ∈ more := by
  by_cases hn : n < tale.length
  · rw [get_of_append hn] at h
    exact Or.inl h
  · rw [List.getElem?_append_right (Nat.not_lt.mp hn)] at h
    exact Or.inr ⟨Nat.not_lt.mp hn, List.mem_of_getElem? h⟩

/-! ## The latest successful compile -/

/-- The position of the latest deed that satisfies a condition. -/
def latest? (which : Deed → Bool) (tale : Tale) : Option Nat :=
  tale.zipIdx.foldl (fun found entry => if which entry.1 then some entry.2 else found) none

/-- When the latest successful compile of a project ended. -/
def lastFinish? (tale : Tale) (p : Project) : Option Nat :=
  tale.latest? fun d => d.finishes && d.About p

/-- The same, among the compiles that left the record in the same file. -/
def lastFinishAt? (tale : Tale) (p : Project) : Option Nat :=
  tale.latest? fun d => d.finishes && d.At p

/-- When the latest successful compile of a project began. -/
def lastStart? (tale : Tale) (p : Project) : Option Nat :=
  (tale.lastFinish? p).bind fun finish =>
    latest? (fun d => d.starts && d.About p) (tale.take finish)

/-- The latest deed of a kind is the one just told, if it is of the kind. -/
theorem latest?_concat (which : Deed → Bool) (tale : Tale) (d : Deed) :
    latest? which (tale ++ [d]) = if which d then some tale.length else latest? which tale := by
  unfold latest?
  rw [List.zipIdx_append, List.foldl_append]
  simp

/-- The latest deed of a kind is of that kind. -/
theorem latest?_spec {which : Deed → Bool} {tale : Tale} {n : Nat}
    (h : tale.latest? which = some n) : ∃ d, tale[n]? = some d ∧ which d = true := by
  induction tale using List.reverseRecOn with
  | nil => exact nomatch h
  | append_singleton tale d ih =>
      rw [latest?_concat] at h
      by_cases hd : which d = true
      · rw [if_pos hd] at h
        refine ⟨d, ?_, hd⟩
        rw [← Option.some.inj h]
        exact List.getElem?_concat_length
      · rw [if_neg hd] at h
        obtain ⟨d', hd', hwhich⟩ := ih h
        exact ⟨d', get_append hd', hwhich⟩

/-- Nothing that satisfies the condition comes after the latest. -/
theorem le_latest? (which : Deed → Bool) {tale : Tale} {n : Nat} {d : Deed}
    (h : tale[n]? = some d) (hd : which d = true) :
    ∃ m, tale.latest? which = some m ∧ n ≤ m := by
  induction tale using List.reverseRecOn with
  | nil => exact nomatch h
  | append_singleton tale d' ih =>
      rw [latest?_concat]
      by_cases hd' : which d' = true
      · rw [if_pos hd']
        exact ⟨tale.length, rfl, le_of_get_concat h⟩
      · rw [if_neg hd']
        rcases get_append_cases h with h | ⟨-, hmem⟩
        · exact ih h
        · rw [List.mem_singleton.mp hmem] at hd
          exact absurd hd hd'

/-- **The latest compile began no earlier** than any compile that has been
    successful. -/
theorem le_lastStart? {tale : Tale} {p p' : Project} {start finish : Nat}
    (hstart : tale[start]? = some (.handed p')) (hfinish : tale[finish]? = some (.returned p' true))
    (hlt : start < finish) (hp : p'.configPath.components = p.configPath.components) :
    ∃ last, tale.lastStart? p = some last ∧ start ≤ last := by
  obtain ⟨m, hm, hle⟩ := le_latest? (fun d => d.finishes && d.About p) hfinish
    (by simp [Deed.finishes, Deed.About, Deed.project, hp])
  have htake : (tale.take m)[start]? = some (.handed p') := by
    rw [List.getElem?_take_of_lt (Nat.lt_of_lt_of_le hlt hle)]
    exact hstart
  obtain ⟨last, hlast, hle'⟩ := le_latest? (fun d => d.starts && d.About p) htake
    (by simp [Deed.starts, Deed.About, Deed.project, hp])
  refine ⟨last, ?_, hle'⟩
  unfold lastStart? lastFinish?
  rw [hm]
  exact hlast

end Tale

/-! ## Records at paths -/

/-- Whether a path is named as the files are that projects keep their records
    in. -/
def Path.KeepsRecords (q : Path) : Prop :=
  ∃ stem : String, q.components.getLast? = some (.name (stem ++ ".tsbuildinfo"))

namespace BuildRecord

/-- The record that some contents are the written form of. -/
def ofContent? (content : ByteArray) : Option BuildRecord :=
  match Utf8.decode content with
  | .error _ => none
  | .ok text => (ofText text).toOption

/-- An empty file is no record. -/
theorem ofContent?_empty : ofContent? ByteArray.empty = none := by
  decide +kernel

/-- A record that is found in a file is its content, and names the project. -/
theorem ofContent?_of_recordIn? {p : Project} {file : MemoryFile} {r : BuildRecord}
    (h : recordIn? p file = some r) :
    ofContent? file.content = some r ∧ r.project.components = p.configPath.components := by
  obtain ⟨⟨text, hdecode, hread⟩, hproject⟩ := project_of_recordIn? h
  refine ⟨?_, hproject⟩
  unfold ofContent?
  rw [hdecode]
  simp only [hread]
  rfl

/-- A record that was written reads as nothing else. -/
theorem ofContent?_written {r r' : BuildRecord} (h : r.Canonical)
    (hversion : r.version = currentVersion)
    (hread : ofContent? r.printer.text.toUTF8 = some r') : r' = r := by
  unfold ofContent? at hread
  rw [decode_toUTF8] at hread
  have hbound : r.version < Nat.pow 2 32 := by
    rw [hversion]
    decide
  rcases ofText_printer h hbound with hok | ⟨-, mistake, herror⟩
  · simp only [hok] at hread
    exact (Option.some.inj hread).symm
  · simp only [herror] at hread
    exact nomatch hread

end BuildRecord

/-- The record in the file at a path. -/
def MemoryFs.recordAt? (fs : MemoryFs) (q : Path) : Option BuildRecord :=
  (fs.file? q).bind fun file => BuildRecord.ofContent? file.content

/-- A usable record is the record in its project's record file. -/
theorem recordAt?_of_load {fs : MemoryFs} {p : Project} {r : BuildRecord}
    (h : (BuildRecord.load fs p).value = some r) :
    fs.recordAt? p.recordPath = some r ∧ r.project.components = p.configPath.components := by
  rw [BuildRecord.load_eq] at h
  obtain ⟨file, hfile, hr⟩ := Option.bind_eq_some_iff.mp h
  obtain ⟨hcontent, hproject⟩ := BuildRecord.ofContent?_of_recordIn? hr
  refine ⟨?_, hproject⟩
  unfold MemoryFs.recordAt?
  rw [hfile]
  exact hcontent

/-! ## Honest edits -/

/-- An edit that forges no record. -/
def MemoryFs.Edit.Honest : Edit → Prop
  | .write p content => p.KeepsRecords → BuildRecord.ofContent? content = none
  | _ => True

namespace MemoryFs

/-- Writing a file changes the record at its path, and no other. -/
theorem recordAt?_put (fs : MemoryFs) (p : Path) (content : ByteArray) (q : Path) :
    (fs.put p content).recordAt? q
      = if p.components = q.components then BuildRecord.ofContent? content
        else fs.recordAt? q := by
  unfold recordAt?
  rw [file?_put]
  split <;> rfl

/-- **An honest edit brings about no record.** -/
theorem recordAt?_edit {fs : MemoryFs} {e : Edit} (he : e.Honest) {q : Path}
    (hq : q.KeepsRecords) {r : BuildRecord} (h : (fs.edit e).recordAt? q = some r) :
    fs.recordAt? q = some r := by
  cases e with
  | write p content =>
      change (fs.put p content).recordAt? q = some r at h
      rw [recordAt?_put] at h
      by_cases hp : p.components = q.components
      · have hkeeps : p.KeepsRecords := by
          unfold Path.KeepsRecords
          rw [hp]
          exact hq
        rw [if_pos hp, he hkeeps] at h
        exact nomatch h
      · rw [if_neg hp] at h
        exact h
  | touch p =>
      change (fs.touch p).recordAt? q = some r at h
      unfold touch at h
      by_cases hp : p.components = q.components
      · cases hfile : fs.files.get? p with
        | none =>
            rw [hfile] at h
            simp only [recordAt?_put, if_pos hp, BuildRecord.ofContent?_empty] at h
            exact nomatch h
        | some file =>
            rw [hfile] at h
            simp only [recordAt?_put, if_pos hp] at h
            unfold recordAt?
            rw [← fs.file?_congr hp, show fs.file? p = some file from hfile]
            exact h
      · cases hfile : fs.files.get? p with
        | none =>
            rw [hfile] at h
            simp only [recordAt?_put, if_neg hp] at h
            exact h
        | some file =>
            rw [hfile] at h
            simp only [recordAt?_put, if_neg hp] at h
            exact h
  | remove p =>
      unfold recordAt? at h ⊢
      rw [file?_remove] at h
      by_cases hp : p.components = q.components
      · rw [if_pos hp] at h
        exact nomatch h
      · rw [if_neg hp] at h
        exact h

/-- Honest edits put no record where there was none. -/
theorem recordAt?_edits {fs : MemoryFs} {es : List Edit} (hes : ∀ e ∈ es, e.Honest) {q : Path}
    (hq : q.KeepsRecords) {r : BuildRecord} (h : (fs.edits es).recordAt? q = some r) :
    fs.recordAt? q = some r := by
  induction es generalizing fs with
  | nil => exact h
  | cons e rest ih =>
      exact recordAt?_edit (hes e List.mem_cons_self) hq
        (ih (fun e' he' => hes e' (List.mem_cons_of_mem e he')) h)

end MemoryFs

/-! ## Chronicles -/

/-- How a build was called. -/
structure BuildCall where
  options : BuildOptions := {}
  compiler : Compiler MemoryFs
  schedules : List LevelSchedule := []
  roots : List Path
  /-- Whether the run was cancelled before it began. -/
  cancelled : Bool := false

/-- What can happen to files. -/
inductive Act where
  | edit (e : Edit)
  | build (call : BuildCall)

/-- Files, and what the runs so far did to them. -/
structure Chronicle where
  files : MemoryFs := {}
  tale : Tale := []

namespace Chronicle

/-- What a call comes to. -/
def called (c : Chronicle) (call : BuildCall) :
    Except Error (Graph × BuildReport) × Run MemoryFs :=
  build call.options call.compiler call.schedules call.roots ⟨c.files, call.cancelled, []⟩

def act (c : Chronicle) : Act → Chronicle
  | .edit e => { c with files := c.files.edit e }
  | .build call =>
    match c.called call with
    | (.error _, run) => { c with files := run.site.files }
    | (.ok (g, _), run) => ⟨run.site.files, c.tale ++ run.deeds g⟩

def acts (c : Chronicle) (as : List Act) : Chronicle :=
  as.foldl act c

/-- **A call changes nothing, or is a run over the graph of its roots.** -/
theorem act_build_cases (c : Chronicle) (call : BuildCall) :
    (∃ e, (loadGraph c.files call.roots).value = .error e ∧ (c.called call).1 = .error e ∧
        c.act (.build call) = c) ∨
      ∃ g report, (loadGraph c.files call.roots).value = .ok g ∧
        (c.called call).1 = .ok (g, report) ∧
        c.act (.build call)
          = ⟨(c.called call).2.site.files, c.tale ++ (c.called call).2.deeds g⟩ ∧
        ∃ site : Site MemoryFs, site.files = c.files ∧ site.cancelled = call.cancelled ∧
          (c.called call).2
            = (buildGraph call.options call.compiler call.schedules g site).2 := by
  cases hload : (loadGraph c.files call.roots).value with
  | error e =>
      have hcalled : c.called call
          = (.error e, Run.start ((⟨c.files, call.cancelled, []⟩ : Site MemoryFs).note
              (loadGraph c.files call.roots).notes) 0) := by
        unfold called build
        simp only [hload]
      refine Or.inl ⟨e, rfl, by rw [hcalled], ?_⟩
      simp only [act, hcalled]
      rfl
  | ok g =>
      have hcalled : c.called call
          = (.ok (g, (buildGraph call.options call.compiler call.schedules g
              ((⟨c.files, call.cancelled, []⟩ : Site MemoryFs).note
                (loadGraph c.files call.roots).notes)).1),
            (buildGraph call.options call.compiler call.schedules g
              ((⟨c.files, call.cancelled, []⟩ : Site MemoryFs).note
                (loadGraph c.files call.roots).notes)).2) := by
        unfold called build
        simp only [hload]
      refine Or.inr ⟨g, _, rfl, by rw [hcalled], ?_, _, rfl, rfl, by rw [hcalled]⟩
      simp only [act, hcalled]

end Chronicle

end ProjectBuild
