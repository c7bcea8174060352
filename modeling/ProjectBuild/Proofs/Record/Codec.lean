import ProjectBuild.Proofs.Json.Structure
import ProjectBuild.Proofs.Path.Map
import ProjectBuild.Record.Store

/-! # Records on paper

    A record that was written reads as itself, or, where one of its times lies
    beyond the reader's range, not at all (`BuildRecord.ofText_toText`).  It
    never reads as another record. -/

namespace ProjectBuild

open Json

/-! ## Times -/

namespace Time

/-- The last second that the reader accepts, and one more. -/
def horizon : Nat := Nat.pow 2 63

theorem fraction_lt (t : Time) : t.fraction < nanosPerSecond :=
  Nat.mod_lt _ (by decide)

/-- A time is put together again from its parts. -/
theorem ofEpoch_parts {t : Time} (h : 0 ≤ t.nanos) : ofEpoch t.seconds t.fraction = t := by
  have hdiv := Nat.div_add_mod t.sinceEpoch nanosPerSecond
  have hsince : (t.sinceEpoch : Int) = t.nanos := Int.toNat_of_nonneg h
  have hnanos : ((t.seconds : Int) * nanosPerSecond + t.fraction : Int) = t.nanos := by
    rw [← hsince]
    unfold seconds fraction
    rw [Int.mul_comm]
    exact_mod_cast hdiv
  unfold ofEpoch
  rw [hnanos]

theorem seconds_ofEpoch (n : Nat) : (ofEpoch n 0).seconds = n := by
  have hnanos : (ofEpoch n 0).nanos = ((n * nanosPerSecond : Nat) : Int) := by
    show (n : Int) * nanosPerSecond + (0 : Nat) = _
    rw [Int.natCast_mul]
    exact Int.add_zero _
  unfold seconds sinceEpoch
  rw [hnanos, Int.toNat_natCast]
  exact Nat.mul_div_cancel n (by decide)

theorem ofEpoch_nonneg (n : Nat) : 0 ≤ (ofEpoch n 0).nanos := by
  show (0 : Int) ≤ (n : Int) * nanosPerSecond + (0 : Nat)
  rw [show ((0 : Nat) : Int) = 0 from rfl, Int.add_zero]
  exact Int.mul_nonneg (Int.natCast_nonneg n) (by decide)

/-- Times of whole seconds are ordered as their seconds. -/
theorem ofEpoch_lt {m n : Nat} : ofEpoch m 0 < ofEpoch n 0 ↔ m < n := by
  show (m : Int) * nanosPerSecond + (0 : Nat) < (n : Int) * nanosPerSecond + (0 : Nat) ↔ _
  unfold nanosPerSecond
  omega

def slots (t : Time) : List (Slot Parts) := [
  { field := ⟨"secs_since_epoch", true, fun parts c =>
      (Read.word 64 "u64" c).map fun (n, c) => ({ parts with seconds := n }, c)⟩
    printer := Pretty.number t.seconds
    update := fun parts => { parts with seconds := t.seconds }
    ok := t.seconds < Nat.pow 2 64
    reads := fun parts _ =>
      (word_recovers (Nat.le_refl _) "u64" t.seconds).map fun n => { parts with seconds := n } },
  { field := ⟨"nanos_since_epoch", true, fun parts c =>
      (Read.word 32 "u32" c).map fun (n, c) => ({ parts with nanos := n }, c)⟩
    printer := Pretty.number t.fraction
    update := fun parts => { parts with nanos := t.fraction }
    ok := t.fraction < Nat.pow 2 32
    reads := fun parts _ =>
      (word_recovers (by decide) "u32" t.fraction).map fun n => { parts with nanos := n } }]

/-- A time within the reader's range is read back; any other is refused. -/
theorem read_recovers {t : Time} (h : 0 ≤ t.nanos) (level : Nat) :
    Recovers (t.seconds < horizon) read (printer t level) t := by
  have hshape := shape_recovers (show shape.fields = t.slots.map Slot.field from rfl)
    (by show ["secs_since_epoch", "nanos_since_epoch"].Nodup; decide) (List.cons_ne_nil _ _) level
  intro blank rest p hblank hrest
  -- the fraction fits its field whatever the time is
  have hfraction : t.fraction < Nat.pow 2 32 := Nat.lt_trans t.fraction_lt (by decide)
  have hread : ∀ c, read c = (shape.read c).bind fun found =>
      if (ofEpoch found.1.seconds found.1.nanos).seconds < horizon
      then .ok (ofEpoch found.1.seconds found.1.nanos, found.2)
      else .error (.floating .timeOverflow found.2) :=
    fun _ => rfl
  rw [hread]
  rcases hshape blank rest p hblank hrest with ⟨p', hok⟩ | ⟨hbad, fault, herror⟩
  · have htext : (Pretty.object (t.slots.map Slot.key) level) = printer t level := rfl
    rw [htext] at hok
    simp only [hok, Except.bind]
    have htime : ofEpoch (Slot.fillAll t.slots shape.blank).seconds
        (Slot.fillAll t.slots shape.blank).nanos = t := ofEpoch_parts h
    rw [htime]
    by_cases hrange : t.seconds < horizon
    · rw [if_pos hrange]
      exact Or.inl ⟨p', rfl⟩
    · rw [if_neg hrange]
      exact Or.inr ⟨hrange, _, rfl⟩
  · have htext : (Pretty.object (t.slots.map Slot.key) level) = printer t level := rfl
    rw [htext] at herror
    simp only [herror, Except.bind]
    refine Or.inr ⟨?_, fault, rfl⟩
    intro hrange
    refine hbad ⟨?_, ?_⟩
    · -- a time within range overflows neither field nor their sum
      have hseconds : t.seconds < Nat.pow 2 64 := Nat.lt_trans hrange (by decide)
      intro slot hslot
      rcases List.mem_cons.mp hslot with rfl | hslot
      · exact hseconds
      · rw [List.mem_singleton.mp hslot]
        exact hfraction
    · show (if t.seconds + t.fraction / nanosPerSecond < Nat.pow 2 64 then none
        else some Problem.offsetOverflow) = none
      rw [Nat.div_eq_of_lt t.fraction_lt, Nat.add_zero,
        if_pos (Nat.lt_trans hrange (by decide))]

end Time

/-! ## Maps of paths -/

namespace PathMap

variable {α : Type}

/-- A map in path order is read back. -/
theorem read_recovers {value : Reader α} {printer : α → Printer} (ok : α → Prop)
    {m : PathMap α} (hvalue : ∀ entry ∈ m.entries, ∀ level,
      Recovers (ok entry.2) value (printer entry.2 level) entry.2)
    (hsorted : m.Sorted) (level : Nat) :
    Recovers (∀ entry ∈ m.entries, ok entry.2) (read value) (m.printer printer level) m := by
  have hvalue' : ∀ entry ∈ m.entries.map (fun entry => (entry.1.text, entry.2)), ∀ level,
      Recovers (ok entry.2) value (printer entry.2 level) entry.2 := by
    intro entry hentry
    obtain ⟨entry', hmem, rfl⟩ := List.mem_map.mp hentry
    exact hvalue entry' hmem
  have hmap := (map_recovers (m.entries.map fun entry => (entry.1.text, entry.2)) hvalue'
    level).map fun bindings => insertAll (bindings.map fun entry => ((⟨entry.1⟩ : Path), entry.2))
  have hentries : (m.entries.map fun entry => (entry.1.text, entry.2)).map
      (fun entry => ((⟨entry.1⟩ : Path), entry.2)) = m.entries := by
    rw [List.map_map]
    exact List.map_id m.entries
  have htext : Pretty.object (written printer
      (m.entries.map fun entry => (entry.1.text, entry.2))) level = m.printer printer level := by
    unfold written PathMap.printer
    rw [List.map_map]
    rfl
  rw [htext] at hmap
  simp only [hentries, hsorted.insertAll_entries] at hmap
  refine hmap.imp ?_
  intro h entry hentry
  obtain ⟨entry', hmem, rfl⟩ := List.mem_map.mp hentry
  exact h entry' hmem

end PathMap

/-! ## Records -/

namespace BuildRecord

/-- What every record that a build takes is like: its maps are in path order,
    and its times do not lie before the epoch. -/
structure Canonical (r : BuildRecord) : Prop where
  inputs : r.inputs.Sorted
  outputs : r.outputs.Sorted
  references : r.references.Sorted
  times : ∀ entry ∈ r.inputs.entries ++ r.outputs.entries, 0 ≤ entry.2.nanos

/-- All times of a record lie within the reader's range. -/
def InRange (r : BuildRecord) : Prop :=
  ∀ entry ∈ r.inputs.entries ++ r.outputs.entries, entry.2.seconds < Time.horizon

/-- The slots of a record's fields. -/
def slots (r : BuildRecord) (h : r.Canonical) : List (Slot BuildRecord) := [
  { field := ⟨"version", true, fun r c =>
      (Read.word 32 "u32" c).map fun (x, c) => ({ r with version := x }, c)⟩
    printer := Pretty.number r.version
    update := fun r' => { r' with version := r.version }
    ok := r.version < Nat.pow 2 32
    reads := fun r' _ =>
      (word_recovers (by decide) "u32" r.version).map fun x => { r' with version := x } },
  { field := ⟨"tool_version", true, fun r c =>
      (Read.string c).map fun (x, c) => ({ r with toolVersion := x }, c)⟩
    printer := Pretty.string r.toolVersion
    update := fun r' => { r' with toolVersion := r.toolVersion }
    ok := True
    reads := fun r' _ => (string_recovers r.toolVersion).map fun x => { r' with toolVersion := x } },
  { field := ⟨"project", true, fun r c =>
      (Read.text "path string" c).map fun (x, c) => ({ r with project := ⟨x⟩ }, c)⟩
    printer := Pretty.string r.project.text
    update := fun r' => { r' with project := r.project }
    ok := True
    reads := fun r' _ =>
      (text_recovers "path string" r.project.text).map fun x => { r' with project := ⟨x⟩ } },
  { field := ⟨"config_fingerprint", true, fun r c =>
      (Read.string c).map fun (x, c) => ({ r with configFingerprint := x }, c)⟩
    printer := Pretty.string r.configFingerprint
    update := fun r' => { r' with configFingerprint := r.configFingerprint }
    ok := True
    reads := fun r' _ =>
      (string_recovers r.configFingerprint).map fun x => { r' with configFingerprint := x } },
  { field := ⟨"build_stamp", true, fun r c =>
      (Read.string c).map fun (x, c) => ({ r with buildStamp := x }, c)⟩
    printer := Pretty.string r.buildStamp
    update := fun r' => { r' with buildStamp := r.buildStamp }
    ok := True
    reads := fun r' _ => (string_recovers r.buildStamp).map fun x => { r' with buildStamp := x } },
  { field := ⟨"inputs", true, fun r c =>
      (PathMap.read Time.read c).map fun (x, c) => ({ r with inputs := x }, c)⟩
    printer := PathMap.printer Time.printer r.inputs
    update := fun r' => { r' with inputs := r.inputs }
    ok := ∀ entry ∈ r.inputs.entries, entry.2.seconds < Time.horizon
    reads := fun r' level =>
      (PathMap.read_recovers (fun t => t.seconds < Time.horizon)
        (fun entry hentry => Time.read_recovers (h.times entry (List.mem_append_left _ hentry)))
        h.inputs level).map fun x => { r' with inputs := x } },
  { field := ⟨"outputs", true, fun r c =>
      (PathMap.read Time.read c).map fun (x, c) => ({ r with outputs := x }, c)⟩
    printer := PathMap.printer Time.printer r.outputs
    update := fun r' => { r' with outputs := r.outputs }
    ok := ∀ entry ∈ r.outputs.entries, entry.2.seconds < Time.horizon
    reads := fun r' level =>
      (PathMap.read_recovers (fun t => t.seconds < Time.horizon)
        (fun entry hentry => Time.read_recovers (h.times entry (List.mem_append_right _ hentry)))
        h.outputs level).map fun x => { r' with outputs := x } },
  { field := ⟨"references", true, fun r c =>
      (PathMap.read Read.string c).map fun (x, c) => ({ r with references := x }, c)⟩
    printer := PathMap.printer Pretty.string r.references
    update := fun r' => { r' with references := r.references }
    ok := ∀ entry ∈ r.references.entries, True
    reads := fun r' level =>
      (PathMap.read_recovers (fun _ => True)
        (fun entry _ _ => string_recovers entry.2) h.references level).map
          fun x => { r' with references := x } }]

/-- A canonical record is written in order. -/
theorem toText_eq {r : BuildRecord} (h : r.Canonical) : r.toText = .ok r.printer.text := by
  have hwritable : r.isWritable = true := by
    unfold isWritable
    rw [List.all_eq_true]
    exact fun entry hentry => decide_eq_true (h.times entry hentry)
  unfold toText
  rw [if_pos hwritable]

/-- **A canonical record is recovered** from what is written of it, if it is in
    range. -/
theorem shape_recovers {r : BuildRecord} (h : r.Canonical) (hversion : r.version < Nat.pow 2 32)
    (level : Nat) : Recovers r.InRange shape.read (r.printer level) r := by
  have hall := Json.shape_recovers (show shape.fields = (r.slots h).map Slot.field from rfl)
    (by
      show ["version", "tool_version", "project", "config_fingerprint", "build_stamp", "inputs",
        "outputs", "references"].Nodup
      decide)
    (List.cons_ne_nil _ _) level
  have hfill : Slot.fillAll (r.slots h) shape.blank = r := by
    cases r
    rfl
  rw [hfill, show Pretty.object ((r.slots h).map Slot.key) level = r.printer level from rfl]
    at hall
  refine hall.imp ?_
  -- only the times can be out of range
  intro hrange
  refine ⟨?_, rfl⟩
  have hinputs : ∀ entry ∈ r.inputs.entries, entry.2.seconds < Time.horizon :=
    fun entry hentry => hrange entry (List.mem_append_left _ hentry)
  have houtputs : ∀ entry ∈ r.outputs.entries, entry.2.seconds < Time.horizon :=
    fun entry hentry => hrange entry (List.mem_append_right _ hentry)
  intro slot hslot
  unfold slots at hslot
  simp only [List.mem_cons, List.not_mem_nil, or_false] at hslot
  rcases hslot with rfl | rfl | rfl | rfl | rfl | rfl | rfl | rfl
  · exact hversion
  · exact True.intro
  · exact True.intro
  · exact True.intro
  · exact True.intro
  · exact hinputs
  · exact houtputs
  · exact fun _ _ => True.intro

/-- **A written record reads as itself, or not at all**; the latter only when
    a time lies beyond the reader's range. -/
theorem ofText_printer {r : BuildRecord} (h : r.Canonical) (hversion : r.version < Nat.pow 2 32) :
    ofText r.printer.text = .ok r ∨
      (¬ r.InRange ∧ ∃ mistake, ofText r.printer.text = .error mistake) := by
  have hrecovers := shape_recovers h hversion 0 [] [] {} (fun c hc => nomatch hc) (Or.inl rfl)
  rw [List.nil_append, List.append_nil] at hrecovers
  have hcursor : Cursor.ofString r.printer.text = ⟨r.printer 0, {}⟩ := by
    unfold Cursor.ofString Printer.text
    rw [String.toList_ofList]
  unfold ofText readAll
  rw [hcursor]
  rcases hrecovers with ⟨p', hread⟩ | ⟨hbad, fault, hread⟩
  · rw [hread]
    exact Or.inl rfl
  · rw [hread]
    exact Or.inr ⟨hbad, _, rfl⟩

end BuildRecord

end ProjectBuild
