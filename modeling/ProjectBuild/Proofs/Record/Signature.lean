import ProjectBuild.Record.Basic

/-! # Signatures

    A signature is written in lines without any escapes, and the paths in it
    may hold the separators themselves.  Read from its end, a line still has
    one meaning only: what stands behind its separator are hexadecimal digits,
    and a separator is none (`SignatureLine.chars_injective`).  So two records
    have the same signature exactly if they tell the same
    (`BuildRecord.signature_eq_iff`). -/

namespace ProjectBuild

/-! ## Digits -/

/-- A lowercase hexadecimal digit. -/
def Hex.IsDigit (c : Char) : Prop :=
  ('0' ≤ c ∧ c ≤ '9') ∨ ('a' ≤ c ∧ c ≤ 'f')

instance (c : Char) : Decidable (Hex.IsDigit c) :=
  inferInstanceAs (Decidable (('0' ≤ c ∧ c ≤ '9') ∨ ('a' ≤ c ∧ c ≤ 'f')))

namespace Hex

theorem isDigit_digit : ∀ n < 16, IsDigit (digit n) := by
  decide

/-- Padded numbers have the given width. -/
theorem length_padded (width n : Nat) : (padded width n).length = width := by
  induction width generalizing n with
  | zero => rfl
  | succ width ih => rw [padded, List.length_append, ih, List.length_singleton]

/-- Padded numbers consist of digits. -/
theorem isDigit_padded {width n : Nat} : ∀ c ∈ padded width n, IsDigit c := by
  induction width generalizing n with
  | zero => exact fun c hc => nomatch hc
  | succ width ih =>
      intro c hc
      rcases List.mem_append.mp hc with hc | hc
      · exact ih c hc
      · rw [List.mem_singleton.mp hc]
        exact isDigit_digit _ (Nat.mod_lt n (by decide))

/-- Decimal digits are hexadecimal digits. -/
theorem isDigit_toString (n : Nat) : ∀ c ∈ (toString n).toList, IsDigit c := by
  intro c hc
  have hdigits : (toString n).toList = Nat.toDigits 10 n := Nat.toList_repr
  rw [hdigits] at hc
  have hdigit : c.isDigit = true := Nat.isDigit_of_mem_toDigits (by decide) (by decide) hc
  have hrange : 48 ≤ c.val ∧ c.val ≤ 57 := by simpa [Char.isDigit] using hdigit
  exact Or.inl hrange

end Hex

/-- A number is read back from its digits. -/
theorem ofDigitChars_toString (n : Nat) : Nat.ofDigitChars 10 (toString n).toList 0 = n := by
  have hdigits : (toString n).toList = Nat.toDigits 10 n := Nat.toList_repr
  rw [hdigits, Nat.ofDigitChars_ten_toDigits]

/-- Sixteen lowercase hexadecimal digits. -/
structure IsStamp (text : String) : Prop where
  length : text.toList.length = 16
  digits : ∀ c ∈ text.toList, Hex.IsDigit c

/-- The stamp of a build is a fingerprint, so it has this form. -/
theorem isStamp_fingerprint (text : String) : IsStamp (fingerprint text) := by
  unfold fingerprint
  constructor
  · rw [String.toList_ofList, Hex.length_padded]
  · rw [String.toList_ofList]
    exact Hex.isDigit_padded

/-! ## Cutting a list from its end -/

/-- Only the first place can be the one of a character that does not recur. -/
theorem nil_of_cons_eq {α : Type} {p : α → Prop} {between back back' : List α} {x y : α}
    (hy : ¬ p y) (hback : ∀ c ∈ back, p c) (h : x :: back = between ++ y :: back') :
    between = [] ∧ x = y ∧ back = back' := by
  cases between with
  | nil =>
      obtain ⟨hhead, htail⟩ := List.cons.inj h
      exact ⟨rfl, hhead, htail⟩
  | cons c between =>
      have htail : back = between ++ y :: back' := (List.cons.inj h).2
      refine absurd (hback y ?_) hy
      rw [htail]
      exact List.mem_append_right _ List.mem_cons_self

/-- Equal lists that are each cut at the last element that fails a test are cut
    at the same place. -/
theorem eq_of_append_cons {α : Type} {p : α → Prop} {front front' back back' : List α} {x y : α}
    (hx : ¬ p x) (hy : ¬ p y) (hback : ∀ c ∈ back, p c) (hback' : ∀ c ∈ back', p c)
    (h : front ++ x :: back = front' ++ y :: back') : front = front' ∧ x = y ∧ back = back' := by
  -- one front is the other and what lies between the cuts, and nothing can lie there
  rcases List.append_eq_append_iff.mp h with ⟨between, hfront, hrest⟩ | ⟨between, hfront, hrest⟩
  · obtain ⟨rfl, hhead, htail⟩ := nil_of_cons_eq hy hback hrest
    exact ⟨(hfront.trans (List.append_nil front)).symm, hhead, htail⟩
  · obtain ⟨rfl, hhead, htail⟩ := nil_of_cons_eq hx hback' hrest
    exact ⟨hfront.trans (List.append_nil front'), hhead.symm, htail.symm⟩

/-! ## Lines -/

/-- What a line of a signature tells, other than the first. -/
inductive SignatureLine where
  /-- An input or output, and its time in nanoseconds since the epoch. -/
  | time (path : Path) (nanos : Nat)
  /-- A reference, and the stamp of its build. -/
  | stamp (path : Path) (text : String)

namespace SignatureLine

def path : SignatureLine → Path
  | time path _ => path
  | stamp path _ => path

def separator : SignatureLine → Char
  | time _ _ => '='
  | stamp _ _ => '@'

/-- What stands behind the separator. -/
def value : SignatureLine → String
  | time _ nanos => toString nanos
  | stamp _ text => text

/-- How a line is written. -/
def chars (line : SignatureLine) : List Char :=
  line.path.text.toList ++ line.separator :: line.value.toList

def time? : SignatureLine → Option (Path × Nat)
  | time path nanos => some (path, nanos)
  | stamp _ _ => none

def stamp? : SignatureLine → Option (Path × String)
  | time _ _ => none
  | stamp path text => some (path, text)

/-- The path stays on its line, and behind the separator there are only digits. -/
structure Legible (line : SignatureLine) : Prop where
  path : '\n' ∉ line.path.text.toList
  value : ∀ c ∈ line.value.toList, Hex.IsDigit c

/-- A line is separated by one of two characters. -/
theorem separator_cases (line : SignatureLine) :
    line.separator = '=' ∨ line.separator = '@' := by
  cases line with
  | time path nanos => exact Or.inl rfl
  | stamp path text => exact Or.inr rfl

/-- A line is separated by no digit. -/
theorem not_isDigit_separator (line : SignatureLine) : ¬ Hex.IsDigit line.separator := by
  rcases line.separator_cases with hline | hline
  · rw [hline]
    decide
  · rw [hline]
    decide

/-- A legible line has no break. -/
theorem Legible.newline_not_mem {line : SignatureLine} (h : line.Legible) :
    '\n' ∉ line.chars := by
  have hdigit : ¬ Hex.IsDigit '\n' := by decide
  have hseparator : '\n' ≠ line.separator := by
    rcases line.separator_cases with hline | hline
    · rw [hline]
      decide
    · rw [hline]
      decide
  intro hmem
  rcases List.mem_append.mp hmem with hpath | hrest
  · exact h.path hpath
  · rcases List.mem_cons.mp hrest with heq | hvalue
    · exact hseparator heq
    · exact hdigit (h.value _ hvalue)

/-- **A line has one meaning**, whatever its path holds: the separator is the
    last character that is no digit. -/
theorem chars_injective {line line' : SignatureLine} (h : line.Legible) (h' : line'.Legible)
    (heq : line.chars = line'.chars) : line = line' := by
  obtain ⟨hpath, hseparator, hvalue⟩ := eq_of_append_cons line.not_isDigit_separator
    line'.not_isDigit_separator h.value h'.value heq
  have hpath' : line.path = line'.path := congrArg Path.mk (String.toList_inj.mp hpath)
  -- times and stamps both end in digits, so only the separators tell them apart
  have hkinds : ('=' : Char) ≠ '@' := by decide
  cases line with
  | time path nanos =>
      cases line' with
      | time path' nanos' =>
          have hnanos := congrArg (Nat.ofDigitChars 10 · 0) hvalue
          obtain rfl : nanos = nanos' := by
            simpa only [value, ofDigitChars_toString] using hnanos
          obtain rfl : path = path' := hpath'
          rfl
      | stamp path' text' => exact absurd hseparator hkinds
  | stamp path text =>
      cases line' with
      | time path' nanos' => exact absurd hseparator.symm hkinds
      | stamp path' text' =>
          obtain rfl : text = text' := String.toList_inj.mp hvalue
          obtain rfl : path = path' := hpath'
          rfl

/-- Legible lines are told apart by their characters. -/
theorem map_chars_injective {ls ls' : List SignatureLine} (h : ∀ line ∈ ls, line.Legible)
    (h' : ∀ line ∈ ls', line.Legible) (heq : ls.map chars = ls'.map chars) : ls = ls' := by
  induction ls generalizing ls' with
  | nil => exact (List.map_eq_nil_iff.mp heq.symm).symm
  | cons line ls ih =>
      cases ls' with
      | nil => exact nomatch heq
      | cons line' ls' =>
          obtain ⟨hhead, htail⟩ := List.cons.inj heq
          obtain ⟨hline, hls⟩ := List.forall_mem_cons.mp h
          obtain ⟨hline', hls'⟩ := List.forall_mem_cons.mp h'
          rw [chars_injective hline hline' hhead, ih hls hls' htail]

end SignatureLine

/-! ## Records -/

namespace BuildRecord

/-- The recorded times, in nanoseconds since the epoch: those of the inputs,
    then those of the outputs. -/
def timed (r : BuildRecord) : List (Path × Nat) :=
  (r.inputs.entries ++ r.outputs.entries).map fun entry => (entry.1, entry.2.sinceEpoch)

/-- The lines of a record's signature behind its fingerprint. -/
def lines (r : BuildRecord) : List SignatureLine :=
  r.timed.map (fun entry => .time entry.1 entry.2) ++
    r.references.entries.map fun entry => .stamp entry.1 entry.2

/-- The fingerprint and the paths of the record stay on their lines, and its
    references have stamps of the form that builds get. -/
structure Legible (r : BuildRecord) : Prop where
  fingerprint : '\n' ∉ r.configFingerprint.toList
  timed : ∀ entry ∈ r.inputs.entries ++ r.outputs.entries, '\n' ∉ entry.1.text.toList
  referenced : ∀ entry ∈ r.references.entries, '\n' ∉ entry.1.text.toList
  stamps : ∀ entry ∈ r.references.entries, IsStamp entry.2

/-- The lines of a record are those of its times and stamps. -/
theorem mem_lines {r : BuildRecord} {line : SignatureLine} :
    line ∈ r.lines ↔
      (∃ entry ∈ r.inputs.entries ++ r.outputs.entries,
        SignatureLine.time entry.1 entry.2.sinceEpoch = line) ∨
      ∃ entry ∈ r.references.entries, SignatureLine.stamp entry.1 entry.2 = line := by
  unfold lines timed
  rw [List.mem_append, List.map_map, List.mem_map, List.mem_map]
  rfl

/-- The lines of a legible record are legible. -/
theorem Legible.lines {r : BuildRecord} (h : r.Legible) : ∀ line ∈ r.lines, line.Legible := by
  intro line hline
  rcases mem_lines.mp hline with ⟨entry, hentry, rfl⟩ | ⟨entry, hentry, rfl⟩
  · exact ⟨h.timed entry hentry, Hex.isDigit_toString entry.2.sinceEpoch⟩
  · exact ⟨h.referenced entry hentry, (h.stamps entry hentry).digits⟩

/-- The times of a record can be read off its lines. -/
theorem filterMap_time?_lines (r : BuildRecord) :
    r.lines.filterMap SignatureLine.time? = r.timed := by
  have hstamps : r.references.entries.filterMap
      (SignatureLine.time? ∘ fun entry => .stamp entry.1 entry.2) = [] :=
    List.filterMap_eq_nil_iff.mpr fun _ _ => rfl
  have htimes : r.timed.filterMap (SignatureLine.time? ∘ fun entry => .time entry.1 entry.2)
      = r.timed := List.filterMap_some
  unfold lines
  rw [List.filterMap_append, List.filterMap_map, List.filterMap_map, htimes, hstamps,
    List.append_nil]

/-- The stamps of a record can be read off its lines. -/
theorem filterMap_stamp?_lines (r : BuildRecord) :
    r.lines.filterMap SignatureLine.stamp? = r.references.entries := by
  have hstamps : r.references.entries.filterMap
      (SignatureLine.stamp? ∘ fun entry => .stamp entry.1 entry.2) = r.references.entries :=
    List.filterMap_some
  have htimes : r.timed.filterMap
      (SignatureLine.stamp? ∘ fun entry => .time entry.1 entry.2) = [] :=
    List.filterMap_eq_nil_iff.mpr fun _ _ => rfl
  unfold lines
  rw [List.filterMap_append, List.filterMap_map, List.filterMap_map, htimes, hstamps,
    List.nil_append]

/-! ## Signatures -/

/-- Texts that follow stand behind a separator. -/
theorem intercalate_cons (x : Char) (xs : List Char) (rest : List (List Char)) :
    [x].intercalate (xs :: rest) = xs ++ rest.flatMap (x :: ·) := by
  induction rest generalizing xs with
  | nil => rw [List.intercalate_singleton, List.flatMap_nil, List.append_nil]
  | cons ys rest ih =>
      rw [List.intercalate_cons_cons, ih, List.flatMap_cons, List.append_assoc]
      rfl

theorem toList_timeLine (entry : Path × Time) : (timeLine entry).toList
    = '\n' :: (SignatureLine.time entry.1 entry.2.sinceEpoch).chars := by
  unfold timeLine
  rw [String.toList_append, String.toList_append, String.toList_append, List.append_assoc]
  rfl

theorem toList_stampLine (entry : Path × String) : (stampLine entry).toList
    = '\n' :: (SignatureLine.stamp entry.1 entry.2).chars := by
  unfold stampLine
  rw [String.toList_append, String.toList_append, String.toList_append, List.append_assoc]
  rfl

/-- A signature is the fingerprint and the lines, with a break between
    neighbours. -/
theorem toList_signature (r : BuildRecord) : r.signature.toList
    = ['\n'].intercalate (r.configFingerprint.toList :: r.lines.map SignatureLine.chars) := by
  unfold signature lines timed
  rw [intercalate_cons]
  simp only [String.toList_append, String.toList_join, List.flatMap_map, List.map_append,
    List.map_map, List.flatMap_append, List.append_assoc, toList_timeLine, toList_stampLine]
  rfl

/-- **Cut at its breaks, a signature gives back its lines.** -/
theorem Legible.splitOn_signature {r : BuildRecord} (h : r.Legible) :
    r.signature.toList.splitOn '\n'
      = r.configFingerprint.toList :: r.lines.map SignatureLine.chars := by
  rw [toList_signature]
  refine List.splitOn_intercalate '\n' ?_ (List.cons_ne_nil _ _)
  intro text htext
  rcases List.mem_cons.mp htext with rfl | htext
  · exact h.fingerprint
  · obtain ⟨line, hline, rfl⟩ := List.mem_map.mp htext
    exact (h.lines line hline).newline_not_mem

/-- **A signature is unambiguous**: two records have the same one exactly if
    they have the same fingerprint, the same times of inputs and outputs under
    the same paths, and the same stamps of the same references. -/
theorem signature_eq_iff {r r' : BuildRecord} (h : r.Legible) (h' : r'.Legible) :
    r.signature = r'.signature ↔
      r.configFingerprint = r'.configFingerprint ∧ r.timed = r'.timed ∧
        r.references.entries = r'.references.entries := by
  constructor
  · intro heq
    -- read at the line breaks, the one text is the lines of both records
    have hsplit := h.splitOn_signature
    rw [heq, h'.splitOn_signature] at hsplit
    obtain ⟨hfingerprint, hchars⟩ := List.cons.inj hsplit
    have hlines : r'.lines = r.lines :=
      SignatureLine.map_chars_injective h'.lines h.lines hchars
    refine ⟨(String.toList_inj.mp hfingerprint).symm, ?_, ?_⟩
    · rw [← filterMap_time?_lines, ← filterMap_time?_lines, hlines]
    · rw [← filterMap_stamp?_lines, ← filterMap_stamp?_lines, hlines]
  · rintro ⟨hfingerprint, htimed, hreferences⟩
    have hlines : r.lines = r'.lines := by
      unfold lines
      rw [htimed, hreferences]
    refine String.toList_inj.mp ?_
    rw [toList_signature, toList_signature, hfingerprint, hlines]

/-- A record with separators in its fingerprint and its paths, of which one
    ends as a reference does and the others as times do.  Its output is older
    than the epoch. -/
def tangledRecord : BuildRecord where
  version := currentVersion
  toolVersion := programVersion
  project := ⟨"/r/tsconfig.json"⟩
  configFingerprint := "0f=1@2"
  buildStamp := ""
  inputs := .ofList [(⟨"/r/a@0123456789abcdef"⟩, ⟨1234567890123456⟩)]
  outputs := .ofList [(⟨"/r/b=7"⟩, ⟨-5⟩)]
  references := .ofList [(⟨"/r/c=17"⟩, stampOf default)]

/-- The output has become an input, and is as old as the epoch. -/
def untangledRecord : BuildRecord :=
  { tangledRecord with
    inputs := .ofList [(⟨"/r/a@0123456789abcdef"⟩, ⟨1234567890123456⟩), (⟨"/r/b=7"⟩, ⟨0⟩)]
    outputs := {} }

/-- These records differ, and they have the same signature, since it does not
    tell outputs from inputs; all that it tells is the same. -/
theorem signature_eq_iff_tangled :
    tangledRecord.Legible ∧ untangledRecord.Legible ∧ tangledRecord ≠ untangledRecord ∧
      tangledRecord.signature = untangledRecord.signature ∧
      tangledRecord.configFingerprint = untangledRecord.configFingerprint ∧
      tangledRecord.timed = untangledRecord.timed ∧
      tangledRecord.references.entries = untangledRecord.references.entries := by
  have hstamps : ∀ entry ∈ tangledRecord.references.entries, IsStamp entry.2 := by
    intro entry hentry
    rw [List.mem_singleton.mp hentry]
    exact isStamp_fingerprint _
  have htangled : tangledRecord.Legible :=
    ⟨by decide +kernel, by decide +kernel, by decide +kernel, hstamps⟩
  have huntangled : untangledRecord.Legible :=
    ⟨by decide +kernel, by decide +kernel, by decide +kernel, hstamps⟩
  have hsignature : tangledRecord.signature = untangledRecord.signature := by decide +kernel
  exact ⟨htangled, huntangled, by decide +kernel, hsignature,
    (signature_eq_iff htangled huntangled).mp hsignature⟩

end BuildRecord

end ProjectBuild
