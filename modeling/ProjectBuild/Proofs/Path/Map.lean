import Mathlib.Data.List.Induction
import ProjectBuild.Path.Map

/-! # Maps of paths

    Paths are ordered by their components, and two paths compare as equal
    exactly when they are the same (`Path.compare_eq_iff`).  So a map in path
    order holds every path at most once (`PathMap.Sorted`), looking a path up
    answers for all spellings of it, and a map is what its bindings make it:
    inserting them one after the other into the empty map gives the map back
    (`PathMap.Sorted.insertAll_entries`). -/

namespace ProjectBuild

/-! ## The order of paths -/

namespace Component

instance : Std.TransCmp Component.compare :=
  inferInstanceAs (Std.TransCmp (compareLex (compareOn rank) (compareOn spelling)))

/-- Components compare equal if they are. -/
theorem compare_eq_iff {a b : Component} : Component.compare a b = .eq ↔ a = b := by
  constructor
  · intro h
    obtain ⟨hrank, hspelling⟩ := compareLex_eq_eq.mp h
    have hr : a.rank = b.rank := Std.LawfulEqOrd.eq_of_compare hrank
    have hs : a.spelling = b.spelling :=
      Std.LawfulEqOrd.eq_of_compare hspelling
    cases a with
    | name text =>
        cases b with
        | name text' => exact congrArg name hs
        | _ => exact nomatch hr
    | root => cases b <;> first | rfl | exact nomatch hr
    | current => cases b <;> first | rfl | exact nomatch hr
    | parent => cases b <;> first | rfl | exact nomatch hr
  · rintro rfl
    exact Std.ReflCmp.compare_self

instance : Std.LawfulEqCmp Component.compare where
  eq_of_compare h := compare_eq_iff.mp h

end Component

namespace Path

/-- Paths are the same if their components are. -/
@[simp]
theorem same_iff {p q : Path} : p.same q = true ↔ p.components = q.components := by
  unfold same
  exact beq_iff_eq

theorem same_eq_false_iff {p q : Path} : p.same q = false ↔ p.components ≠ q.components := by
  rw [← Bool.not_eq_true, same_iff]

instance : Std.TransCmp Path.compare where
  eq_swap {p q} :=
    show List.compareLex Component.compare p.components q.components = _ from
      Std.OrientedCmp.eq_swap
  isLE_trans {p q r} h1 h2 :=
    show (List.compareLex Component.compare p.components r.components).isLE from
      Std.TransCmp.isLE_trans (b := q.components) h1 h2

/-- Paths compare as equal exactly when they are the same. -/
theorem compare_eq_iff {p q : Path} : compare p q = .eq ↔ p.components = q.components := by
  constructor
  · intro h
    have hcomponents : List.compareLex Component.compare p.components q.components = .eq := h
    exact Std.LawfulEqCmp.eq_of_compare hcomponents
  · intro h
    unfold compare
    rw [h]
    exact Std.ReflCmp.compare_self

/-- Paths compare by their components, not by their spelling. -/
theorem compare_congr {p q r : Path} (h : p.components = q.components) :
    compare p r = compare q r := by
  unfold compare
  rw [h]

theorem lt_trans {p q r : Path} (h1 : compare p q = .lt) (h2 : compare q r = .lt) :
    compare p r = .lt :=
  Std.TransCmp.lt_trans h1 h2

theorem lt_of_gt {p q : Path} (h : compare p q = .gt) : compare q p = .lt :=
  Std.OrientedCmp.lt_of_gt h

theorem ne_of_lt {p q : Path} (h : compare p q = .lt) : p.components ≠ q.components := by
  intro heq
  rw [compare_eq_iff.mpr heq] at h
  exact nomatch h

end Path

namespace PathMap

variable {α : Type}

/-! ## Looking up -/

/-- The first entry is found under any spelling of its key. -/
theorem get?_cons (k : Path) (v : α) (rest : List (Path × α)) (q : Path) :
    (PathMap.mk ((k, v) :: rest)).get? q
      = if k.components = q.components then some v else (PathMap.mk rest).get? q := by
  unfold get?
  rw [List.find?_cons]
  by_cases h : k.components = q.components
  · rw [if_pos h, show (k, v).1.same q = true from Path.same_iff.mpr h]
    rfl
  · rw [if_neg h, show (k, v).1.same q = false from Path.same_eq_false_iff.mpr h]

/-- Looking up answers alike for all spellings of a path. -/
theorem get?_congr (m : PathMap α) {p q : Path} (h : p.components = q.components) :
    m.get? p = m.get? q := by
  unfold get? Path.same
  rw [h]

theorem contains_eq (m : PathMap α) (q : Path) : m.contains q = (m.get? q).isSome := by
  unfold contains get?
  rw [Option.isSome_map, Bool.eq_iff_iff, List.any_eq_true, List.find?_isSome]

/-- A map contains a key if one of its keys is the same. -/
theorem contains_iff {m : PathMap α} {q : Path} :
    m.contains q = true ↔ ∃ k ∈ m.keys, k.components = q.components := by
  unfold contains keys
  rw [List.any_eq_true]
  constructor
  · rintro ⟨entry, hmem, hsame⟩
    exact ⟨entry.1, List.mem_map_of_mem hmem, Path.same_iff.mp hsame⟩
  · rintro ⟨k, hk, hsame⟩
    obtain ⟨entry, hmem, rfl⟩ := List.mem_map.mp hk
    exact ⟨entry, hmem, Path.same_iff.mpr hsame⟩

theorem contains_of_mem_keys {m : PathMap α} {q : Path} (h : q ∈ m.keys) : m.contains q = true :=
  contains_iff.mpr ⟨q, h, rfl⟩

/-- What is found is an entry, under some spelling of its key. -/
theorem mem_of_get? {m : PathMap α} {q : Path} {v : α} (h : m.get? q = some v) :
    ∃ k, (k, v) ∈ m.entries ∧ k.components = q.components := by
  unfold get? at h
  obtain ⟨⟨k, w⟩, hfind, rfl⟩ := Option.map_eq_some_iff.mp h
  have hsame : (k, w).1.same q = true :=
    List.find?_some (p := fun entry : Path × α => entry.1.same q) hfind
  exact ⟨k, List.mem_of_find?_eq_some hfind, Path.same_iff.mp hsame⟩

/-- An entry that was inserted is found, and all others as before. -/
theorem get?_insertEntry (key : Path) (value : α) (entries : List (Path × α)) (q : Path) :
    (PathMap.mk (insertEntry key value entries)).get? q
      = if key.components = q.components then some value else (PathMap.mk entries).get? q := by
  induction entries with
  | nil => rw [insertEntry, get?_cons]
  | cons entry rest ih =>
      obtain ⟨k, v⟩ := entry
      unfold insertEntry
      cases hcmp : Path.compare key k with
      | lt => exact get?_cons key value _ q
      | eq =>
          have hk := Path.compare_eq_iff.mp hcmp
          simp only [get?_cons, hk]
          by_cases hq : k.components = q.components
          · rw [if_pos hq, if_pos hq]
          · rw [if_neg hq, if_neg hq, if_neg hq]
      | gt =>
          simp only [get?_cons, ih]
          by_cases hk : k.components = q.components
          · have hkey : key.components ≠ q.components :=
              fun h => Path.ne_of_lt (Path.lt_of_gt hcmp) (hk.trans h.symm)
            rw [if_pos hk, if_neg hkey, if_pos hk]
          · rw [if_neg hk, if_neg hk]

/-- **A binding is found under every spelling of its path, and changes nothing
    else.** -/
theorem get?_insert (m : PathMap α) (key : Path) (value : α) (q : Path) :
    (m.insert key value).get? q
      = if key.components = q.components then some value else m.get? q :=
  get?_insertEntry key value m.entries q

/-- A key that was erased is not found, and all others are as before. -/
theorem get?_erase (m : PathMap α) (key q : Path) :
    (m.erase key).get? q = if key.components = q.components then none else m.get? q := by
  obtain ⟨entries⟩ := m
  unfold erase
  induction entries with
  | nil => split <;> rfl
  | cons entry rest ih =>
      obtain ⟨k, v⟩ := entry
      rw [List.filter_cons, get?_cons]
      by_cases hk : k.components = key.components
      · rw [show (!(k, v).1.same key) = false by rw [Path.same_iff.mpr hk]; rfl]
        simp only [Bool.false_eq_true, if_false, ih, hk]
        by_cases hq : key.components = q.components
        · rw [if_pos hq, if_pos hq]
        · rw [if_neg hq, if_neg hq, if_neg hq]
      · rw [show (!(k, v).1.same key) = true by rw [Path.same_eq_false_iff.mpr hk]; rfl]
        simp only [if_true, get?_cons]
        rw [ih]
        by_cases hq : k.components = q.components
        · have hkey : key.components ≠ q.components := fun h => hk (hq.trans h.symm)
          simp only [if_pos hq, if_neg hkey]
        · simp only [if_neg hq]

/-! ## Keys in order -/

/-- The keys ascend, so none is the same as another. -/
def Sorted (m : PathMap α) : Prop :=
  m.entries.Pairwise fun a b => Path.compare a.1 b.1 = .lt

/-- Inserting keeps the entries, and the spelling of a key that is there. -/
theorem mem_insertEntry {key : Path} {value : α} {entries : List (Path × α)}
    {entry : Path × α} (h : entry ∈ insertEntry key value entries) :
    (entry.2 = value ∧ entry.1.components = key.components ∧
      (entry.1 = key ∨ ∃ v, (entry.1, v) ∈ entries)) ∨ entry ∈ entries := by
  induction entries with
  | nil =>
      rw [List.mem_singleton.mp h]
      exact Or.inl ⟨rfl, rfl, Or.inl rfl⟩
  | cons first rest ih =>
      obtain ⟨k, v⟩ := first
      unfold insertEntry at h
      cases hcmp : Path.compare key k with
      | lt =>
          rw [hcmp] at h
          rcases List.mem_cons.mp h with rfl | h
          · exact Or.inl ⟨rfl, rfl, Or.inl rfl⟩
          · exact Or.inr h
      | eq =>
          rw [hcmp] at h
          rcases List.mem_cons.mp h with rfl | h
          · -- the old spelling of the key stays, with the new value
            exact Or.inl ⟨rfl, (Path.compare_eq_iff.mp hcmp).symm,
              Or.inr ⟨v, List.mem_cons_self⟩⟩
          · exact Or.inr (List.mem_cons_of_mem _ h)
      | gt =>
          rw [hcmp] at h
          rcases List.mem_cons.mp h with rfl | h
          · exact Or.inr List.mem_cons_self
          · rcases ih h with ⟨h1, h2, h3⟩ | h
            · refine Or.inl ⟨h1, h2, h3.imp_right ?_⟩
              rintro ⟨w, hw⟩
              exact ⟨w, List.mem_cons_of_mem _ hw⟩
            · exact Or.inr (List.mem_cons_of_mem _ h)

/-- **Inserting keeps a map sorted.** -/
theorem Sorted.insert {m : PathMap α} (h : m.Sorted) (key : Path) (value : α) :
    (m.insert key value).Sorted := by
  obtain ⟨entries⟩ := m
  show (insertEntry key value entries).Pairwise _
  induction entries with
  | nil => exact List.pairwise_singleton _ _
  | cons entry rest ih =>
      obtain ⟨k, v⟩ := entry
      obtain ⟨hfirst, hrest⟩ := List.pairwise_cons.mp h
      unfold insertEntry
      cases hcmp : Path.compare key k with
      | lt =>
          refine List.pairwise_cons.mpr ⟨?_, h⟩
          intro other hother
          rcases List.mem_cons.mp hother with rfl | hother
          · exact hcmp
          · exact Path.lt_trans hcmp (hfirst other hother)
      | eq => exact List.pairwise_cons.mpr ⟨hfirst, hrest⟩
      | gt =>
          refine List.pairwise_cons.mpr ⟨?_, ih hrest⟩
          intro other hother
          rcases mem_insertEntry hother with ⟨-, hsame, -⟩ | hmem
          · show Path.compare k other.1 = .lt
            exact Path.lt_of_gt ((Path.compare_congr hsame).trans hcmp)
          · exact hfirst other hmem

/-- Erasing a key keeps a map sorted. -/
theorem Sorted.erase {m : PathMap α} (h : m.Sorted) (key : Path) : (m.erase key).Sorted :=
  List.Pairwise.filter _ h

theorem sorted_empty : (empty : PathMap α).Sorted :=
  List.Pairwise.nil

/-- The keys of a sorted map ascend. -/
theorem Sorted.keys {m : PathMap α} (h : m.Sorted) :
    m.keys.Pairwise fun p q => Path.compare p q = .lt :=
  List.Pairwise.map Prod.fst (fun _ _ h => h) h

/-- **Lists of paths in path order are equal if they have the same members.** -/
theorem eq_of_mem_iff {paths paths' : List Path}
    (h : paths.Pairwise fun p q => Path.compare p q = .lt)
    (h' : paths'.Pairwise fun p q => Path.compare p q = .lt) (hmem : ∀ q, q ∈ paths ↔ q ∈ paths') :
    paths = paths' := by
  have hne : ∀ {p q : Path}, Path.compare p q = .lt → p ≠ q := by
    rintro p q hlt rfl
    exact Path.ne_of_lt hlt rfl
  have hperm : paths.Perm paths' :=
    (List.perm_ext_iff_of_nodup (h.imp hne) (h'.imp hne)).mpr hmem
  exact hperm.eq_of_pairwise (fun p q _ _ hpq hqp => absurd rfl (hne (Path.lt_trans hpq hqp))) h h'

/-- A binding adds its key, unless it is there in some spelling. -/
theorem Sorted.mem_keys_insert {m : PathMap α} (h : m.Sorted) {key : Path} (value : α) {q : Path} :
    q ∈ (m.insert key value).keys ↔ q ∈ m.keys ∨ q = key ∧ m.contains key = false := by
  obtain ⟨entries⟩ := m
  show q ∈ (insertEntry key value entries).map Prod.fst ↔ q ∈ entries.map Prod.fst ∨
    q = key ∧ (entries.any fun entry => entry.1.same key) = false
  induction entries with
  | nil => simp [insertEntry]
  | cons entry rest ih =>
      obtain ⟨k, v⟩ := entry
      obtain ⟨hfirst, hrest⟩ := List.pairwise_cons.mp h
      unfold insertEntry
      cases hcmp : Path.compare key k with
      | lt =>
          -- in front of all keys: it is none of them
          have hnone : ((k, v) :: rest).any (fun entry => entry.1.same key) = false := by
            rw [List.any_eq_false]
            intro entry hentry hsame
            have hlt : Path.compare key entry.1 = .lt := by
              rcases List.mem_cons.mp hentry with rfl | hentry
              · exact hcmp
              · exact Path.lt_trans hcmp (hfirst entry hentry)
            exact Path.ne_of_lt hlt (Path.same_iff.mp hsame).symm
          rw [hnone, List.map_cons, List.mem_cons, and_iff_left rfl, or_comm]
      | eq =>
          have hsame : k.same key = true := Path.same_iff.mpr (Path.compare_eq_iff.mp hcmp).symm
          simp [hsame]
      | gt =>
          have hne : k.same key = false :=
            Path.same_eq_false_iff.mpr (Path.ne_of_lt (Path.lt_of_gt hcmp))
          rw [List.map_cons, List.mem_cons, ih hrest, List.map_cons, List.mem_cons, List.any_cons,
            hne, Bool.false_or, or_assoc]

/-- Inserting behind all keys puts a binding at the end. -/
theorem insertEntry_last {key : Path} {value : α} {entries : List (Path × α)}
    (h : ∀ entry ∈ entries, Path.compare entry.1 key = .lt) :
    insertEntry key value entries = entries ++ [(key, value)] := by
  induction entries with
  | nil => rfl
  | cons entry rest ih =>
      obtain ⟨k, v⟩ := entry
      have hgt : Path.compare key k = .gt :=
        Std.OrientedCmp.gt_of_lt (h (k, v) List.mem_cons_self)
      unfold insertEntry
      rw [hgt, List.cons_append]
      exact congrArg _ (ih fun entry hentry => h entry (List.mem_cons_of_mem _ hentry))

/-- **A map in path order is made by its bindings.** -/
theorem Sorted.insertAll_entries {m : PathMap α} (h : m.Sorted) : insertAll m.entries = m := by
  have hall : ∀ (back front : List (Path × α)),
      (front ++ back).Pairwise (fun a b => Path.compare a.1 b.1 = .lt) →
      back.foldl (fun m entry => m.insert entry.1 entry.2) (PathMap.mk front)
        = PathMap.mk (front ++ back) := by
    intro back
    induction back with
    | nil =>
        intro front _
        rw [List.append_nil]
        rfl
    | cons entry back ih =>
        intro front hpair
        have hinsert : (PathMap.mk front).insert entry.1 entry.2
            = PathMap.mk (front ++ [entry]) := by
          show PathMap.mk (insertEntry entry.1 entry.2 front) = _
          rw [insertEntry_last]
          intro other hother
          exact (List.pairwise_append.mp hpair).2.2 other hother entry List.mem_cons_self
        rw [List.foldl_cons, hinsert, ih (front ++ [entry]) (by simpa using hpair)]
        simp
  exact hall m.entries [] h

/-! ## Maps of bindings -/

section ofList

/-- What holds of the empty map and is kept by each binding holds of the map they
    make. -/
theorem ofList_induct {P : PathMap α → Prop} (hempty : P empty)
    (hadd : ∀ m key value, P m → P ((m.erase key).insert key value))
    (bindings : List (Path × α)) : P (ofList bindings) := by
  have hall : ∀ (bindings : List (Path × α)) (m : PathMap α), P m →
      P (bindings.foldl (fun m entry => (m.erase entry.1).insert entry.1 entry.2) m) := by
    intro bindings
    induction bindings with
    | nil => exact fun m h => h
    | cons entry rest ih => exact fun m h => ih _ (hadd m entry.1 entry.2 h)
  exact hall bindings empty hempty

/-- The map that bindings make is sorted. -/
theorem sorted_ofList (bindings : List (Path × α)) : (ofList bindings).Sorted :=
  ofList_induct sorted_empty (fun _ key value h => (h.erase key).insert key value) bindings

/-- One more binding replaces what the key had. -/
theorem ofList_concat (bindings : List (Path × α)) (key : Path) (value : α) :
    ofList (bindings ++ [(key, value)]) = ((ofList bindings).erase key).insert key value := by
  unfold ofList
  rw [List.foldl_append]
  rfl

/-- The last binding of a path counts. -/
theorem get?_ofList_concat (bindings : List (Path × α)) (key : Path) (value : α) (q : Path) :
    (ofList (bindings ++ [(key, value)])).get? q
      = if key.components = q.components then some value else (ofList bindings).get? q := by
  rw [ofList_concat, get?_insert, get?_erase]
  by_cases h : key.components = q.components
  · rw [if_pos h, if_pos h]
  · rw [if_neg h, if_neg h, if_neg h]

/-- What is bound was bound by one of the bindings, as it is spelled. -/
theorem mem_ofList {bindings : List (Path × α)} {entry : Path × α}
    (h : entry ∈ (ofList bindings).entries) : entry ∈ bindings := by
  induction bindings using List.reverseRecOn with
  | nil => exact nomatch h
  | append_singleton bindings last ih =>
      obtain ⟨key, value⟩ := last
      rw [ofList_concat] at h
      rcases mem_insertEntry h with ⟨hvalue, hsame, hkey⟩ | hmem
      · rcases hkey with hkey | ⟨v, hv⟩
        · refine List.mem_append.mpr (Or.inr (List.mem_singleton.mpr ?_))
          rw [← hkey, ← hvalue]
        · have := (List.mem_filter.mp hv).2
          rw [show (entry.1, v).1.same key = true from Path.same_iff.mpr hsame] at this
          exact nomatch this
      · exact List.mem_append.mpr (Or.inl (ih (List.mem_filter.mp hmem).1))

/-- A path is bound if a binding of it, in any spelling, is among the
    bindings, and only then. -/
theorem get?_ofList_isSome {bindings : List (Path × α)} {q : Path} :
    ((ofList bindings).get? q).isSome = true ↔
      ∃ entry ∈ bindings, entry.1.components = q.components := by
  induction bindings using List.reverseRecOn with
  | nil =>
      constructor
      · exact fun h => nomatch h
      · rintro ⟨entry, h, -⟩
        exact nomatch h
  | append_singleton bindings last ih =>
      obtain ⟨key, value⟩ := last
      rw [get?_ofList_concat]
      by_cases h : key.components = q.components
      · rw [if_pos h]
        exact ⟨fun _ => ⟨(key, value), by simp, h⟩, fun _ => rfl⟩
      · rw [if_neg h, ih]
        constructor
        · rintro ⟨entry, hmem, hsame⟩
          exact ⟨entry, List.mem_append.mpr (Or.inl hmem), hsame⟩
        · rintro ⟨entry, hmem, hsame⟩
          rcases List.mem_append.mp hmem with hmem | hmem
          · exact ⟨entry, hmem, hsame⟩
          · rw [List.mem_singleton.mp hmem] at hsame
            exact absurd hsame h

/-- When no path is bound twice, every binding is found. -/
theorem get?_ofList_of_mem {bindings : List (Path × α)}
    (hdistinct : bindings.Pairwise fun a b => a.1.components ≠ b.1.components)
    {key : Path} {value : α} (hmem : (key, value) ∈ bindings) :
    (ofList bindings).get? key = some value := by
  induction bindings using List.reverseRecOn with
  | nil => exact nomatch hmem
  | append_singleton bindings last ih =>
      obtain ⟨k, v⟩ := last
      obtain ⟨hfront, -, hcross⟩ := List.pairwise_append.mp hdistinct
      rw [get?_ofList_concat]
      rcases List.mem_append.mp hmem with hmem | hmem
      · have hne : k.components ≠ key.components :=
          fun h => hcross (key, value) hmem (k, v) (List.mem_singleton.mpr rfl) h.symm
        rw [if_neg hne]
        exact ih hfront hmem
      · obtain ⟨rfl, rfl⟩ := Prod.mk.inj (List.mem_singleton.mp hmem)
        rw [if_pos rfl]

/-- Bindings of different keys are all kept. -/
theorem size_ofList {bindings : List (Path × α)}
    (hdistinct : bindings.Pairwise fun a b => a.1.components ≠ b.1.components) :
    (ofList bindings).size = bindings.length := by
  have hinsert : ∀ (key : Path) (value : α) (entries : List (Path × α)),
      (∀ entry ∈ entries, entry.1.components ≠ key.components) →
      (insertEntry key value entries).length = entries.length + 1 := by
    intro key value entries h
    induction entries with
    | nil => rfl
    | cons entry rest ih =>
        obtain ⟨k, v⟩ := entry
        unfold insertEntry
        cases hcmp : Path.compare key k with
        | lt => rfl
        | eq =>
            exact absurd (Path.compare_eq_iff.mp hcmp).symm (h (k, v) List.mem_cons_self)
        | gt =>
            have := ih fun entry hentry => h entry (List.mem_cons_of_mem _ hentry)
            simp only [List.length_cons, this]
  induction bindings using List.reverseRecOn with
  | nil => rfl
  | append_singleton bindings last ih =>
      obtain ⟨key, value⟩ := last
      obtain ⟨hfront, -, hcross⟩ := List.pairwise_append.mp hdistinct
      have hne : ∀ entry ∈ (ofList bindings).entries, entry.1.components ≠ key.components :=
        fun entry hentry h => hcross entry (mem_ofList hentry) (key, value)
          (List.mem_singleton.mpr rfl) h
      -- a new key erases nothing
      have herase : (ofList bindings).erase key = ofList bindings := by
        refine congrArg PathMap.mk (List.filter_eq_self.mpr ?_)
        intro entry hentry
        rw [Path.same_eq_false_iff.mpr (hne entry hentry)]
        rfl
      rw [ofList_concat, herase, List.length_append, List.length_singleton, ← ih hfront]
      exact hinsert key value _ hne

end ofList

end PathMap

end ProjectBuild
