import ProjectBuild.Proofs.Json.Scalar

/-! # Reading back maps and structures

    Both are written as an object, one key a line, and both are read in rounds,
    one for each key.  Before a round the unread text consists of the keys that
    are left and the end of the object (`keysText`); a round takes the first of
    them off (`nextKey_keysText`, `colon_keysText`).  As every key takes at
    least one character, there are enough rounds.

    A structure is put together from its fields by `Slot`s: what is known of
    reading one field back is all that reading the structure back needs. -/

namespace ProjectBuild.Json

open Pretty (indent fields)

/-! ## The text of an object -/

/-- The end of an object that has keys. -/
def closing (level : Nat) (rest : List Char) : List Char :=
  '\n' :: (indent level ++ '}' :: rest)

/-- What is left of an object before a round: the keys, with the comma that
    separates them from those before, and its end. -/
def keysText (first : Bool) (level : Nat) (content : List (String × Printer))
    (rest : List Char) : List Char :=
  match content with
  | [] => rest
  | content => (if first then [] else [',']) ++ (fields level content ++ rest)

/-- A key is written on a line of its own, with its value. -/
theorem keysText_cons (first : Bool) (level : Nat) (key : String) (value : Printer)
    (content : List (String × Printer)) (rest : List Char) :
    keysText first level ((key, value) :: content) rest
      = (if first then [] else [',']) ++ ('\n' :: (indent level ++ (Pretty.literal key ++
          (':' :: ' ' :: (value level ++ keysText false level content rest))))) := by
  cases content with
  | nil => simp [keysText, fields]
  | cons entry content => simp [keysText, fields]

theorem closing_ends (level : Nat) (rest : List Char) : Ends (closing level rest) :=
  Or.inr ⟨'\n', _, rfl, Or.inr rfl⟩

/-- What follows a value begins as what may follow one. -/
theorem keysText_ends {rest : List Char} (level : Nat) (content : List (String × Printer))
    (hrest : Ends rest) : Ends (keysText false level content rest) := by
  cases content with
  | nil => exact hrest
  | cons entry content => exact Or.inr ⟨',', _, rfl, Or.inl rfl⟩

/-- Every key takes at least one character. -/
theorem length_fields (level : Nat) (content : List (String × Printer)) :
    content.length ≤ (fields level content).length := by
  induction content with
  | nil => exact Nat.le_refl 0
  | cons entry content ih =>
      obtain ⟨key, value⟩ := entry
      cases content with
      | nil => simp [fields]
      | cons entry' content =>
          have hfields : fields level ((key, value) :: entry' :: content)
              = '\n' :: indent level ++ Pretty.literal key ++ [':', ' '] ++ value level ++
                ',' :: fields level (entry' :: content) := rfl
          rw [hfields]
          simp only [List.length_cons, List.length_append] at ih ⊢
          omega

/-- An object is written as its keys between braces. -/
theorem object_eq (level : Nat) {content : List (String × Printer)} (h : content ≠ [])
    (rest : List Char) :
    Pretty.object content level ++ rest
      = '{' :: keysText true (level + 1) content (closing level rest) := by
  cases content with
  | nil => exact absurd rfl h
  | cons entry content => simp [Pretty.object, keysText, closing]

/-! ## The parts of a round -/

theorem isSpace_indent (level : Nat) : ∀ c ∈ '\n' :: indent level, Cursor.isSpace c = true := by
  intro c hc
  rcases List.mem_cons.mp hc with rfl | hc
  · decide
  · rw [(List.mem_replicate.mp hc).2]
    decide

/-- The end of an object is no key. -/
theorem nextKey_closing (first : Bool) (level : Nat) (rest : List Char) (p : Position) :
    Read.nextKey first ⟨closing level rest, p⟩ = .ok none := by
  obtain ⟨p', hskip⟩ := skipSpace_blank '}' rest p (isSpace_indent level)
    (by decide)
  unfold Read.nextKey
  simp only [show closing level rest = '\n' :: indent level ++ '}' :: rest from rfl, hskip]

/-- The closing of an object is read as its end. -/
theorem endObject_closing (level : Nat) (rest : List Char) (p : Position) :
    ∃ p', Read.endObject ⟨closing level rest, p⟩ = .ok ⟨rest, p'⟩ := by
  obtain ⟨p', hskip⟩ := skipSpace_blank '}' rest p (isSpace_indent level)
    (by decide)
  refine ⟨p'.after '}' ('}' : Char).utf8Size, ?_⟩
  unfold Read.endObject
  simp only [show closing level rest = '\n' :: indent level ++ '}' :: rest from rfl, hskip]
  rfl

/-- The next key of an object. -/
theorem nextKey_keysText (first : Bool) (level : Nat) (key : String) (value : Printer)
    (content : List (String × Printer)) (rest : List Char) (p : Position) :
    ∃ p', Read.nextKey first ⟨keysText first level ((key, value) :: content) rest, p⟩
      = .ok (some (key,
          ⟨':' :: ' ' :: (value level ++ keysText false level content rest), p'⟩)) := by
  rw [keysText_cons, literal_eq]
  -- how the text goes on behind the key does not matter
  generalize ':' :: ' ' :: (value level ++ keysText false level content rest) = behind
  cases first with
  | true =>
      obtain ⟨p1, hskip⟩ := skipSpace_blank '"'
        (key.toList.flatMap Pretty.escape ++ '"' :: behind) p (isSpace_indent level)
        (by decide)
      obtain ⟨p2, hread⟩ := Literal.read_literal key behind
        (p1.after '"' ('"' : Char).utf8Size)
      refine ⟨p2, ?_⟩
      unfold Read.nextKey
      simp only [if_true, List.nil_append]
      rw [show '\n' :: (indent level ++ '"' :: (key.toList.flatMap Pretty.escape ++ '"' :: behind))
        = '\n' :: indent level ++ '"' :: (key.toList.flatMap Pretty.escape ++ '"' :: behind)
        from rfl, hskip]
      simp only [Cursor.past, hread]
      rfl
  | false =>
      obtain ⟨p1, hskip⟩ := skipSpace_blank ','
        ('\n' :: (indent level ++
          '"' :: (key.toList.flatMap Pretty.escape ++ '"' :: behind))) p
        (List.forall_mem_nil fun c => Cursor.isSpace c = true) (by decide)
      obtain ⟨p2, hskip2⟩ := skipSpace_blank '"'
        (key.toList.flatMap Pretty.escape ++ '"' :: behind)
        (p1.after ',' (',' : Char).utf8Size) (isSpace_indent level) (by decide)
      obtain ⟨p3, hread⟩ := Literal.read_literal key behind
        (p2.after '"' ('"' : Char).utf8Size)
      refine ⟨p3, ?_⟩
      unfold Read.nextKey
      simp only [Bool.false_eq_true, if_false]
      rw [List.nil_append] at hskip
      rw [show [','] ++ '\n' :: (indent level ++
          '"' :: (key.toList.flatMap Pretty.escape ++ '"' :: behind))
        = ',' :: '\n' :: (indent level ++
          '"' :: (key.toList.flatMap Pretty.escape ++ '"' :: behind)) from rfl, hskip]
      simp only [Cursor.past]
      rw [show '\n' :: (indent level ++ '"' :: (key.toList.flatMap Pretty.escape ++ '"' :: behind))
        = '\n' :: indent level ++ '"' :: (key.toList.flatMap Pretty.escape ++ '"' :: behind)
        from rfl, hskip2]
      simp only [hread]
      rfl

/-- A colon behind a key is read. -/
theorem colon_keysText (rest : List Char) (p : Position) :
    ∃ p', Read.colon ⟨':' :: rest, p⟩ = .ok ⟨rest, p'⟩ :=
  ⟨p.after ':' (':' : Char).utf8Size, rfl⟩

theorem isSpace_blank : ∀ c ∈ [' '], Cursor.isSpace c = true := by
  intro c hc
  rw [List.mem_singleton.mp hc]
  rfl

/-! ## Maps -/

section map

variable {α : Type} {value : Reader α} {printer : α → Printer} {ok : α → Prop}

/-- The bindings of a map as they are written. -/
def written (printer : α → Printer) (entries : List (String × α)) : List (String × Printer) :=
  entries.map fun entry => (entry.1, printer entry.2)

/-- **Bindings are recovered** one by one. -/
theorem bindings_recovers (level outer : Nat) (rest : List Char) (entries : List (String × α))
    (hvalue : ∀ entry ∈ entries, ∀ level,
      Recovers (ok entry.2) value (printer entry.2 level) entry.2) {rounds : Nat}
    (hrounds : entries.length < rounds) (first : Bool) (read : List (String × α))
    (p : Position) :
    (∃ p', Read.bindings value rounds first read
        ⟨keysText first level (written printer entries) (closing outer rest), p⟩
      = .ok (read.reverse ++ entries, ⟨closing outer rest, p'⟩)) ∨
    (¬ (∀ entry ∈ entries, ok entry.2) ∧ ∃ fault, Read.bindings value rounds first read
        ⟨keysText first level (written printer entries) (closing outer rest), p⟩
      = .error fault) := by
  induction entries generalizing rounds first read p with
  | nil =>
      cases rounds with
      | zero => exact absurd hrounds (Nat.not_lt_zero _)
      | succ rounds =>
          refine Or.inl ⟨p, ?_⟩
          show Read.bindings value (rounds + 1) first read ⟨closing outer rest, p⟩ = _
          unfold Read.bindings
          simp only [nextKey_closing, bind, Except.bind, List.append_nil]
          rfl
  | cons entry entries ih =>
      obtain ⟨key, x⟩ := entry
      cases rounds with
      | zero => exact absurd hrounds (Nat.not_lt_zero _)
      | succ rounds =>
          obtain ⟨p1, hkey⟩ := nextKey_keysText first level key (printer x)
            (written printer entries) (closing outer rest) p
          obtain ⟨p2, hcolon⟩ := colon_keysText (' ' :: (printer x level ++
            keysText false level (written printer entries) (closing outer rest))) p1
          have hread := hvalue (key, x) List.mem_cons_self level [' ']
            (keysText false level (written printer entries) (closing outer rest)) p2
            isSpace_blank (keysText_ends level _ (closing_ends outer rest))
          rw [List.singleton_append] at hread
          -- one round reads a key, a colon and a value
          have hround : Read.bindings value (rounds + 1) first read
              ⟨keysText first level (written printer ((key, x) :: entries))
                (closing outer rest), p⟩
              = (value ⟨' ' :: (printer x level ++
                  keysText false level (written printer entries) (closing outer rest)), p2⟩).bind
                fun found => Read.bindings value rounds false ((key, found.1) :: read) found.2 := by
            rw [show written printer ((key, x) :: entries)
              = (key, printer x) :: written printer entries from rfl, Read.bindings]
            simp only [hkey, hcolon, bind, Except.bind]
          rw [hround]
          rcases hread with ⟨p3, hread⟩ | ⟨hbad, fault, hread⟩
          · simp only [hread, Except.bind]
            rcases ih (fun entry hentry => hvalue entry (List.mem_cons_of_mem _ hentry))
              (Nat.lt_of_succ_lt_succ hrounds) false ((key, x) :: read) p3 with
              ⟨p4, hrest⟩ | ⟨hbad, fault, hrest⟩
            · refine Or.inl ⟨p4, ?_⟩
              rw [hrest, List.reverse_cons, List.append_assoc]
              rfl
            · exact Or.inr ⟨fun h => hbad fun entry hentry =>
                h entry (List.mem_cons_of_mem _ hentry), fault, hrest⟩
          · refine Or.inr ⟨fun h => hbad (h (key, x) List.mem_cons_self), fault, ?_⟩
            simp only [hread, Except.bind]

/-- **A written map is read back.** -/
theorem map_recovers (entries : List (String × α))
    (hvalue : ∀ entry ∈ entries, ∀ level,
      Recovers (ok entry.2) value (printer entry.2 level) entry.2) (level : Nat) :
    Recovers (∀ entry ∈ entries, ok entry.2) (Read.map value)
      (Pretty.object (written printer entries) level) entries := by
  intro blank rest p hblank hrest
  cases entries with
  | nil =>
      obtain ⟨p', hskip⟩ := skipSpace_blank '{' ('}' :: rest) p hblank (by decide)
      refine Or.inl ⟨(p'.after '{' ('{' : Char).utf8Size).after '}' ('}' : Char).utf8Size, ?_⟩
      unfold Read.map
      rw [show Pretty.object (written printer []) level ++ rest = '{' :: '}' :: rest from rfl]
      simp only [hskip]
      rfl
  | cons entry entries =>
      have hne : written printer (entry :: entries) ≠ [] := List.cons_ne_nil _ _
      rw [object_eq level hne]
      obtain ⟨p1, hskip⟩ := skipSpace_blank '{'
        (keysText true (level + 1) (written printer (entry :: entries))
          (closing level rest)) p hblank (by decide)
      have hrounds : (entry :: entries).length < (keysText true (level + 1)
          (written printer (entry :: entries)) (closing level rest)).length + 1 := by
        have h1 := length_fields (level + 1) (written printer (entry :: entries))
        have h2 : (keysText true (level + 1) (written printer (entry :: entries))
            (closing level rest)).length
            = (fields (level + 1) (written printer (entry :: entries))).length
              + (closing level rest).length := by
          rw [← List.length_append]
          rfl
        rw [show (written printer (entry :: entries)).length = (entry :: entries).length from
          List.length_map _] at h1
        omega
      have hbody := bindings_recovers (level + 1) level rest (entry :: entries) hvalue hrounds
        true [] (p1.after '{' ('{' : Char).utf8Size)
      unfold Read.map
      simp only [hskip, Cursor.past, Read.inObject]
      rcases hbody with ⟨p2, hbody⟩ | ⟨hbad, fault, hbody⟩
      · obtain ⟨p3, hend⟩ := endObject_closing level rest p2
        refine Or.inl ⟨p3, ?_⟩
        simp only [hbody, hend]
        rfl
      · refine Or.inr ⟨hbad, Read.place Read.closedObject fault, ?_⟩
        simp only [hbody]

end map

/-! ## Structures -/

/-- A field of a structure together with its written value: reading the value
    back leads to the update. -/
structure Slot (σ : Type) where
  field : Field σ
  printer : Printer
  update : σ → σ
  ok : Prop
  reads : ∀ filled level, Recovers ok (field.fill filled) (printer level) (update filled)

namespace Slot

variable {σ : Type}

def key (slot : Slot σ) : String × Printer :=
  (slot.field.name, slot.printer)

def names (slots : List (Slot σ)) : List String :=
  slots.map fun slot => slot.field.name

/-- What the structure comes to when the slots are filled in order. -/
def fillAll (slots : List (Slot σ)) (blank : σ) : σ :=
  slots.foldl (fun filled slot => slot.update filled) blank

end Slot

section shape

variable {σ : Type} {shape : Shape σ} {slots : List (Slot σ)}

/-- A field is found under its name. -/
theorem find?_name {fields : List (Field σ)} (hnodup : (fields.map Field.name).Nodup)
    {field : Field σ} (hmem : field ∈ fields) :
    fields.find? (fun f => f.name == field.name) = some field := by
  induction fields with
  | nil => exact nomatch hmem
  | cons first rest ih =>
      obtain ⟨hnotin, hnodup⟩ := List.nodup_cons.mp hnodup
      rw [List.find?_cons]
      rcases List.mem_cons.mp hmem with rfl | hmem
      · rw [beq_self_eq_true]
      · have hne : (first.name == field.name) = false := by
          rw [beq_eq_false_iff_ne]
          exact fun h => hnotin (h ▸ List.mem_map_of_mem hmem)
        rw [hne]
        exact ih hnodup hmem

/-- One round over a structure: the first of the slots that are left. -/
theorem readKeys_round (hfields : shape.fields = slots.map Slot.field)
    (hnodup : (Slot.names slots).Nodup) {slot : Slot σ} (hslot : slot ∈ slots)
    {seen : List String} (hseen : slot.field.name ∉ seen) (rounds : Nat) (first : Bool)
    (filled : σ) (level outer : Nat) (todo : List (Slot σ)) (rest : List Char) (p : Position) :
    ∃ p', shape.readKeys (rounds + 1) first seen filled
        ⟨keysText first level ((slot :: todo).map Slot.key) (closing outer rest), p⟩
      = (do
        let (filled, c) ← slot.field.fill filled ⟨[' '] ++ (slot.printer level ++
          keysText false level (todo.map Slot.key) (closing outer rest)), p'⟩
        shape.readKeys rounds false (slot.field.name :: seen) filled c) := by
  obtain ⟨p1, hkey⟩ := nextKey_keysText first level slot.field.name slot.printer
    (todo.map Slot.key) (closing outer rest) p
  obtain ⟨p2, hcolon⟩ := colon_keysText (' ' :: (slot.printer level ++
    keysText false level (todo.map Slot.key) (closing outer rest))) p1
  have hfind : shape.fields.find? (fun f => f.name == slot.field.name) = some slot.field := by
    rw [hfields]
    refine find?_name ?_ (List.mem_map_of_mem hslot)
    rw [List.map_map]
    exact hnodup
  have hcontains : seen.contains slot.field.name = false := by
    rw [← Bool.not_eq_true, List.contains_iff_mem]
    exact hseen
  refine ⟨p2, ?_⟩
  rw [show (slot :: todo).map Slot.key
    = (slot.field.name, slot.printer) :: todo.map Slot.key from rfl, Shape.readKeys]
  simp only [hkey, hfind, hcontains, hcolon, bind, Except.bind]
  rfl

/-- **Keys are recovered** in the order of the fields. -/
theorem readKeys_recovers (hfields : shape.fields = slots.map Slot.field)
    (hnodup : (Slot.names slots).Nodup) (level outer : Nat) (rest : List Char)
    {done todo : List (Slot σ)} (hslots : slots = done ++ todo) {rounds : Nat}
    (hrounds : todo.length < rounds) (first : Bool) (filled : σ) (p : Position) :
    (∃ p', shape.readKeys rounds first (Slot.names done).reverse filled
        ⟨keysText first level (todo.map Slot.key) (closing outer rest), p⟩
      = .ok (Slot.fillAll todo filled, ⟨closing outer rest, p'⟩)) ∨
    (¬ (∀ slot ∈ todo, slot.ok) ∧ ∃ fault,
      shape.readKeys rounds first (Slot.names done).reverse filled
        ⟨keysText first level (todo.map Slot.key) (closing outer rest), p⟩ = .error fault) := by
  -- on the slots not yet read: the names of those that are read are `seen`
  induction todo generalizing done rounds first filled p with
  | nil =>
      cases rounds with
      | zero => exact absurd hrounds (Nat.not_lt_zero _)
      | succ rounds =>
          refine Or.inl ⟨p, ?_⟩
          -- nothing required is missing, as all slots have been read
          have hmissing : shape.fields.find?
              (fun f => f.required && !(Slot.names done).reverse.contains f.name) = none := by
            rw [List.find?_eq_none]
            intro f hf
            rw [hfields, hslots, List.append_nil] at hf
            obtain ⟨slot, hslot, rfl⟩ := List.mem_map.mp hf
            have hmem : (Slot.names done).reverse.contains slot.field.name = true := by
              rw [List.contains_iff_mem, List.mem_reverse]
              exact List.mem_map_of_mem (f := fun slot : Slot σ => slot.field.name) hslot
            rw [hmem, Bool.not_true, Bool.and_false]
            exact Bool.false_ne_true
          show shape.readKeys (rounds + 1) first _ filled ⟨closing outer rest, p⟩ = _
          rw [Shape.readKeys]
          simp only [nextKey_closing, bind, Except.bind, hmissing]
          rfl
  | cons slot todo ih =>
      cases rounds with
      | zero => exact absurd hrounds (Nat.not_lt_zero _)
      | succ rounds =>
          have hmem : slot ∈ slots := by
            rw [hslots]
            simp
          -- names differ, so this one does not come a second time
          have hseen : slot.field.name ∉ (Slot.names done).reverse := by
            rw [List.mem_reverse]
            intro hin
            have hn := hnodup
            rw [hslots] at hn
            unfold Slot.names at hn hin
            rw [List.map_append, List.map_cons] at hn
            exact (List.nodup_append.mp hn).2.2 _ hin _ List.mem_cons_self rfl
          obtain ⟨p1, hround⟩ := readKeys_round hfields hnodup hmem hseen rounds first filled level
            outer todo rest p
          rw [hround]
          rcases slot.reads filled level [' ']
              (keysText false level (todo.map Slot.key) (closing outer rest)) p1 isSpace_blank
              (keysText_ends level _ (closing_ends outer rest)) with
            ⟨p2, hread⟩ | ⟨hbad, fault, hread⟩
          · simp only [hread, bind, Except.bind]
            have hslots' : slots = (done ++ [slot]) ++ todo := by
              rw [hslots]
              simp
            have hnext := ih hslots' (Nat.lt_of_succ_lt_succ hrounds) false (slot.update filled) p2
            have hnames : (Slot.names (done ++ [slot])).reverse
                = slot.field.name :: (Slot.names done).reverse := by
              unfold Slot.names
              rw [List.map_append, List.reverse_append]
              rfl
            rw [hnames] at hnext
            rcases hnext with hok | ⟨hbad, fault, herror⟩
            · exact Or.inl hok
            · exact Or.inr ⟨fun h => hbad fun slot' hslot' =>
                h slot' (List.mem_cons_of_mem _ hslot'), fault, herror⟩
          · refine Or.inr ⟨fun h => hbad (h slot List.mem_cons_self), fault, ?_⟩
            simp only [hread, bind, Except.bind]

/-- **A written structure is read back**, if its last look at the fields lets
    it pass. -/
theorem shape_recovers (hfields : shape.fields = slots.map Slot.field)
    (hnodup : (Slot.names slots).Nodup) (hne : slots ≠ []) (level : Nat) :
    Recovers ((∀ slot ∈ slots, slot.ok) ∧ shape.check (Slot.fillAll slots shape.blank) = none)
      shape.read (Pretty.object (slots.map Slot.key) level)
      (Slot.fillAll slots shape.blank) := by
  intro blank rest p hblank hrest
  have hne' : slots.map Slot.key ≠ [] := fun h => hne (List.map_eq_nil_iff.mp h)
  rw [object_eq level hne']
  obtain ⟨p1, hskip⟩ := skipSpace_blank '{'
    (keysText true (level + 1) (slots.map Slot.key) (closing level rest)) p hblank
    (by decide)
  -- each member takes up text, so there are rounds enough for all of them
  have hrounds : slots.length < (keysText true (level + 1) (slots.map Slot.key)
      (closing level rest)).length + 1 := by
    have h1 := length_fields (level + 1) (slots.map Slot.key)
    have h2 : (keysText true (level + 1) (slots.map Slot.key) (closing level rest)).length
        = (fields (level + 1) (slots.map Slot.key)).length + (closing level rest).length := by
      cases hkeys : slots.map Slot.key with
      | nil => exact absurd hkeys hne'
      | cons entry entries =>
          rw [← List.length_append]
          rfl
    rw [List.length_map] at h1
    omega
  have hbody := readKeys_recovers hfields hnodup (level + 1) level rest
    (show slots = [] ++ slots from rfl) hrounds true shape.blank (p1.after '{' ('{' : Char).utf8Size)
  unfold Shape.read
  simp only [hskip, Cursor.past, Read.inObject, Shape.checked]
  rw [show (Slot.names ([] : List (Slot σ))).reverse = [] from rfl] at hbody
  rcases hbody with ⟨p2, hbody⟩ | ⟨hbad, fault, hbody⟩
  · obtain ⟨p3, hend⟩ := endObject_closing level rest p2
    simp only [hbody, bind, Except.bind]
    cases hcheck : shape.check (Slot.fillAll slots shape.blank) with
    | none =>
        refine Or.inl ⟨p3, ?_⟩
        simp only [pure, Except.pure, hend]
        rfl
    | some problem =>
        exact Or.inr ⟨fun h => (nomatch h.2), _, rfl⟩
  · simp only [hbody, bind, Except.bind]
    exact Or.inr ⟨fun h => hbad h.1, _, rfl⟩

end shape

end ProjectBuild.Json
