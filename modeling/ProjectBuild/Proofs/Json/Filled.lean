import ProjectBuild.Proofs.Json.Understood

/-! # What structures are filled with

    A structure is filled with the members of an object one after the other
    (`Shape.entered`), or with the elements of a list in the order of its fields
    (`Shape.listed`).  So what an object means depends on its keys and values in
    their order, and on nothing else: not on where it stands, and not on white
    space or escapes.  A reader of structures understands that meaning if it
    understands each field (`shape_understands`). -/

namespace ProjectBuild.Json

/-! ## Objects -/

/-- The end of an object is read where it stands. -/
theorem endObject_reads (closing : Blank) (rest : List Char) (p : Position) :
    ∃ p', Read.endObject ⟨closing.chars ++ '}' :: rest, p⟩ = .ok ⟨rest, p'⟩ := by
  obtain ⟨p', hskip⟩ := skipSpace_blank '}' rest p closing.isSpace rfl
  refine ⟨p'.after '}' ('}' : Char).utf8Size, ?_⟩
  unfold Read.endObject
  simp only [hskip]
  rfl

/-- Where the end of an object was read, it stands. -/
theorem endObject_written {c c' : Cursor} (h : Read.endObject c = .ok c') :
    ∃ closing, c.rest = Blank.chars closing ++ '}' :: c'.rest := by
  obtain ⟨cs, p⟩ := c
  obtain ⟨blank, cs, p', rfl, hskip, -⟩ := skipSpace_split cs p
  unfold Read.endObject at h
  simp only [hskip] at h
  split at h
  · obtain rfl := Except.ok.inj h
    exact ⟨blank, rfl⟩
  · exact nomatch h
  · exact nomatch h
  · exact nomatch h

/-- What the body of an object finds is found in the object. -/
theorem found_inObject {α : Type} {body : Reader α} {c : Cursor} {x? : Option α}
    (closing : Blank) (rest : List Char)
    (h : found (body c) = x?.map fun x => (x, closing.chars ++ '}' :: rest)) :
    found (Read.inObject body c) = x?.map fun x => (x, rest) :=
  found_close (endObject_reads closing rest) h

/-- What is found in an object is found by its body, before the closing brace. -/
theorem inObject_found {α : Type} {body : Reader α} {c : Cursor} {x : α} {rest : List Char}
    (h : found (Read.inObject body c) = some (x, rest)) :
    ∃ closing, found (body c) = some (x, Blank.chars closing ++ '}' :: rest) := by
  obtain ⟨c', c'', hbody, hend, rfl⟩ := close_found h
  obtain ⟨closing, hclosing⟩ := endObject_written hend
  exact ⟨closing, hbody.trans (congrArg (fun rest => some (x, rest)) hclosing)⟩

/-- A colon is read where it stands. -/
theorem colon_reads (blank : Blank) (rest : List Char) (p : Position) :
    ∃ p', Read.colon ⟨blank.chars ++ ':' :: rest, p⟩ = .ok ⟨rest, p'⟩ := by
  obtain ⟨p', hskip⟩ := skipSpace_blank ':' rest p blank.isSpace rfl
  refine ⟨p'.after ':' (':' : Char).utf8Size, ?_⟩
  unfold Read.colon
  simp only [hskip]
  rfl

/-- Where a colon was read, it stands. -/
theorem colon_written {c c' : Cursor} (h : Read.colon c = .ok c') :
    ∃ blank, c.rest = Blank.chars blank ++ ':' :: c'.rest := by
  obtain ⟨cs, p⟩ := c
  obtain ⟨blank, cs, p', rfl, hskip, -⟩ := skipSpace_split cs p
  unfold Read.colon at h
  simp only [hskip] at h
  split at h
  · obtain rfl := Except.ok.inj h
    exact ⟨blank, rfl⟩
  · exact nomatch h
  · exact nomatch h

/-- At the end of an object no key comes next. -/
theorem nextKey_end (first : Bool) (closing : Blank) (rest : List Char) (p : Position) :
    Read.nextKey first ⟨closing.chars ++ '}' :: rest, p⟩ = .ok none := by
  obtain ⟨p', hskip⟩ := skipSpace_blank '}' rest p closing.isSpace rfl
  unfold Read.nextKey
  simp only [hskip]

/-- The text behind the key of a member. -/
def Member.behindKey (m : Member Value) (rest : List Char) : List Char :=
  m.beforeColon.chars ++ ':' :: (m.afterColon.chars ++ m.value.text rest)

/-- The next key is read as the literal of the next member. -/
theorem nextKey_literal (first : Bool) (m : Member Value) (members : List (Member Value))
    (rest : List Char) (p : Position) :
    ∃ p', Read.nextKey first ⟨membersText rest first (m :: members), p⟩
      = (Literal.read ⟨literalText (m.behindKey (membersText rest false members)) m.key, p'⟩).map
          some := by
  obtain ⟨lead, gap, key, beforeColon, afterColon, v⟩ := m
  rw [membersText]
  show ∃ p', Read.nextKey first ⟨lead.chars ++ comma (gap.chars ++ '"' :: literalText
    (Member.behindKey ⟨lead, gap, key, beforeColon, afterColon, v⟩ (membersText rest false members))
      key) first, p⟩ = _
  generalize literalText _ key = more
  cases first with
  | true =>
      have htexts : lead.chars ++ comma (gap.chars ++ '"' :: more) true
          = (lead.append gap).chars ++ '"' :: more := (List.append_assoc _ _ _).symm
      obtain ⟨p', hskip⟩ := skipSpace_blank '"' more p (lead.append gap).isSpace rfl
      refine ⟨p'.after '"' ('"' : Char).utf8Size, ?_⟩
      unfold Read.nextKey
      rw [htexts]
      simp only [hskip]
      rfl
  | false =>
      obtain ⟨p1, hlead⟩ := skipSpace_blank ',' (gap.chars ++ '"' :: more) p lead.isSpace rfl
      obtain ⟨p2, hgap⟩ := skipSpace_blank '"' more (p1.after ',' (',' : Char).utf8Size)
        gap.isSpace rfl
      have hpast : Cursor.skipSpace (Cursor.past ',' (gap.chars ++ '"' :: more) p1)
          = ⟨'"' :: more, p2⟩ := hgap
      refine ⟨p2.after '"' ('"' : Char).utf8Size, ?_⟩
      unfold Read.nextKey
      simp only [comma, Bool.false_eq_true, if_false, hlead, hpast]
      rfl

/-- A key is read, or refused because it stands for no text. -/
theorem nextKey_reads (first : Bool) (m : Member Value) (members : List (Member Value))
    (rest : List Char) (p : Position) :
    (spelled m.key = none ∧
      ∃ fault, Read.nextKey first ⟨membersText rest first (m :: members), p⟩ = .error fault) ∨
    ∃ key p', spelled m.key = some key ∧
      Read.nextKey first ⟨membersText rest first (m :: members), p⟩
        = .ok (some (key, ⟨m.behindKey (membersText rest false members), p'⟩)) := by
  obtain ⟨p', hliteral⟩ := nextKey_literal first m members rest p
  have hread := Literal.found_read m.key (m.behindKey (membersText rest false members)) p'
  rw [hliteral]
  cases hkey : spelled m.key with
  | none =>
      rw [hkey] at hread
      obtain ⟨fault, hfault⟩ := found_eq_none.mp hread
      exact Or.inl ⟨rfl, fault, by rw [hfault]; rfl⟩
  | some key =>
      rw [hkey] at hread
      obtain ⟨p'', hkey⟩ := found_eq_some.mp hread
      exact Or.inr ⟨key, p'', rfl, by rw [hkey]; rfl⟩

/-- Where a key was read, a member begins. -/
theorem nextKey_written {first : Bool} {c c' : Cursor} {key : String}
    (h : Read.nextKey first c = .ok (some (key, c'))) :
    ∃ lead gap pieces, c.rest
      = Blank.chars lead ++ comma (Blank.chars gap ++ '"' :: literalText c'.rest pieces) first := by
  have hliteral : ∀ {more : List Char} {p : Position},
      (Literal.read (Cursor.past '"' more p)).map some = .ok (some (key, c')) →
        ∃ pieces, more = literalText c'.rest pieces := by
    intro more p hread
    cases hliteral : Literal.read (Cursor.past '"' more p) with
    | error fault =>
        rw [hliteral] at hread
        exact nomatch hread
    | ok result =>
        rw [hliteral] at hread
        obtain rfl := Option.some.inj (Except.ok.inj hread)
        exact Literal.read_written (congrArg found hliteral)
  obtain ⟨cs, p⟩ := c
  obtain ⟨blank, cs, p', rfl, hskip, -⟩ := skipSpace_split cs p
  unfold Read.nextKey at h
  simp only [hskip] at h
  split at h
  · exact nomatch h
  · exact nomatch h
  · rename_i more
    cases first with
    | true =>
        obtain ⟨pieces, rfl⟩ := hliteral h
        exact ⟨blank, .none, pieces, rfl⟩
    | false => exact nomatch h
  · rename_i more
    cases first with
    | true => exact nomatch h
    | false =>
        obtain ⟨gap, more, p'', rfl, hgap, -⟩ := skipSpace_split more
          (p'.after ',' (',' : Char).utf8Size)
        have hpast : Cursor.skipSpace (Cursor.past ',' (gap.chars ++ more) p') = ⟨more, p''⟩ := hgap
        simp only [Bool.false_eq_true, if_false, hpast] at h
        split at h
        · obtain ⟨pieces, rfl⟩ := hliteral h
          exact ⟨blank, gap, pieces, rfl⟩
        · exact nomatch h
        · exact nomatch h
        · exact nomatch h
  · exact nomatch h

/-- A member is read in front of others, whether its value is kept or skipped. -/
theorem member_written {first : Bool} {key : String} {c c1 c2 c3 : Cursor} {afterColon : Blank}
    {v : Value} {rest : List Char} (hnext : Read.nextKey first c = .ok (some (key, c1)))
    (hcolon : Read.colon c1 = .ok c2) (hvalue : c2.rest = afterColon.chars ++ v.text c3.rest)
    (hothers : ∃ members, c3.rest = membersText rest false members) :
    ∃ members, c.rest = membersText rest first members := by
  obtain ⟨lead, gap, pieces, htext⟩ := nextKey_written hnext
  obtain ⟨beforeColon, hc1⟩ := colon_written hcolon
  obtain ⟨members, hmembers⟩ := hothers
  refine ⟨⟨lead, gap, pieces, beforeColon, afterColon, v⟩ :: members, ?_⟩
  rw [htext, hc1, hvalue, hmembers, membersText]

/-! ## What structures mean -/

/-- A member without its white space. -/
def Member.binding (m : Member Value) : List Piece × Value :=
  (m.key, m.value)

namespace Shape

variable {σ : Type} (shape : Shape σ) (m : String → σ → Value → Option σ)

/-- What a value under a key adds to the names that were seen and the structure
    so far, where `m` tells what the values of the fields make of it. -/
def entered (state : List String × σ) (binding : List Piece × Value) : Option (List String × σ) :=
  (spelled binding.1).bind fun key =>
    if shape.fields.any fun field => field.name == key then
      if state.1.contains key then none
      else (m key state.2 binding.2).map fun filled => (key :: state.1, filled)
    else if shape.closed then none else some state

/-- The structure, unless a required field was not seen. -/
def completed (state : List String × σ) : Option σ :=
  match shape.fields.find? fun field => field.required && !state.1.contains field.name with
  | some _ => none
  | none => some state.2

/-- The structure, if it passes the last look at its fields. -/
def accepted (filled : σ) : Option σ :=
  match shape.check filled with
  | some _ => none
  | none => some filled

/-- The structure filled with elements in the order of its fields, and the
    elements that are left. -/
def listed : List (Field σ) → σ → List (Element Value) → Option (σ × List (Element Value))
  | [], filled, elements => some (filled, elements)
  | field :: fields, filled, [] => if field.required then none else listed fields filled []
  | field :: fields, filled, e :: elements =>
    (m field.name filled e.value).bind fun filled => listed fields filled elements

/-- What a value means where the structure is expected. -/
def meaning : Value → Option σ
  | .object members _ =>
    (((members.map Member.binding).foldlM (shape.entered m) ([], shape.blank)).bind
      shape.completed).bind shape.accepted
  | .list elements _ =>
    match listed m shape.fields shape.blank elements with
    | some (filled, []) => shape.accepted filled
    | _ => none
  | _ => none

/-- The meaning of an object is entered member by member. -/
theorem meaning_object (members : List (Member Value)) (closing : Blank) :
    shape.meaning m (.object members closing)
      = (((members.map Member.binding).foldlM (shape.entered m) ([], shape.blank)).bind
          shape.completed).bind shape.accepted :=
  rfl

/-- The meaning of a list is entered field by field. -/
theorem meaning_list (elements : List (Element Value)) (closing : Blank) :
    shape.meaning m (.list elements closing)
      = match listed m shape.fields shape.blank elements with
        | some (filled, []) => shape.accepted filled
        | _ => none :=
  rfl

end Shape

section shape

variable {σ : Type} {shape : Shape σ} {m : String → σ → Value → Option σ}

/-- What a checked reader finds is what is accepted of what its body finds. -/
theorem found_checked (body : Reader σ) (c : Cursor) :
    found (shape.checked body c) = (found (body c)).bind fun (filled, rest) =>
      (shape.accepted filled).map fun filled => (filled, rest) := by
  unfold Shape.checked Shape.accepted
  cases body c with
  | error fault => rfl
  | ok result =>
      simp only [bind, Except.bind, found, Option.bind_some]
      cases shape.check result.1 with
      | none => rfl
      | some problem => rfl

/-- A checked reader finds nothing that its body does not. -/
theorem checked_found {body : Reader σ} {c : Cursor} {x : σ} {rest : List Char}
    (h : found (shape.checked body c) = some (x, rest)) :
    ∃ filled, found (body c) = some (filled, rest) := by
  rw [found_checked] at h
  obtain ⟨⟨filled, rest'⟩, hbody, haccepted⟩ := Option.bind_eq_some_iff.mp h
  obtain ⟨x', -, heq⟩ := Option.map_eq_some_iff.mp haccepted
  obtain rfl : rest' = rest := (Prod.mk.inj heq).2
  exact ⟨filled, hbody⟩

/-- What is under a key is skipped. -/
theorem skip_reads (blank : Blank) (v : Value) {rest : List Char} (hrest : Delimited rest)
    (p : Position) : ∃ p', Skip.value ⟨blank.chars ++ v.text rest, p⟩ = .ok ⟨rest, p'⟩ := by
  have hskip : left (Skip.value ⟨blank.chars ++ v.text rest, p⟩) = some rest := by
    unfold Skip.value
    rw [Skip.left_run, Skip.scan_blank .value rfl]
    exact Skip.scan_value v [] rest hrest
  cases hvalue : Skip.value ⟨blank.chars ++ v.text rest, p⟩ with
  | error fault =>
      rw [hvalue] at hskip
      exact nomatch hskip
  | ok c =>
      rw [hvalue] at hskip
      obtain rfl := Option.some.inj hskip
      exact ⟨c.position, rfl⟩

namespace Shape

variable {pieces : List Piece} {key : String}

/-- A key that spells nothing can not be entered. -/
theorem entered_unspelled (hkey : spelled pieces = none) (state : List String × σ) (v : Value) :
    shape.entered m state (pieces, v) = none := by
  unfold entered
  simp only [hkey]
  rfl

/-- A key that is no field adds nothing. -/
theorem entered_unknown (hkey : spelled pieces = some key)
    (hunknown : ∀ field ∈ shape.fields, field.name ≠ key) (state : List String × σ) (v : Value) :
    shape.entered m state (pieces, v) = if shape.closed then none else some state := by
  have hnone : (shape.fields.any fun field => field.name == key) = false := by
    refine List.any_eq_false.mpr fun field hfield heq => hunknown field hfield (beq_iff_eq.mp heq)
  unfold entered
  simp only [hkey, Option.bind_some, hnone]
  rfl

/-- A field is entered once. -/
theorem entered_field {field : Field σ} (hfield : field ∈ shape.fields)
    (hkey : spelled pieces = some field.name) (state : List String × σ) (v : Value) :
    shape.entered m state (pieces, v) = if state.1.contains field.name then none
      else (m field.name state.2 v).map fun filled => (field.name :: state.1, filled) := by
  have hany : (shape.fields.any fun f => f.name == field.name) = true :=
    List.any_eq_true.mpr ⟨field, hfield, beq_self_eq_true _⟩
  unfold entered
  simp only [hkey, Option.bind_some, hany, if_true]

end Shape

variable (hm : ∀ field ∈ shape.fields, ∀ filled,
  Understands (field.fill filled) (m field.name filled))

include hm

/-- **Members are read** as they are entered one by one. -/
theorem readKeys_reads (closing : Blank) (rest : List Char) (members : List (Member Value))
    {rounds : Nat} (hrounds : members.length < rounds) (first : Bool) (seen : List String)
    (filled : σ) (p : Position) :
    found (shape.readKeys rounds first seen filled
        ⟨membersText (closing.chars ++ '}' :: rest) first members, p⟩)
      = (((members.map Member.binding).foldlM (shape.entered m) (seen, filled)).bind
          shape.completed).map fun filled => (filled, closing.chars ++ '}' :: rest) := by
  -- on the members: a round of reading is one step of the fold over their bindings
  induction members generalizing rounds first seen filled p with
  | nil =>
      cases rounds with
      | zero => exact absurd hrounds (Nat.not_lt_zero _)
      | succ rounds =>
          rw [membersText, Shape.readKeys]
          simp only [nextKey_end, bind, Except.bind, List.map_nil, List.foldlM_nil]
          show _ = (shape.completed (seen, filled)).map _
          unfold Shape.completed
          cases shape.fields.find? fun field => field.required && !seen.contains field.name with
          | none => rfl
          | some field => rfl
  | cons member members ih =>
      cases rounds with
      | zero => exact absurd hrounds (Nat.not_lt_zero _)
      | succ rounds =>
          have hdelimited := (Delimited.closing closing (Or.inr rfl) rest).members members
          have hih := fun seen filled p => ih (Nat.lt_of_succ_lt_succ hrounds) false seen filled p
          rw [Shape.readKeys, List.map_cons, List.foldlM_cons, Member.binding]
          rcases nextKey_reads first member members (closing.chars ++ '}' :: rest) p with
            ⟨hkey, fault, hnext⟩ | ⟨key, p1, hkey, hnext⟩
          · -- the key cannot be spelled
            simp only [hnext, Shape.entered_unspelled hkey, bind, Except.bind]
            rfl
          obtain ⟨p2, hcolon⟩ := colon_reads member.beforeColon (member.afterColon.chars ++
            member.value.text (membersText (closing.chars ++ '}' :: rest) false members)) p1
          unfold Member.behindKey at hnext
          cases hfind : shape.fields.find? fun field => field.name == key with
          | none =>
              -- no field has the name: a closed shape refuses it, an open one skips its value
              rw [Shape.entered_unknown hkey fun field hfield heq =>
                List.find?_eq_none.mp hfind field hfield (beq_iff_eq.mpr heq)]
              simp only [hnext, hfind, hcolon, bind, Except.bind]
              cases shape.closed with
              | true => rfl
              | false =>
                  obtain ⟨p3, hskip⟩ := skip_reads member.afterColon member.value hdelimited p2
                  simp only [Bool.false_eq_true, if_false, hskip]
                  exact hih seen filled p3
          | some field =>
              have hfield := List.mem_of_find?_eq_some hfind
              have hread := (hm field hfield filled).reads_blank member.afterColon member.value
                hdelimited p2
              have hname := List.find?_some hfind
              obtain rfl : field.name = key := eq_of_beq hname
              rw [Shape.entered_field hfield hkey]
              simp only [hnext, hfind, hcolon, bind, Except.bind]
              -- a name that comes twice is refused, whatever its value
              cases seen.contains field.name with
              | true => rfl
              | false =>
                  simp only [Bool.false_eq_true, if_false]
                  cases hmeaning : m field.name filled member.value with
                  | none =>
                      rw [hmeaning] at hread
                      obtain ⟨fault, hfault⟩ := found_eq_none.mp hread
                      rw [hfault]
                      rfl
                  | some filled' =>
                      rw [hmeaning] at hread
                      obtain ⟨p3, hfilled⟩ := found_eq_some.mp hread
                      rw [hfilled]
                      exact hih (field.name :: seen) filled' p3

/-- Where keys were read, members stand. -/
theorem readKeys_written {rounds : Nat} {first : Bool} {seen : List String} {filled x : σ}
    {c : Cursor} {rest : List Char}
    (h : found (shape.readKeys rounds first seen filled c) = some (x, rest)) :
    ∃ members, c.rest = membersText rest first members := by
  induction rounds generalizing first seen filled c with
  | zero => cases h
  | succ rounds ih =>
      rw [Shape.readKeys] at h
      obtain ⟨next, hnext, h⟩ := exists_of_found_bind h
      cases next with
      | none =>
          simp only at h
          split at h
          · cases h
          · obtain ⟨-, rfl⟩ := Prod.mk.inj (Option.some.inj h)
            exact ⟨[], by rw [membersText]⟩
      | some next =>
          obtain ⟨key, c1⟩ := next
          simp only at h
          split at h
          · -- a field that the structure does not have
            split at h
            · cases h
            obtain ⟨c2, hcolon, h⟩ := exists_of_found_bind h
            obtain ⟨c3, hskip, h⟩ := exists_of_found_bind h
            obtain ⟨blank, v, hv⟩ := Skip.value_written (congrArg left hskip)
            exact member_written hnext hcolon hv (ih h)
          · rename_i field hfind
            split at h
            · cases h
            obtain ⟨c2, hcolon, h⟩ := exists_of_found_bind h
            obtain ⟨⟨filled', c3⟩, hfill, h⟩ := exists_of_found_bind h
            obtain ⟨blank, v, hv⟩ := (hm field (List.mem_of_find?_eq_some hfind)
              filled).written (congrArg found hfill)
            exact member_written hnext hcolon hv (ih h)

/-! ## Lists of fields -/

omit hm in
/-- A list that has more elements is not closed. -/
theorem endList_more (first : Bool) (e : Element Value) (elements : List (Element Value))
    (rest : List Char) (p : Position) :
    ∃ fault, Read.endList ⟨elementsText rest first (e :: elements), p⟩ = .error fault := by
  unfold Read.endList
  cases first with
  | false =>
      obtain ⟨p1, hcomma⟩ := skipSpace_next e elements rest p
      simp only [hcomma]
      split <;> exact ⟨_, rfl⟩
  | true =>
      obtain ⟨more, htext⟩ := e.value.text_opening (elementsText rest false elements)
      obtain ⟨p', hskip⟩ := skipSpace_first e elements rest p
      simp only [hskip, htext]
      split
      · rename_i heq
        exact absurd (List.cons.inj heq).1 (e.value.opening_ne rfl (by decide))
      · rename_i heq
        exact absurd (List.cons.inj heq).1 (e.value.opening_ne rfl (by decide))
      · exact ⟨_, rfl⟩
      · exact ⟨_, rfl⟩

/-- **Elements are read** as they are listed field by field. -/
theorem readFields_reads (closing : Blank) (rest : List Char) {fields : List (Field σ)}
    (hfields : ∀ field ∈ fields, field ∈ shape.fields) (index : Nat) (filled : σ)
    (elements : List (Element Value)) (p : Position) :
    ∃ first, found (shape.readFields fields index filled
        ⟨elementsText (closing.chars ++ ']' :: rest) (index == 0) elements, p⟩)
      = (Shape.listed m fields filled elements).map fun (filled, left) =>
          (filled, elementsText (closing.chars ++ ']' :: rest) first left) := by
  -- on the fields: a list gives them values by their places
  induction fields generalizing index filled elements p with
  | nil => exact ⟨index == 0, rfl⟩
  | cons field fields ih =>
      have hrest := fun f hf => hfields f (List.mem_cons_of_mem field hf)
      cases elements with
      | nil =>
          obtain ⟨first, hnone⟩ := ih hrest index filled [] p
          refine ⟨first, ?_⟩
          rw [elementsText] at hnone ⊢
          rw [Shape.readFields, Shape.listed]
          simp only [nextElement_end, bind, Except.bind]
          -- the list is too short, which only a field that can be left out survives
          cases field.required with
          | true => rfl
          | false => exact hnone
      | cons e elements =>
          obtain ⟨p1, hnext⟩ := nextElement_reads (index == 0) e elements
            (closing.chars ++ ']' :: rest) p
          have hread := (hm field (hfields field List.mem_cons_self) filled).reads e.value _ p1
            ((Delimited.closing closing (Or.inl rfl) rest).elements elements)
          rw [Shape.readFields, Shape.listed]
          simp only [hnext, bind, Except.bind]
          cases hmeaning : m field.name filled e.value with
          | none =>
              rw [hmeaning] at hread
              obtain ⟨fault, hfault⟩ := found_eq_none.mp hread
              rw [hfault]
              exact ⟨true, rfl⟩
          | some filled' =>
              rw [hmeaning] at hread
              obtain ⟨p2, hfilled⟩ := found_eq_some.mp hread
              rw [hfilled]
              exact ih hrest (index + 1) filled' elements p2

/-- Where fields were read, elements stand. -/
theorem readFields_written {fields : List (Field σ)} (hfields : ∀ field ∈ fields, field ∈ shape.fields)
    {index : Nat} {filled x : σ} {c : Cursor} {rest : List Char}
    (h : found (shape.readFields fields index filled c) = some (x, rest)) :
    ∃ elements, c.rest = elementsText rest (index == 0) elements := by
  induction fields generalizing index filled c with
  | nil =>
      obtain ⟨-, rfl⟩ := Prod.mk.inj (Option.some.inj h)
      exact ⟨[], by rw [elementsText]⟩
  | cons field fields ih =>
      have hrest := fun f hf => hfields f (List.mem_cons_of_mem field hf)
      rw [Shape.readFields] at h
      obtain ⟨next, hnext, h⟩ := exists_of_found_bind h
      cases next with
      | none =>
          simp only at h
          split at h
          · cases h
          · exact ih hrest h
      | some c1 =>
          obtain ⟨⟨filled', c2⟩, hfill, h⟩ := exists_of_found_bind h
          obtain ⟨blank, v, hv⟩ := (hm field (hfields field List.mem_cons_self)
            filled).written (congrArg found hfill)
          exact element_written hnext hv (ih hrest h)

/-- A list of fields is read as it is meant. -/
theorem inList_fields (closing : Blank) (rest : List Char) (elements : List (Element Value))
    (p : Position) :
    found (Read.inList (shape.checked (shape.readFields shape.fields 0 shape.blank))
        ⟨elementsText (closing.chars ++ ']' :: rest) true elements, p⟩)
      = (shape.meaning m (.list elements closing)).map fun filled => (filled, rest) := by
  obtain ⟨first, hfields⟩ :=
    readFields_reads hm closing rest (fun _ h => h) 0 shape.blank elements p
  have hchecked : found (shape.checked (shape.readFields shape.fields 0 shape.blank)
      ⟨elementsText (closing.chars ++ ']' :: rest) true elements, p⟩) = _ :=
    (found_checked _ _).trans (congrArg (Option.bind · _) hfields)
  rw [Shape.meaning_list]
  cases hlisted : Shape.listed m shape.fields shape.blank elements with
  | none =>
      rw [hlisted] at hchecked
      obtain ⟨fault, hfault⟩ := found_eq_none.mp hchecked
      unfold Read.inList
      rw [hfault]
      rfl
  | some result =>
      obtain ⟨filled, left⟩ := result
      rw [hlisted] at hchecked
      cases left with
      | nil =>
          rw [Option.map_some, Option.bind_some] at hchecked
          simp only [elementsText] at hchecked
          exact found_inList closing rest hchecked
      | cons e left =>
          cases hbody : shape.checked (shape.readFields shape.fields 0 shape.blank)
              ⟨elementsText (closing.chars ++ ']' :: rest) true elements, p⟩ with
          | error fault =>
              unfold Read.inList
              rw [hbody]
              rfl
          | ok result =>
              -- the elements that are left are too many
              obtain ⟨x, c⟩ := result
              rw [hbody] at hchecked
              obtain ⟨x', -, hx⟩ := Option.map_eq_some_iff.mp hchecked.symm
              obtain ⟨fault, hend⟩ := endList_more first e left (closing.chars ++ ']' :: rest)
                c.position
              have hc : Read.endList c = .error fault := by
                rw [(Prod.mk.inj hx).2] at hend
                exact hend
              unfold Read.inList
              rw [hbody]
              simp only [hc]
              rfl

/-- **A shape's reader understands its meaning**, as an object and as a list. -/
theorem shape_understands : Understands shape.read (shape.meaning m) := by
  -- neither a list nor an object: refused by the first character
  have hother : ∀ {first : Char} more p, Cursor.isSpace first = false → first ≠ '[' → first ≠ '{' →
      found (shape.read ⟨first :: more, p⟩) = none := by
    intro first more p hspace hlist hobject
    unfold Shape.read
    simp only [skipSpace_cons hspace]
    split
    · rename_i heq
      exact absurd (List.cons.inj heq).1 hobject
    · rename_i heq
      exact absurd (List.cons.inj heq).1 hlist
    · rfl
  refine ⟨fun c => by unfold Shape.read; rw [skipSpace_skipSpace], ?_, ?_⟩
  · intro v rest p _
    cases v with
    | object members closing =>
        have hlength := length_membersText (fun m (_ : m ∈ members) => m.value.length_text) true
          (closing.chars ++ '}' :: rest)
        have hbody := readKeys_reads hm closing rest members
          (Nat.lt_succ_of_le (Nat.le_trans (Nat.le_add_right _ _) hlength)) true [] shape.blank
          (p.after '{' ('{' : Char).utf8Size)
        rw [Value.text, Shape.meaning_object]
        refine found_inObject closing rest ((found_checked _ _).trans ?_)
        refine (congrArg (Option.bind · _) hbody).trans ?_
        cases ((members.map Member.binding).foldlM (shape.entered m) ([], shape.blank)).bind
            shape.completed with
        | none => rfl
        | some filled => rfl
    | list elements closing =>
        rw [Value.text]
        exact inList_fields hm closing rest elements _
    | null => exact hother _ p rfl (by decide) (by decide)
    | boolean b => cases b <;> exact hother _ p rfl (by decide) (by decide)
    | number n =>
        obtain ⟨more, htext⟩ := n.text_opening rest
        rw [Value.text, htext]
        exact hother more p (Value.number n).opening_not_space (n.opening_ne rfl (by decide))
          (n.opening_ne rfl (by decide))
    | string pieces => exact hother _ p rfl (by decide) (by decide)
  · intro cs p x rest hfound
    obtain ⟨blank, cs, p', rfl, hskip, -⟩ := skipSpace_split cs p
    unfold Shape.read at hfound
    simp only [hskip] at hfound
    split at hfound
    · obtain ⟨closing, hbody⟩ := inObject_found hfound
      obtain ⟨filled, hbody⟩ := checked_found hbody
      obtain ⟨members, hmembers⟩ := readKeys_written hm hbody
      exact ⟨blank, .object members closing, by rw [Value.text, ← hmembers]; rfl⟩
    · obtain ⟨closing, hbody⟩ := inList_found hfound
      obtain ⟨filled, hbody⟩ := checked_found hbody
      obtain ⟨elements, helements⟩ := readFields_written hm (fun _ h => h) hbody
      refine ⟨blank, .list elements closing, ?_⟩
      rw [Value.text]
      exact congrArg _ (congrArg _ helements)
    · cases hfound

end shape

/-! ## Changes that mean nothing -/

/-- One more key, which is no field of the structure, at any place of an object.
    The white space of the object may be any other. -/
inductive Widens {σ : Type} (shape : Shape σ) : Value → Value → Prop
  | intro (before : List (List Piece × Value)) {after : List (List Piece × Value)}
      {members members' : List (Member Value)} {pieces : List Piece} {key : String} {v : Value}
      {closing closing' : Blank}
      (h : members.map Member.binding = before ++ after)
      (h' : members'.map Member.binding = before ++ (pieces, v) :: after)
      (hkey : spelled pieces = some key) (hnew : ∀ field ∈ shape.fields, field.name ≠ key) :
      Widens shape (.object members closing) (.object members' closing')

/-- A change of what an object has under a key. -/
inductive Under (key : String) (change : Value → Value → Prop) : Value → Value → Prop
  | intro (before : List (List Piece × Value)) {after : List (List Piece × Value)}
      {members members' : List (Member Value)} {pieces : List Piece} {v v' : Value}
      {closing closing' : Blank}
      (h : members.map Member.binding = before ++ (pieces, v) :: after)
      (h' : members'.map Member.binding = before ++ (pieces, v') :: after)
      (hkey : spelled pieces = some key) (hchange : change v v') :
      Under key change (.object members closing) (.object members' closing')

/-- A change of one element of a list. -/
inductive Within (change : Value → Value → Prop) : Value → Value → Prop
  | intro (before : List Value) {after : List Value} {elements elements' : List (Element Value)}
      {v v' : Value} {closing closing' : Blank}
      (h : elements.map Element.value = before ++ v :: after)
      (h' : elements'.map Element.value = before ++ v' :: after) (hchange : change v v') :
      Within change (.list elements closing) (.list elements' closing')

section change

variable {σ : Type} {shape : Shape σ} {m : String → σ → Value → Option σ}

/-- **A key that is no field means nothing** to an open structure. -/
theorem Shape.meaning_widens (hopen : shape.closed = false) {v v' : Value}
    (h : Widens shape v v') : shape.meaning m v' = shape.meaning m v := by
  obtain ⟨_, h, h', hkey, hnew⟩ := h
  have hpassed : ∀ state u, shape.entered m state (_, u) = some state := fun state u =>
    (entered_unknown hkey hnew state u).trans (if_neg (Bool.eq_false_iff.mp hopen))
  rw [meaning_object, meaning_object, h, h', List.foldlM_append, List.foldlM_append]
  simp only [List.foldlM_cons, hpassed]
  rfl

/-- A change below a key that means nothing to its field means nothing. -/
theorem Shape.meaning_under {key : String} {change : Value → Value → Prop} {v v' : Value}
    (hsame : ∀ {u u'}, change u u' → ∀ filled, m key filled u' = m key filled u)
    (h : Under key change v v') : shape.meaning m v' = shape.meaning m v := by
  obtain ⟨_, h, h', hkey, hchange⟩ := h
  rw [meaning_object, meaning_object, h, h', List.foldlM_append, List.foldlM_append]
  simp only [List.foldlM_cons, entered, hkey, Option.bind_some, hsame hchange]

/-- A change within the elements that means nothing to them means nothing. -/
theorem Value.list?_within {α : Type} {meaning : Value → Option α}
    {change : Value → Value → Prop} (hsame : ∀ {u u'}, change u u' → meaning u' = meaning u)
    {v v' : Value} (h : Within change v v') : list? meaning v' = list? meaning v := by
  obtain ⟨_, h, h', hchange⟩ := h
  unfold list?
  simp only [h, h', List.mapM_append, List.mapM_cons, hsame hchange]

end change

end ProjectBuild.Json
