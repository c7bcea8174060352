import ProjectBuild.Proofs.Glob.Meaning

/-! # Reading patterns

    Reading a pattern places every `**` at the start or behind a literal slash
    (`Glob.wellPlaced_parse`): the reader remembers what stands in front of a run of
    stars.  What is read up to some character does not depend on what follows
    (`Glob.readFrom_append`).  So the pattern of everything below a directory is
    that of the directory with three more tokens (`Glob.parse_subtree`). -/

namespace ProjectBuild.Glob

/-! ## Where `**` is placed -/

/-- Tokens that were read are well placed if a slash follows each `**`. -/
theorem wellPlaced_reverse {tokens : List Token} : WellPlaced tokens.reverse ↔
    tokens.IsChain fun a b => a = .anySegments → b = .literal '/' :=
  List.isChain_reverse

/-- Any other token is well placed behind those that are. -/
theorem wellPlaced_push {t : Token} {tokens : List Token} (ht : t ≠ .anySegments)
    (h : WellPlaced tokens.reverse) : WellPlaced (t :: tokens).reverse := by
  rw [wellPlaced_reverse] at h ⊢
  exact List.isChain_cons.mpr ⟨fun _ _ heq => absurd heq ht, h⟩

/-- Behind this character the tokens read so far, in reverse, let a `**` follow. -/
def Founded (before : Option Char) (tokens : List Token) : Prop :=
  startsSegment before = true →
    tokens = [] ∨ tokens.head? = some (.literal '/') ∨ tokens.head? = some .anySegments

/-- A `**` has been read last. -/
theorem head?_pushSegments (tokens : List Token) :
    (pushSegments tokens).head? = some .anySegments := by
  unfold pushSegments
  split
  · rfl
  · rfl

/-- A `**` that starts a segment is well placed. -/
theorem wellPlaced_pushSegments {before : Option Char} {tokens : List Token}
    (hbefore : startsSegment before = true) (hfounded : Founded before tokens)
    (h : WellPlaced tokens.reverse) : WellPlaced (pushSegments tokens).reverse := by
  rcases hfounded hbefore with rfl | hhead | hhead
  · exact List.isChain_singleton _
  · obtain ⟨rest, rfl⟩ := List.head?_eq_some_iff.mp hhead
    rw [wellPlaced_reverse] at h ⊢
    exact List.isChain_cons_cons.mpr ⟨fun _ => rfl, h⟩
  · obtain ⟨rest, rfl⟩ := List.head?_eq_some_iff.mp hhead
    exact h

/-- What holds between two characters. -/
structure Sound (mode : Mode) (before : Option Char) (tokens : List Token) : Prop where
  placed : WellPlaced tokens.reverse
  plain : mode = .plain → Founded before tokens
  stars : ∀ start count first, mode = .stars start count first → Founded first tokens

/-- Reading the first character of a token keeps what holds. -/
theorem sound_enter {position : Nat} {before : Option Char} {tokens tokens' : List Token}
    {mode' : Mode} {c : Char} (h : WellPlaced tokens.reverse) (hfounded : Founded before tokens)
    (henter : enter position before tokens c = (mode', tokens')) :
    Sound mode' (some c) tokens' := by
  unfold enter at henter
  split at henter
  · cases henter
    exact ⟨wellPlaced_push nofun h, fun _ => nofun, nofun⟩
  · cases henter
    refine ⟨h, nofun, ?_⟩
    rintro _ _ _ ⟨⟩
    exact hfounded
  · cases henter
    exact ⟨h, nofun, nofun⟩
  · cases henter
    refine ⟨wellPlaced_push nofun h, fun _ hslash => ?_, nofun⟩
    rw [beq_iff_eq.mp hslash]
    exact Or.inr (Or.inl rfl)

/-- **The end of a run of stars**: of one star behind anything, and of two with a
    slash behind them. -/
theorem closeStars_ok {start count position : Nat} {first : Option Char} {tokens : List Token}
    {c : Char} {s : Mode × List Token}
    (h : closeStars start count position first tokens c = .ok s) :
    enter position (some '*') (.anySequence :: tokens) c = s ∨
      startsSegment first = true ∧ c = '/' ∧ s = (.plain, pushSegments tokens) := by
  unfold closeStars at h
  split at h
  · exact Or.inl (Except.ok.inj h)
  · split at h
    · cases h
    · split at h
      · cases h
      · rename_i hfirst
        rw [Bool.not_eq_true, Bool.not_eq_false'] at hfirst
        split at h
        · rename_i hslash
          exact Or.inr ⟨hfirst, hslash, (Except.ok.inj h).symm⟩
        · cases h

/-- One character keeps it. -/
theorem sound_step {mode mode' : Mode} {position : Nat} {before : Option Char}
    {tokens tokens' : List Token} {c : Char} (h : Sound mode before tokens)
    (hstep : step mode position before tokens c = .ok (mode', tokens')) :
    Sound mode' (some c) tokens' := by
  unfold step at hstep
  cases mode with
  | plain =>
      exact sound_enter h.placed (h.plain rfl) (Except.ok.inj hstep)
  | stars start count first =>
      have hfounded := h.stars start count first rfl
      simp only at hstep
      split at hstep
      · cases hstep
        refine ⟨h.placed, nofun, ?_⟩
        rintro _ _ _ ⟨⟩
        exact hfounded
      · rcases closeStars_ok hstep with henter | ⟨hfirst, -, heq⟩
        · -- the run was one star, which is placed before the character is looked at
          have hplaced : WellPlaced (Token.anySequence :: tokens).reverse :=
            wellPlaced_push nofun h.placed
          have hstar : Founded (some '*') (.anySequence :: tokens) := fun h => (by cases h)
          exact sound_enter hplaced hstar henter
        · cases heq
          refine ⟨wellPlaced_pushSegments hfirst hfounded h.placed, fun _ _ => ?_, nofun⟩
          exact Or.inr (Or.inr (head?_pushSegments tokens))
  | opened start =>
      simp only at hstep
      split at hstep
      · cases hstep
        exact ⟨h.placed, nofun, nofun⟩
      · cases hstep
        exact ⟨h.placed, nofun, nofun⟩
  | openedNegated start =>
      cases hstep
      exact ⟨h.placed, nofun, nofun⟩
  | inClass start negated body =>
      simp only at hstep
      split at hstep
      · rename_i hclosed
        cases hstep
        exact ⟨wellPlaced_push nofun h.placed, fun _ => hclosed ▸ nofun, nofun⟩
      · cases hstep
        exact ⟨h.placed, nofun, nofun⟩

/-- At the end of the text all tokens are well placed. -/
theorem wellPlaced_finish {mode : Mode} {before : Option Char} {tokens read : List Token}
    (h : Sound mode before tokens) (hfinish : finish mode tokens = .ok read) :
    WellPlaced read := by
  unfold finish at hfinish
  split at hfinish
  · cases hfinish
    exact h.placed
  · rename_i start count first
    split at hfinish
    · cases hfinish
      exact wellPlaced_push nofun h.placed
    · split at hfinish
      · cases hfinish
      · split at hfinish
        · rename_i hfirst
          cases hfinish
          exact wellPlaced_pushSegments hfirst (h.stars start count first rfl) h.placed
        · cases hfinish
  · cases hfinish
  · cases hfinish
  · cases hfinish

/-- From wherever what holds does hold, the tokens read are well placed. -/
theorem wellPlaced_readFrom {mode : Mode} {position : Nat} {before : Option Char}
    {tokens read : List Token} {text : List Char} (h : Sound mode before tokens)
    (hread : readFrom mode position before tokens text = .ok read) : WellPlaced read := by
  induction text generalizing mode position before tokens with
  | nil => exact wellPlaced_finish h hread
  | cons c text ih =>
      unfold readFrom at hread
      split at hread
      · cases hread
      · rename_i hstep
        exact ih (sound_step h hstep) hread

/-- **Patterns that can be read are well-placed.** -/
theorem wellPlaced_parse {text : List Char} {tokens : List Token} (h : parse text = .ok tokens) :
    WellPlaced tokens := by
  have hstart : Sound .plain none [] := ⟨List.isChain_nil, fun _ _ => Or.inl rfl, nofun⟩
  exact wellPlaced_readFrom hstart h

/-! ## Reading a text piece by piece -/

/-- What the reader is in the middle of behind a text, and the tokens it has read. -/
def scan (mode : Mode) (position : Nat) (before : Option Char) (tokens : List Token) :
    List Char → Except PatternError (Mode × List Token)
  | [] => .ok (mode, tokens)
  | c :: rest =>
    match step mode position before tokens c with
    | .error e => .error e
    | .ok (mode, tokens) => scan mode (position + 1) (some c) tokens rest

/-- **Reading goes on** where it has got to. -/
theorem readFrom_append (mode : Mode) (position : Nat) (before : Option Char)
    (tokens : List Token) (front : List Char) : ∃ position' before', ∀ back,
      readFrom mode position before tokens (front ++ back) =
        (scan mode position before tokens front).bind fun s =>
          readFrom s.1 position' before' s.2 back := by
  induction front generalizing mode position before tokens with
  | nil => exact ⟨position, before, fun back => rfl⟩
  | cons c front ih =>
      cases hstep : step mode position before tokens c with
      | error e =>
          refine ⟨0, none, fun back => ?_⟩
          rw [List.cons_append, readFrom, scan, hstep]
          rfl
      | ok s =>
          obtain ⟨mode', tokens'⟩ := s
          obtain ⟨position', before', h⟩ := ih mode' (position + 1) (some c) tokens'
          refine ⟨position', before', fun back => ?_⟩
          rw [List.cons_append, readFrom, scan, hstep]
          exact h back

/-- The last character of a text is read from where the others lead. -/
theorem exists_step_of_scan {mode : Mode} {position : Nat} {before : Option Char}
    {tokens : List Token} {front : List Char} {c : Char} {s : Mode × List Token}
    (h : scan mode position before tokens (front ++ [c]) = .ok s) :
    ∃ mode' position' before' tokens', step mode' position' before' tokens' c = .ok s := by
  induction front generalizing mode position before tokens with
  | nil =>
      refine ⟨mode, position, before, tokens, ?_⟩
      rw [List.nil_append, scan] at h
      split at h
      · cases h
      · rename_i hstep
        rw [hstep, ← h]
        rfl
  | cons d front ih =>
      rw [List.cons_append, scan] at h
      split at h
      · cases h
      · exact ih h

/-! ## How a text can end -/

/-- Stars are counted from a star on. -/
theorem enter_stars {position start count : Nat} {before first : Option Char}
    {tokens tokens' : List Token} {c : Char}
    (h : enter position before tokens c = (.stars start count first, tokens')) : c = '*' := by
  unfold enter at h
  split at h
  · cases h
  · rfl
  · cases h
  · cases h

/-- Only a star begins a run of stars or keeps it up. -/
theorem step_stars {mode : Mode} {position start count : Nat} {before first : Option Char}
    {tokens tokens' : List Token} {c : Char}
    (h : step mode position before tokens c = .ok (.stars start count first, tokens')) :
    c = '*' := by
  unfold step at h
  cases mode with
  | plain => exact enter_stars (Except.ok.inj h)
  | stars start count first =>
      simp only at h
      split at h
      · assumption
      · rcases closeStars_ok h with henter | ⟨-, -, heq⟩
        · exact enter_stars henter
        · cases heq
  | opened start =>
      simp only at h
      split at h
      · cases h
      · cases h
  | openedNegated start => cases h
  | inClass start negated body =>
      simp only at h
      split at h
      · cases h
      · cases h

/-- Any other character is a token of its own. -/
theorem enter_plain {position : Nat} {before : Option Char} {tokens tokens' : List Token}
    {c : Char} (h : enter position before tokens c = (.plain, tokens')) :
    ∃ t rest, tokens' = t :: rest ∧ t.Single := by
  unfold enter at h
  split at h
  · cases h
    exact ⟨.anyChar, tokens, rfl, nofun, nofun⟩
  · cases h
  · cases h
  · cases h
    exact ⟨.literal c, tokens, rfl, nofun, nofun⟩

/-- What completes a token, other than a slash, completes one that stands for a
    character. -/
theorem step_plain {mode : Mode} {position : Nat} {before : Option Char}
    {tokens tokens' : List Token} {c : Char} (hslash : c ≠ '/')
    (h : step mode position before tokens c = .ok (.plain, tokens')) :
    ∃ t rest, tokens' = t :: rest ∧ t.Single := by
  unfold step at h
  cases mode with
  | plain => exact enter_plain (Except.ok.inj h)
  | stars start count first =>
      simp only at h
      split at h
      · cases h
      · rcases closeStars_ok h with henter | ⟨-, heq, -⟩
        · exact enter_plain henter
        · exact absurd heq hslash
  | opened start =>
      simp only at h
      split at h
      · cases h
      · cases h
  | openedNegated start => cases h
  | inClass start negated body =>
      simp only at h
      split at h
      · cases h
        exact ⟨_, tokens, rfl, nofun, nofun⟩
      · cases h

/-- Slashes at the end of a pattern stand for themselves. -/
theorem readFrom_slashes {mode : Mode} {position : Nat} {before : Option Char}
    {tokens read : List Token} {count : Nat}
    (h : readFrom mode position before tokens (List.replicate count '/') = .ok read)
    (hmode : ∀ start n first, mode ≠ .stars start n first) :
    mode = .plain ∧ read = tokens.reverse ++ List.replicate count (.literal '/') := by
  induction count generalizing mode position before tokens with
  | zero =>
      unfold readFrom finish at h
      simp only [List.replicate_zero] at h
      cases mode with
      | plain =>
          cases h
          exact ⟨rfl, (List.append_nil _).symm⟩
      | stars start n first => exact absurd rfl (hmode start n first)
      | opened start => cases h
      | openedNegated start => cases h
      | inClass start negated body => cases h
  | succ count ih =>
      rw [List.replicate_succ] at h
      cases mode with
      | plain =>
          have h : readFrom .plain (position + 1) (some '/') (.literal '/' :: tokens)
            (List.replicate count '/') = .ok read := h
          obtain ⟨-, rfl⟩ := ih h (fun _ _ _ => nofun)
          refine ⟨rfl, ?_⟩
          rw [List.reverse_cons, List.append_assoc, List.replicate_succ]
          rfl
      | stars start n first => exact absurd rfl (hmode start n first)
      -- an expression that is open stays open
      | opened start =>
          have h : readFrom (.inClass start false ['/']) (position + 1) (some '/') tokens
            (List.replicate count '/') = .ok read := h
          exact nomatch (ih h fun _ _ _ => nofun).1
      | openedNegated start =>
          have h : readFrom (.inClass start true ['/']) (position + 1) (some '/') tokens
            (List.replicate count '/') = .ok read := h
          exact nomatch (ih h fun _ _ _ => nofun).1
      | inClass start negated body =>
          have h : readFrom (.inClass start negated ('/' :: body)) (position + 1) (some '/') tokens
            (List.replicate count '/') = .ok read := h
          exact nomatch (ih h fun _ _ _ => nofun).1

/-- Behind a text that ends in neither a star nor a slash, no run of stars is open,
    and the last token stands for a character. -/
theorem scan_last {text : List Char} {mode : Mode} {tokens : List Token}
    (hstar : text.getLast? ≠ some '*') (hslash : text.getLast? ≠ some '/')
    (h : scan .plain 0 none [] text = .ok (mode, tokens)) :
    (∀ start n first, mode ≠ .stars start n first) ∧
      (mode = .plain → ∀ t, tokens.reverse.getLast? = some t → t.Single) := by
  rcases List.eq_nil_or_concat' text with rfl | ⟨front, c, rfl⟩
  · cases h
    exact ⟨fun _ _ _ => nofun, fun _ => nofun⟩
  · rw [List.getLast?_concat] at hstar hslash
    obtain ⟨mode', position, before, tokens', hstep⟩ := exists_step_of_scan h
    constructor
    · rintro start n first rfl
      exact hstar (congrArg some (step_stars hstep))
    · rintro rfl t ht
      obtain ⟨t', rest, rfl, hsingle⟩ := step_plain (fun heq => hslash (congrArg some heq)) hstep
      rw [List.getLast?_reverse, List.head?_cons] at ht
      exact Option.some.inj ht ▸ hsingle

/-- A text without wildcards stands for itself. -/
theorem parse_literals {text : List Char} (h : ∀ c ∈ text, c ≠ '*' ∧ c ≠ '?' ∧ c ≠ '[') :
    parse text = .ok (text.map .literal) := by
  have hall : ∀ (position : Nat) (before : Option Char) (tokens : List Token),
      readFrom .plain position before tokens text = .ok (tokens.reverse ++ text.map .literal) := by
    induction text with
    | nil => exact fun _ _ tokens => congrArg Except.ok (List.append_nil tokens.reverse).symm
    | cons c text ih =>
        intro position before tokens
        obtain ⟨⟨hstar, hmark, hbracket⟩, hrest⟩ := List.forall_mem_cons.mp h
        have hstep : step .plain position before tokens c = .ok (.plain, .literal c :: tokens) := by
          simp only [step, enter]
        rw [readFrom, hstep]
        simp only [ih hrest, List.reverse_cons, List.append_assoc, List.map_cons]
        rfl
  exact hall 0 none []

/-! ## The pattern of a subtree -/

/-- The tokens that take a directory's name to everything below it. -/
def subtreeTokens : List Token :=
  [.literal '/', .anySegments, .anySequence]

/-- **Everything below a directory** is read as the directory with three tokens
    more, the last token of the directory standing for a character. -/
theorem parse_subtree {trimmed : List Char} {count : Nat} {read : List Token}
    (hstar : trimmed.getLast? ≠ some '*') (hslash : trimmed.getLast? ≠ some '/')
    (h : parse (trimmed ++ List.replicate count '/') = .ok read) :
    ∃ tokens, read = tokens ++ List.replicate count (.literal '/') ∧
      (∀ t, tokens.getLast? = some t → t.Single) ∧
      parse (trimmed ++ "/**/*".toList) = .ok (tokens ++ subtreeTokens) := by
  obtain ⟨position, before, happend⟩ := readFrom_append .plain 0 none [] trimmed
  unfold parse at h ⊢
  rw [happend] at h ⊢
  cases hscan : scan .plain 0 none [] trimmed with
  | error e =>
      rw [hscan] at h
      cases h
  | ok s =>
      obtain ⟨mode, tokens⟩ := s
      rw [hscan] at h
      simp only [Except.bind] at h ⊢
      obtain ⟨hmode, hlast⟩ := scan_last hstar hslash hscan
      obtain ⟨rfl, rfl⟩ := readFrom_slashes h hmode
      refine ⟨tokens.reverse, rfl, hlast rfl, ?_⟩
      show Except.ok (Token.anySequence :: .anySegments :: .literal '/' :: tokens).reverse = _
      simp only [List.reverse_cons, List.append_assoc]
      rfl

end ProjectBuild.Glob
