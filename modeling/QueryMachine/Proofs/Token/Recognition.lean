import QueryMachine.Proofs.Token.WellFormed

/-!
# What has been recognised where the machine stands

A run that succeeds has a layout of the whole text. A run that fails has none,
and still it has recognised something before the error. Here a run is followed
from its start: between two states the machine passes parts of the text
(`Passes`), and what it recognises on the way (`Reads`) is what those parts hold.
One step passes the parts of a run of data, an opener, a comment or a lexeme of a
tag; a run is one step after the other.
-/

namespace QueryMachine.Lexer

/-- The machine goes from one state to another and recognises lexemes on the way. -/
inductive Reads : State → List Lexeme → State → Prop where
  | refl (s : State) : Reads s [] s
  | more {s next last : State} {lexeme : Option Lexeme} {lexemes : List Lexeme} :
      step s = .more lexeme next → Reads next lexemes last →
      Reads s (lexeme.toList ++ lexemes) last

/-- The text that a state has still to pass. The mark of an opener is passed
together with the opener. -/
def State.text (s : State) : List Char :=
  match s.mode with
  | .opener kind => '\x7b' :: kind.mark :: s.rest
  | _ => s.rest

/-- What the parts of a text look like: a lexeme spells its token, a comment ends
at its first closer, everything else is blank. -/
def Part.Proper : Part → Prop
  | lexeme token text => Spells token text
  | comment text => ∃ body, text = '\x7b' :: '#' :: (body ++ ['#', '\x7d']) ∧
      ¬ ['#', '\x7d'] <:+: body
  | tagBlanks text | trimmed text => ∀ c ∈ text, Text.isBlank c = true

/-- Between the states `s` and `next` the machine passes `parts`. -/
structure Passes (s : State) (parts : List Part) (next : State) : Prop where
  text_eq : s.text = textOf parts ++ next.text
  pos_eq : next.pos = s.pos.advanceOver (textOf parts)
  proper : ∀ part ∈ parts, part.Proper

theorem Passes.refl (s : State) : Passes s [] s :=
  ⟨rfl, rfl, by simp⟩

theorem Passes.trans {s next last : State} {as bs : List Part} (ha : Passes s as next)
    (hb : Passes next bs last) : Passes s (as ++ bs) last where
  text_eq := by rw [ha.text_eq, hb.text_eq, textOf_append, List.append_assoc]
  pos_eq := by rw [hb.pos_eq, ha.pos_eq, textOf_append, Position.advanceOver_append]
  proper := by
    intro part hpart
    rcases List.mem_append.mp hpart with hpart | hpart
    · exact ha.proper part hpart
    · exact hb.proper part hpart

/-! ## One step -/

theorem Run.proper {after before : Bool} {r : Run} (h : r.Valid after before) :
    ∀ part ∈ r.parts, part.Proper := by
  intro part hpart
  simp only [Run.parts, List.mem_cons, List.mem_append, List.not_mem_nil, or_false] at hpart
  rcases hpart with rfl | hpart | rfl
  · exact h.lead_blank
  · split at hpart
    · cases hpart
    · rw [List.mem_singleton.mp hpart]
      exact .data r.text
  · exact h.trail_blank

theorem passes_of_stepData {trim : Bool} {pos : Position} {cs : List Char}
    {lexeme : Option Lexeme} {next : State} (h : stepData trim pos cs = .more lexeme next) :
    ∃ parts, Passes ⟨.data trim, pos, cs⟩ parts next ∧ place pos parts = lexeme.toList := by
  have happ := Text.breakAt_append (fun cs => (openerAt cs).isSome) cs
  have hstop := Text.breakAt_snd (fun cs => (openerAt cs).isSome) cs
  unfold stepData at h
  split at h
  · cases h
  · generalize Text.breakAt (fun cs => (openerAt cs).isSome) (_ :: _) = run at *
    obtain ⟨run, after⟩ := run
    simp only at h happ hstop
    -- The run is passed as whitespace control cuts it, whatever follows it.
    have hpasses (trimLast : Bool) (hafter : next.text = after)
        (hpos : next.pos = pos.advanceOver run) :
        Passes ⟨.data trim, pos, run ++ after⟩ (Run.cut trim trimLast run).parts next := by
      refine ⟨?_, ?_, Run.proper (Run.valid_cut ..)⟩
      · rw [Run.textOf_parts, Run.all_cut, hafter]
        rfl
      · rw [Run.textOf_parts, Run.all_cut, hpos]
    rw [← happ]
    split at h
    · next kind inside hopen =>
      cases h
      exact ⟨_, hpasses (beginsWithDash inside) (eq_of_openerAt hopen).symm rfl,
        Run.place_parts_cut ..⟩
    · next hnone =>
      cases h
      have hafter : after = [] := by
        rcases hstop with hnil | hsome
        · exact hnil
        · rw [hnone] at hsome
          cases hsome
      exact ⟨_, hpasses false hafter.symm rfl, Run.place_parts_cut ..⟩

theorem passes_of_stepComment {opened : Span} {dash : Bool} {pos start : Position}
    {cs : List Char} {lexeme : Option Lexeme} {next : State}
    (hpos : pos = start.advanceOver ('\x7b' :: '#' :: dashText dash))
    (h : stepComment opened pos cs = .more lexeme next) :
    ∃ parts, Passes ⟨.opener .comment, start, dashText dash ++ cs⟩ parts next ∧
      place start parts = lexeme.toList := by
  obtain ⟨body, rest, hbody, rfl, rfl, rfl⟩ := exists_body_of_stepComment h
  refine ⟨[.comment ('\x7b' :: '#' :: (dashText dash ++ body ++ ['#', '\x7d']))],
    ⟨?_, ?_, ?_⟩, rfl⟩
  · simp [State.text, Opener.mark, Part.text]
  · rw [hpos]
    simp [Part.text, Position.advanceOver_append]
  · intro part hpart
    rw [List.mem_singleton.mp hpart]
    exact ⟨dashText dash ++ body, rfl, not_infix_of_filled (hbody dash)⟩

theorem passes_of_stepOpener {kind : Opener} {pos : Position} {cs : List Char}
    {lexeme : Option Lexeme} {next : State} (h : stepOpener kind pos cs = .more lexeme next) :
    ∃ parts, Passes ⟨.opener kind, pos, cs⟩ parts next ∧ place pos parts = lexeme.toList := by
  obtain ⟨hcs, hpos⟩ := skipDash_eq (pos.advanceOver ['\x7b', kind.mark]) cs
  rw [← Position.advanceOver_append] at hpos
  unfold stepOpener at h
  generalize skipDash (pos.advanceOver ['\x7b', kind.mark]) cs = inside at *
  obtain ⟨inner, after⟩ := inside
  simp only at h hcs hpos
  rw [← hcs]
  cases kind with
  | tag kind =>
    cases h
    refine ⟨[.lexeme kind.beginToken
      ('\x7b' :: (Opener.tag kind).mark :: dashText (beginsWithDash cs))], ⟨?_, ?_, ?_⟩, ?_⟩
    · simp [State.text, Part.text]
    · rw [hpos]
      simp [Part.text]
    · intro part hpart
      rw [List.mem_singleton.mp hpart]
      exact spells_begin kind _
    · rw [hpos]
      rfl
  | comment => exact passes_of_stepComment hpos h

theorem passes_of_stepTag {kind : TagKind} {opened : Span} {pos : Position} {cs : List Char}
    {lexeme : Option Lexeme} {next : State}
    (h : stepTag kind opened pos cs = .more lexeme next) :
    ∃ parts, Passes ⟨.tag kind opened, pos, cs⟩ parts next ∧
      place pos parts = lexeme.toList := by
  have happ := List.takeWhile_append_dropWhile (p := Text.isBlank) (l := cs)
  have hblank : ∀ c ∈ cs.takeWhile Text.isBlank, Text.isBlank c = true :=
    fun _ => isBlank_of_mem_takeWhile
  -- A lexeme and the blanks before it.
  have hpasses (token : Token) (text after : List Char) (hspells : Spells token text)
      (hcs : cs = cs.takeWhile Text.isBlank ++ (text ++ after)) (mode : Mode)
      (hmode : ∀ kind, mode ≠ .opener kind) :
      Passes ⟨.tag kind opened, pos, cs⟩
        [.tagBlanks (cs.takeWhile Text.isBlank), .lexeme token text]
        ⟨mode, (pos.advanceOver (cs.takeWhile Text.isBlank)).advanceOver text, after⟩ := by
    refine ⟨?_, ?_, ?_⟩
    · have hafter : State.text ⟨mode, (pos.advanceOver
          (cs.takeWhile Text.isBlank)).advanceOver text, after⟩ = after := by
        cases mode with
        | data | tag => rfl
        | opener kind => exact absurd rfl (hmode kind)
      rw [hafter]
      simpa [State.text, Part.text] using hcs
    · simp [Part.text, Position.advanceOver_append]
    · intro part hpart
      rcases List.mem_pair.mp hpart with rfl | rfl
      · exact hblank
      · exact hspells
  unfold stepTag at h
  simp only [Text.trimStart] at h
  split at h
  · cases h
  · next c rest hcs =>
    rw [hcs] at happ
    split at h
    · next closer hclose =>
      obtain ⟨hafter, hlexeme⟩ := eq_of_closerAt hclose
      cases h
      refine ⟨_, hpasses kind.endToken closer.lexeme closer.after ?_ ?_ _ (by simp), rfl⟩
      · rw [hlexeme]
        exact spells_end kind _
      · rw [hafter, happ]
    · split at h
      · next token stop after hread =>
        obtain ⟨text, heq, rfl, hspells, -⟩ := spells_of_readToken hread
        cases h
        exact ⟨_, hpasses token text after hspells (by rw [← heq, happ]) _ (by simp), rfl⟩
      · cases h

theorem passes_of_step {s next : State} {lexeme : Option Lexeme}
    (h : step s = .more lexeme next) :
    ∃ parts, Passes s parts next ∧ place s.pos parts = lexeme.toList := by
  obtain ⟨mode, pos, rest⟩ := s
  cases mode with
  | data trim => exact passes_of_stepData h
  | opener kind => exact passes_of_stepOpener h
  | tag kind opened => exact passes_of_stepTag h

/-! ## Runs -/

/-- What a run has recognised is what the text it has passed holds. -/
theorem passes_of_reads {s last : State} {lexemes : List Lexeme} (h : Reads s lexemes last) :
    ∃ parts, Passes s parts last ∧ place s.pos parts = lexemes := by
  induction h with
  | refl s => exact ⟨[], .refl s, rfl⟩
  | more hstep _ ih =>
    obtain ⟨as, ha, hplace⟩ := passes_of_step hstep
    obtain ⟨bs, hb, hplaces⟩ := ih
    refine ⟨as ++ bs, ha.trans hb, ?_⟩
    rw [place_append, hplace, ← ha.pos_eq, hplaces]

theorem wellFormed_of_reads {s last : State} {lexemes : List Lexeme}
    (h : Reads s lexemes last) : ∀ t ∈ tokensOf lexemes, TokenWellFormed t.value := by
  induction h with
  | refl s => simp [tokensOf]
  | @more s next last lexeme lexemes hstep _ ih =>
    intro t ht
    rw [tokensOf_append, List.mem_append] at ht
    rcases ht with ht | ht
    · exact wellFormed_of_step hstep t ht
    · exact ih t ht

theorem runFrom_of_reads {s last : State} {lexemes : List Lexeme} (h : Reads s lexemes last)
    (before : Array Lexeme) : runFrom s before = runFrom last (before ++ lexemes.toArray) := by
  induction h generalizing before with
  | refl s => simp
  | @more s next last lexeme lexemes hstep _ ih =>
    rw [runFrom_more hstep, ih]
    cases lexeme <;> simp

theorem runFrom_of_runs {s : State} {lexemes : List Lexeme} (h : Runs s lexemes)
    (before : Array Lexeme) : runFrom s before = ⟨before ++ lexemes.toArray, none⟩ := by
  induction h generalizing before with
  | @more s next lexeme lexemes hstep _ ih =>
    rw [runFrom_more hstep, ih]
    cases lexeme <;> simp
  | finished hstep =>
    rw [runFrom_finished hstep]
    simp

/-! ## Errors of a step -/

/-- The errors that lie in the text and not in the number of its tokens. -/
def IsLocal (error : LexError) : Prop := ∀ count span, error ≠ .tooManyTokens count span

theorem isLocal_of_readToken {start : Position} {c : Char} {cs : List Char} {error : LexError}
    (h : readToken start c cs = .error error) : IsLocal error := by
  unfold readToken at h
  split at h
  · simp only [nameToken] at h
    split at h
    · cases h
      simp [IsLocal]
    · cases h
  · split at h
    · simp only [integerToken] at h
      split at h
      · cases h
      · cases h
        simp [IsLocal]
    · split at h
      · split at h
        · cases h
        · cases h
          simp [IsLocal]
        · cases h
          simp [IsLocal]
      · split at h
        · cases h
        · cases h
          simp [IsLocal]

theorem isLocal_of_step {s : State} {error : LexError} (h : step s = .failed error) :
    IsLocal error := by
  unfold step at h
  split at h
  · unfold stepData at h
    split at h
    · cases h
    · simp only at h
      split at h <;> cases h
  · next kind _ =>
    cases kind with
    | tag => cases h
    | comment =>
      simp only [stepOpener, stepComment] at h
      split at h <;> cases h
      simp [IsLocal]
  · simp only [stepTag] at h
    split at h
    · cases h
      simp [IsLocal]
    · split at h
      · cases h
      · split at h
        · cases h
        · next hread =>
          cases h
          exact isLocal_of_readToken hread

end QueryMachine.Lexer
