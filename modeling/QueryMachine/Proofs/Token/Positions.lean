import QueryMachine.Proofs.Token.Lossless
import QueryMachine.SourceFile

/-!
# Positions the lexer reports

Whatever the lexer makes of a text, a token or an error, has a span, and the span
is one of the text: its ends are where some prefix of the text leads to, in
order. For a successful run this is part of what the layout says. A run that
fails has no layout, so here it is read off the machine instead.

The invariant is that the machine knows where it stands: its position is the one
at which the rest of the text begins (`Position.At`). A span is then always two
such places, and the second is reached from the first by reading on.
-/

namespace QueryMachine

/-- The position `p` of a text is where its end `rest` begins. -/
def Position.At (text rest : List Char) (p : Position) : Prop :=
  ∃ passed, text = passed ++ rest ∧ p = Position.start.advanceOver passed

/-- A true span of a text: both ends are positions of it, in order. -/
structure Span.InText (source : String) (s : Span) : Prop where
  start : s.start.InText source.toList
  stop : s.stop.InText source.toList
  ordered : s.start.offset ≤ s.stop.offset
  bounded : s.stop.offset ≤ source.utf8ByteSize

section Places

variable {source : String} {text cs rest : List Char} {c : Char} {p : Position} {a b s : Span}

theorem Position.At.advanceOver (h : p.At text (cs ++ rest)) : (p.advanceOver cs).At text rest := by
  obtain ⟨passed, htext, rfl⟩ := h
  refine ⟨passed ++ cs, ?_, (Position.advanceOver_append ..).symm⟩
  rw [htext, List.append_assoc]

theorem Position.At.advance (h : p.At text (c :: rest)) : (p.advance c).At text rest := by
  have hcons : p.At text ([c] ++ rest) := h
  exact hcons.advanceOver

theorem Position.At.inText (h : p.At text rest) : p.InText text := by
  obtain ⟨passed, rfl, rfl⟩ := h
  exact Lexer.inText_advanceOver passed rest

theorem Position.InText.offset_le (h : p.InText source.toList) :
    p.offset ≤ source.utf8ByteSize := by
  obtain ⟨before, after, htext, hoffset, -⟩ := h
  rw [utf8ByteSize_eq_sum, htext, List.map_append, List.sum_append]
  omega

/-- Neither a line nor a column is counted up more than once for a byte. -/
theorem Position.advanceOver_le (p : Position) (cs : List Char) :
    (p.advanceOver cs).line ≤ p.line + (cs.map Char.utf8Size).sum ∧
      (p.advanceOver cs).column ≤ p.column + (cs.map Char.utf8Size).sum := by
  induction cs generalizing p with
  | nil => simp
  | cons c cs ih =>
    have hstep : (p.advance c).line ≤ p.line + c.utf8Size ∧
        (p.advance c).column ≤ p.column + c.utf8Size := by
      have hc := c.utf8Size_pos
      unfold Position.advance
      split <;> simp only <;> omega
    obtain ⟨hline, hcolumn⟩ := ih (p.advance c)
    rw [Position.advanceOver_cons, List.map_cons, List.sum_cons]
    omega

/-- The line and the column of a position of a text that is not too long are words of
32 bits. -/
theorem Position.InText.fits (h : p.InText source.toList)
    (hsize : source.utf8ByteSize + 1 < UInt32.size) :
    p.line < UInt32.size ∧ p.column < UInt32.size := by
  obtain ⟨before, after, htext, hoffset, rfl⟩ := h
  have hbytes : (before.map Char.utf8Size).sum ≤ source.utf8ByteSize := by
    rw [utf8ByteSize_eq_sum, htext, List.map_append, List.sum_append]
    omega
  obtain ⟨hline, hcolumn⟩ := Position.start.advanceOver_le before
  simp only [Position.start] at hline hcolumn ⊢
  omega

/-- A file that can be loaded is short enough for that. -/
theorem SourceFile.position_fits {path : String} {status : FileStatus} {file : SourceFile}
    (h : SourceFile.ofStatus path status = .ok file) (hp : p.InText file.source.toList) :
    p.line < UInt32.size ∧ p.column < UInt32.size := by
  have hsize : file.source.utf8ByteSize ≤ Limits.maxFileSize := by
    cases status with
    | regular bytes =>
      simp only [SourceFile.ofStatus, SourceFile.ofBytes] at h
      split at h
      · cases h
      · next hbytes =>
        split at h
        · cases h
        · next source hsource =>
          split at h
          · cases h
          · cases h
            have hutf8 : source.utf8ByteSize = bytes.size := by
              unfold String.fromUTF8? at hsource
              split at hsource
              · cases hsource
                rfl
              · cases hsource
            simp only
            omega
    | missing | denied | unreachable | special => cases h
  have hlimit : Limits.maxFileSize + 1 < UInt32.size := by decide
  exact hp.fits (by omega)

theorem Span.inText_of_ordered (hstart : s.start.InText source.toList)
    (hstop : s.stop.InText source.toList) (h : s.start.offset ≤ s.stop.offset) :
    s.InText source :=
  ⟨hstart, hstop, h, hstop.offset_le⟩

theorem Position.InText.point (h : p.InText source.toList) : (Span.point p).InText source :=
  Span.inText_of_ordered h h (Nat.le_refl _)

/-- What is read from a position on is a span. -/
theorem Position.At.span (h : p.At source.toList (cs ++ rest)) :
    (Span.mk p (p.advanceOver cs)).InText source := by
  refine Span.inText_of_ordered h.inText h.advanceOver.inText ?_
  show p.offset ≤ (p.advanceOver cs).offset
  rw [Position.offset_advanceOver]
  omega

theorem Span.inText_nowhere : Span.nowhere.InText source := by
  have hstart : Position.start.At source.toList source.toList := ⟨[], rfl, rfl⟩
  exact hstart.inText.point

theorem Span.InText.cover (ha : a.InText source) (hb : b.InText source) :
    (a.cover b).InText source := by
  have hstart : (a.cover b).start.InText source.toList ∧
      (a.cover b).start.offset ≤ a.start.offset := by
    unfold Span.cover
    simp only
    split
    · exact ⟨ha.start, Nat.le_refl _⟩
    · exact ⟨hb.start, by omega⟩
  have hstop : (a.cover b).stop.InText source.toList ∧
      a.stop.offset ≤ (a.cover b).stop.offset := by
    unfold Span.cover
    simp only
    split
    · exact ⟨ha.stop, Nat.le_refl _⟩
    · exact ⟨hb.stop, by omega⟩
  have hordered := ha.ordered
  exact Span.inText_of_ordered hstart.1 hstop.1 (by omega)

end Places

namespace Lexer

variable {source : String}

/-- A token stands where it says. Data also stands there as it is. -/
structure Stands (source : String) (t : Located Token) : Prop where
  span : t.span.InText source
  data : ∀ {text}, t.value = .data text →
    ∃ after, t.span.start.At source.toList (text.toList ++ after)

theorem Stands.of_not_data {t : Located Token} (hspan : t.span.InText source)
    (h : ∀ text, t.value ≠ .data text) : Stands source t :=
  ⟨hspan, fun htext => absurd htext (h _)⟩

def State.Sound (source : String) (s : State) : Prop :=
  match s.mode with
  | .data _ => s.pos.At source.toList s.rest
  | .opener kind => s.pos.At source.toList ('\x7b' :: kind.mark :: s.rest)
  | .tag _ opened => s.pos.At source.toList s.rest ∧ opened.InText source

def Step.Sound (source : String) : Step → Prop
  | .more lexeme next =>
    (∀ t, lexeme = some (.token t) → Stands source t) ∧ next.Sound source
  | .finished marker => Stands source marker
  | .failed error => error.span.InText source

/-! ## One step -/

theorem stands_of_dataToken {trimFirst trimLast : Bool} {pos : Position} {run rest : List Char}
    (hpos : pos.At source.toList (run ++ rest)) {t : Located Token}
    (h : dataToken trimFirst trimLast pos run = some t) : Stands source t := by
  have htoken : dataToken trimFirst trimLast pos run
      = if (Run.cut trimFirst trimLast run).text.isEmpty then none
        else some ⟨.data (String.ofList (Run.cut trimFirst trimLast run).text),
          ⟨pos.advanceOver (Run.cut trimFirst trimLast run).lead,
            (pos.advanceOver (Run.cut trimFirst trimLast run).lead).advanceOver
              (Run.cut trimFirst trimLast run).text⟩⟩ := rfl
  -- The token begins behind the blanks that were cut off in front.
  rw [← Run.all_cut trimFirst trimLast run, Run.all, List.append_assoc, List.append_assoc]
    at hpos
  rw [htoken] at h
  generalize Run.cut trimFirst trimLast run = cut at hpos h
  split at h
  · cases h
  · cases h
    refine ⟨hpos.advanceOver.span, ?_⟩
    intro text htext
    cases htext
    rw [String.toList_ofList]
    exact ⟨_, hpos.advanceOver⟩

theorem sound_stepData {trim : Bool} {pos : Position} {cs : List Char}
    (h : pos.At source.toList cs) : (stepData trim pos cs).Sound source := by
  have happ := Text.breakAt_append (fun cs => (openerAt cs).isSome) cs
  have hstop := Text.breakAt_snd (fun cs => (openerAt cs).isSome) cs
  unfold stepData
  split
  · exact .of_not_data h.inText.point (by simp)
  · generalize Text.breakAt (fun cs => (openerAt cs).isSome) (_ :: _) = run at *
    obtain ⟨run, after⟩ := run
    simp only at happ hstop ⊢
    rw [← happ] at h
    have hdata : ∀ last t, (dataToken trim last pos run).map Lexeme.token = some (.token t) →
        Stands source t := by
      intro last t ht
      obtain ⟨t', ht', heq⟩ := Option.map_eq_some_iff.mp ht
      cases heq
      exact stands_of_dataToken h ht'
    split
    · next kind inside hopen =>
      refine ⟨hdata _, ?_⟩
      rw [eq_of_openerAt hopen] at h
      exact h.advanceOver
    · next hnone =>
      refine ⟨hdata _, ?_⟩
      have hafter : after = [] := by
        rcases hstop with hnil | hsome
        · exact hnil
        · rw [hnone] at hsome
          cases hsome
      rw [hafter] at h
      exact h.advanceOver

theorem sound_stepComment {opened : Span} (hopened : opened.InText source) {pos : Position}
    {cs : List Char} (h : pos.At source.toList cs) : (stepComment opened pos cs).Sound source := by
  have happ := Text.breakAt_append closesComment cs
  have hstop := Text.breakAt_snd closesComment cs
  unfold stepComment
  generalize Text.breakAt closesComment cs = cut at *
  obtain ⟨body, after⟩ := cut
  simp only at happ hstop ⊢
  rw [← happ] at h
  split
  · exact hopened
  · next hne =>
    have hclose : after = ['#', '\x7d'] ++ after.drop 2 := by
      rcases hstop with hnil | hstop
      · exact absurd hnil hne
      · exact eq_of_closesComment hstop
    rw [hclose] at h
    exact ⟨by simp, h.advanceOver.advanceOver⟩

theorem sound_stepOpener {kind : Opener} {pos : Position} {cs : List Char}
    (h : pos.At source.toList ('\x7b' :: kind.mark :: cs)) :
    (stepOpener kind pos cs).Sound source := by
  obtain ⟨hcs, hpos⟩ := skipDash_eq (pos.advanceOver ['\x7b', kind.mark]) cs
  have hopen : pos.At source.toList
      ((['\x7b', kind.mark] ++ dashText (beginsWithDash cs)) ++
        (skipDash (pos.advanceOver ['\x7b', kind.mark]) cs).2) := by
    rw [List.append_assoc, hcs]
    exact h
  have hspan := hopen.span
  have hinside := hopen.advanceOver
  rw [Position.advanceOver_append, ← hpos] at hspan hinside
  unfold stepOpener
  cases kind with
  | tag kind =>
    refine ⟨?_, hinside, hspan⟩
    rintro t ht
    cases ht
    exact .of_not_data hspan (by cases kind <;> simp [TagKind.beginToken])
  | comment => exact sound_stepComment hspan hinside

def StringEnd.stop : StringEnd → Position
  | closed _ stop _ | unterminated stop | tooLarge _ stop => stop

theorem stop_readString (quote : Char) (before : List Char) (size : Nat) (pos : Position)
    (cs : List Char) : ∃ read after, cs = read ++ after ∧
      (readString quote before size pos cs).stop = pos.advanceOver read := by
  fun_induction readString quote before size pos cs with
  | case1 before size pos => exact ⟨[], [], rfl, rfl⟩
  | case2 before size pos cs => exact ⟨[quote], cs, rfl, rfl⟩
  | case3 before size pos hne => exact ⟨['\\'], [], rfl, rfl⟩
  | case4 before size pos e cs => exact ⟨['\\', e], cs, rfl, rfl⟩
  | case5 before size pos e cs size' hsize hne stop' ih =>
    obtain ⟨read, after, rfl, hstop⟩ := ih
    exact ⟨'\\' :: e :: read, after, rfl, hstop⟩
  | case6 before size pos c cs => exact ⟨[c], cs, rfl, rfl⟩
  | case7 before size pos c cs hne hslash stop' size' hsize ih =>
    obtain ⟨read, after, rfl, hstop⟩ := ih
    exact ⟨c :: read, after, rfl, hstop⟩

theorem eq_of_map_eq_error {ε α β : Type} {f : α → β} {x : Except ε α} {error : ε}
    (h : x.map f = .error error) : x = .error error := by
  cases x with
  | ok a => cases h
  | error e =>
    cases h
    rfl

/-- A token that cannot be read is refused with what was read of it. -/
theorem span_of_readToken_error {start : Position} {c : Char} {cs : List Char}
    {error : LexError} (h : readToken start c cs = .error error) :
    ∃ read after, c :: cs = read ++ after ∧ error.span = ⟨start, start.advanceOver read⟩ := by
  have hword : c :: cs = (c :: cs.takeWhile isWordChar) ++ cs.dropWhile isWordChar := by
    rw [List.cons_append, List.takeWhile_append_dropWhile]
  obtain ⟨read, after, hcs, hstop⟩ := stop_readString c [] 0 (start.advance c) cs
  have hstring : c :: cs = (c :: read) ++ after := by rw [hcs]; rfl
  unfold readToken at h
  split at h
  · have hname := eq_of_map_eq_error h
    unfold nameToken at hname
    split at hname
    · cases hname
      exact ⟨_, _, hword, rfl⟩
    · cases hname
  · split at h
    · have hinteger := eq_of_map_eq_error h
      unfold integerToken at hinteger
      split at hinteger
      · cases hinteger
      · cases hinteger
        exact ⟨_, _, hword, rfl⟩
    · split at h
      · split at h
        · cases h
        · next stop hread =>
          cases h
          rw [hread] at hstop
          exact ⟨c :: read, after, hstring, congrArg (Span.mk start) hstop⟩
        · next size stop hread =>
          cases h
          rw [hread] at hstop
          exact ⟨c :: read, after, hstring, congrArg (Span.mk start) hstop⟩
      · split at h
        · cases h
        · cases h
          exact ⟨[c], cs, rfl, rfl⟩

theorem sound_stepTag {kind : TagKind} {opened : Span} (hopened : opened.InText source)
    {pos : Position} {cs : List Char} (h : pos.At source.toList cs) :
    (stepTag kind opened pos cs).Sound source := by
  have hblanks : pos.At source.toList
      (cs.takeWhile Text.isBlank ++ cs.dropWhile Text.isBlank) := by
    rw [List.takeWhile_append_dropWhile]
    exact h
  have hstart := hblanks.advanceOver
  unfold stepTag
  simp only [Text.trimStart]
  generalize pos.advanceOver (cs.takeWhile Text.isBlank) = start at hstart
  split
  · exact hopened
  · next c rest hrest =>
    rw [hrest] at hstart
    split
    · next closer hclose =>
      rw [← (eq_of_closerAt hclose).1] at hstart
      refine ⟨?_, hstart.advanceOver⟩
      rintro t ht
      cases ht
      exact .of_not_data hstart.span (by cases kind <;> simp [TagKind.endToken])
    · split
      · next token stop after hread =>
        obtain ⟨lexeme, heq, rfl, -, hcontent⟩ := spells_of_readToken hread
        rw [heq] at hstart
        refine ⟨?_, hstart.advanceOver, hopened⟩
        rintro t ht
        cases ht
        refine .of_not_data hstart.span ?_
        rintro text htext
        simp only at htext
        rw [htext] at hcontent
        cases hcontent
      · next error hread =>
        obtain ⟨read, after, heq, hspan⟩ := span_of_readToken_error hread
        rw [heq] at hstart
        show error.span.InText source
        rw [hspan]
        exact hstart.span

theorem sound_step {s : State} (h : s.Sound source) : (step s).Sound source := by
  obtain ⟨mode, pos, rest⟩ := s
  cases mode with
  | data trim => exact sound_stepData h
  | opener kind => exact sound_stepOpener h
  | tag kind opened => exact sound_stepTag h.2 h.1

/-! ## The whole run -/

theorem sound_runFrom {s : State} {before : Array Lexeme} (hs : s.Sound source)
    (hbefore : ∀ t, .token t ∈ before → Stands source t) :
    (∀ t, .token t ∈ (runFrom s before).lexemes → Stands source t) ∧
      ∀ error, (runFrom s before).failure = some error → error.span.InText source := by
  fun_induction runFrom s before with
  | case1 s before lexeme next hstep ih =>
    have hsound := sound_step hs
    rw [hstep] at hsound
    refine ih hsound.2 ?_
    intro t ht
    rcases Array.mem_push.mp ht with ht | rfl
    · exact hbefore t ht
    · exact hsound.1 t rfl
  | case2 s before next hstep ih =>
    have hsound := sound_step hs
    rw [hstep] at hsound
    exact ih hsound.2 hbefore
  | case3 s before marker hstep =>
    have hsound := sound_step hs
    rw [hstep] at hsound
    refine ⟨?_, by simp⟩
    intro t ht
    rcases Array.mem_push.mp ht with ht | ht
    · exact hbefore t ht
    · cases ht
      exact hsound
  | case4 s before error hstep =>
    have hsound := sound_step hs
    rw [hstep] at hsound
    refine ⟨hbefore, ?_⟩
    intro error' herror
    cases herror
    exact hsound

/-- A token too many is refused at its own place. -/
theorem span_of_countFrom_error {seen : Lexed} {lexemes : List Lexeme} {failure : LexFailure}
    (h : countFrom seen lexemes = .error failure) :
    ∃ t, .token t ∈ lexemes ∧ failure.error.span = t.span := by
  induction lexemes generalizing seen with
  | nil => cases h
  | cons lexeme lexemes ih =>
    rw [countFrom] at h
    split at h
    · obtain ⟨t, ht, hspan⟩ := ih h
      exact ⟨t, List.mem_cons_of_mem _ ht, hspan⟩
    · next hcount =>
      cases h
      cases lexeme with
      | comment => cases hcount
      | token t =>
        simp only [count] at hcount
        split at hcount
        · cases hcount
        · cases hcount
          exact ⟨t, List.mem_cons_self, rfl⟩

theorem mem_tokensOf {t : Located Token} {lexemes : List Lexeme} :
    t ∈ tokensOf lexemes ↔ .token t ∈ lexemes := by
  constructor
  · intro h
    obtain ⟨lexeme, hmem, heq⟩ := List.mem_filterMap.mp h
    cases lexeme with
    | comment => cases heq
    | token t' =>
      cases heq
      exact hmem
  · intro h
    exact List.mem_filterMap.mpr ⟨_, h, rfl⟩

theorem sound_scan (source : String) :
    (∀ t, .token t ∈ (scan source.toList).lexemes → Stands source t) ∧
      ∀ error, (scan source.toList).failure = some error → error.span.InText source := by
  have hstart : State.Sound source ⟨.data false, .start, source.toList⟩ := ⟨[], rfl, rfl⟩
  exact sound_runFrom hstart (by simp)

theorem span_of_tokenize_error {failure : LexFailure} (h : tokenize source = .error failure) :
    failure.error.span.InText source := by
  obtain ⟨hlexemes, hfailure⟩ := sound_scan source
  unfold tokenize Trace.result at h
  split at h
  · next hcount =>
    cases h
    obtain ⟨t, ht, hspan⟩ := span_of_countFrom_error hcount
    rw [hspan]
    exact (hlexemes t (Array.mem_toList_iff.mp ht)).span
  · next hsome =>
    cases h
    exact hfailure _ hsome
  · cases h

theorem stands_of_tokenize {lexed : Lexed} (h : tokenize source = .ok lexed) :
    ∀ t ∈ lexed.tokens.toList, Stands source t := by
  obtain ⟨hlexemes, -⟩ := sound_scan source
  unfold tokenize Trace.result at h
  split at h
  · cases h
  · cases h
  · next hcount _ =>
    cases h
    intro t ht
    rw [tokens_of_countFrom hcount] at ht
    have hmem : t ∈ tokensOf (scan source.toList).lexemes.toList := by simpa using ht
    exact hlexemes t (Array.mem_toList_iff.mp (mem_tokensOf.mp hmem))

end Lexer

end QueryMachine
