import QueryMachine.Proofs.Token.Positions
import QueryMachine.Proofs.Token.RoundTrip
import QueryMachine.Proofs.Token.WellFormed

/-!
# What follows a tag does not change how it is read

The lexer looks ahead: a word ends where the next character is no word character,
a `-` may begin a closer, data ends where an opener begins. So a text that is cut
into tokens is not always cut into the same ones when more text is put behind it.
It is if it ends with a plain closer. Then nothing in front of that closer is ever
looked at from its end, and behind it the lexer reads data, as it does at the start
of a text.

A run is compared with the run on the longer text step by step (`Extends`). The
only way for the two to part is that a step has reached the end of the shorter text
too early; such a run fails in its next step (`alive_of_runs`), or it ends in data.
-/

namespace QueryMachine.Lexer

variable {post : List Char}

/-! ## Reading ahead -/

theorem openerAt_append {cs : List Char} (h : 2 ≤ cs.length) (post : List Char) :
    openerAt (cs ++ post) = (openerAt cs).map fun found => (found.1, found.2 ++ post) := by
  match cs with
  | a :: b :: cs =>
    cases hopen : openerAt (a :: b :: cs) with
    | some found =>
      obtain ⟨kind, inside⟩ := found
      rw [eq_of_openerAt hopen]
      exact openerAt_mark kind (inside ++ post)
    | none =>
      cases hlong : openerAt (a :: b :: cs ++ post) with
      | none => rfl
      | some found =>
        obtain ⟨kind, inside⟩ := found
        have heq := eq_of_openerAt hlong
        simp only [List.cons_append, List.cons.injEq] at heq
        obtain ⟨rfl, rfl, -⟩ := heq
        rw [openerAt_mark] at hopen
        cases hopen

theorem beginsWithDash_append {cs : List Char} (h : cs ≠ []) (post : List Char) :
    beginsWithDash (cs ++ post) = beginsWithDash cs := by
  rw [beginsWithDash_eq, beginsWithDash_eq, List.head?_append_of_ne_nil _ h]

/-- A closer is found in two or three characters. -/
theorem closerAt_append {kind : TagKind} {cs : List Char} {closer : Closer}
    (h : closerAt kind cs = some closer) (post : List Char) :
    closerAt kind (cs ++ post) = some { closer with after := closer.after ++ post } := by
  unfold closerAt at h
  split at h
  · next a b cs =>
    split at h
    · next hmark =>
      cases h
      simp [closerAt, hmark]
    · next hplain =>
      split at h
      · next hdash =>
        split at h
        · cases h
          obtain ⟨rfl, rfl⟩ := hdash
          cases kind <;> simp [closerAt, TagKind.closeMark]
        · cases h
      · cases h
  · cases h

theorem closerAt_append_eq_none {kind : TagKind} {a b c : Char} {cs : List Char}
    (h : closerAt kind (a :: b :: c :: cs) = none) (post : List Char) :
    closerAt kind (a :: b :: c :: cs ++ post) = none := by
  simp only [List.cons_append, closerAt] at h ⊢
  split at h
  · cases h
  · next hplain =>
    rw [if_neg hplain]
    split at h
    · next hdash =>
      rw [if_pos hdash]
      split at h
      · cases h
      · next hclose =>
        split
        · next heq =>
          rw [List.cons.injEq] at heq
          exact absurd (by rw [heq.1]) (hclose cs)
        · rfl
    · next hdash => rw [if_neg hdash]

theorem breakAt_append_post {stop : List Char → Bool} {cs run rest : List Char}
    (hcut : Text.breakAt stop cs = (run, rest)) (hrest : rest ≠ [])
    (hstop : ∀ {as : List Char} (bs : List Char), rest <:+ as → stop (as ++ bs) = stop as)
    (post : List Char) : Text.breakAt stop (cs ++ post) = (run, rest ++ post) := by
  have happ := Text.breakAt_append stop cs
  have hfound := Text.breakAt_snd stop cs
  have hrun : ∀ suffix, suffix <:+ run → suffix ≠ [] → stop (suffix ++ rest) = false := by
    intro suffix hsuffix hne
    have hfalse := @Text.stop_eq_false_of_suffix stop cs suffix (by rw [hcut]; exact hsuffix) hne
    rw [hcut] at hfalse
    exact hfalse
  rw [hcut] at happ hfound
  rw [← show run ++ rest = cs from happ, List.append_assoc]
  refine breakAt_append_eq ?_ (.inr ?_)
  · intro suffix hsuffix hne
    rw [← List.append_assoc, hstop post (List.suffix_append suffix rest)]
    exact hrun suffix hsuffix hne
  · rw [hstop post (List.suffix_refl rest)]
    exact hfound.resolve_left hrest

theorem takeWhile_append_of_dropWhile {p : Char → Bool} {cs : List Char}
    (h : cs.dropWhile p ≠ []) (post : List Char) :
    (cs ++ post).takeWhile p = cs.takeWhile p ∧
      (cs ++ post).dropWhile p = cs.dropWhile p ++ post := by
  induction cs with
  | nil => exact absurd rfl h
  | cons c cs ih =>
    cases hc : p c with
    | true =>
      rw [List.dropWhile_cons_of_pos hc] at h
      obtain ⟨htake, hdrop⟩ := ih h
      simp [hc, htake, hdrop]
    | false => simp [hc]

/-! ## Tokens of a tag -/

theorem readString_append {quote : Char} {before cs value after : List Char} {size : Nat}
    {pos stop : Position} (h : readString quote before size pos cs = .closed value stop after)
    (post : List Char) (pos' : Position) :
    ∃ stop', readString quote before size pos' (cs ++ post)
      = .closed value stop' (after ++ post) := by
  fun_induction readString quote before size pos cs generalizing pos' with
  | case1 => cases h
  | case2 before size pos cs =>
    cases h
    rw [List.cons_append, readString.eq_def]
    exact ⟨pos'.advance quote, by simp⟩
  | case3 => cases h
  | case4 => cases h
  | case5 before size pos e cs size' hsize hne stop' ih =>
    obtain ⟨stop'', hread⟩ := ih h ((pos'.advance '\\').advance e)
    refine ⟨stop'', ?_⟩
    rw [List.cons_append, List.cons_append, readString_escape (Ne.symm hne), if_neg hsize]
    exact hread
  | case6 => cases h
  | case7 before size pos c cs hne hslash stop' size' hsize ih =>
    obtain ⟨stop'', hread⟩ := ih h (pos'.advance c)
    refine ⟨stop'', ?_⟩
    rw [List.cons_append, readString_plain hne hslash, if_neg hsize]
    exact hread

theorem readWord_append {cs : List Char} (h : cs.dropWhile isWordChar ≠ []) (c : Char)
    (post : List Char) (start : Position) :
    readWord start c (cs ++ post)
      = (c :: cs.takeWhile isWordChar, start.advanceOver (c :: cs.takeWhile isWordChar),
          cs.dropWhile isWordChar ++ post) := by
  obtain ⟨htake, hdrop⟩ := takeWhile_append_of_dropWhile h post
  rw [readWord, htake, hdrop]

theorem nameToken_congr {start stop : Position} {word : List Char} {token : Token}
    (h : nameToken start word stop = .ok token) (start' stop' : Position) :
    nameToken start' word stop' = .ok token := by
  unfold nameToken at h ⊢
  split at h
  · cases h
  · next hlength =>
    rw [if_neg hlength]
    exact h

theorem integerToken_congr {start stop : Position} {word : List Char} {token : Token}
    (h : integerToken start word stop = .ok token) (start' stop' : Position) :
    integerToken start' word stop' = .ok token := by
  unfold integerToken at h ⊢
  cases hvalue : integerFrom 0 word with
  | none => simp [hvalue] at h
  | some value =>
    rw [hvalue] at h
    exact h

/-- A token that does not reach the end of the text is read alike in a longer one. -/
theorem readToken_append {start stop : Position} {c : Char} {cs after : List Char}
    {token : Token} (h : readToken start c cs = .ok (token, stop, after)) (hafter : after ≠ [])
    (post : List Char) (start' : Position) :
    ∃ stop', readToken start' c (cs ++ post) = .ok (token, stop', after ++ post) := by
  unfold readToken at h ⊢
  split at h
  · next hname =>
    rw [if_pos hname]
    obtain ⟨found, hfound, heq⟩ := exists_of_map_eq_ok h
    cases heq
    have hfound' : nameToken start' (c :: cs.takeWhile isWordChar)
        (start'.advanceOver (c :: cs.takeWhile isWordChar)) = .ok token :=
      nameToken_congr hfound _ _
    simp only [readWord_append hafter, hfound']
    exact ⟨_, rfl⟩
  · next hname =>
    rw [if_neg hname]
    split at h
    · next hdigit =>
      rw [if_pos hdigit]
      obtain ⟨found, hfound, heq⟩ := exists_of_map_eq_ok h
      cases heq
      have hfound' : integerToken start' (c :: cs.takeWhile isWordChar)
          (start'.advanceOver (c :: cs.takeWhile isWordChar)) = .ok token :=
        integerToken_congr hfound _ _
      simp only [readWord_append hafter, hfound']
      exact ⟨_, rfl⟩
    · next hdigit =>
      rw [if_neg hdigit]
      split at h
      · next hquote =>
        rw [if_pos hquote]
        split at h
        · next hread =>
          cases h
          obtain ⟨stop', hread'⟩ := readString_append hread post (start'.advance c)
          rw [hread']
          exact ⟨stop', rfl⟩
        · cases h
        · cases h
      · next hquote =>
        rw [if_neg hquote]
        split at h
        · cases h
          exact ⟨_, rfl⟩
        · cases h

/-! ## One step -/

/-- The same state on a longer text. Where it stands is not compared. -/
inductive Extends (post : List Char) : State → State → Prop where
  | data (trim : Bool) (pos pos' : Position) (rest : List Char) :
      Extends post ⟨.data trim, pos, rest⟩ ⟨.data trim, pos', rest ++ post⟩
  | opener (kind : Opener) (pos pos' : Position) (rest : List Char) :
      Extends post ⟨.opener kind, pos, rest⟩ ⟨.opener kind, pos', rest ++ post⟩
  | tag (kind : TagKind) (opened opened' : Span) (pos pos' : Position) (rest : List Char) :
      Extends post ⟨.tag kind opened, pos, rest⟩ ⟨.tag kind opened', pos', rest ++ post⟩

/-- The tokens of a lexeme, without their spans. -/
def valuesOf (lexeme : Option Lexeme) : List Token :=
  (tokensOf lexeme.toList).map Located.value

/-- Enough is left for a closer, where one is needed. -/
def State.Alive (s : State) : Prop :=
  match s.mode with
  | .data _ => True
  | .opener _ => s.rest ≠ []
  | .tag .. => 2 ≤ s.rest.length

/-- A step of the longer text that does as a step of the shorter one. -/
def Follows (post : List Char) (s' : State) (lexeme : Option Lexeme) (next : State) : Prop :=
  ∃ lexeme' next', step s' = .more lexeme' next' ∧ valuesOf lexeme' = valuesOf lexeme ∧
    Extends post next next'

theorem valuesOf_dataToken (trimFirst trimLast : Bool) (pos pos' : Position)
    (run : List Char) :
    valuesOf ((dataToken trimFirst trimLast pos run).map .token)
      = valuesOf ((dataToken trimFirst trimLast pos' run).map .token) := by
  cases trimFirst <;> cases trimLast <;>
    simp only [dataToken, Bool.false_eq_true, if_false, if_true] <;> split <;> rfl

theorem isData_of_dataToken {trimFirst trimLast : Bool} {pos : Position} {run : List Char}
    {t : Located Token} (h : dataToken trimFirst trimLast pos run = some t) :
    t.value.isData = true := by
  cases trimFirst <;> cases trimLast <;>
    simp only [dataToken, Bool.false_eq_true, if_false, if_true] at h <;> split at h <;>
    cases h <;> rfl

theorem follows_stepData {trim : Bool} {pos : Position} {cs : List Char}
    {lexeme : Option Lexeme} {next : State}
    (h : stepData trim pos cs = .more lexeme next) (hnext : next.Alive)
    (hmode : ∀ trim, next.mode ≠ .data trim) (post : List Char) (pos' : Position) :
    Follows post ⟨.data trim, pos', cs ++ post⟩ lexeme next := by
  have hne : cs ≠ [] := by
    rintro rfl
    cases h
  cases hcut : Text.breakAt (fun cs => (openerAt cs).isSome) cs with
  | mk run rest =>
    cases hopen : openerAt rest with
    | none =>
      obtain ⟨c, cs, rfl⟩ := List.exists_cons_of_ne_nil hne
      simp only [stepData, hcut, hopen] at h
      cases h
      exact absurd rfl (hmode false)
    | some found =>
      obtain ⟨kind, inside⟩ := found
      rw [stepData_opener hne hcut hopen] at h
      cases h
      have hinside : inside ≠ [] := hnext
      have hlength : 2 ≤ rest.length := by
        rw [eq_of_openerAt hopen]
        simp
      have hcut' := breakAt_append_post hcut (by rintro rfl; cases hopen)
        (fun {as} bs hsuffix => by
          rw [openerAt_append (Nat.le_trans hlength hsuffix.length_le)]
          simp) post
      have hopen' : openerAt (rest ++ post) = some (kind, inside ++ post) := by
        rw [openerAt_append hlength, hopen]
        rfl
      refine ⟨_, _, stepData_opener (by simp [hne]) hcut' hopen', ?_, .opener ..⟩
      rw [beginsWithDash_append hinside]
      exact valuesOf_dataToken ..

theorem skipDash_append {cs : List Char} (h : cs ≠ []) (post : List Char) (pos pos' : Position) :
    (skipDash pos' (cs ++ post)).2 = (skipDash pos cs).2 ++ post := by
  unfold skipDash
  rw [beginsWithDash_append h]
  split
  · exact List.tail_append_of_ne_nil h
  · rfl

theorem follows_stepComment {opened : Span} {pos : Position} {cs : List Char}
    {lexeme : Option Lexeme} {next : State}
    (h : stepComment opened pos cs = .more lexeme next) (post : List Char) (opened' : Span)
    (pos' : Position) :
    ∃ lexeme' next', stepComment opened' pos' (cs ++ post) = .more lexeme' next' ∧
      valuesOf lexeme' = valuesOf lexeme ∧ Extends post next next' := by
  unfold stepComment at h
  cases hcut : Text.breakAt closesComment cs with
  | mk body rest =>
    simp only [hcut] at h
    split at h
    · cases h
    · next hne =>
      cases h
      have hclose : closesComment rest = true := by
        have hfound := Text.breakAt_snd closesComment cs
        rw [hcut] at hfound
        exact hfound.resolve_left hne
      have hrest := eq_of_closesComment hclose
      have hcut' := breakAt_append_post hcut hne (fun {as} bs hsuffix => by
        obtain ⟨front, rfl⟩ := hsuffix
        rw [hrest]
        cases front with
        | nil => rfl
        | cons c front =>
          rw [List.append_assoc]
          exact closesComment_append (List.cons_ne_nil c front) _ _) post
      rw [hrest] at hcut'
      refine ⟨some .comment, _, ?_, rfl,
        .data _ _ ((pos'.advanceOver body).advanceOver ['#', '\x7d']) _⟩
      simp only [stepComment, hcut', List.cons_append]
      rfl

theorem follows_stepOpener {kind : Opener} {pos : Position} {cs : List Char}
    {lexeme : Option Lexeme} {next : State} (hcs : cs ≠ [])
    (h : stepOpener kind pos cs = .more lexeme next) (post : List Char) (pos' : Position) :
    Follows post ⟨.opener kind, pos', cs ++ post⟩ lexeme next := by
  unfold Follows step stepOpener
  have hskip := skipDash_append hcs post (pos.advanceOver ['\x7b', kind.mark])
    (pos'.advanceOver ['\x7b', kind.mark])
  cases kind with
  | tag kind =>
    cases h
    refine ⟨_, _, rfl, rfl, ?_⟩
    simp only [hskip]
    exact .tag ..
  | comment =>
    simp only [hskip]
    exact follows_stepComment h post _ _

theorem follows_stepTag {kind : TagKind} {opened : Span} {pos : Position} {cs : List Char}
    {lexeme : Option Lexeme} {next : State}
    (h : stepTag kind opened pos cs = .more lexeme next) (hnext : next.Alive)
    (post : List Char) (opened' : Span) (pos' : Position) :
    Follows post ⟨.tag kind opened', pos', cs ++ post⟩ lexeme next := by
  unfold stepTag at h
  simp only [Text.trimStart] at h
  split at h
  · cases h
  · next c rest hcs =>
    have hdropped : cs.dropWhile Text.isBlank ≠ [] := by simp [hcs]
    obtain ⟨htake, hdrop⟩ := takeWhile_append_of_dropWhile hdropped post
    rw [hcs] at hdrop
    unfold Follows step stepTag
    simp only [Text.trimStart, htake, hdrop, List.cons_append]
    split at h
    · next closer hclose =>
      cases h
      have hclose' := closerAt_append hclose post
      rw [List.cons_append] at hclose'
      simp only [hclose']
      exact ⟨_, _, rfl, rfl, .data ..⟩
    · next hclose =>
      split at h
      · next token stop after hread =>
        cases h
        have hlength : 2 ≤ after.length := hnext
        have hle := length_of_readToken hread
        have hclose' : closerAt kind (c :: rest ++ post) = none := by
          rcases rest with _ | ⟨b, _ | ⟨d, rest⟩⟩
          · simp only [List.length_nil] at hle
            omega
          · simp only [List.length_cons, List.length_nil] at hle
            omega
          · exact closerAt_append_eq_none hclose post
        rw [List.cons_append] at hclose'
        obtain ⟨stop', hread'⟩ := readToken_append hread (by rintro rfl; simp at hlength) post
          (pos'.advanceOver (cs.takeWhile Text.isBlank))
        simp only [hclose', hread']
        exact ⟨_, _, rfl, rfl, .tag ..⟩
      · cases h

/-! ## The run -/

/-- A run that reaches the end of the text inside of a tag fails. -/
theorem alive_of_runs {s : State} {lexemes : List Lexeme} (h : Runs s lexemes) : s.Alive := by
  induction h with
  | @finished s marker hstep =>
    obtain ⟨trim, hmode⟩ := exists_data_of_finished hstep
    unfold State.Alive
    rw [hmode]
    trivial
  | @more s next lexeme lexemes hstep _ ih =>
    obtain ⟨mode, pos, rest⟩ := s
    cases mode with
    | data trim => trivial
    | opener kind =>
      rintro rfl
      cases kind with
      | comment => cases hstep
      | tag kind =>
        cases hstep
        exact absurd ih (by simp [State.Alive, skipDash, beginsWithDash])
    | tag kind opened =>
      have hle := length_dropWhile_le Text.isBlank rest
      show 2 ≤ rest.length
      simp only [step, stepTag, Text.trimStart] at hstep
      split at hstep
      · cases hstep
      · next c cs hcs =>
        rw [hcs, List.length_cons] at hle
        split at hstep
        · next closer hclose =>
          obtain ⟨happ, hlexeme⟩ := eq_of_closerAt hclose
          have hlength := congrArg List.length happ
          rw [hlexeme] at hlength
          simp only [List.length_append, List.length_cons, List.length_nil] at hlength
          omega
        · split at hstep
          · next hread =>
            cases hstep
            have hread := length_of_readToken hread
            have hnext : 2 ≤ _ := ih
            simp only at hnext
            omega
          · cases hstep

/-- A text ends with a plain closer, and that closer is one of its tokens. -/
def EndsClosed (source : String) (tokens : List (Located Token)) : Prop :=
  ∃ (kind : TagKind) (front : List Char), source.toList = front ++ [kind.closeMark, '\x7d'] ∧
    ⟨kind.endToken, ⟨Position.start.advanceOver front,
      Position.start.advanceOver source.toList⟩⟩ ∈ tokens

theorem eq_eof_of_runs {pos : Position} {trim : Bool} {lexemes : List Lexeme}
    (h : Runs ⟨.data trim, pos, []⟩ lexemes) : lexemes = [.token ⟨.eof, .point pos⟩] := by
  cases h with
  | more hstep => cases hstep
  | finished hstep =>
    cases hstep
    rfl

theorem eq_nil_of_at {source : String} {rest : List Char}
    (h : (Position.start.advanceOver source.toList).At source.toList rest) : rest = [] := by
  obtain ⟨passed, htext, hpos⟩ := h
  have hoffset := congrArg Position.offset hpos
  rw [Position.offset_advanceOver, Position.offset_advanceOver] at hoffset
  have hbytes := congrArg (fun cs : List Char => (cs.map Char.utf8Size).sum) htext
  simp only [List.map_append, List.sum_append] at hbytes
  cases rest with
  | nil => rfl
  | cons c rest =>
    have hc := c.utf8Size_pos
    rw [List.map_cons, List.sum_cons] at hbytes
    omega

/-- In a tag, only a closer is no content. -/
theorem exists_closer_of_stepTag {kind : TagKind} {opened : Span} {pos : Position}
    {cs : List Char} {t : Located Token} {next : State}
    (h : stepTag kind opened pos cs = .more (some (.token t)) next)
    (ht : isContent t.value = false) :
    ∃ (start : Position) (trims : Bool) (after : List Char),
      t = ⟨kind.endToken,
        ⟨start, start.advanceOver (dashText trims ++ [kind.closeMark, '\x7d'])⟩⟩ ∧
      next = ⟨.data trims, t.span.stop, after⟩ := by
  unfold stepTag at h
  simp only at h
  split at h
  · cases h
  · split at h
    · next closer hclose =>
      cases h
      obtain ⟨-, hlexeme⟩ := eq_of_closerAt hclose
      rw [hlexeme]
      exact ⟨_, closer.trims, closer.after, rfl, rfl⟩
    · split at h
      · next hread =>
        cases h
        obtain ⟨_, -, -, -, hcontent⟩ := spells_of_readToken hread
        simp only at ht
        rw [hcontent] at ht
        cases ht
      · cases h

/-- Only in a tag is a closer recognised. -/
theorem mode_of_endToken {s next : State} {t : Located Token} {kind : TagKind}
    (hstep : step s = .more (some (.token t)) next) (ht : t.value = kind.endToken) :
    ∃ kind' opened, s.mode = .tag kind' opened := by
  obtain ⟨mode, pos, rest⟩ := s
  cases mode with
  | tag kind' opened => exact ⟨kind', opened, rfl⟩
  | data trim =>
    exfalso
    simp only [step, stepData] at hstep
    split at hstep
    · cases hstep
    · split at hstep
      all_goals
        obtain ⟨htoken, -⟩ := Step.more.inj hstep
        obtain ⟨t', ht', heq⟩ := Option.map_eq_some_iff.mp htoken
        cases heq
        have hdata := isData_of_dataToken ht'
        rw [ht] at hdata
        cases kind <;> cases hdata
  | opener opener =>
    exfalso
    cases opener with
    | comment =>
      simp only [step, stepOpener, stepComment] at hstep
      split at hstep <;> cases hstep
    | tag kind' =>
      cases hstep
      cases kind <;> cases kind' <;> cases ht

/-- The closer that a text ends with leaves the machine in front of data. -/
theorem next_of_closer {source : String} {s next : State} {t : Located Token}
    (hs : s.Sound source) (hstep : step s = .more (some (.token t)) next) {kind : TagKind}
    {front : List Char} (hsource : source.toList = front ++ [kind.closeMark, '\x7d'])
    (ht : t = ⟨kind.endToken, ⟨Position.start.advanceOver front,
      Position.start.advanceOver source.toList⟩⟩) :
    (∃ kind opened, s.mode = .tag kind opened) ∧
      next = ⟨.data false, Position.start.advanceOver source.toList, []⟩ := by
  have hsound := sound_step hs
  rw [hstep] at hsound
  obtain ⟨kind', opened, hmode⟩ := mode_of_endToken hstep (by rw [ht])
  obtain ⟨mode, pos, rest⟩ := s
  obtain rfl : mode = .tag kind' opened := hmode
  refine ⟨⟨kind', opened, rfl⟩, ?_⟩
  have hcontent : isContent t.value = false := by rw [ht]; exact isContent_endToken kind
  obtain ⟨start, trims, after, heq, rfl⟩ := exists_closer_of_stepTag hstep hcontent
  have hstart : start = Position.start.advanceOver front := by
    have := congrArg (fun t : Located Token => t.span.start) (heq.symm.trans ht)
    exact this
  have hstop : t.span.stop = Position.start.advanceOver source.toList := by rw [ht]
  -- The closer has two characters, so it removes nothing.
  have htrims : trims = false := by
    have hspan := congrArg (fun t : Located Token => t.span.stop.offset) (heq.symm.trans ht)
    simp only [hstart, hsource, Position.offset_advanceOver, List.map_append, List.sum_append]
      at hspan
    cases trims with
    | false => rfl
    | true =>
      have hdash : ((dashText true).map Char.utf8Size).sum = 1 := rfl
      have hmark : ∀ k : TagKind, ([k.closeMark, '\x7d'].map Char.utf8Size).sum = 2 := by
        intro k
        cases k <;> rfl
      rw [hmark, hmark, hdash] at hspan
      omega
  have hafter : after = [] := by
    have hat : t.span.stop.At source.toList after := hsound.2
    rw [hstop] at hat
    exact eq_nil_of_at hat
  rw [htrims, hstop, hafter]

theorem follows_of_runs {s s' next : State} {lexeme : Option Lexeme} {lexemes : List Lexeme}
    (hstep : step s = .more lexeme next) (hrun : Runs next lexemes)
    (hmore : (∃ kind opened, s.mode = .tag kind opened) ∨
      ∃ t, .token t ∈ lexemes ∧ t.value ≠ .eof)
    (hext : Extends post s s') : Follows post s' lexeme next := by
  have halive := alive_of_runs hrun
  cases hext with
  | data trim pos pos' rest =>
    refine follows_stepData hstep halive ?_ post pos'
    -- Data that reaches the end of the text has only the end marker behind it.
    intro trim' hmode
    obtain ⟨t, ht, hne⟩ := hmore.resolve_left (by rintro ⟨_, _, htag⟩; cases htag)
    have hend : next.rest = [] := by
      simp only [step, stepData] at hstep
      split at hstep
      · cases hstep
      · split at hstep
        · cases hstep
          cases hmode
        · cases hstep
          rfl
    obtain ⟨mode, pos, rest⟩ := next
    simp only at hmode hend
    subst hmode hend
    rw [eq_eof_of_runs hrun, List.mem_singleton] at ht
    cases ht
    exact hne rfl
  | opener kind pos pos' rest =>
    have hrest : rest ≠ [] := alive_of_runs (.more hstep hrun)
    exact follows_stepOpener hrest hstep post pos'
  | tag kind opened opened' pos pos' rest => exact follows_stepTag hstep halive post opened' pos'

theorem tokensFrom_follows {s' next : State} {lexeme : Option Lexeme}
    (h : Follows post s' lexeme next) :
    ∃ next', Extends post next next' ∧
      tokensFrom s' = (tokensFrom next').map (valuesOf lexeme ++ ·) := by
  obtain ⟨lexeme', next', hstep, hvalues, hext⟩ := h
  refine ⟨next', hext, ?_⟩
  rw [← hvalues]
  exact tokensFrom_more hstep

/-- A run up to a closer at the end of the text goes on behind it as if the text had
just begun. -/
theorem tokensFrom_extends {source : String} {s s' : State} {lexemes : List Lexeme}
    (h : Runs s lexemes) (hs : s.Sound source)
    (hclosed : EndsClosed source (tokensOf lexemes)) (hext : Extends post s s') :
    ∃ values stop, (tokensOf lexemes).map Located.value = values ++ [.eof] ∧
      tokensFrom s' = (tokensFrom ⟨.data false, stop, post⟩).map (values ++ ·) := by
  induction h generalizing s' with
  | @finished s marker hstep =>
    obtain ⟨kind, front, -, hmem⟩ := hclosed
    have heof := eof_of_finished hstep
    obtain rfl := List.mem_singleton.mp hmem
    cases kind <;> cases heof
  | @more s next lexeme lexemes hstep hrun ih =>
    obtain ⟨kind, front, hsource, hmem⟩ := hclosed
    have hsound := sound_step hs
    rw [hstep] at hsound
    rw [tokensOf_append, List.mem_append] at hmem
    rcases hmem with hmem | hmem
    · have hlexeme := mem_tokensOf.mp hmem
      rw [Option.mem_toList] at hlexeme
      subst hlexeme
      obtain ⟨hmode, rfl⟩ := next_of_closer hs hstep hsource rfl
      obtain ⟨next', hnext, htokens⟩ := tokensFrom_follows
        (follows_of_runs hstep hrun (.inl hmode) hext)
      cases hnext
      refine ⟨_, _, ?_, htokens⟩
      rw [eq_eof_of_runs hrun, tokensOf_append, List.map_append]
      rfl
    · have hmore : ∃ t, .token t ∈ lexemes ∧ t.value ≠ .eof :=
        ⟨_, mem_tokensOf.mp hmem, by cases kind <;> simp [TagKind.endToken]⟩
      obtain ⟨next', hnext, htokens⟩ := tokensFrom_follows
        (follows_of_runs hstep hrun (.inr hmore) hext)
      obtain ⟨values, stop, hvalues, hrest⟩ := ih hsound.2 ⟨kind, front, hsource, hmem⟩ hnext
      refine ⟨valuesOf lexeme ++ values, stop, ?_, ?_⟩
      · rw [tokensOf_append, List.map_append, hvalues, List.append_assoc]
        rfl
      · rw [htokens, hrest, Option.map_map]
        congr 1
        funext more
        simp

/-! ## A text in its surroundings -/

/-- The token of a text that is all data; none if the text is empty. -/
def dataTokens (text : List Char) : List Token :=
  if text = [] then [] else [.data (String.ofList text)]

theorem tokensFrom_text {text rest : List Char} (hdata : Layout.IsData text rest)
    (hrest : EndsData rest) (pos : Position) :
    tokensFrom ⟨.data false, pos, text ++ rest⟩
      = (tokensFrom ⟨.data false, pos.advanceOver text, rest⟩).map (dataTokens text ++ ·) := by
  unfold dataTokens
  split
  · next hnil =>
    subst hnil
    simp
  · next hne => exact tokensFrom_data hne hdata hrest

theorem isData_nil {text : List Char} (h : ∀ kind : Opener, ¬ ['\x7b', kind.mark] <:+: text) :
    Layout.IsData text [] := by
  intro suffix hsuffix hne
  cases hopen : openerAt (suffix ++ []) with
  | none => rfl
  | some found =>
    obtain ⟨kind, inside⟩ := found
    have heq := eq_of_openerAt hopen
    rw [List.append_nil] at heq
    subst heq
    obtain ⟨before, rfl⟩ := hsuffix
    exact absurd ⟨before, inside, by simp⟩ (h kind)

/-- Counting lexemes fails with one error only. -/
theorem error_of_countFrom {seen : Lexed} {lexemes : List Lexeme} {failure : LexFailure}
    (h : countFrom seen lexemes = .error failure) :
    ∃ count span seen', failure = ⟨.tooManyTokens count span, seen'⟩ := by
  induction lexemes generalizing seen with
  | nil => cases h
  | cons lexeme lexemes ih =>
    cases lexeme with
    | comment => exact ih h
    | token token =>
      simp only [countFrom, count] at h
      split at h
      · exact ih h
      · next hcount =>
        split at hcount
        · cases hcount
        · cases hcount
          cases h
          exact ⟨_, _, _, rfl⟩

/-- A text that the machine reads to its end is only refused for having too many
tokens. -/
theorem error_of_tokenize {source : String} {tokens : List Token} {failure : LexFailure}
    (h : tokensFrom ⟨.data false, .start, source.toList⟩ = some tokens)
    (hfailure : tokenize source = .error failure) :
    ∃ count span seen, failure = ⟨.tooManyTokens count span, seen⟩ := by
  unfold tokensFrom at h
  unfold tokenize Trace.result scan at hfailure
  generalize runFrom ⟨.data false, .start, source.toList⟩ #[] = trace at h hfailure
  obtain ⟨lexemes, _ | error⟩ := trace
  · cases hcount : countFrom {} lexemes.toList with
    | ok seen => simp [hcount] at hfailure
    | error failure' =>
      simp only [hcount, Except.error.injEq] at hfailure
      rw [← hfailure]
      exact error_of_countFrom hcount
  · cases h

/-- A text that begins with an opener and ends with a closer, in front of it a text and
behind it another: what is read is the three of them, one after the other. -/
theorem tokensFrom_framed {pre post : List Char} {r : String} {lexed : Lexed} {kind : Opener}
    {inside : List Char} (h : tokenize r = .ok lexed)
    (hopens : r.toList = '\x7b' :: kind.mark :: inside) (hdash : beginsWithDash inside = false)
    (hcloses : EndsClosed r lexed.tokens.toList)
    (hpre : ∀ kind : Opener, ¬ ['\x7b', kind.mark] <:+: pre)
    (hlast : pre.getLast? ≠ some '\x7b')
    (hpost : ∀ kind : Opener, ¬ ['\x7b', kind.mark] <:+: post) :
    ∃ values, lexed.tokens.toList.map Located.value = values ++ [.eof] ∧
      tokensFrom ⟨.data false, .start, pre ++ (r.toList ++ post)⟩
        = some (dataTokens pre ++ (values ++ (dataTokens post ++ [.eof]))) := by
  obtain ⟨lexemes, hruns, htokens⟩ := runs_of_tokenize h
  rw [htokens] at hcloses ⊢
  have hsound : State.Sound r ⟨.data false, .start, r.toList⟩ := ⟨[], rfl, rfl⟩
  obtain ⟨values, stop, hvalues, hrest⟩ := tokensFrom_extends hruns hsound hcloses
    (.data false .start (Position.start.advanceOver pre) r.toList)
  have hinside : inside ≠ [] := by
    rintro rfl
    obtain ⟨k, front, hsource, -⟩ := hcloses
    rw [hopens] at hsource
    cases front with
    | nil => cases k <;> simp [TagKind.closeMark] at hsource
    | cons c front =>
      have hlength := congrArg List.length hsource
      simp at hlength
  have hends : EndsData (r.toList ++ post) := by
    refine .inr ⟨kind, inside ++ post, by rw [hopens]; rfl, ?_⟩
    rw [beginsWithDash_append hinside, hdash]
  have hlastText := tokensFrom_text (isData_nil hpost) (.inl rfl) stop
  rw [List.append_nil, tokensFrom_end] at hlastText
  refine ⟨values, hvalues, ?_⟩
  rw [tokensFrom_text (isData_of_printable hpre hlast) hends, hrest, hlastText]
  simp

end QueryMachine.Lexer
