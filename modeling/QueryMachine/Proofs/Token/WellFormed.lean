import QueryMachine.Proofs.Token.Lossless
import QueryMachine.Proofs.Token.RoundTrip
import QueryMachine.Proofs.Token.Shape

/-!
# What the lexer promises about its tokens

Every later stage takes three things for granted: the sequence is made of data and
tags, each token is within the limits on its kind, and data is not cut in two
without a reason. The first is the shape that the layout gives, and the other two
are proved here.

That a token is within its limits is decided in the step that recognises it, so it
is a lemma about one step of the machine (`wellFormed_step`) and an induction over
its run. Where data is cut is not: it depends on what stands between two tokens,
which the machine has forgotten when it recognises the second. There the layout is
asked, and the only thing between two runs of data that leaves no token is a
comment.
-/

namespace QueryMachine.Lexer

/-- A letter of names, `[A-Za-z]`. -/
def IsLetter (c : Char) : Prop := ('A' ≤ c ∧ c ≤ 'Z') ∨ ('a' ≤ c ∧ c ≤ 'z')

/-- A name, `[A-Za-z_][A-Za-z0-9_]*`. -/
def IsIdentifier : List Char → Prop
  | [] => False
  | c :: cs =>
    (IsLetter c ∨ c = '_') ∧ ∀ d ∈ cs, IsLetter d ∨ d = '_' ∨ ('0' ≤ d ∧ d ≤ '9')

/-- What a token of a text can hold. -/
def TokenWellFormed : Token → Prop
  | .data text =>
    text.toList ≠ [] ∧ ∀ kind : Opener, ¬ ['\x7b', kind.mark] <:+: text.toList
  | .name text => IsIdentifier text.toList ∧ text.toList.length ≤ 255
  | .string value => value.utf8ByteSize ≤ 1048576
  | .integer value => 0 ≤ value ∧ value ≤ 2 ^ 63 - 1
  | _ => True

/-- Between the token `a` and the token `b` the text holds a comment, and before it
nothing but blanks. -/
def CommentBetween (source : List Char) (a b : Located Token) : Prop :=
  ∃ before blanks body more after,
    source = before ++ (blanks ++ ('\x7b' :: '#' :: body ++ ['#', '\x7d']) ++ more) ++ after ∧
    (∀ c ∈ blanks, Text.isBlank c = true) ∧ ¬ ['#', '\x7d'] <:+: body ∧
    a.span.stop = Position.start.advanceOver before ∧
    b.span.start = Position.start.advanceOver
      (before ++ (blanks ++ ('\x7b' :: '#' :: body ++ ['#', '\x7d']) ++ more))

/-- Of two tokens in a row, both are data only with a comment between them. -/
def DataApart (source : List Char) (a b : Located Token) : Prop :=
  a.value.isData = true → b.value.isData = true → CommentBetween source a b

/-- What every stage after the lexer relies on. -/
structure WellFormed (source : List Char) (tokens : List (Located Token)) : Prop where
  /-- Data and tags that do not nest, then the one end marker. -/
  shaped : ∃ pieces marker, tokens = pieces ++ [⟨.eof, marker⟩] ∧ Shaped pieces
  size : tokens.length ≤ 1000000
  each : ∀ t ∈ tokens, TokenWellFormed t.value
  apart : tokens.IsChain (DataApart source)

/-! ## One token -/

theorem isLetter_of_isAlpha {c : Char} (h : c.isAlpha = true) : IsLetter c := by
  simp only [Char.isAlpha, Char.isUpper, Char.isLower, Bool.or_eq_true, Bool.and_eq_true,
    decide_eq_true_eq] at h
  exact h

theorem isLetter_of_isNameStart {c : Char} (h : isNameStart c = true) :
    IsLetter c ∨ c = '_' := by
  simp only [isNameStart, Bool.or_eq_true, beq_iff_eq] at h
  exact h.imp_left isLetter_of_isAlpha

theorem isLetter_of_isWordChar {c : Char} (h : isWordChar c = true) :
    IsLetter c ∨ c = '_' ∨ ('0' ≤ c ∧ c ≤ '9') := by
  simp only [isWordChar, Char.isAlphanum, Bool.or_eq_true, beq_iff_eq] at h
  rcases h with (halpha | hdigit) | hunder
  · exact .inl (isLetter_of_isAlpha halpha)
  · right
    right
    simp only [Char.isDigit, Bool.and_eq_true, decide_eq_true_eq] at hdigit
    exact hdigit
  · exact .inr (.inl hunder)

theorem wellFormed_readWord {start stop : Position} {c : Char} {cs : List Char} {token : Token}
    (hstart : isNameStart c = true)
    (h : nameToken start (readWord start c cs).1 stop = .ok token) : TokenWellFormed token := by
  unfold nameToken at h
  split at h
  · cases h
  · next hlength =>
    cases h
    simp only [TokenWellFormed, String.toList_ofList]
    refine ⟨⟨isLetter_of_isNameStart hstart, ?_⟩, Nat.le_of_not_gt hlength⟩
    intro d hd
    have hword := List.all_takeWhile (p := isWordChar) (l := cs)
    exact isLetter_of_isWordChar (List.all_eq_true.mp hword d hd)

theorem integerFrom_le {value n : Nat} {cs : List Char} (hvalue : value ≤ maxInteger)
    (h : integerFrom value cs = some n) : n ≤ maxInteger := by
  induction cs generalizing value with
  | nil =>
    cases h
    exact hvalue
  | cons c cs ih =>
    rw [integerFrom] at h
    split at h
    · next hnext => exact ih hnext.2 h
    · cases h

theorem wellFormed_integerToken {start stop : Position} {word : List Char} {token : Token}
    (h : integerToken start word stop = .ok token) : TokenWellFormed token := by
  unfold integerToken at h
  split at h
  · next value hvalue =>
    cases h
    have hle : value ≤ 9223372036854775807 := integerFrom_le (Nat.zero_le _) hvalue
    simp only [TokenWellFormed]
    omega
  · cases h

/-- The size is checked after every character, so it holds of what was read. -/
theorem size_of_readString {quote : Char} {before cs value after : List Char} {size : Nat}
    {pos stop : Position} (hsize : (before.map Char.utf8Size).sum = size)
    (hle : size ≤ Limits.maxStringSize)
    (h : readString quote before size pos cs = .closed value stop after) :
    (value.map Char.utf8Size).sum ≤ Limits.maxStringSize := by
  fun_induction readString quote before size pos cs with
  | case1 => cases h
  | case2 before size pos cs =>
    cases h
    rw [List.map_reverse, List.sum_reverse, hsize]
    exact hle
  | case3 => cases h
  | case4 => cases h
  | case5 before size pos e cs stop' size' hlarge hne ih =>
    refine ih ?_ (Nat.le_of_not_gt ‹_›) h
    rw [List.map_cons, List.sum_cons, hsize, Nat.add_comm]
  | case6 => cases h
  | case7 before size pos c cs hne hslash stop' size' hlarge ih =>
    refine ih ?_ (Nat.le_of_not_gt ‹_›) h
    rw [List.map_cons, List.sum_cons, hsize, Nat.add_comm]

theorem wellFormed_punctuation {c : Char} {token : Token} (h : punctuation? c = some token) :
    TokenWellFormed token := by
  unfold punctuation? at h
  split at h <;> cases h <;> exact trivial

theorem wellFormed_readToken {start stop : Position} {c : Char} {cs after : List Char}
    {token : Token} (h : readToken start c cs = .ok (token, stop, after)) :
    TokenWellFormed token := by
  unfold readToken at h
  split at h
  · next hstart =>
    obtain ⟨name, hname, heq⟩ := exists_of_map_eq_ok h
    cases heq
    exact wellFormed_readWord hstart hname
  · split at h
    · obtain ⟨integer, hinteger, heq⟩ := exists_of_map_eq_ok h
      cases heq
      exact wellFormed_integerToken hinteger
    · split at h
      · split at h
        · next value stop' after' hread =>
          cases h
          have hsize := size_of_readString (by rfl) (Nat.zero_le _) hread
          simp only [TokenWellFormed, utf8ByteSize_eq_sum, String.toList_ofList]
          exact hsize
        · cases h
        · cases h
      · split at h
        · next hpunct =>
          cases h
          exact wellFormed_punctuation hpunct
        · cases h

theorem Layout.IsData.not_infix {run rest : List Char} (h : Layout.IsData run rest)
    (kind : Opener) : ¬ ['\x7b', kind.mark] <:+: run := by
  rintro ⟨before, after, rfl⟩
  have hnone := h ('\x7b' :: kind.mark :: after) ⟨before, by simp⟩ (by simp)
  rw [List.cons_append, List.cons_append, openerAt_mark] at hnone
  cases hnone

/-- What is kept of some data is a part of it. -/
theorem wellFormed_dataToken {trimFirst trimLast : Bool} {pos : Position}
    {run rest : List Char} {t : Located Token} (hdata : Layout.IsData run rest)
    (h : dataToken trimFirst trimLast pos run = some t) : TokenWellFormed t.value := by
  have hplace := Run.place_parts_cut trimFirst trimLast pos run
  have hall := Run.all_cut trimFirst trimLast run
  rw [h] at hplace
  generalize Run.cut trimFirst trimLast run = cut at hplace hall
  unfold Run.parts at hplace
  split at hplace
  · cases hplace
  · next hne =>
    cases hplace
    simp only [TokenWellFormed, String.toList_ofList]
    refine ⟨by simpa using hne, ?_⟩
    intro kind hinfix
    have hkept : cut.text <:+: run := ⟨cut.lead, cut.trail, by rw [← hall, Run.all]; simp⟩
    exact hdata.not_infix kind ( hinfix.trans hkept)

/-! ## One step, and the run -/

theorem wellFormed_stepData {trim : Bool} {pos : Position} {cs : List Char} {t : Located Token}
    {next : State} (h : stepData trim pos cs = .more (some (.token t)) next) :
    TokenWellFormed t.value := by
  have hdata := isData_breakAt cs
  unfold stepData at h
  split at h
  · cases h
  · simp only at h
    split at h
    all_goals
      obtain ⟨htoken, -⟩ := Step.more.inj h
      obtain ⟨t', ht', heq⟩ := Option.map_eq_some_iff.mp htoken
      cases heq
      exact wellFormed_dataToken hdata ht'

theorem wellFormed_stepOpener {kind : Opener} {pos : Position} {cs : List Char}
    {t : Located Token} {next : State}
    (h : stepOpener kind pos cs = .more (some (.token t)) next) : TokenWellFormed t.value := by
  unfold stepOpener at h
  cases kind with
  | tag kind =>
    cases h
    cases kind <;> exact trivial
  | comment =>
    simp only [stepComment] at h
    split at h <;> cases h

theorem wellFormed_stepTag {kind : TagKind} {opened : Span} {pos : Position} {cs : List Char}
    {t : Located Token} {next : State}
    (h : stepTag kind opened pos cs = .more (some (.token t)) next) :
    TokenWellFormed t.value := by
  unfold stepTag at h
  simp only at h
  split at h
  · cases h
  · split at h
    · cases h
      cases kind <;> exact trivial
    · split at h
      · next hread =>
        cases h
        exact wellFormed_readToken hread
      · cases h

/-- A token is within its limits when it is recognised. -/
theorem wellFormed_step {s next : State} {t : Located Token}
    (h : step s = .more (some (.token t)) next) : TokenWellFormed t.value := by
  unfold step at h
  split at h
  · exact wellFormed_stepData h
  · exact wellFormed_stepOpener h
  · exact wellFormed_stepTag h

theorem wellFormed_of_step {s next : State} {lexeme : Option Lexeme}
    (h : step s = .more lexeme next) :
    ∀ t ∈ tokensOf lexeme.toList, TokenWellFormed t.value := by
  intro t ht
  obtain ⟨found, hmem, heq⟩ := List.mem_filterMap.mp ht
  cases found with
  | comment => cases heq
  | token t' =>
    cases heq
    rw [Option.mem_toList.mp hmem] at h
    exact wellFormed_step h

theorem eof_of_finished {s : State} {marker : Located Token}
    (h : step s = .finished marker) : marker.value = .eof := by
  obtain ⟨trim, hmode⟩ := exists_data_of_finished h
  simp only [step, hmode, stepData] at h
  split at h
  · cases h
    rfl
  · split at h <;> cases h

theorem wellFormed_of_runs {s : State} {lexemes : List Lexeme} (h : Runs s lexemes) :
    ∀ t ∈ tokensOf lexemes, TokenWellFormed t.value := by
  induction h with
  | @more s next lexeme lexemes hstep _ ih =>
    intro t ht
    rw [tokensOf_append, List.mem_append] at ht
    rcases ht with ht | ht
    · exact wellFormed_of_step hstep t ht
    · exact ih t ht
  | @finished s marker hstep =>
    intro t ht
    obtain rfl : t = marker := by simpa [tokensOf] using ht
    rw [eof_of_finished hstep]
    exact trivial

/-! ## Data beside data -/

theorem dataApart_of_not_data {source : List Char} {a b : Located Token}
    (h : a.value.isData = false ∨ b.value.isData = false) : DataApart source a b := by
  intro ha hb
  rw [ha, hb] at h
  simp at h

/-- The tokens of a tag keep the data on its two sides apart. -/
theorem isChain_of_not_data {source : List Char} {tokens : List (Located Token)}
    (h : ∀ t ∈ tokens, t.value.isData = false) : tokens.IsChain (DataApart source) := by
  induction tokens with
  | nil => exact .nil
  | cons t tokens ih =>
    rw [List.forall_mem_cons] at h
    rw [List.isChain_cons]
    exact ⟨fun _ _ => dataApart_of_not_data (.inl h.1), ih h.2⟩

theorem isChain_run (source : List Char) (r : Run) (pos : Position) :
    (tokensOf (place pos r.parts)).IsChain (DataApart source) := by
  rw [tokensOf_run]
  split
  · exact .nil
  · exact .singleton _

theorem not_infix_of_filled {dash : Bool} {body : List Char}
    (h : (Markup.comment dash body).Filled) : ¬ ['#', '\x7d'] <:+: dashText dash ++ body := by
  have hbody : ¬ ['#', '\x7d'] <:+: body := by
    rintro ⟨before, after, rfl⟩
    have hopen := h ('#' :: '\x7d' :: after) ⟨before, by simp⟩ (by simp)
    cases hopen
  cases dash with
  | false => exact hbody
  | true =>
    intro hinfix
    rcases List.infix_cons_iff.mp hinfix with hprefix | hinfix
    · cases (List.cons_prefix_cons.mp hprefix).1
    · exact hbody hinfix

/-- A run of data, a comment, and the first token of what follows. -/
theorem dataApart_of_comment {passed : List Char} {r : Run} {before after : Bool}
    (hr : r.Valid before after) {dash : Bool} {body : List Char}
    (hbody : (Markup.comment dash body).Valid) {rest : List Part} {a b : Located Token}
    (ha : a ∈ tokensOf (place (Position.start.advanceOver passed) r.parts))
    (hb : b ∈ tokensOf (place (Position.start.advanceOver
      (passed ++ (r.all ++ textOf (Markup.comment dash body).parts))) rest)) :
    DataApart (passed ++ (r.all ++ (textOf (Markup.comment dash body).parts ++ textOf rest)))
      a b := by
  intro _ _
  obtain ⟨skipped, token, text, later, rfl, rfl⟩ := mem_tokensOf_place.mp hb
  obtain rfl := eq_of_mem_run ha
  refine ⟨passed ++ (r.lead ++ r.text), r.trail, dashText dash ++ body, textOf skipped,
    text ++ textOf later, ?_, hr.trail_blank, not_infix_of_filled hbody.filled, ?_, ?_⟩
  · simp [Run.all, Markup.parts, Markup.openText, Markup.opener, Markup.trimsBefore, Opener.mark,
      Part.text]
  · exact (Position.advanceOver_append ..).symm
  · rw [← Position.advanceOver_append]
    simp [Run.all, Markup.parts, Markup.openText, Markup.opener, Markup.trimsBefore, Opener.mark,
      Part.text]

theorem Layout.isChain {after : Bool} {l : Layout} (h : l.Valid after) (passed : List Char) :
    (tokensOf (place (Position.start.advanceOver passed) l.parts)).IsChain
      (DataApart (passed ++ l.text)) := by
  induction l generalizing after passed with
  | last run =>
    rw [Layout.parts, place_append, tokensOf_append, List.isChain_append]
    refine ⟨isChain_run _ run _, .singleton _, ?_⟩
    intro a _ b hb
    cases hb
    exact dataApart_of_not_data (.inr rfl)
  | cons run m rest ih =>
    obtain ⟨hrun, -, hm, hrest⟩ := h
    have ih := ih hrest (passed ++ (run.all ++ textOf m.parts))
    have htext : passed ++ (Layout.cons run m rest).text
        = passed ++ (run.all ++ textOf m.parts) ++ rest.text := by
      simp [Layout.text, Layout.parts, Run.textOf_parts]
    have htokens : tokensOf (place (Position.start.advanceOver passed)
          (Layout.cons run m rest).parts)
        = tokensOf (place (Position.start.advanceOver passed) run.parts) ++
          (tokensOf (place (Position.start.advanceOver (passed ++ run.all)) m.parts) ++
            tokensOf (place (Position.start.advanceOver
              (passed ++ (run.all ++ textOf m.parts))) rest.parts)) := by
      simp only [Layout.parts, place_append, tokensOf_append, Run.textOf_parts,
        Position.advanceOver_append]
    rw [htext, htokens, List.isChain_append]
    refine ⟨isChain_run _ run _, ?_, ?_⟩
    · cases m with
      | comment dash body => exact ih
      | tag kind dash words blanks closeDash =>
        have hnot := Markup.not_data hm (Position.start.advanceOver (passed ++ run.all))
        rw [List.isChain_append]
        refine ⟨isChain_of_not_data hnot, ih, ?_⟩
        intro a ha b _
        exact dataApart_of_not_data (.inl (hnot a (List.mem_of_getLast? ha)))
    · intro a ha b hb
      cases m with
      | comment dash body =>
        have happart := dataApart_of_comment hrun hm (List.mem_of_getLast? ha)
          (List.mem_of_head? hb)
        rw [← Layout.text, ← List.append_assoc (run.all), ← List.append_assoc] at happart
        exact happart
      | tag kind dash words blanks closeDash =>
        cases hb
        refine dataApart_of_not_data (.inr ?_)
        cases kind <;> rfl

/-! ## The whole sequence -/

/-- Whatever text is cut into tokens, they are well formed. -/
theorem tokenize_wellFormed {source : String} {lexed : Lexed}
    (h : tokenize source = .ok lexed) : WellFormed source.toList lexed.tokens.toList where
  shaped := shaped_of_tokenize h
  size := by
    have hlength := (tokenize_eq_ok_iff.mp ⟨lexed, h, rfl⟩).2
    rw [List.length_map] at hlength
    exact hlength
  each := by
    obtain ⟨lexemes, hruns, htokens⟩ := runs_of_tokenize h
    rw [htokens]
    exact wellFormed_of_runs hruns
  apart := by
    obtain ⟨l, hvalid, htext, htokens⟩ := exists_layout h
    have hchain := Layout.isChain hvalid []
    rw [List.nil_append, htext] at hchain
    rw [htokens]
    exact hchain

/-- Two runs of data around two comments, the second of which takes the blanks
beside it, and a tag that leaves nothing of the last run. -/
theorem tokenize_wellFormed_comments :
    ∃ lexed,
      tokenize "a\x7b \x7b#x#\x7d \x7b#-y-#\x7d b\x7b\x7bf(-1,'c')-\x7d\x7d " = .ok lexed ∧
      lexed.tokens.toList.map Located.value =
        [.data "a\x7b ", .data "b", .variableBegin, .name "f", .leftParen, .minus, .integer 1,
          .comma, .string "c", .rightParen, .variableEnd, .eof] ∧
      WellFormed "a\x7b \x7b#x#\x7d \x7b#-y-#\x7d b\x7b\x7bf(-1,'c')-\x7d\x7d ".toList
        lexed.tokens.toList := by
  obtain ⟨lexed, hlexed, hvalues⟩ := tokenize_eq_ok_iff.mpr
    ⟨(by cbv : tokensFrom ⟨.data false, .start,
        "a\x7b \x7b#x#\x7d \x7b#-y-#\x7d b\x7b\x7bf(-1,'c')-\x7d\x7d ".toList⟩ = some
          [.data "a\x7b ", .data "b", .variableBegin, .name "f", .leftParen, .minus, .integer 1,
            .comma, .string "c", .rightParen, .variableEnd, .eof]), by decide⟩
  exact ⟨lexed, hlexed, hvalues, tokenize_wellFormed hlexed⟩

end QueryMachine.Lexer
