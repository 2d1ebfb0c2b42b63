import Mathlib
import QueryMachine.Proofs.Region.Walk

/-!
# The lines of a region

A region is a program of one statement a line, and a line is not a token: data
between two newlines may be interrupted by tags, and a comment leaves nothing
behind but a break between two data tokens. `Body.ofTokens` puts the lines
together again, and `Body.putOut` says which of them are ended by a statement,
for any rule that decides it.

The rule one wants is `Line.bearsEffect`: the line holds an expression tag or
some text. The rule the instrumenter follows is `Line.starts`. The two differ
because the flag that a statement is due is not raised by the data after the
last newline of a data token, so text in front of a tag or comment counts for
nothing unless the line also holds an expression tag or ends in text. Such a line
is run as one with the line after it. `statement_sites_exact` is the precise
account: what is put out for a region, and that it is the wanted output exactly
when no line hides its text that way.
-/

namespace QueryMachine.Region

open Grammar

/-- A line that is ended by a newline: the data directly before the newline, and
the tokens of the line in front of that. -/
structure Line where
  front : List (Located Token)
  pos : Position
  text : List Char

/-- Whether a token is text that is not blank. -/
def isInk : Token → Bool
  | .data text => !Text.isAllBlank text.toList
  | _ => false

namespace Line

def stop (l : Line) : Position := l.pos.advanceOver l.text

def hasOutput (l : Line) : Bool := l.front.any fun t => t.value == .variableBegin

/-- Whether the line holds an expression tag or a character that is not blank. -/
def bearsEffect (l : Line) : Bool :=
  l.hasOutput || l.front.any (fun t => isInk t.value) || !Text.isAllBlank l.text

/-- Whether the line holds an expression tag or ends in text that is not blank. -/
def starts (l : Line) : Bool := l.hasOutput || !Text.isAllBlank l.text

/-- The tokens of the line that stay: all but a blank end. -/
def kept (l : Line) : List (Located Token) :=
  l.front ++ if Text.isAllBlank l.text then [] else [dataAt l.pos l.text]

end Line

/-- The lines of a region, and what stands behind its last newline. -/
structure Body where
  lines : List Line
  rest : List (Located Token)

namespace Body

def cons (t : Located Token) (b : Body) : Body :=
  match b.lines with
  | [] => { b with rest := t :: b.rest }
  | l :: ls => { b with lines := { l with front := t :: l.front } :: ls }

/-- The pieces of a data token in front of a body, from `pos` on. -/
def consData (b : Body) (pos : Position) : List (List Char) → Body
  | [] => b
  | [last] => b.cons (dataAt pos last)
  | piece :: next :: more =>
    let after := b.consData ((pos.advanceOver piece).advance '\n') (next :: more)
    { after with lines := ⟨[], pos, piece⟩ :: after.lines }

/-- The lines that tokens make. Newlines count where they stand in data. -/
def ofTokens : List (Located Token) → Body
  | [] => ⟨[], []⟩
  | t :: ts =>
    match t.value with
    | .data text => (ofTokens ts).consData t.span.start (text.toList.splitOn '\n')
    | _ => (ofTokens ts).cons t

/-- Lines, each ended by a statement if a rule wants it; the first one also if
one is due. -/
def linesOut (hooks : Hooks) (rule : Line → Bool) (due : Bool) :
    List Line → List (Located Token)
  | [] => []
  | l :: ls =>
    l.kept ++ (if due || rule l then (call hooks.statement l.stop).toList else []) ++
      linesOut hooks rule false ls

def putOut (hooks : Hooks) (rule : Line → Bool) (due : Bool) (b : Body) :
    List (Located Token) :=
  linesOut hooks rule due b.lines ++ b.rest

/-! ## What the walk puts out -/

variable {hooks : Hooks}

theorem putOut_cons_output (due : Bool) (span : Span) (b : Body) :
    (b.cons ⟨.variableBegin, span⟩).putOut hooks Line.starts due
      = ⟨.variableBegin, span⟩ :: b.putOut hooks Line.starts true := by
  obtain ⟨lines, rest⟩ := b
  cases lines with
  | nil => rfl
  | cons l ls => simp [cons, putOut, linesOut, Line.starts, Line.hasOutput, Line.kept, Line.stop]

theorem putOut_cons (due : Bool) {t : Located Token} (ht : t.value ≠ .variableBegin)
    (b : Body) :
    (b.cons t).putOut hooks Line.starts due = t :: b.putOut hooks Line.starts due := by
  have hbeq : (t.value == Token.variableBegin) = false := by simpa using ht
  obtain ⟨lines, rest⟩ := b
  cases lines with
  | nil => rfl
  | cons l ls =>
    simp [cons, putOut, linesOut, Line.starts, Line.hasOutput, Line.kept, Line.stop, hbeq]

theorem putOut_consData (due : Bool) (pos : Position) (pieces : List (List Char)) (b : Body) :
    (b.consData pos pieces).putOut hooks Line.starts due
      = lineTokens hooks due pos pieces ++
          b.putOut hooks Line.starts (dueAfter due pieces) := by
  induction pieces generalizing due pos with
  | nil => rfl
  | cons piece pieces ih =>
    cases pieces with
    | nil => exact putOut_cons due (by simp [dataAt]) b
    | cons next more =>
      have hrest := ih false ((pos.advanceOver piece).advance '\n')
      rw [dueAfter_false] at hrest
      have hafter : dueAfter due (piece :: next :: more) = false := rfl
      rw [lineTokens, hafter, List.append_assoc, ← hrest]
      simp [consData, putOut, linesOut, Line.starts, Line.hasOutput, Line.kept, Line.stop]

end Body

variable {hooks : Hooks} {p : Progress}

theorem putOut_quiet (due : Bool) {w : List (Located Token)}
    (hw : ∀ t ∈ w, isQuiet t.value = true) (rest : List (Located Token)) :
    (Body.ofTokens (w ++ rest)).putOut hooks Line.starts due
      = w ++ (Body.ofTokens rest).putOut hooks Line.starts due := by
  induction w with
  | nil => rfl
  | cons t w ih =>
    rw [List.forall_mem_cons] at hw
    obtain ⟨value, span⟩ := t
    have hne : value ≠ .variableBegin := by
      rintro rfl
      cases hw.1
    have hcons : Body.ofTokens (⟨value, span⟩ :: (w ++ rest))
        = (Body.ofTokens (w ++ rest)).cons ⟨value, span⟩ := by
      cases value <;> first | rfl | cases hw.1
    rw [List.cons_append, hcons, Body.putOut_cons due hne, ih hw.2, List.cons_append]

/-- One piece of a region's body: what is put out for it is its share of what the
lines put out. -/
theorem emits_piece_inside {w : List (Located Token)} (hw : Lexer.IsPiece w)
    (hmark : beginsMark w = false) (hp : p.inRegion = true) :
    ∃ e q, Emits hooks p w e q ∧ q.inRegion = true ∧
      ∀ rest, (Body.ofTokens (w ++ rest)).putOut hooks Line.starts p.due
        = e ++ (Body.ofTokens rest).putOut hooks Line.starts q.due := by
  cases hw with
  | data text span =>
    refine ⟨_, _, emits_data_inside hp text span, (p.inRegion_sawData ..).trans hp, ?_⟩
    intro rest
    rw [Progress.due_sawData]
    exact Body.putOut_consData p.due span.start _ _
  | @tag kind first last w hcontent =>
    cases kind with
    | expression =>
      refine ⟨_, _, emits_variableTag hcontent first last, p.inRegion_sawOutput.trans hp, ?_⟩
      intro rest
      rw [Progress.due_sawOutput hp]
      refine (Body.putOut_cons_output p.due first _).trans ?_
      exact congrArg _ (putOut_quiet true (isQuiet_of_tag hcontent .expression last) rest)
    | block =>
      refine ⟨_, _, emits_blockTag hcontent first last hmark, hp, ?_⟩
      intro rest
      refine (Body.putOut_cons p.due (t := ⟨.blockBegin, first⟩) (by simp) _).trans ?_
      exact congrArg _ (putOut_quiet p.due (isQuiet_of_tag hcontent .block last) rest)

/-- No region tag begins in these tokens. -/
def Unmarked (w : List (Located Token)) : Prop :=
  ∀ suffix ∈ w.tails, beginsMark suffix = false

instance (w : List (Located Token)) : Decidable (Unmarked w) :=
  inferInstanceAs (Decidable (∀ suffix ∈ w.tails, beginsMark suffix = false))

theorem Unmarked.of_append {w rest : List (Located Token)} (h : Unmarked (w ++ rest)) :
    Unmarked rest := by
  intro suffix hs
  rw [List.mem_tails] at hs
  exact h suffix ((List.mem_tails ..).mpr (hs.trans (List.suffix_append w rest)))

theorem Unmarked.piece {w rest : List (Located Token)} (hw : Lexer.IsPiece w)
    (h : Unmarked (w ++ rest)) : beginsMark w = false := by
  have hall := h _ ((List.mem_tails ..).mpr (List.suffix_refl _))
  cases hw with
  | data => rfl
  | @tag kind first last w hcontent => cases w <;> exact hall

/-- The body of a region is put out line by line. -/
theorem emits_body {w : List (Located Token)} (hw : Lexer.Shaped w) (hmark : Unmarked w)
    (hp : p.inRegion = true) :
    ∃ q, Emits hooks p w ((Body.ofTokens w).putOut hooks Line.starts p.due) q ∧
      q.inRegion = true := by
  induction hw generalizing p with
  | nil => exact ⟨p, .nil, hp⟩
  | cons hw _ ih =>
    obtain ⟨e, q, hemits, hq, hout⟩ := emits_piece_inside hw (hmark.piece hw) hp
    obtain ⟨r, hrest, hr⟩ := ih hmark.of_append hq
    rw [hout]
    exact ⟨r, hemits.append hrest, hr⟩

/-! ## The two rules compared -/

theorem length_call (name : String) (pos : Position) : (call name pos).toList.length = 5 := by
  simp [call]

/-- A rule that wants more puts out one call more for each line that only it
wants. -/
theorem length_linesOut {rule wider : Line → Bool} (h : ∀ l, rule l = true → wider l = true)
    (lines : List Line) :
    (Body.linesOut hooks wider false lines).length
      = (Body.linesOut hooks rule false lines).length
        + 5 * lines.countP fun l => wider l && !rule l := by
  induction lines with
  | nil => rfl
  | cons l ls ih =>
    simp only [Body.linesOut, Bool.false_or, List.length_append, ih, List.countP_cons]
    cases hr : rule l with
    | true =>
      rw [h l hr]
      simp only [if_true, Bool.not_true, Bool.and_false, Bool.false_eq_true, if_false]
      omega
    | false =>
      cases wider l with
      | true =>
        simp only [if_true, Bool.not_false, Bool.and_true, length_call, Bool.false_eq_true,
          if_false, List.length_nil]
        omega
      | false =>
        simp only [Bool.false_and, Bool.false_eq_true, if_false, List.length_nil]
        omega

theorem Line.bearsEffect_of_starts (l : Line) (h : l.starts = true) : l.bearsEffect = true := by
  unfold starts at h
  unfold bearsEffect
  rw [Bool.or_eq_true] at h
  rcases h with h | h <;> simp [h]

theorem linesOut_starts_eq_iff (lines : List Line) :
    Body.linesOut hooks Line.starts false lines = Body.linesOut hooks Line.bearsEffect false lines ↔
      ∀ l ∈ lines, l.bearsEffect = true → l.starts = true := by
  constructor
  · intro heq
    have hlength := @length_linesOut hooks _ _ Line.bearsEffect_of_starts lines
    rw [heq] at hlength
    have hnone : lines.countP (fun l => l.bearsEffect && !l.starts) = 0 := by omega
    rw [List.countP_eq_zero] at hnone
    intro l hl heffect
    simpa [heffect] using hnone l hl
  · intro h
    induction lines with
    | nil => rfl
    | cons l ls ih =>
      rw [List.forall_mem_cons] at h
      have hl : l.starts = l.bearsEffect :=
        Bool.eq_iff_iff.mpr ⟨l.bearsEffect_of_starts, h.1⟩
      rw [Body.linesOut, Body.linesOut, ih h.2, hl]

/-- The two rules put out the same exactly when no line but the first has its
text in front of a tag or comment only. -/
theorem putOut_starts_eq_iff (b : Body) :
    b.putOut hooks Line.starts true = b.putOut hooks Line.bearsEffect true ↔
      ∀ l ∈ b.lines.tail, l.bearsEffect = true → l.starts = true := by
  obtain ⟨lines, rest⟩ := b
  cases lines with
  | nil => simp [Body.putOut, Body.linesOut]
  | cons l ls =>
    rw [List.tail_cons, ← @linesOut_starts_eq_iff hooks ls]
    simp only [Body.putOut, Body.linesOut, Bool.true_or, if_true, List.append_cancel_left_eq,
      List.append_cancel_right_eq]

/-! ## Regions of a template -/

theorem exists_final_eq {out final : Array (Located Token)} {q : Progress}
    {tokens : List (Located Token)} (h : runFrom hooks p out tokens = .ok (final, q)) :
    ∃ after, final.toList = out.toList ++ after := by
  fun_induction runFrom hooks p out tokens with
  | case1 =>
    cases h
    exact ⟨[], by simp⟩
  | case2 p out token rest v error herror => cases h
  | case3 p out token rest v more hmore ih =>
    obtain ⟨after, hafter⟩ := ih h
    exact ⟨more.toList ++ after, by rw [hafter]; simp⟩

/-- A walk that goes on behind some pieces has put something out for them. -/
theorem exists_emits {w rest : List (Located Token)} (hw : Lexer.Shaped w)
    {out final : Array (Located Token)} {q : Progress}
    (h : runFrom hooks p out (w ++ rest) = .ok (final, q)) :
    ∃ e r, Emits hooks p w e r := by
  induction hw generalizing p out with
  | nil => exact ⟨[], p, .nil⟩
  | @cons w rest' hw _ ih =>
    rw [List.append_assoc] at h
    have hstep : ∃ e r, Emits hooks p w e r := by
      have hnot : ¬ ∀ out rest, ∃ error, runFrom hooks p out (w ++ rest) = .error error := by
        intro herror
        obtain ⟨error, herror⟩ := herror out (rest' ++ rest)
        rw [herror] at h
        cases h
      cases hp : p.opened with
      | none =>
        rcases @piece_outside_cases hooks p w hw hp with ⟨-, h⟩ | ⟨_, _, _, -, h⟩ | h
        · exact ⟨_, _, h⟩
        · exact ⟨_, _, h⟩
        · exact absurd h hnot
      | some opened =>
        have hin : p.inRegion = true := Progress.inRegion_of_opened hp
        rcases @piece_inside_cases hooks p w hw hin with hmark | ⟨_, _, _, -, h⟩ | h
        · obtain ⟨e, r, h, -⟩ := emits_piece_inside hw hmark hin
          exact ⟨e, r, h⟩
        · exact ⟨_, _, h⟩
        · exact absurd h hnot
    obtain ⟨e, r, hemits⟩ := hstep
    rw [hemits] at h
    obtain ⟨e', r', hemits'⟩ := ih h
    exact ⟨e ++ e', r', hemits.append hemits'⟩

theorem exists_before_eof {w before after : List (Located Token)} {t : Located Token}
    {eof : Span} (ht : t.value ≠ .eof) (heq : w ++ [⟨.eof, eof⟩] = before ++ t :: after) :
    ∃ rest, w = before ++ t :: rest ∧ after = rest ++ [⟨.eof, eof⟩] := by
  rcases List.append_eq_append_iff.mp heq with ⟨more, -, hmore⟩ | ⟨more, rfl, hmore⟩
  · cases more with
    | nil =>
      rw [List.nil_append, List.cons.injEq] at hmore
      exact absurd (congrArg Located.value hmore.1).symm ht
    | cons t' more => simp at hmore
  · cases more with
    | nil =>
      rw [List.nil_append, List.cons.injEq] at hmore
      exact absurd (congrArg Located.value hmore.1) ht
    | cons t' more =>
      rw [List.cons_append, List.cons.injEq] at hmore
      obtain ⟨rfl, rfl⟩ := hmore
      exact ⟨more, rfl, rfl⟩

theorem shaped_region {w before body after : List (Located Token)}
    {eof first tag last first' : Span} (hw : Lexer.Shaped w)
    (heq : w ++ [⟨.eof, eof⟩] = before ++ (nameTag openName first tag last ++
      (body ++ ⟨.blockBegin, first'⟩ :: after))) :
    Lexer.Shaped before ∧ Lexer.Shaped body := by
  obtain ⟨rest, hrest, heq⟩ := exists_before_eof (by simp) heq
  obtain ⟨hbefore, hopen⟩ := hw.cut hrest
  have heq : ⟨.blockBegin, first⟩ :: rest ++ [⟨.eof, eof⟩]
      = nameTag openName first tag last ++ body ++ ⟨.blockBegin, first'⟩ :: after := by
    rw [List.cons_append, ← heq, List.append_assoc]
    rfl
  obtain ⟨rest', hrest', -⟩ := exists_before_eof (by simp) heq
  rw [hrest', List.append_assoc] at hopen
  obtain ⟨hbody, -⟩ := (hopen.of_piece (isPiece_nameTag ..)).cut rfl
  exact ⟨hbefore, hbody⟩

/-- What is put out for a region, and when that is what its lines want. The
region is any opening tag of the template with the tokens up to the closing tag
after it. -/
theorem statement_sites_exact {source : String} {lexed : Lexed} {i : Instrumented}
    (h : Lexer.tokenize source = .ok lexed)
    (hi : instrument hooks lexed.tokens.toList = .ok i)
    {before body after : List (Located Token)} {first tag last first' tag' : Span}
    (htokens : lexed.tokens.toList = before ++ (nameTag openName first tag last ++
      (body ++ ([⟨.blockBegin, first'⟩, ⟨.name closeName, tag'⟩] ++ after))))
    (hbody : Unmarked body) :
    (∃ before' p after', runFrom hooks {} #[] before = .ok (before', p) ∧
      i.tokens.toList = before'.toList ++
        (nameTag openName first tag last ++ (call hooks.prologue last.stop).toList ++
          ((Body.ofTokens body).putOut hooks Line.starts true ++
            ((call hooks.epilogue first'.start).toList ++
              [⟨.blockBegin, first'⟩, ⟨.name closeName, tag'⟩] ++ after')))) ∧
    ((Body.ofTokens body).putOut hooks Line.starts true
        = (Body.ofTokens body).putOut hooks Line.bearsEffect true ↔
      ∀ l ∈ (Body.ofTokens body).lines.tail, l.bearsEffect = true → l.starts = true) := by
  refine ⟨?_, putOut_starts_eq_iff _⟩
  obtain ⟨w, eof, hw, hshaped⟩ := Lexer.shaped_of_tokenize h
  obtain ⟨⟨final, q⟩, hrun, rfl⟩ := Lexer.exists_of_map_eq_ok hi
  rw [closed_of_tokenize h, htokens] at hrun
  obtain ⟨hbefore, hrest⟩ := shaped_region hshaped (hw.symm.trans htokens)
  -- The walk reaches the opening tag outside of regions, or it would have ended there.
  obtain ⟨e, p, hemits⟩ := exists_emits hbefore hrun
  rw [hemits] at hrun
  have hp : p.opened = none := by
    cases hopened : p.opened with
    | none => rfl
    | some opened =>
      have := @runFrom_nested hooks p opened hopened ⟨.name openName, tag⟩ rfl
      rw [nameTag, List.cons_append, List.cons_append, this] at hrun
      cases hrun
  obtain ⟨r, hbody, hr⟩ := @emits_body hooks (p.enter (first.cover last)).countCall _ hrest
    hbody rfl
  rw [emits_open hp, hbody, emits_close hr] at hrun
  obtain ⟨after', hfinal⟩ := exists_final_eq hrun
  refine ⟨e.toArray, p, after', ?_, ?_⟩
  · have := hemits #[] []
    rw [List.append_nil, Array.empty_append, runFrom] at this
    exact this
  · rw [hfinal]
    simp [Progress.countCall, Progress.enter]

/-- Two lines of which the first ends in a comment: its text is hidden. -/
theorem statement_sites_exact_comment :
    ∃ lexed i body,
      Lexer.tokenize "\x7b% sqlvm %\x7d\nA\x7b# c #\x7d\nB\n\x7b% endsqlvm %\x7d" = .ok lexed ∧
      instrument {} lexed.tokens.toList = .ok i ∧
      body = [⟨.data "\nA", ⟨⟨11, 1, 12⟩, ⟨13, 2, 2⟩⟩⟩,
        ⟨.data "\nB\n", ⟨⟨20, 2, 9⟩, ⟨23, 4, 1⟩⟩⟩] ∧
      Unmarked body ∧
      (∃ after', i.tokens.toList =
        nameTag openName ⟨⟨0, 1, 1⟩, ⟨2, 1, 3⟩⟩ ⟨⟨3, 1, 4⟩, ⟨8, 1, 9⟩⟩ ⟨⟨9, 1, 10⟩, ⟨11, 1, 12⟩⟩ ++
          (call "prologue" ⟨11, 1, 12⟩).toList ++
          ((Body.ofTokens body).putOut {} Line.starts true ++
            ((call "epilogue" ⟨23, 4, 1⟩).toList ++
              [⟨.blockBegin, ⟨⟨23, 4, 1⟩, ⟨25, 4, 3⟩⟩⟩,
               ⟨.name closeName, ⟨⟨26, 4, 4⟩, ⟨34, 4, 12⟩⟩⟩] ++ after'))) ∧
      (Body.ofTokens body).putOut {} Line.starts true
        ≠ (Body.ofTokens body).putOut {} Line.bearsEffect true := by
  obtain ⟨lexed, i, h, hi, htokens⟩ : ∃ lexed i,
      Lexer.tokenize "\x7b% sqlvm %\x7d\nA\x7b# c #\x7d\nB\n\x7b% endsqlvm %\x7d" = .ok lexed ∧
      instrument {} lexed.tokens.toList = .ok i ∧
      lexed.tokens.toList = [] ++ (nameTag openName ⟨⟨0, 1, 1⟩, ⟨2, 1, 3⟩⟩
          ⟨⟨3, 1, 4⟩, ⟨8, 1, 9⟩⟩ ⟨⟨9, 1, 10⟩, ⟨11, 1, 12⟩⟩ ++
        ([⟨.data "\nA", ⟨⟨11, 1, 12⟩, ⟨13, 2, 2⟩⟩⟩, ⟨.data "\nB\n", ⟨⟨20, 2, 9⟩, ⟨23, 4, 1⟩⟩⟩] ++
          ([⟨.blockBegin, ⟨⟨23, 4, 1⟩, ⟨25, 4, 3⟩⟩⟩,
            ⟨.name closeName, ⟨⟨26, 4, 4⟩, ⟨34, 4, 12⟩⟩⟩] ++
            [⟨.blockEnd, ⟨⟨35, 4, 13⟩, ⟨37, 4, 15⟩⟩⟩, ⟨.eof, ⟨⟨37, 4, 15⟩, ⟨37, 4, 15⟩⟩⟩]))) :=
    ⟨_, _, by cbv, by cbv, by cbv⟩
  obtain ⟨⟨before', p, after', hrun, hout⟩, hiff⟩ :=
    statement_sites_exact h hi htokens (by decide)
  rw [runFrom] at hrun
  cases hrun
  refine ⟨lexed, i, _, h, hi, rfl, by decide, ⟨after', hout⟩, ?_⟩
  rw [ne_eq, hiff]
  decide

/-- In that region the line `A` bears an effect and gets no statement: the call at
the newline behind it is wanted, and the line `B` comes out there. -/
theorem statement_site_missing_before_comment :
    ∃ lexed i,
      Lexer.tokenize "\x7b% sqlvm %\x7d\nA\x7b# c #\x7d\nB\n\x7b% endsqlvm %\x7d" = .ok lexed ∧
      instrument {} lexed.tokens.toList = .ok i ∧
      ∀ after', i.tokens.toList ≠
        nameTag openName ⟨⟨0, 1, 1⟩, ⟨2, 1, 3⟩⟩ ⟨⟨3, 1, 4⟩, ⟨8, 1, 9⟩⟩ ⟨⟨9, 1, 10⟩, ⟨11, 1, 12⟩⟩ ++
          (call "prologue" ⟨11, 1, 12⟩).toList ++
          ((Body.ofTokens [⟨.data "\nA", ⟨⟨11, 1, 12⟩, ⟨13, 2, 2⟩⟩⟩,
            ⟨.data "\nB\n", ⟨⟨20, 2, 9⟩, ⟨23, 4, 1⟩⟩⟩]).putOut {} Line.bearsEffect true ++
            after') := by
  refine ⟨_, _, by cbv, by cbv, ?_⟩
  intro after' heq
  have hplace := congrArg (·[14]?) heq
  cbv at hplace
  cases hplace

end QueryMachine.Region
