import QueryMachine.Proofs.Region.Violations

/-!
# What the calls are woven into

Instrumenting a template adds to its tokens and takes away from them: calls are put in,
and data inside of regions is cut into lines of which the blank ones are dropped. This file
is the account of everything that comes out. `Woven` relates the tokens that are read to the
tokens that come out by one rule for each thing that can stand at a place. There is no rule
by which a token is lost, doubled or moved, and none that puts in anything but a call: the
prologue behind an opening tag, the epilogue in front of a closing one, a statement at the
end of a line.

Where a line stands in its token is said by the text in front of it (`WovenLines`), so the
spans of lines are not a matter of how the lines are walked over.

Dropped lines and the newlines between lines are blank, so the characters of the data that
are not blank come out as they came in, whatever the calls.
-/

namespace QueryMachine.Text

theorem newline_notMem_of_mem_lines {cs line : List Char} (h : line ∈ lines cs) :
    '\n' ∉ line := by
  induction cs generalizing line with
  | nil =>
    rw [lines_nil, List.mem_singleton] at h
    simp [h]
  | cons c cs ih =>
    by_cases hc : c = '\n'
    · rw [hc, lines_newline, List.mem_cons] at h
      rcases h with rfl | h
      · exact List.not_mem_nil
      · exact ih h
    · rw [lines_cons hc] at h
      cases hlines : lines cs with
      | nil =>
        rw [hlines] at h
        cases h
      | cons first more =>
        rw [hlines] at h ih
        rcases List.mem_cons.mp h with rfl | h
        · have hfirst : '\n' ∉ first := ih List.mem_cons_self
          simp [hfirst, Ne.symm hc]
        · exact ih (List.mem_cons_of_mem _ h)

/-- The characters of a text that are not blank, in order. -/
def ink (cs : List Char) : List Char :=
  cs.filter fun c => !isBlank c

theorem ink_append (as bs : List Char) : ink (as ++ bs) = ink as ++ ink bs :=
  List.filter_append as bs

theorem ink_eq_nil {cs : List Char} (h : isAllBlank cs = true) : ink cs = [] := by
  refine List.filter_eq_nil_iff.mpr fun c hc => ?_
  simp [List.all_eq_true.mp h c hc]

theorem ink_newline_cons (cs : List Char) : ink ('\n' :: cs) = ink cs := by
  have hblank : isBlank '\n' = true := by decide
  simp [ink, hblank]

end QueryMachine.Text

namespace QueryMachine.Region

variable {hooks : Hooks} {p : Progress}

/-! ## Data inside of a region -/

/-- What comes out for the rest of a data token that begins at `start`, of which some text
has been read: every line that a newline ends, unless it is blank, at the place where the
text before it ends; perhaps a statement where the line ends; and the last line, blank or
not. -/
inductive WovenLines (hooks : Hooks) (start : Position) :
    List Char → List Char → List (Located Token) → Prop where
  | last {read line : List Char} : '\n' ∉ line →
      WovenLines hooks start read line [dataAt (start.advanceOver read) line]
  | line {read line rest : List Char} {site out : List (Located Token)} : '\n' ∉ line →
      (site = [] ∨ site = (call hooks.statement (start.advanceOver (read ++ line))).toList) →
      WovenLines hooks start (read ++ line ++ ['\n']) rest out →
      WovenLines hooks start read (line ++ '\n' :: rest)
        ((if Text.isAllBlank line then [] else [dataAt (start.advanceOver read) line]) ++
          site ++ out)

theorem wovenLines_lineTokens {lines : List (List Char)} (due : Bool) (start : Position)
    (read : List Char) (hne : lines ≠ []) (hlines : ∀ line ∈ lines, '\n' ∉ line) :
    WovenLines hooks start read (['\n'].intercalate lines)
      (lineTokens hooks due (start.advanceOver read) lines) := by
  induction lines generalizing due read with
  | nil => exact absurd rfl hne
  | cons line more ih =>
    rw [List.forall_mem_cons] at hlines
    cases more with
    | nil =>
      rw [List.intercalate_singleton]
      exact .last hlines.1
    | cons next more =>
      have hnext := ih false (read ++ line ++ ['\n']) (by simp) hlines.2
      rw [List.intercalate_cons_cons, List.append_assoc, List.singleton_append, lineTokens]
      rw [Position.advanceOver_append, Position.advanceOver_append] at hnext
      refine .line hlines.1 ?_ hnext
      rw [Position.advanceOver_append]
      split
      · exact .inr rfl
      · exact .inl rfl

theorem wovenLines_splitOn (hooks : Hooks) (due : Bool) (start : Position) (text : List Char) :
    WovenLines hooks start [] text (lineTokens hooks due start (text.splitOn '\n')) := by
  have hlines : ∀ line ∈ text.splitOn '\n', '\n' ∉ line := by
    intro line hline
    rw [← Text.lines_eq_splitOn] at hline
    exact Text.newline_notMem_of_mem_lines hline
  have hwoven := @wovenLines_lineTokens hooks _ due start [] (List.splitOn_ne_nil _ _) hlines
  rw [List.intercalate_splitOn] at hwoven
  exact hwoven

/-! ## A template -/

/-- What comes out for the rest of a template, from inside or outside of a region. -/
inductive Woven (hooks : Hooks) :
    Bool → List (Located Token) → List (Located Token) → Prop where
  /-- The end marker, where no region is open, is the last to come out. -/
  | finish {token : Located Token} : token.value = .eof → Woven hooks false [token] [token]
  /-- A token that is no data of a region, and begins no region tag, is handed on. -/
  | handOn {inside : Bool} {token : Located Token} {rest out : List (Located Token)} :
      token.value ≠ .eof → beginsMark (token :: rest) = false →
      (inside = true → token.value.isData = false) →
      Woven hooks inside rest out → Woven hooks inside (token :: rest) (token :: out)
  /-- An opening tag is handed on with the prologue behind it. -/
  | opening {begin name last : Located Token} {rest out : List (Located Token)} :
      begin.value = .blockBegin → name.value = .name openName → last.value = .blockEnd →
      Woven hooks true rest out →
      Woven hooks false (begin :: name :: last :: rest)
        (begin :: name :: last :: ((call hooks.prologue last.span.stop).toList ++ out))
  /-- A closing tag is handed on with the epilogue in front of it. -/
  | closing {begin name : Located Token} {rest out : List (Located Token)} :
      begin.value = .blockBegin → name.value = .name closeName →
      Woven hooks false (name :: rest) out →
      Woven hooks true (begin :: name :: rest)
        ((call hooks.epilogue begin.span.start).toList ++ begin :: out)
  /-- Data of a region comes out line by line. -/
  | lines {text : String} {span : Span} {rest pieces out : List (Located Token)} :
      WovenLines hooks span.start [] text.toList pieces → Woven hooks true rest out →
      Woven hooks true (⟨.data text, span⟩ :: rest) (pieces ++ out)

section Walk

variable {token : Located Token} {rest : List (Located Token)}

theorem EndsOnce.tail (h : EndsOnce (token :: rest)) (hne : token.value ≠ .eof) :
    EndsOnce rest := by
  obtain ⟨w, span, heq, hw⟩ := h
  cases w with
  | nil =>
    cases heq
    exact absurd rfl hne
  | cons first w =>
    cases heq
    exact ⟨w, span, rfl, fun t ht => hw t (List.mem_cons_of_mem _ ht)⟩

/-- A visit weaves the tokens that it reads, in front of whatever the tokens after them come
to. Only the end marker has no tokens after it. -/
theorem Visits.weaves {v : Visit} (hv : Visits hooks p token rest v)
    (hends : EndsOnce (token :: rest)) {more : Array (Located Token)}
    (hresult : v.result = .ok more) :
    (v.rest = [] ∧ Woven hooks p.inRegion (token :: rest) more.toList) ∨
    (EndsOnce v.rest ∧ ∀ out, Woven hooks v.progress.inRegion v.rest out →
      Woven hooks p.inRegion (token :: rest) (more.toList ++ out)) := by
  cases hv with
  | @handOn _ _ q hopened _ heof hmark hdata =>
    cases hresult
    refine .inr ⟨hends.tail heof, fun out hout => ?_⟩
    have hinside : q.inRegion = p.inRegion := Progress.inRegion_congr hopened
    rw [← hinside] at hdata ⊢
    exact .handOn heof hmark hdata hout
  | @openTag _ name third rest htoken hname hthird hp =>
    cases hresult
    obtain ⟨span, rfl⟩ := eq_of_isName hname
    refine .inr ⟨?_, fun out hout => ?_⟩
    · exact ((hends.tail (by simp [htoken])).tail (by simp)).tail (by simp [hthird])
    · rw [Progress.inRegion_eq_false_iff.mpr hp]
      have hwoven := @Woven.opening hooks token ⟨.name openName, span⟩ third rest out htoken rfl
        hthird hout
      simpa using hwoven
  | @closeTag _ name rest htoken hname hp =>
    cases hresult
    obtain ⟨span, rfl⟩ := eq_of_isName hname
    refine .inr ⟨hends.tail (by simp [htoken]), fun out hout => ?_⟩
    rw [hp]
    have hwoven := @Woven.closing hooks token ⟨.name closeName, span⟩ rest out htoken rfl hout
    simpa using hwoven
  | @data text span rest hp =>
    cases hresult
    refine .inr ⟨hends.tail (by simp), fun out hout => ?_⟩
    have hinside := (@Progress.inRegion_sawData hooks p text span.start).trans hp
    rw [hinside] at hout
    rw [hp]
    exact .lines (wovenLines_splitOn hooks p.due span.start text.toList) hout
  | finish heof hp =>
    cases hresult
    obtain rfl := hends.eq_nil (List.nil_append _).symm heof
    rw [Progress.inRegion_eq_false_iff.mpr hp]
    exact .inl ⟨rfl, .finish heof⟩
  | nested | malformed | unfinished | unmatched | unclosed => cases hresult

/-- A walk that comes to its end has woven the tokens that it read. -/
theorem Walks.woven {tokens produced : List (Located Token)} {q : Progress}
    (h : Walks hooks p tokens produced q []) (hends : EndsOnce tokens) :
    Woven hooks p.inRegion tokens produced := by
  generalize hnil : [] = last at h
  induction h with
  | refl p tokens =>
    obtain ⟨w, span, heq, -⟩ := hends
    rw [← hnil] at heq
    cases w <;> cases heq
  | @step p q token rest produced _ more hresult hwalks ih =>
    rcases (visits_visit hooks p token rest).weaves hends hresult with
      ⟨hrest, hwoven⟩ | ⟨hnext, hwoven⟩
    · rw [hrest] at hwalks
      cases hwalks
      rw [List.append_nil]
      exact hwoven
    · exact hwoven produced (ih hnext hnil)

end Walk

/-! ## The characters of the data -/

/-- The characters of the data among some tokens, one token after the other. -/
def dataText (ts : List (Located Token)) : List Char :=
  ts.flatMap fun t =>
    match t.value with
    | .data text => text.toList
    | _ => []

theorem dataText_append (as bs : List (Located Token)) :
    dataText (as ++ bs) = dataText as ++ dataText bs :=
  List.flatMap_append

theorem dataText_call (name : String) (pos : Position) :
    dataText (call name pos).toList = [] := by
  simp [dataText, call]

theorem dataText_dataAt (pos : Position) (text : List Char) :
    dataText [dataAt pos text] = text := by
  simp [dataText, dataAt]

theorem dataText_cons_of_not_data {t : Located Token} (h : t.value.isData = false)
    (ts : List (Located Token)) : dataText (t :: ts) = dataText ts := by
  obtain ⟨value, span⟩ := t
  cases value <;> first | rfl | cases h

theorem WovenLines.ink_eq {start : Position} {read text : List Char}
    {out : List (Located Token)} (h : WovenLines hooks start read text out) :
    Text.ink (dataText out) = Text.ink text := by
  induction h with
  | last => rw [dataText_dataAt]
  | @line read line rest site out _ hsite _ ih =>
    have hnone : dataText site = [] := by
      rcases hsite with rfl | rfl
      · rfl
      · exact dataText_call _ _
    have hline : Text.ink (dataText
        (if Text.isAllBlank line then [] else [dataAt (start.advanceOver read) line]))
        = Text.ink line := by
      split
      · next hblank => rw [Text.ink_eq_nil hblank]; rfl
      · rw [dataText_dataAt]
    rw [dataText_append, dataText_append, hnone, List.append_nil, Text.ink_append, hline, ih,
      Text.ink_append, Text.ink_newline_cons]

theorem Woven.ink_eq {inside : Bool} {ts out : List (Located Token)}
    (h : Woven hooks inside ts out) : Text.ink (dataText out) = Text.ink (dataText ts) := by
  induction h with
  | finish => rfl
  | @handOn _ token rest out _ _ _ _ ih =>
    rw [← List.singleton_append, dataText_append, Text.ink_append, ih, ← Text.ink_append,
      ← dataText_append, List.singleton_append]
  | opening hbegin hname hlast _ ih =>
    simp only [dataText_cons_of_not_data, hbegin, hname, hlast, Token.isData, dataText_append,
      dataText_call, List.nil_append, ih]
  | closing hbegin _ _ ih =>
    simp only [dataText_cons_of_not_data, hbegin, Token.isData, dataText_append, dataText_call,
      List.nil_append, ih]
  | @lines text span rest pieces out hpieces _ ih =>
    have htext : dataText (⟨.data text, span⟩ :: rest) = text.toList ++ dataText rest := rfl
    rw [dataText_append, Text.ink_append, hpieces.ink_eq, ih, htext, Text.ink_append]

/-- What comes out of an instrumentation is what was read with calls woven in, and no
character of the data that is not blank is lost, doubled or moved. -/
theorem instrument_weaves_calls {tokens : List (Located Token)} {i : Instrumented}
    (h : instrument hooks tokens = .ok i) :
    Woven hooks false (cut tokens) i.tokens.toList ∧
      Text.ink (dataText i.tokens.toList) = Text.ink (dataText (cut tokens)) := by
  rw [instrument_eq_cut] at h
  obtain ⟨⟨final, q⟩, hrun, rfl⟩ := Lexer.exists_of_map_eq_ok h
  obtain ⟨produced, hfinal, hwalks⟩ := walks_of_runFrom hrun
  have hproduced : final.toList = produced := hfinal
  have hwoven := hwalks.woven (endsOnce_cut tokens)
  rw [hproduced]
  exact ⟨hwoven, hwoven.ink_eq⟩

/-- A region of three lines, the second of them blank, and no end marker. -/
theorem instrument_weaves_calls_blank_line :
    ∃ tokens i,
      tokens = Grammar.nameTag openName ⟨⟨0, 1, 1⟩, ⟨2, 1, 3⟩⟩ ⟨⟨3, 1, 4⟩, ⟨8, 1, 9⟩⟩
          ⟨⟨9, 1, 10⟩, ⟨11, 1, 12⟩⟩ ++
        ⟨.data "A\n \nB", ⟨⟨11, 1, 12⟩, ⟨16, 3, 2⟩⟩⟩ ::
          Grammar.nameTag closeName ⟨⟨16, 3, 2⟩, ⟨18, 3, 4⟩⟩ ⟨⟨19, 3, 5⟩, ⟨27, 3, 13⟩⟩
            ⟨⟨28, 3, 14⟩, ⟨30, 3, 16⟩⟩ ∧
      instrument {} tokens = .ok i ∧ Woven {} false (cut tokens) i.tokens.toList ∧
      Text.ink (dataText i.tokens.toList) = ['A', 'B'] := by
  refine ⟨_, _, rfl, by cbv, ?_⟩
  refine (instrument_weaves_calls (by cbv)).imp_right fun hink => hink.trans ?_
  cbv

end QueryMachine.Region
