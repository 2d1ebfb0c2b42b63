import QueryMachine.Proofs.Region.Walk
import QueryMachine.Proofs.Template.Faults
import Mathlib.Data.List.Basic

/-!
# Two readings of region structure

Regions are tracked twice. The instrumenter walks over all tokens and reacts to
`{%` with a region name behind it wherever that stands, be it inside of another
tag. The parser looks for a region only where a node can begin. This file shows
that what the walk has let through gives the parser nothing to complain about:
its own checks of region structure are never reached.

`Alternates` is the common ground. It reads the tokens as the walk does, and says
that openings and closings take turns up to the end. The walk establishes it of
what it puts out, step by step (`Visits.alternates`). The parser keeps it: each
item that it reads contains neither an opening nor a closing, so what is left
still alternates, and where the parser finds a region tag, that tag is the one
whose turn it is.
-/

namespace QueryMachine.Region

open Grammar

/-! ## Tokens in which region tags take turns -/

def nameAhead : List (Located Token) → Option String
  | ⟨.name text, _⟩ :: _ => some text
  | _ => none

/-- Openings and closings take turns up to the end marker, beginning with a
closing if `inside`, and the last region is closed. -/
def Alternates : Bool → List (Located Token) → Prop
  | inside, [] => inside = false
  | inside, t :: rest =>
    match t.value with
    | .eof => inside = false
    | .blockBegin =>
      if nameAhead rest = some openName then inside = false ∧ Alternates true rest
      else if nameAhead rest = some closeName then inside = true ∧ Alternates false rest
      else Alternates inside rest
    | _ => Alternates inside rest

/-- The tokens that play no part in region structure. -/
def isPlain : Token → Bool
  | .eof | .blockBegin => false
  | _ => true

section Alternates

variable {inside : Bool} {t : Located Token} {w rest : List (Located Token)}

theorem alternates_plain (ht : isPlain t.value = true) :
    Alternates inside (t :: rest) ↔ Alternates inside rest := by
  obtain ⟨value, span⟩ := t
  cases value <;> first | rfl | cases ht

theorem alternates_append_plain (hw : ∀ t ∈ w, isPlain t.value = true) :
    Alternates inside (w ++ rest) ↔ Alternates inside rest := by
  induction w with
  | nil => rfl
  | cons t w ih =>
    rw [List.forall_mem_cons] at hw
    rw [List.cons_append, alternates_plain hw.1]
    exact ih hw.2

theorem alternates_eof (ht : t.value = .eof) :
    Alternates inside (t :: rest) ↔ inside = false := by
  rw [Alternates, ht]

theorem alternates_open (ht : t.value = .blockBegin) (hname : nameAhead rest = some openName) :
    Alternates inside (t :: rest) ↔ inside = false ∧ Alternates true rest := by
  simp only [Alternates, ht, hname, if_true]

theorem alternates_close (ht : t.value = .blockBegin)
    (hname : nameAhead rest = some closeName) :
    Alternates inside (t :: rest) ↔ inside = true ∧ Alternates false rest := by
  have hne : ¬ (some closeName = some openName) := by decide
  simp only [Alternates, ht, hname, if_neg hne, if_true]

theorem alternates_block (ht : t.value = .blockBegin) (hopen : nameAhead rest ≠ some openName)
    (hclose : nameAhead rest ≠ some closeName) :
    Alternates inside (t :: rest) ↔ Alternates inside rest := by
  simp only [Alternates, ht, if_neg hopen, if_neg hclose]

end Alternates

theorem nameAhead_eq_some_iff {t : Located Token} {rest : List (Located Token)} {name : String} :
    nameAhead (t :: rest) = some name ↔ t.value.isName name = true := by
  obtain ⟨value, span⟩ := t
  cases value <;> simp [nameAhead, Token.isName]

/-- Only the first token is looked at. -/
theorem nameAhead_cons (t : Located Token) (as bs : List (Located Token)) :
    nameAhead (t :: as) = nameAhead (t :: bs) := by
  obtain ⟨value, span⟩ := t
  cases value <;> rfl

theorem nameAhead_blockBegin {t : Located Token} (ht : t.value = .blockBegin)
    (rest : List (Located Token)) : nameAhead (t :: rest) = none := by
  obtain ⟨value, span⟩ := t
  cases ht
  rfl

theorem alternates_openTag {inside : Bool} {begin name third : Located Token}
    {rest : List (Located Token)} (hbegin : begin.value = .blockBegin)
    (hname : name.value.isName openName = true) (hthird : third.value = .blockEnd) :
    Alternates inside (begin :: name :: third :: rest) ↔
      inside = false ∧ Alternates true rest := by
  have hplain : isPlain name.value = true := by
    obtain ⟨value, span⟩ := name
    cases value <;> first | rfl | cases hname
  rw [alternates_open hbegin (nameAhead_eq_some_iff.mpr hname), alternates_plain hplain,
    alternates_plain (by rw [hthird]; rfl)]

theorem nameAhead_of_not_mark {t : Located Token} {rest : List (Located Token)}
    (ht : t.value = .blockBegin) (h : beginsMark (t :: rest) = false) :
    nameAhead rest ≠ some openName ∧ nameAhead rest ≠ some closeName := by
  cases rest with
  | nil => exact ⟨by simp [nameAhead], by simp [nameAhead]⟩
  | cons name rest =>
    simp only [beginsMark, ht, beq_self_eq_true, Bool.true_and, Bool.or_eq_false_iff] at h
    rw [Ne, Ne, nameAhead_eq_some_iff, nameAhead_eq_some_iff, h.1, h.2]
    exact ⟨by simp, by simp⟩

/-! ## What the walk puts out -/

theorem isPlain_call (name : String) (pos : Position) :
    ∀ t ∈ (call name pos).toList, isPlain t.value = true := by
  simp [call, isPlain]

theorem nameAhead_call_append (name : String) (pos : Position) (rest : List (Located Token)) :
    nameAhead ((call name pos).toList ++ rest) = none := by
  simp [call, nameAhead]

theorem isPlain_lineTokens (hooks : Hooks) (due : Bool) (pos : Position)
    (lines : List (List Char)) :
    ∀ t ∈ lineTokens hooks due pos lines, isPlain t.value = true := by
  induction lines generalizing due pos with
  | nil => simp [lineTokens]
  | cons line lines ih =>
    cases lines with
    | nil => simp [lineTokens, dataAt, isPlain]
    | cons next lines =>
      intro t ht
      simp only [lineTokens, List.mem_append] at ht
      rcases ht with (ht | ht) | ht
      · split at ht
        · cases ht
        · rw [List.mem_singleton.mp ht]
          rfl
      · split at ht
        · exact isPlain_call _ _ t ht
        · cases ht
      · exact ih _ _ t ht

theorem nameAhead_lineTokens_append (hooks : Hooks) (due : Bool) (pos : Position)
    {lines : List (List Char)} (hne : lines ≠ []) (rest : List (Located Token)) :
    nameAhead (lineTokens hooks due pos lines ++ rest) = none := by
  induction lines generalizing due pos with
  | nil => exact absurd rfl hne
  | cons line lines ih =>
    cases lines with
    | nil => rfl
    | cons next lines =>
      simp only [lineTokens]
      split
      · split
        · rw [List.nil_append, List.append_assoc, nameAhead_call_append]
        · exact ih _ _ (by simp)
      · rfl

section Walk

variable {hooks : Hooks} {p : Progress} {token : Located Token} {rest : List (Located Token)}

/-- One visit: what it puts out alternates with whatever comes after it, and the
walk sees the same name ahead in its output as in its input. -/
theorem Visits.alternates {v : Visit} (h : Visits hooks p token rest v)
    {out : Array (Located Token)} (hout : v.result = .ok out) {more : List (Located Token)}
    (hmore : Alternates v.progress.inRegion more) (hname : nameAhead more = nameAhead v.rest) :
    Alternates p.inRegion (out.toList ++ more) ∧
      nameAhead (out.toList ++ more) = nameAhead (token :: rest) := by
  cases h with
  | @handOn _ _ q hopened _ heof hmark _ =>
    cases hout
    have hq : Alternates p.inRegion more := by
      rw [← Progress.inRegion_congr hopened]
      exact hmore
    refine ⟨?_, nameAhead_cons token more rest⟩
    by_cases ht : token.value = .blockBegin
    · obtain ⟨hopen, hclose⟩ := nameAhead_of_not_mark ht hmark
      have hname : nameAhead more = nameAhead rest := hname
      rw [← hname] at hopen hclose
      exact (alternates_block ht hopen hclose).mpr hq
    · have hplain : isPlain token.value = true := by
        obtain ⟨value, span⟩ := token
        cases value <;> first | rfl | exact absurd rfl ht | exact absurd rfl heof
      exact (alternates_plain hplain).mpr hq
  | @openTag _ name third rest htoken hopen hthird hopened =>
    cases hout
    have hlist : (#[token, name, third] ++ call hooks.prologue third.span.stop).toList ++ more
        = token :: name :: third ::
            ((call hooks.prologue third.span.stop).toList ++ more) := by
      simp
    rw [hlist, alternates_openTag htoken hopen hthird,
      alternates_append_plain (isPlain_call _ _)]
    exact ⟨⟨Progress.inRegion_eq_false_iff.mpr hopened, hmore⟩, nameAhead_cons ..⟩
  | @closeTag _ name rest htoken hclose hregion =>
    cases hout
    have hlist : ((call hooks.epilogue token.span.start).push token).toList ++ more
        = (call hooks.epilogue token.span.start).toList ++ token :: more := by
      simp
    rw [hlist, nameAhead_call_append, nameAhead_blockBegin htoken,
      alternates_append_plain (isPlain_call _ _),
      alternates_close htoken (hname.trans (nameAhead_eq_some_iff.mpr hclose))]
    exact ⟨⟨hregion, hmore⟩, rfl⟩
  | @data text span rest hregion =>
    cases hout
    have hq : Alternates p.inRegion more := by
      rw [← p.inRegion_sawData text span.start]
      exact hmore
    constructor
    · exact (alternates_append_plain (isPlain_lineTokens hooks _ _ _)).mpr hq
    · exact nameAhead_lineTokens_append _ _ _ (List.splitOn_ne_nil _ _) more
  | finish heof hopened =>
    cases hout
    have hregion : p.inRegion = false := Progress.inRegion_eq_false_iff.mpr hopened
    exact ⟨(alternates_eof heof).mpr hregion, nameAhead_cons token more rest⟩
  | nested | malformed | unfinished | unmatched | unclosed => cases hout

/-- The walk ends at an end marker, or it has ended outside of regions. -/
def Ends (p : Progress) (tokens : List (Located Token)) : Prop :=
  (∃ t ∈ tokens, t.value = .eof) ∨ (tokens = [] ∧ p.inRegion = false)

theorem Visits.ends {v : Visit} (h : Visits hooks p token rest v)
    {out : Array (Located Token)} (hout : v.result = .ok out) (hends : Ends p (token :: rest)) :
    Ends v.progress v.rest := by
  obtain ⟨t, ht, heof⟩ : ∃ t ∈ token :: rest, t.value = .eof := by
    rcases hends with hends | ⟨hnil, -⟩
    · exact hends
    · cases hnil
  cases h with
  | handOn _ _ hne _ _ =>
    rcases List.mem_cons.mp ht with rfl | ht
    · exact absurd heof hne
    · exact .inl ⟨t, ht, heof⟩
  | openTag htoken hopen hthird hopened =>
    simp only [List.mem_cons] at ht
    rcases ht with rfl | rfl | rfl | ht
    · rw [heof] at htoken; cases htoken
    · rw [heof] at hopen; cases hopen
    · rw [heof] at hthird; cases hthird
    · exact .inl ⟨t, ht, heof⟩
  | closeTag htoken hclose hregion =>
    rcases List.mem_cons.mp ht with rfl | ht
    · rw [heof] at htoken; cases htoken
    · exact .inl ⟨t, ht, heof⟩
  | data hregion =>
    rcases List.mem_cons.mp ht with rfl | ht
    · cases heof
    · exact .inl ⟨t, ht, heof⟩
  | finish _ hopened =>
    exact .inr ⟨rfl, Progress.inRegion_eq_false_iff.mpr hopened⟩
  | nested | malformed | unfinished | unmatched | unclosed => cases hout

theorem alternates_of_runFrom {tokens : List (Located Token)} {out final : Array (Located Token)}
    {q : Progress} (hends : Ends p tokens) (h : runFrom hooks p out tokens = .ok (final, q)) :
    ∃ more, final.toList = out.toList ++ more ∧ Alternates p.inRegion more ∧
      nameAhead more = nameAhead tokens := by
  fun_induction runFrom hooks p out tokens with
  | case1 p out =>
    cases h
    rcases hends with ⟨t, ht, -⟩ | ⟨-, hregion⟩
    · cases ht
    · exact ⟨[], by simp, hregion, rfl⟩
  | case2 => cases h
  | case3 p out token rest v out' hout ih =>
    have hv := visits_visit hooks p token rest
    -- Whether this visit's tokens alternate depends on the name put out after them, so
    -- the rest of the walk comes first.
    obtain ⟨more, hfinal, hmore, hname⟩ := ih (hv.ends hout hends) h
    obtain ⟨halternates, hahead⟩ := hv.alternates hout hmore hname
    refine ⟨out'.toList ++ more, ?_, halternates, hahead⟩
    rw [hfinal, Array.toList_append, List.append_assoc]

end Walk

/-! ## What the parser makes of it -/

theorem isPlain_of_isContent {t : Token} (h : Lexer.isContent t = true) : isPlain t = true := by
  cases t <;> first | rfl | cases h

theorem alternates_item {inside : Bool} {w rest : List (Located Token)} {i : Item}
    (hw : ItemTokens w i) : Alternates inside (w ++ rest) ↔ Alternates inside rest := by
  have hcontent : ∀ {v : List (Located Token)} {e : Expr} (last : Token) (span : Span),
      isPlain last = true → ExprTokens v e →
      ∀ t ∈ v ++ [⟨last, span⟩], isPlain t.value = true := by
    intro v e last span hlast hv t ht
    rcases List.mem_append.mp ht with ht | ht
    · exact isPlain_of_isContent (isContent_of_exprTokens hv t ht)
    · rw [List.mem_singleton.mp ht]
      exact hlast
  cases hw with
  | data text span => exact alternates_plain rfl
  | output first last hv =>
    rw [List.cons_append, alternates_plain rfl]
    exact alternates_append_plain (hcontent _ _ rfl hv)
  | set name first tag target equals last hv =>
    rw [List.cons_append, alternates_block rfl (by simp [nameAhead, openName])
      (by simp [nameAhead, closeName])]
    refine alternates_append_plain ?_
    simp only [List.forall_mem_cons]
    exact ⟨rfl, rfl, rfl, hcontent _ _ rfl hv⟩

theorem alternates_items {inside : Bool} {w rest : List (Located Token)} {is : List Item}
    (hw : ItemsTokens w is) : Alternates inside (w ++ rest) ↔ Alternates inside rest := by
  induction hw with
  | nil => rfl
  | cons hi _ ih => rw [List.append_assoc, alternates_item hi, ih]

theorem alternates_closeTag {inside : Bool} {first tag last : Span}
    {rest : List (Located Token)} :
    Alternates inside (nameTag closeName first tag last ++ rest) ↔
      inside = true ∧ Alternates false rest := by
  rw [nameTag, List.cons_append, alternates_close rfl rfl]
  exact and_congr_right fun _ => alternates_append_plain (by simp [isPlain])

theorem not_alternates_atEnd {tokens : List (Located Token)} (h : AtEnd tokens) :
    ¬ Alternates true tokens := by
  intro halternates
  cases tokens with
  | nil => cases halternates
  | cons t rest => cases (alternates_eof (h t rfl)).mp halternates

section Parser

variable {c : Cursor} {error : ParseError}

/-- A block tag that is read leaves tokens that alternate. -/
theorem alternates_of_parseBlock {inside : Bool} {budget : Nat} {block : Parser.Block}
    {d : c.After} (h : Parser.parseBlock budget c = .ok (block, d))
    (hc : Alternates inside c.rest) :
    (∃ i, block = .item i ∧ Alternates inside d.val.rest) ∨
      (∃ span, block = .opening span ∧ inside = false ∧ Alternates true d.val.rest) := by
  rcases parseBlock_sound h with ⟨w, i, hrest, rfl, hw, -⟩ | ⟨first, tag, last, hrest, rfl⟩
  · rw [hrest, alternates_item hw] at hc
    exact .inl ⟨i, rfl, hc⟩
  · rw [hrest] at hc
    exact .inr ⟨_, rfl, (alternates_openTag rfl rfl rfl).mp hc⟩

theorem not_region_of_bodyFrom {budget : Nat} {opened : Span} {d : c.After} {before : List Item}
    (hd : Alternates true d.val.rest)
    (h : Parser.bodyFrom budget opened c d before = .error error) : error.isRegion = false := by
  fun_induction Parser.bodyFrom budget opened c d before with
  | case1 d before hahead => exact absurd hd (not_alternates_atEnd (atEnd_of_ahead hahead))
  | case2 d before text span hahead ih =>
    rw [data_of_ahead hahead, alternates_plain rfl] at hd
    exact ih hd h
  | case3 d before hahead error' hitem =>
    cases h
    exact ((tame_parseOutput budget d.val).fault hitem).not_region
  | case4 d before hahead item e hitem ih =>
    obtain ⟨w, hrest, hw, -⟩ := parseOutput_sound hitem
    rw [hrest, alternates_item hw] at hd
    exact ih hd h
  | case5 d before span hahead error' hclose =>
    cases h
    exact ((tame_parseClose d.val).fault hclose).not_region
  | case6 => cases h
  | case7 d before hahead error' hblock =>
    cases h
    exact ((tame_parseBlock budget d.val).fault hblock).not_region
  | case8 d before hahead span e hblock =>
    rcases alternates_of_parseBlock hblock hd with ⟨i, hitem, -⟩ | ⟨_, -, hinside, -⟩
    · cases hitem
    · cases hinside
  | case9 d before hahead item e hblock ih =>
    rcases alternates_of_parseBlock hblock hd with ⟨i, -, he⟩ | ⟨_, hopening, -⟩
    · exact ih he h
    · cases hopening
  | case10 d before token hahead =>
    cases h
    rfl

theorem not_region_of_nodesFrom {before : List Node} (hc : Alternates false c.rest)
    (h : Parser.nodesFrom c before = .error error) : error.isRegion = false := by
  fun_induction Parser.nodesFrom c before with
  | case1 => cases h
  | case2 c before text span hahead ih =>
    rw [data_of_ahead hahead, alternates_plain rfl] at hc
    exact ih hc h
  | case3 c before hahead error' hitem =>
    cases h
    exact ((tame_parseOutput _ c).fault hitem).not_region
  | case4 c before hahead item d hitem ih =>
    obtain ⟨w, hrest, hw, -⟩ := parseOutput_sound hitem
    rw [hrest, alternates_item hw] at hc
    exact ih hc h
  | case5 c before span hahead =>
    obtain ⟨first, tag, rest, hrest⟩ := close_of_ahead hahead
    rw [hrest, alternates_close rfl rfl] at hc
    cases hc.1
  | case6 c before hahead error' hblock =>
    cases h
    exact ((tame_parseBlock _ c).fault hblock).not_region
  | case7 c before hahead item d hblock ih =>
    rcases alternates_of_parseBlock hblock hc with ⟨i, -, hd⟩ | ⟨_, hopening, -⟩
    · exact ih hd h
    · cases hopening
  | case8 c before hahead span d hblock error' hbody =>
    cases h
    rcases alternates_of_parseBlock hblock hc with ⟨i, hitem, -⟩ | ⟨_, -, -, hd⟩
    · cases hitem
    · exact not_region_of_bodyFrom hd hbody
  | case9 c before hahead span d hblock body e hbody ih =>
    rcases alternates_of_parseBlock hblock hc with ⟨i, hitem, -⟩ | ⟨_, -, -, hd⟩
    · cases hitem
    · obtain ⟨is, -, w, first, tag, last, hrest, hw, -⟩ := bodyFrom_sound hbody
      rw [hrest, alternates_items hw, alternates_closeTag] at hd
      exact ih hd.2 h
  | case10 c before token hahead =>
    cases h
    rfl

end Parser

theorem alternates_concat_eof {inside : Bool} {tokens : List (Located Token)} (span : Span)
    (h : Alternates inside tokens) : Alternates inside (tokens ++ [⟨.eof, span⟩]) := by
  induction tokens generalizing inside with
  | nil => exact h
  | cons t rest ih =>
    have hname : nameAhead (rest ++ [⟨.eof, span⟩]) = nameAhead rest := by
      cases rest with
      | nil => rfl
      | cons t' rest => exact nameAhead_cons t' _ _
    simp only [List.cons_append, Alternates, hname] at h ⊢
    split at h
    · exact h
    · split at h
      · next hopen =>
        rw [if_pos hopen]
        exact ⟨h.1, ih h.2⟩
      · next hopen =>
        rw [if_neg hopen]
        split at h
        · next hclose =>
          rw [if_pos hclose]
          exact ⟨h.1, ih h.2⟩
        · next hclose =>
          rw [if_neg hclose]
          exact ih h
    · exact ih h

/-- The end marker that a sequence is closed with does not disturb it. -/
theorem alternates_closed {inside : Bool} {tokens : List (Located Token)}
    (h : Alternates inside tokens) : Alternates inside (Cursor.closed tokens) := by
  unfold Cursor.closed
  split
  · split
    · exact h
    · exact alternates_concat_eof _ h
  · next hnone =>
    rw [List.getLast?_eq_none_iff.mp hnone] at h
    exact h

/-- Once the instrumenter has accepted tokens, whichever they are, the parser finds
no fault with their regions. -/
theorem parse_instrumented_regions {hooks : Hooks} {tokens : List (Located Token)}
    {i : Instrumented} (h : instrument hooks tokens = .ok i) (span : Span) :
    Template.parse i.tokens.toList ≠ .error (.nestedRegion span) ∧
      Template.parse i.tokens.toList ≠ .error (.unmatchedClose span) ∧
      Template.parse i.tokens.toList ≠ .error (.unclosedRegion span) := by
  obtain ⟨⟨final, q⟩, hrun, rfl⟩ := Lexer.exists_of_map_eq_ok h
  have hends : Ends {} (Cursor.closed tokens) := by
    obtain ⟨t, ht, heof⟩ := eof_mem_closed tokens
    exact .inl ⟨t, ht, Token.isEof_iff.mp heof⟩
  obtain ⟨more, hfinal, hmore, -⟩ := alternates_of_runFrom hends hrun
  have hnot : ∀ error, Template.parse final.toList = .error error → error.isRegion = false := by
    intro error herror
    have hclosed : Alternates false (Cursor.ofTokens final.toList).rest := by
      rw [hfinal]
      exact alternates_closed hmore
    unfold Template.parse at herror
    cases hnodes : Parser.nodesFrom (Cursor.ofTokens final.toList) [] with
    | ok nodes => rw [hnodes] at herror; cases herror
    | error error' =>
      rw [hnodes] at herror
      cases herror
      exact not_region_of_nodesFrom hclosed hnodes
  refine ⟨?_, ?_, ?_⟩ <;>
  · intro herror
    cases hnot _ herror

/-- A closing tag inside of an expression tag ends the region for the walk. The
parser fails at the call put in before it, not at the region. -/
theorem parse_instrumented_regions_inside_tag :
    ∃ i, instrument {} (nameTag openName .nowhere .nowhere .nowhere ++
        ⟨.variableBegin, .nowhere⟩ :: nameTag closeName .nowhere .nowhere .nowhere) = .ok i ∧
      Template.parse i.tokens.toList
        = .error (.unexpectedToken "expression" Token.variableBegin.describe .nowhere) ∧
      Template.parse i.tokens.toList ≠ .error (.nestedRegion .nowhere) ∧
      Template.parse i.tokens.toList ≠ .error (.unmatchedClose .nowhere) ∧
      Template.parse i.tokens.toList ≠ .error (.unclosedRegion .nowhere) := by
  obtain ⟨i, hi, hparse⟩ : ∃ i, instrument {} (nameTag openName .nowhere .nowhere .nowhere ++
        ⟨.variableBegin, .nowhere⟩ :: nameTag closeName .nowhere .nowhere .nowhere) = .ok i ∧
      Template.parse i.tokens.toList
        = .error (.unexpectedToken "expression" Token.variableBegin.describe .nowhere) :=
    ⟨_, by cbv, by cbv⟩
  exact ⟨i, hi, hparse, parse_instrumented_regions hi .nowhere⟩

end QueryMachine.Region
