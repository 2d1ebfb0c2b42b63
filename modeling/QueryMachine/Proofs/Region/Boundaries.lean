import QueryMachine.Compile.Error
import QueryMachine.Proofs.Region.Agreement
import QueryMachine.Proofs.Token.Locality

/-!
# Which templates the instrumenter refuses

Whether the walk over the tokens ends with an error, and with an error of which kind,
has nothing to do with where the tokens stand or with what is put out for them. It is
a function of the tokens' values (`fault?`), and that function skips data. So text
around a template neither makes nor hides a fault of its regions.

What the instrumenter accepts can still fail to parse. By then the regions are in
order, and the failure is one of grammar.
-/

namespace QueryMachine.Region

open Grammar

variable {hooks : Hooks} {p : Progress} {out : Array (Located Token)}

/-- The fault that a walk over tokens with these values ends with, from inside or
outside of a region. -/
def fault? : Bool → List Token → Option ErrorKind
  | _, [] => none
  | inside, .eof :: _ => if inside then some .unclosedRegion else none
  | inside, .blockBegin :: .name name :: rest =>
    if name = openName then
      if inside then some .nestedRegion
      else
        match rest with
        | .blockEnd :: rest => fault? true rest
        | _ => some .malformedBoundary
    else if name = closeName then
      if inside then fault? false rest else some .unmatchedClose
    else fault? inside rest
  | inside, _ :: rest => fault? inside rest

/-- The kind of the error that a walk ended with. -/
def faultOf {α : Type} : Except RegionError α → Option ErrorKind
  | .ok _ => none
  | .error error => some error.kind

/-- A block tag whose name is no region's is walked over like anything else. -/
theorem runFrom_blockBegin {first : Span} {rest : List (Located Token)}
    (h : beginsMark (⟨.blockBegin, first⟩ :: rest) = false) :
    runFrom hooks p out (⟨.blockBegin, first⟩ :: rest)
      = runFrom hooks p (out ++ #[⟨.blockBegin, first⟩]) rest := by
  refine runFrom_of_visit ?_
  cases rest with
  | nil => rfl
  | cons name rest =>
    simp only [beginsMark, beq_self_eq_true, Bool.true_and, Bool.or_eq_false_iff] at h
    simp [visit, h.1, h.2, pass]

/-- A token that is neither the end nor the begin of a region tag leaves the walk
inside or outside, as it was. -/
theorem exists_runFrom_eq {t : Located Token} {rest : List (Located Token)}
    (heof : t.value ≠ .eof) (hmark : beginsMark (t :: rest) = false) :
    ∃ q more, q.inRegion = p.inRegion ∧
      runFrom hooks p out (t :: rest) = runFrom hooks q more rest := by
  obtain ⟨value, span⟩ := t
  cases value with
  | eof => exact absurd rfl heof
  | blockBegin => exact ⟨p, _, rfl, runFrom_blockBegin hmark⟩
  | variableBegin => exact ⟨_, _, p.inRegion_sawOutput, emits_variableBegin span out rest⟩
  | data text =>
    cases hp : p.inRegion with
    | true =>
      exact ⟨_, _, (p.inRegion_sawData text span.start).trans hp,
        emits_data_inside hp text span out rest⟩
    | false =>
      exact ⟨p, _, hp,
        emits_data_outside (Progress.inRegion_eq_false_iff.mp hp) text span out rest⟩
  | _ => exact ⟨p, _, rfl, emits_quiet_one rfl out rest⟩

theorem runFrom_malformed_end (h : p.opened = none) {name : Located Token}
    (hname : name.value.isName openName = true) (first : Span) :
    runFrom hooks p out [⟨.blockBegin, first⟩, name]
      = .error (.malformed Token.blockEnd.describe Token.eof.describe name.span) := by
  refine runFrom_of_fail ?_
  simp [visit, visitOpen, hname, Progress.inRegion_eq_false_iff.mpr h, fail]

theorem map_value_eq_block {w : List (Located Token)} {name : String} {ts : List Token}
    (h : w.map Located.value = .blockBegin :: .name name :: ts) :
    ∃ first tag rest, w = ⟨.blockBegin, first⟩ :: ⟨.name name, tag⟩ :: rest ∧
      rest.map Located.value = ts := by
  obtain ⟨first, w', rfl, hw'⟩ := Lexer.map_value_eq_cons.mp h
  obtain ⟨tag, rest, rfl, hrest⟩ := Lexer.map_value_eq_cons.mp hw'
  exact ⟨first, tag, rest, rfl, hrest⟩

theorem beginsMark_eq_false {t : Located Token} {rest : List (Located Token)}
    (h : ∀ name ts, t.value = .blockBegin → rest.map Located.value ≠ .name name :: ts) :
    beginsMark (t :: rest) = false := by
  cases rest with
  | nil => rfl
  | cons name rest =>
    obtain ⟨value, span⟩ := name
    by_cases ht : t.value = .blockBegin
    · cases value with
      | name text => exact absurd rfl (h text _ ht)
      | _ => simp [beginsMark, Token.isName]
    · simp [beginsMark, ht]

theorem opened_eq_none {inside : Bool} (hp : p.inRegion = inside) (h : ¬ inside = true) :
    p.opened = none := by
  rw [← hp] at h
  exact Progress.inRegion_eq_false_iff.mp (Bool.eq_false_iff.mpr h)

/-- The walk follows the values of its tokens. -/
theorem faultOf_runFrom {inside : Bool} {values : List Token} {tokens : List (Located Token)}
    (hp : p.inRegion = inside) (h : tokens.map Located.value = values) :
    faultOf (runFrom hooks p out tokens) = fault? inside values := by
  fun_induction fault? inside values generalizing p out tokens with
  | case1 inside =>
    rw [List.map_eq_nil_iff.mp h, runFrom]
    rfl
  | case2 =>
    obtain ⟨span, rest, rfl, -⟩ := Lexer.map_value_eq_cons.mp h
    obtain ⟨opened, hopened⟩ := Progress.exists_opened hp
    rw [runFrom_unclosed hopened]
    rfl
  | case3 inside rest houtside =>
    obtain ⟨span, rest, rfl, -⟩ := Lexer.map_value_eq_cons.mp h
    rw [runFrom_eof (opened_eq_none hp houtside)]
    rfl
  | case4 =>
    obtain ⟨first, tag, rest, rfl, -⟩ := map_value_eq_block h
    obtain ⟨opened, hopened⟩ := Progress.exists_opened hp
    rw [runFrom_nested hopened rfl]
    rfl
  | case5 inside houtside ts ih =>
    obtain ⟨first, tag, rest, rfl, hrest⟩ := map_value_eq_block h
    obtain ⟨last, rest, rfl, hts⟩ := Lexer.map_value_eq_cons.mp hrest
    have hopen := @emits_open hooks p (opened_eq_none hp houtside) first tag last
    exact (congrArg faultOf (hopen out rest)).trans (ih rfl hts)
  | case6 inside ts houtside hts =>
    obtain ⟨first, tag, rest, rfl, hrest⟩ := map_value_eq_block h
    have hopened := opened_eq_none hp houtside
    cases rest with
    | nil =>
      rw [runFrom_malformed_end hopened rfl]
      rfl
    | cons third rest =>
      have hthird : third.value ≠ .blockEnd := by
        intro hvalue
        rw [List.map_cons, hvalue] at hrest
        exact hts _ hrest.symm
      rw [runFrom_malformed hopened rfl hthird]
      rfl
  | case7 ts _ ih =>
    obtain ⟨first, tag, rest, rfl, hrest⟩ := map_value_eq_block h
    have hclose := @emits_close hooks p hp first tag
    exact (congrArg faultOf (hclose out rest)).trans (ih rfl hrest)
  | case8 inside ts houtside =>
    obtain ⟨first, tag, rest, rfl, -⟩ := map_value_eq_block h
    rw [runFrom_unmatched (opened_eq_none hp houtside) rfl]
    rfl
  | case9 inside name ts hopen hclose ih =>
    obtain ⟨first, tag, rest, rfl, hrest⟩ := map_value_eq_block h
    have hblock : Emits hooks p [⟨.blockBegin, first⟩, ⟨.name name, tag⟩]
        [⟨.blockBegin, first⟩, ⟨.name name, tag⟩] p :=
      emits_blockBegin rfl (by simpa [Token.isName] using hopen)
        (by simpa [Token.isName] using hclose)
    exact (congrArg faultOf (hblock out rest)).trans (ih hp hrest)
  | case10 inside t ts heof hname ih =>
    obtain ⟨span, rest, rfl, hrest⟩ := Lexer.map_value_eq_cons.mp h
    have hmark : beginsMark (⟨t, span⟩ :: rest) = false :=
      beginsMark_eq_false fun name more ht hmore => hname name more ht (hrest.symm.trans hmore)
    obtain ⟨q, more, hq, hrun⟩ := @exists_runFrom_eq hooks p out _ rest heof hmark
    rw [hrun]
    exact ih (hq.trans hp) hrest

/-! ## Data plays no part -/

theorem fault?_cons {inside : Bool} {t : Token} {rest : List Token} (heof : t ≠ .eof)
    (hname : ∀ name ts, t = .blockBegin → rest ≠ .name name :: ts) :
    fault? inside (t :: rest) = fault? inside rest := by
  rw [fault?]
  · exact heof
  · exact hname

theorem fault?_data (inside : Bool) (text : String) (rest : List Token) :
    fault? inside (.data text :: rest) = fault? inside rest :=
  fault?_cons (by simp) (by simp)

theorem fault?_block (inside : Bool) (name : String) (rest : List Token) :
    fault? inside (.blockBegin :: .name name :: rest)
      = if name = openName then
          if inside then some .nestedRegion
          else if rest.head? = some .blockEnd then fault? true rest.tail
          else some .malformedBoundary
        else if name = closeName then
          if inside then fault? false rest else some .unmatchedClose
        else fault? inside rest := by
  rw [fault?.eq_def]
  simp only
  cases rest with
  | nil => rfl
  | cons t rest => cases t <;> rfl

/-- Data in front of the end marker is passed over even by a tag that lacks its end. -/
theorem fault?_data_end (inside : Bool) (values : List Token) (text : String) :
    fault? inside (values ++ [.data text, .eof]) = fault? inside (values ++ [.eof]) := by
  fun_induction fault? inside values with
  | case1 inside =>
    rw [List.nil_append, fault?_data]
    rfl
  | case2 | case3 => rfl
  | case4 rest => simp [fault?_block]
  | case5 inside houtside rest ih => simp [fault?_block, houtside, ih]
  | case6 inside rest houtside hrest =>
    cases rest with
    | nil => simp [fault?_block, houtside]
    | cons t rest =>
      have ht : t ≠ .blockEnd := fun ht => hrest rest (by rw [ht])
      simp [fault?_block, houtside, ht]
  | case7 rest hne ih => simp [fault?_block, hne, ih]
  | case8 inside rest houtside hne => simp [fault?_block, houtside, hne]
  | case9 inside name rest hopen hclose ih => simp [fault?_block, hopen, hclose, ih]
  | case10 inside t rest heof hname ih =>
    have hnext : ∀ tail : List Token, (∀ name ts, tail ≠ .name name :: ts) →
        ∀ name ts, t = .blockBegin → rest ++ tail ≠ .name name :: ts := by
      intro tail htail name ts ht h
      cases rest with
      | nil => exact htail name ts h
      | cons u rest =>
        cases h
        exact hname name rest ht rfl
    rw [List.cons_append, List.cons_append, fault?_cons heof (hnext _ (by simp)),
      fault?_cons heof (hnext _ (by simp)), ih]

theorem fault?_framed (pre post : List Char) (values : List Token) :
    fault? false (Lexer.dataTokens pre ++ (values ++ (Lexer.dataTokens post ++ [.eof])))
      = fault? false (values ++ [.eof]) := by
  have hpost : fault? false (values ++ (Lexer.dataTokens post ++ [.eof]))
      = fault? false (values ++ [.eof]) := by
    unfold Lexer.dataTokens
    split
    · rfl
    · exact fault?_data_end false values _
  rw [← hpost]
  generalize values ++ (Lexer.dataTokens post ++ [.eof]) = rest
  unfold Lexer.dataTokens
  split
  · rfl
  · exact fault?_data false _ rest

/-! ## Templates -/

theorem faultOf_instrument (hooks : Hooks) (tokens : List (Located Token)) :
    faultOf (instrument hooks tokens)
      = fault? false ((Cursor.closed tokens).map Located.value) := by
  have hrun : faultOf (runFrom hooks {} #[] (Cursor.closed tokens))
      = fault? false ((Cursor.closed tokens).map Located.value) := faultOf_runFrom rfl rfl
  rw [← hrun, instrument]
  cases runFrom hooks {} #[] (Cursor.closed tokens) <;> rfl

/-- Behind the instrumenter, what the parser refuses is a matter of grammar. -/
theorem kind_of_parse_error {tokens : List (Located Token)} {i : Instrumented}
    {error : ParseError} (h : instrument hooks tokens = .ok i)
    (herror : Template.parse i.tokens.toList = .error error) : error.kind = .grammar := by
  obtain ⟨⟨final, q⟩, hrun, rfl⟩ := Lexer.exists_of_map_eq_ok h
  have hends : Ends {} (Cursor.closed tokens) := by
    obtain ⟨t, ht, heof⟩ := eof_mem_closed tokens
    exact .inl ⟨t, ht, Token.isEof_iff.mp heof⟩
  obtain ⟨more, hfinal, hmore, -⟩ := alternates_of_runFrom hends hrun
  have hclosed : Alternates false (Cursor.ofTokens final.toList).rest := by
    rw [hfinal]
    exact alternates_closed hmore
  have hregion : error.isRegion = false := by
    unfold Template.parse at herror
    cases hnodes : Parser.nodesFrom (Cursor.ofTokens final.toList) [] with
    | ok nodes => rw [hnodes] at herror; cases herror
    | error error' =>
      rw [hnodes] at herror
      cases herror
      exact not_region_of_nodesFrom hclosed hnodes
  cases error <;> first | rfl | cases hregion

end QueryMachine.Region
