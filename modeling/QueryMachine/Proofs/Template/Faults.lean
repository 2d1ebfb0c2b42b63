import QueryMachine.Proofs.Template.Grammar

/-!
# What the parser complains about

An error of the parser comes from one of two places. Inside of a tag something
was expected that is not there; such a fault is at one of the tokens, or at the
end of them. Between tags it is about what stands there, and only there can it be
about regions.

The first half of the file settles the insides of tags. `Tame` says at once what
each reader does when it succeeds and when it fails, so that the readers compose
in the order in which the parser calls them. The second half follows the two
loops between tags and concludes where an error can be (`span_of_parse_error`).
-/

namespace QueryMachine

/-- Whether an error is about how regions stand to each other. -/
def ParseError.isRegion : ParseError → Bool
  | nestedRegion _ | unmatchedClose _ | unclosedRegion _ => true
  | _ => false

namespace Grammar

/-- The cursor `d` is `c`, some tokens later. -/
structure Follows (d c : Cursor) : Prop where
  last : d.last = c.last
  rest : d.rest <:+ c.rest

theorem Follows.trans {e d c : Cursor} (he : Follows e d) (hd : Follows d c) : Follows e c :=
  ⟨he.last.trans hd.last, he.rest.trans hd.rest⟩

/-- An error that is not about regions and is at one of the tokens left, or at the
end. -/
structure Fault (c : Cursor) (error : ParseError) : Prop where
  not_region : error.isRegion = false
  place : error.span = c.last ∨ ∃ t ∈ c.rest, error.span = t.span

theorem Fault.of_follows {d c : Cursor} {error : ParseError} (h : Fault d error)
    (hd : Follows d c) : Fault c error := by
  refine ⟨h.not_region, ?_⟩
  rcases h.place with hplace | ⟨t, ht, hplace⟩
  · exact .inl (hplace.trans hd.last)
  · exact .inr ⟨t, hd.rest.subset ht, hplace⟩

/-- A reader that succeeds has moved on; one that fails has found a fault. -/
def Tame {c : Cursor} {α : Type} : Parser.Parsed c α → Prop
  | .ok (_, d) => Follows d.val c
  | .error error => Fault c error

theorem Tame.follows {c : Cursor} {α : Type} {r : Parser.Parsed c α} {a : α} {d : c.After}
    (h : Tame r) (heq : r = .ok (a, d)) : Follows d.val c := by
  rw [heq] at h
  exact h

theorem Tame.fault {c : Cursor} {α : Type} {r : Parser.Parsed c α} {error : ParseError}
    (h : Tame r) (heq : r = .error error) : Fault c error := by
  rw [heq] at h
  exact h

/-! ## Inside of tags -/

theorem follows_of_rest {c d : Cursor} {t : Located Token} (hlast : d.last = c.last)
    (hrest : c.rest = t :: d.rest) : Follows d c := by
  refine ⟨hlast, ?_⟩
  rw [hrest]
  exact List.suffix_cons t d.rest

theorem follows_advance (c : Cursor) : Follows c.advance c :=
  ⟨rfl, List.tail_suffix c.rest⟩

theorem follows_advanceIf {c : Cursor} {wanted : Token} {d : c.After}
    (h : c.advanceIf wanted = some d) : Follows d.val c := by
  unfold Cursor.advanceIf at h
  split at h
  · next token rest hrest =>
    split at h
    · cases h
      exact follows_of_rest rfl hrest
    · cases h
  · cases h

theorem tame_expect (c : Cursor) (wanted : Token) : Tame (Parser.expect c wanted) := by
  unfold Parser.expect Cursor.expect
  split
  · next token rest hrest =>
    have hmem : token ∈ c.rest := by rw [hrest]; exact List.mem_cons_self
    split
    · exact follows_of_rest rfl hrest
    · split
      · exact ⟨rfl, .inr ⟨token, hmem, rfl⟩⟩
      · exact ⟨rfl, .inr ⟨token, hmem, rfl⟩⟩
  · exact ⟨rfl, .inl rfl⟩

theorem mem_of_expect {c : Cursor} {wanted : Token} {t : Located Token} {d : c.After}
    (h : Parser.expect c wanted = .ok (t, d)) : t ∈ c.rest := by
  rw [(expect_sound h).1]
  exact List.mem_cons_self

theorem tame_expectName (c : Cursor) : Tame (Parser.expectName c) := by
  unfold Parser.expectName
  split
  · next hexpect => exact (tame_expect c _).fault hexpect
  · next token d hexpect =>
    split
    · exact (tame_expect c _).follows hexpect
    · exact ⟨rfl, .inr ⟨token, mem_of_expect hexpect, rfl⟩⟩

theorem tame_expectInteger (c : Cursor) : Tame (Parser.expectInteger c) := by
  unfold Parser.expectInteger
  split
  · next hexpect => exact (tame_expect c _).fault hexpect
  · next token d hexpect =>
    split
    · exact (tame_expect c _).follows hexpect
    · exact ⟨rfl, .inr ⟨token, mem_of_expect hexpect, rfl⟩⟩

theorem tame_argsFrom {parse : (c : Cursor) → Parser.Parsed c Expr}
    (hparse : ∀ c, Tame (parse c)) {c : Cursor} {d : c.After} (hd : Follows d.val c)
    (before : List Expr) : Tame (Parser.argsFrom parse c d before) := by
  fun_induction Parser.argsFrom parse c d before with
  | case1 d before error hread => exact ((hparse d.val).fault hread).of_follows hd
  | case2 d before arg e hread f hcomma ih =>
    have he := (hparse d.val).follows hread
    exact ih ((follows_advanceIf hcomma).trans (he.trans hd))
  | case3 d before arg e hread hcomma => exact ((hparse d.val).follows hread).trans hd

theorem tame_parseArgs {parse : (c : Cursor) → Parser.Parsed c Expr}
    (hparse : ∀ c, Tame (parse c)) (c : Cursor) : Tame (Parser.parseArgs parse c) := by
  unfold Parser.parseArgs
  split
  · next hopen => exact (tame_expect c _).fault hopen
  · next d hopen =>
    have hd := (tame_expect c _).follows hopen
    have hargs : Tame (if d.val.check .rightParen then .ok ([], d)
        else Parser.argsFrom parse c d []) := by
      split
      · exact hd
      · exact tame_argsFrom hparse hd []
    simp only
    split
    · next h => exact hargs.fault h
    · next args e h =>
      have he := hargs.follows h
      split
      · next hclose => exact ((tame_expect e.val _).fault hclose).of_follows he
      · next f hclose => exact ((tame_expect e.val _).follows hclose).trans he

/-- One level of expressions, given the levels below it. -/
theorem tame_parseExpr_step {budget : Nat}
    (ih : ∀ n, budget = n + 1 → ∀ c, Tame (Parser.parseExpr n c)) (c : Cursor) :
    Tame (Parser.parseExpr budget c) := by
  unfold Parser.parseExpr
  split
  · exact ⟨rfl, .inl rfl⟩
  · next token span rest hrest =>
    have hfault : ∀ error : ParseError, error.isRegion = false → error.span = span →
        Fault c error := by
      intro error hregion hspan
      exact ⟨hregion, .inr ⟨⟨token, span⟩, by rw [hrest]; exact List.mem_cons_self, hspan⟩⟩
    have hd : Follows { c with rest } c := follows_of_rest rfl hrest
    simp only
    split
    · exact hd
    · exact hd
    · split
      · next hdigits => exact ((tame_expectInteger _).fault hdigits).of_follows hd
      · next hdigits => exact ((tame_expectInteger _).follows hdigits).trans hd
    · split
      · split
        · exact hfault _ rfl rfl
        · next n =>
          split
          · next hargs => exact ((tame_parseArgs (ih n rfl) _).fault hargs).of_follows hd
          · next hargs => exact ((tame_parseArgs (ih n rfl) _).follows hargs).trans hd
      · exact hd
    · exact hfault _ rfl rfl
    · exact hfault _ rfl rfl

theorem tame_parseExpr (budget : Nat) (c : Cursor) : Tame (Parser.parseExpr budget c) := by
  induction budget generalizing c with
  | zero => exact tame_parseExpr_step (fun n h => by cases h) c
  | succ n ih => exact tame_parseExpr_step (fun m h => by cases h; exact ih) c

theorem tame_parseOutput (budget : Nat) (c : Cursor) : Tame (Parser.parseOutput budget c) := by
  unfold Parser.parseOutput
  split
  · next hfirst => exact (tame_expect c _).fault hfirst
  · next d hfirst =>
    have hd := (tame_expect c _).follows hfirst
    split
    · next hexpr => exact ((tame_parseExpr budget d.val).fault hexpr).of_follows hd
    · next e hexpr =>
      have he := ((tame_parseExpr budget d.val).follows hexpr).trans hd
      split
      · next hlast => exact ((tame_expect e.val _).fault hlast).of_follows he
      · next hlast => exact ((tame_expect e.val _).follows hlast).trans he

theorem tame_parseSet (budget : Nat) (first : Span) (c : Cursor) :
    Tame (Parser.parseSet budget first c) := by
  unfold Parser.parseSet
  split
  · next hname => exact (tame_expectName c).fault hname
  · next d hname =>
    have hd := (tame_expectName c).follows hname
    split
    · next hequals => exact ((tame_expect d.val _).fault hequals).of_follows hd
    · next e hequals =>
      have he := ((tame_expect d.val _).follows hequals).trans hd
      split
      · next hvalue => exact ((tame_parseExpr budget e.val).fault hvalue).of_follows he
      · next f hvalue =>
        have hf := ((tame_parseExpr budget e.val).follows hvalue).trans he
        split
        · next hlast => exact ((tame_expect f.val _).fault hlast).of_follows hf
        · next hlast => exact ((tame_expect f.val _).follows hlast).trans hf

theorem tame_parseBlock (budget : Nat) (c : Cursor) : Tame (Parser.parseBlock budget c) := by
  unfold Parser.parseBlock
  split
  · next hfirst => exact (tame_expect c _).fault hfirst
  · next d hfirst =>
    have hd := (tame_expect c _).follows hfirst
    split
    · next htag => exact ((tame_expectName d.val).fault htag).of_follows hd
    · next tag tagSpan e htag =>
      have he := ((tame_expectName d.val).follows htag).trans hd
      split
      · split
        · next hlast => exact ((tame_expect e.val _).fault hlast).of_follows he
        · next hlast => exact ((tame_expect e.val _).follows hlast).trans he
      · split
        · split
          · next hset => exact ((tame_parseSet budget _ e.val).fault hset).of_follows he
          · next hset => exact ((tame_parseSet budget _ e.val).follows hset).trans he
        · -- The name of the tag is not known: the fault is at the name.
          have hname : ⟨.name tag, tagSpan⟩ ∈ d.val.rest := by
            rw [expectName_sound htag]
            exact List.mem_cons_self
          exact ⟨rfl, .inr ⟨_, hd.rest.subset hname, rfl⟩⟩

theorem tame_parseClose (c : Cursor) : Tame (Parser.parseClose c) := by
  unfold Parser.parseClose
  split
  · next hfirst => exact (tame_expect c _).fault hfirst
  · next d hfirst =>
    have hd := (tame_expect c _).follows hfirst
    split
    · next htag => exact ((tame_expectName d.val).fault htag).of_follows hd
    · next e htag =>
      have he := ((tame_expectName d.val).follows htag).trans hd
      split
      · next hlast => exact ((tame_expect e.val _).fault hlast).of_follows he
      · next hlast => exact ((tame_expect e.val _).follows hlast).trans he

/-! ## Between tags -/

theorem mem_of_ahead {c : Cursor} {token : Located Token}
    (h : Parser.ahead c = .other token) : token ∈ c.rest := by
  unfold Parser.ahead at h
  split at h
  · cases h
  · next hrest =>
    rw [hrest]
    split at h
    · cases h
    · cases h
    · cases h
    · split at h
      · split at h <;> cases h
      · cases h
    · cases h
      exact List.mem_cons_self

theorem span_of_ahead {c : Cursor} {span : Span} (h : Parser.ahead c = .close span) :
    ∃ t ∈ c.rest, ∃ t' ∈ c.rest, span = t.span.cover t'.span := by
  unfold Parser.ahead at h
  split at h
  · cases h
  · next token rest hrest =>
    rw [hrest]
    split at h
    · cases h
    · cases h
    · cases h
    · split at h
      · next name rest' =>
        split at h
        · cases h
          exact ⟨token, by simp, name, by simp, rfl⟩
        · cases h
      · cases h
    · cases h

/-- A property of spans that the parser keeps when it makes new ones. -/
structure SpanClosed (P : Span → Prop) : Prop where
  nowhere : P .nowhere
  stop : ∀ {s}, P s → P (.point s.stop)
  cover : ∀ {a b}, P a → P b → P (a.cover b)

/-- The spans that are left to a cursor have a property. -/
structure HasSpans (P : Span → Prop) (c : Cursor) : Prop where
  last : P c.last
  rest : ∀ t ∈ c.rest, P t.span

section Spans

variable {P : Span → Prop} {c d : Cursor}

theorem HasSpans.of_follows (h : HasSpans P c) (hd : Follows d c) : HasSpans P d :=
  ⟨by rw [hd.last]; exact h.last, fun t ht => h.rest t (hd.rest.subset ht)⟩

theorem HasSpans.fault (h : HasSpans P c) {error : ParseError} (he : Fault c error) :
    P error.span := by
  rcases he.place with hspan | ⟨t, ht, hspan⟩
  · rw [hspan]
    exact h.last
  · rw [hspan]
    exact h.rest t ht

theorem HasSpans.opening (h : HasSpans P c) (hP : SpanClosed P) {budget : Nat} {span : Span}
    {e : c.After} (hblock : Parser.parseBlock budget c = .ok (.opening span, e)) : P span := by
  rcases parseBlock_sound hblock with ⟨w, i, -, heq, -⟩ | ⟨first, tag, last, hrest, heq⟩
  · cases heq
  · cases heq
    have hfirst := h.rest ⟨.blockBegin, first⟩ (by simp [hrest, nameTag])
    have hlast := h.rest ⟨.blockEnd, last⟩ (by simp [hrest, nameTag])
    exact hP.cover hfirst hlast

theorem span_of_bodyFrom_error (hP : SpanClosed P) {budget : Nat} {opened : Span}
    (hopened : P opened) {e : c.After} (he : HasSpans P e.val) {before : List Item}
    {error : ParseError} (h : Parser.bodyFrom budget opened c e before = .error error) :
    P error.span := by
  fun_induction Parser.bodyFrom budget opened c e before with
  | case1 =>
    cases h
    exact hopened
  | case2 e before text span hahead ih => exact ih (he.of_follows (follows_advance e.val)) h
  | case3 e before hahead error' hitem =>
    cases h
    exact he.fault ((tame_parseOutput budget e.val).fault hitem)
  | case4 e before hahead item f hitem ih =>
    exact ih (he.of_follows ((tame_parseOutput budget e.val).follows hitem)) h
  | case5 e before span hahead error' hclose =>
    cases h
    exact he.fault ((tame_parseClose e.val).fault hclose)
  | case6 => cases h
  | case7 e before hahead error' hblock =>
    cases h
    exact he.fault ((tame_parseBlock budget e.val).fault hblock)
  | case8 e before hahead span f hblock =>
    cases h
    exact he.opening hP hblock
  | case9 e before hahead item f hblock ih =>
    exact ih (he.of_follows ((tame_parseBlock budget e.val).follows hblock)) h
  | case10 e before token hahead =>
    cases h
    exact he.rest token (mem_of_ahead hahead)

theorem follows_bodyFrom {budget : Nat} {opened : Span} {d e : c.After} {before items : List Item}
    (hd : Follows d.val c) (h : Parser.bodyFrom budget opened c d before = .ok (items, e)) :
    Follows e.val c := by
  fun_induction Parser.bodyFrom budget opened c d before with
  | case1 => cases h
  | case2 d before text span hahead ih => exact ih ((follows_advance d.val).trans hd) h
  | case3 => cases h
  | case4 d before hahead item f hitem ih =>
    exact ih (((tame_parseOutput budget d.val).follows hitem).trans hd) h
  | case5 => cases h
  | case6 d before span hahead u f hclose =>
    cases h
    exact ((tame_parseClose d.val).follows hclose).trans hd
  | case7 => cases h
  | case8 => cases h
  | case9 d before hahead item f hblock ih =>
    exact ih (((tame_parseBlock budget d.val).follows hblock).trans hd) h
  | case10 => cases h

theorem span_of_nodesFrom_error (hP : SpanClosed P) (hc : HasSpans P c) {before : List Node}
    {error : ParseError} (h : Parser.nodesFrom c before = .error error) : P error.span := by
  fun_induction Parser.nodesFrom c before with
  | case1 => cases h
  | case2 c before text span hahead ih => exact ih (hc.of_follows (follows_advance c)) h
  | case3 c before hahead error' hitem =>
    cases h
    exact hc.fault ((tame_parseOutput _ c).fault hitem)
  | case4 c before hahead item e hitem ih =>
    exact ih (hc.of_follows ((tame_parseOutput _ c).follows hitem)) h
  | case5 c before span hahead =>
    cases h
    obtain ⟨t, ht, t', ht', rfl⟩ := span_of_ahead hahead
    exact hP.cover (hc.rest t ht) (hc.rest t' ht')
  | case6 c before hahead error' hblock =>
    cases h
    exact hc.fault ((tame_parseBlock _ c).fault hblock)
  | case7 c before hahead item e hblock ih =>
    exact ih (hc.of_follows ((tame_parseBlock _ c).follows hblock)) h
  | case8 c before hahead span e hblock error' hbody =>
    cases h
    have he := (tame_parseBlock _ c).follows hblock
    exact span_of_bodyFrom_error hP (hc.opening hP hblock) (hc.of_follows he) hbody
  | case9 c before hahead span e hblock body f hbody ih =>
    have he := (tame_parseBlock _ c).follows hblock
    exact ih (hc.of_follows (follows_bodyFrom he hbody)) h
  | case10 c before token hahead =>
    cases h
    exact hc.rest token (mem_of_ahead hahead)

/-- The error of a parse has the span of a token, or one made from such spans. -/
theorem span_of_parse_error (hP : SpanClosed P) {tokens : List (Located Token)}
    (htokens : ∀ t ∈ tokens, P t.span) {error : ParseError}
    (h : Template.parse tokens = .error error) : P error.span := by
  have hclosed : ∀ t ∈ Cursor.closed tokens, P t.span := by
    unfold Cursor.closed
    split
    · next last hlast =>
      split
      · exact htokens
      · intro t ht
        rcases List.mem_append.mp ht with ht | ht
        · exact htokens t ht
        · rw [List.mem_singleton.mp ht]
          exact hP.stop (htokens last (List.mem_of_getLast? hlast))
    · intro t ht
      rw [List.mem_singleton.mp ht]
      exact hP.nowhere
  have hspans : HasSpans P (Cursor.ofTokens tokens) := by
    refine ⟨?_, hclosed⟩
    show P (((Cursor.closed tokens).getLast?.map Located.span).getD .nowhere)
    cases hlast : (Cursor.closed tokens).getLast? with
    | none => exact hP.nowhere
    | some last => exact hclosed last (List.mem_of_getLast? hlast)
  unfold Template.parse at h
  cases hnodes : Parser.nodesFrom (Cursor.ofTokens tokens) [] with
  | ok nodes => rw [hnodes] at h; cases h
  | error error' =>
    rw [hnodes] at h
    cases h
    exact span_of_nodesFrom_error hP hspans hnodes

end Spans

end Grammar

end QueryMachine
