import QueryMachine.Proofs.Compile.Stages
import QueryMachine.Proofs.Region.Boundaries
import QueryMachine.Proofs.Render.Frame

/-!
# Plain text around a template

A template is often a fragment of a longer text. What stands around it is copied to
the output and has no other effect: the two compilations, of the fragment and of the
whole text, succeed together with the same reports or fail together in the same stage.

The stages are compared one after the other, each on what the one before it gives: the
tokens of the fragment are those of the whole without the data at both ends, places
aside (`Lexer.tokensFrom_framed`); the instrumenter finds the same fault or none
(`Region.fault?_framed`); the trees differ by a node of data at each end, and so do
the rewritten trees (`Template.parse_framed`); and rendering puts the two texts around
the output (`Render.alike_render`).
-/

namespace QueryMachine

/-! ## Tokens -/

/-- A source `r` between two texts: it begins with an opener and ends with the closer
of its last tag, neither of them with a dash, and the texts hold no opener and make
none where they meet it. The whole is not too long to be cut into tokens. -/
structure FramedSource (pre r post : String) : Prop where
  opens : ∃ (kind : Lexer.Opener) (inside : List Char),
    r.toList = '\x7b' :: kind.mark :: inside ∧ Lexer.beginsWithDash inside = false
  closes : ∃ lexed, Lexer.tokenize r = .ok lexed ∧ Lexer.EndsClosed r lexed.tokens.toList
  pre_plain : ∀ kind : Lexer.Opener, ¬ ['\x7b', kind.mark] <:+: pre.toList
  pre_last : pre.toList.getLast? ≠ some '\x7b'
  post_plain : ∀ kind : Lexer.Opener, ¬ ['\x7b', kind.mark] <:+: post.toList
  limit : ∀ count span seen,
    Lexer.tokenize (pre ++ r ++ post) ≠ .error ⟨.tooManyTokens count span, seen⟩

variable {pre r post : String}

/-- The tokens of the whole text: those of the source, and data around them. -/
theorem FramedSource.tokenize (h : FramedSource pre r post) :
    ∃ lexed lexed' w span, Lexer.tokenize r = .ok lexed ∧
      Lexer.tokenize (pre ++ r ++ post) = .ok lexed' ∧
      lexed.tokens.toList = w ++ [⟨.eof, span⟩] ∧ Lexer.Shaped w ∧
      lexed'.tokens.toList.map Located.value = Lexer.dataTokens pre.toList ++
        (w.map Located.value ++ (Lexer.dataTokens post.toList ++ [.eof])) := by
  obtain ⟨kind, inside, hopens, hdash⟩ := h.opens
  obtain ⟨lexed, htokenize, hcloses⟩ := h.closes
  obtain ⟨w, span, htokens, hw⟩ := Lexer.shaped_of_tokenize htokenize
  obtain ⟨values, hvalues, hframed⟩ := Lexer.tokensFrom_framed htokenize hopens hdash hcloses
    h.pre_plain h.pre_last h.post_plain
  have hinner : values = w.map Located.value := by
    rw [htokens, List.map_append] at hvalues
    exact (List.append_inj_left' hvalues rfl).symm
  have htext : pre.toList ++ (r.toList ++ post.toList) = (pre ++ r ++ post).toList := by
    simp
  rw [htext, hinner] at hframed
  cases hwhole : Lexer.tokenize (pre ++ r ++ post) with
  | error failure =>
    obtain ⟨count, place, seen, rfl⟩ := Lexer.error_of_tokenize hframed hwhole
    exact absurd hwhole (h.limit count place seen)
  | ok lexed' =>
    obtain ⟨hvalues', -⟩ := Lexer.tokenize_eq_ok_iff.mp ⟨lexed', hwhole, rfl⟩
    rw [hframed] at hvalues'
    exact ⟨lexed, lexed', w, span, htokenize, rfl, htokens, hw, (Option.some.inj hvalues').symm⟩

/-! ## The stages before rendering -/

/-- Two sources whose raw tokens are parsed to trees that differ by data at both ends, or
not at all: so it is with their tokens once they have their calls. -/
theorem parse_instrumented_framed {whole : String} {pre post : List Char} {lexed lexed' : Lexed}
    {i i' : Region.Instrumented} (hlexed : Lexer.tokenize r = .ok lexed)
    (hlexed' : Lexer.tokenize whole = .ok lexed')
    (hi : Region.instrument {} lexed.tokens.toList = .ok i)
    (hi' : Region.instrument {} lexed'.tokens.toList = .ok i')
    (hparse : ∀ t, Template.parse lexed.tokens.toList = .ok t →
      ∃ t', Template.parse lexed'.tokens.toList = .ok t' ∧ t'.nodes.map Node.withoutSpans
        = Grammar.plainNodes pre ++ (t.nodes.map Node.withoutSpans ++ Grammar.plainNodes post))
    (hback : ∀ t', Template.parse lexed'.tokens.toList = .ok t' →
      ∃ t, Template.parse lexed.tokens.toList = .ok t) :
    (∃ t t', Template.parse i.tokens.toList = .ok t ∧
      Template.parse i'.tokens.toList = .ok t' ∧ t'.nodes.map Node.withoutSpans
        = Grammar.plainNodes pre ++ (t.nodes.map Node.withoutSpans ++ Grammar.plainNodes post)) ∨
    ∃ error error', Template.parse i.tokens.toList = .error error ∧
      Template.parse i'.tokens.toList = .error error' ∧ error'.kind = error.kind := by
  cases ht : Template.parse i.tokens.toList with
  | ok t =>
    obtain ⟨raw, hraw, hrewritten⟩ := Region.exists_rewritten hlexed hi ht
    obtain ⟨raw', hraw', hnodes⟩ := hparse raw hraw
    obtain ⟨j, t', hj, ht', hrewritten'⟩ := Region.exists_instrumented_of_parse hraw' {}
    rw [hi'] at hj
    cases hj
    exact .inl ⟨t, t', rfl, ht', Template.nodes_of_rewritten hnodes hrewritten hrewritten'⟩
  | error error =>
    cases ht' : Template.parse i'.tokens.toList with
    | ok t' =>
      -- The source would be parsed without its calls, and then also with them.
      obtain ⟨raw', hraw'⟩ := Region.exists_parse_of_instrumented hlexed' hi' ht'
      obtain ⟨raw, hraw⟩ := hback raw' hraw'
      obtain ⟨j, t, hj, ht'', -⟩ := Region.exists_instrumented_of_parse hraw {}
      rw [hi] at hj
      cases hj
      rw [ht] at ht''
      cases ht''
    | error error' =>
      refine .inr ⟨error, error', rfl, rfl, ?_⟩
      rw [Region.kind_of_parse_error hi ht, Region.kind_of_parse_error hi' ht']

/-- The trees that are rendered differ by the data around them, or both sources fail in
the same way before they are rendered. -/
theorem FramedSource.front (h : FramedSource pre r post) :
    (∃ lexed summary t lexed' summary' t',
      Compile.front r = .ok (lexed, summary, t) ∧
      Compile.front (pre ++ r ++ post) = .ok (lexed', summary', t') ∧
      t'.nodes.map Node.withoutSpans = Grammar.plainNodes pre.toList ++
        (t.nodes.map Node.withoutSpans ++ Grammar.plainNodes post.toList)) ∨
    ∃ error error', Compile.front r = .error error ∧
      Compile.front (pre ++ r ++ post) = .error error' ∧
      error'.stage = error.stage ∧ error'.kind = error.kind := by
  obtain ⟨lexed, lexed', w, span, hlexed, hlexed', htokens, hw, hvalues⟩ := h.tokenize
  have hfault : Region.faultOf (Region.instrument {} lexed'.tokens.toList)
      = Region.faultOf (Region.instrument {} lexed.tokens.toList) := by
    rw [Region.faultOf_instrument, Region.faultOf_instrument, Region.closed_of_tokenize hlexed',
      Region.closed_of_tokenize hlexed, hvalues, Region.fault?_framed, htokens,
      List.map_append]
    rfl
  obtain ⟨hparse, hback⟩ := Template.parse_framed hw span hvalues
  rw [← htokens] at hparse hback
  unfold Compile.front
  simp only [hlexed, hlexed']
  cases hi : Region.instrument {} lexed.tokens.toList with
  | error error =>
    cases hi' : Region.instrument {} lexed'.tokens.toList with
    | ok i' => rw [hi, hi'] at hfault; cases hfault
    | error error' =>
      rw [hi, hi'] at hfault
      exact .inr ⟨_, _, rfl, rfl, rfl, Option.some.inj hfault⟩
  | ok i =>
    cases hi' : Region.instrument {} lexed'.tokens.toList with
    | error error' => rw [hi, hi'] at hfault; cases hfault
    | ok i' =>
      rcases parse_instrumented_framed hlexed hlexed' hi hi' hparse hback with
        ⟨t, t', ht, ht', hnodes⟩ | ⟨error, error', ht, ht', hkind⟩
      · simp only [ht, ht']
        exact .inl ⟨_, _, _, _, _, _, rfl, rfl, hnodes⟩
      · simp only [ht, ht']
        exact .inr ⟨_, _, rfl, rfl, rfl, hkind⟩

/-! ## The whole compilation -/

/-- Plain text around a source is copied to the output. The source and the whole text
compile together, to the same output but for that text and to the same reports but for
their spans; or they fail together, in the same stage and for a reason of the same
kind. This holds for every dialect and under either policy, as long as the output is
not trimmed. -/
theorem compile_framed (d : Dialect) (preferences : CompilerPreferences)
    (htrim : preferences.trimOutput = false) (name : String) (h : FramedSource pre r post) :
    (∃ c c', (compile d preferences name r).1 = .ok c ∧
      (compile d preferences name (pre ++ r ++ post)).1 = .ok c' ∧
      c'.output = pre ++ c.output ++ post ∧
      c'.reports.map RegionReport.withoutSpan = c.reports.map RegionReport.withoutSpan) ∨
    ∃ error error', (compile d preferences name r).1 = .error error ∧
      (compile d preferences name (pre ++ r ++ post)).1 = .error error' ∧
      error'.stage = error.stage ∧ error'.kind = error.kind := by
  rw [Compile.compile_fst, Compile.compile_fst]
  rcases h.front with ⟨lexed, summary, t, lexed', summary', t', hfront, hfront', hnodes⟩ |
    ⟨error, error', hfront, hfront', hstage, hkind⟩
  · rw [hfront, hfront']
    have hrender : Render.Alike _ (t.render d preferences.policy {})
        (t'.render d preferences.policy {}) := Render.alike_render hnodes (.refl {})
    simp only [Except.bind, Compile.back, Compile.render]
    generalize t.render d preferences.policy {} = run at hrender ⊢
    generalize t'.render d preferences.policy {} = run' at hrender ⊢
    cases hrender with
    | ok htext hs =>
      refine .inl ⟨_, _, rfl, rfl, ?_, ?_⟩
      · simpa [Compile.result, htrim] using htext
      · simp only [Compile.result]
        split
        · exact hs.reports
        · rfl
    | error hkind => exact .inr ⟨_, _, rfl, rfl, rfl, hkind⟩
  · rw [hfront, hfront']
    exact .inr ⟨error, error', rfl, rfl, hstage, hkind⟩

/-- A region and a jump behind it, whose placeholder waits for the end of the text. -/
theorem compile_framed_jump_outside :
    ∃ r,
      r = "\x7b%sqlvm%\x7d\x7b\x7bexit()\x7d\x7d\x7b%endsqlvm%\x7d\x7b\x7bjump('x')\x7d\x7d" ∧
      FramedSource "\x7b a\n" r " b\x7b" ∧
      ∃ c c', (compile MySql.dialect { trimOutput := false } "p" r).1 = .ok c ∧
        (compile MySql.dialect { trimOutput := false } "p" ("\x7b a\n" ++ r ++ " b\x7b")).1
          = .ok c' ∧
        c'.output = "\x7b a\n" ++ c.output ++ " b\x7b" ∧
        c'.reports.map RegionReport.withoutSpan = c.reports.map RegionReport.withoutSpan := by
  obtain ⟨r, hr⟩ : ∃ r,
      r = "\x7b%sqlvm%\x7d\x7b\x7bexit()\x7d\x7d\x7b%endsqlvm%\x7d\x7b\x7bjump('x')\x7d\x7d" :=
    ⟨_, rfl⟩
  have hopens : r.toList = '\x7b' :: '%' :: r.toList.drop 2 ∧
      Lexer.beginsWithDash (r.toList.drop 2) = false := by
    subst hr
    decide +kernel
  have hfront : r.toList = r.toList.take 42 ++ ['\x7d', '\x7d'] := by
    subst hr
    decide +kernel
  have hcloses : ∃ lexed, Lexer.tokenize r = .ok lexed ∧
      Lexer.EndsClosed r lexed.tokens.toList := by
    subst hr
    exact ⟨_, by cbv, .expression, _, hfront, by decide +kernel⟩
  have hwhole : ∃ lexed, Lexer.tokenize ("\x7b a\n" ++ r ++ " b\x7b") = .ok lexed := by
    subst hr
    exact ⟨_, by cbv⟩
  have hcompile :
      (compile MySql.dialect { trimOutput := false } "p" r).1.toOption.isSome = true := by
    subst hr
    decide +kernel
  have hframed : FramedSource "\x7b a\n" r " b\x7b" := {
    opens := ⟨.tag .block, _, hopens⟩
    closes := hcloses
    pre_plain := by rintro (⟨_ | _⟩ | _) <;> decide
    pre_last := by decide
    post_plain := by rintro (⟨_ | _⟩ | _) <;> decide
    limit := by
      intro count span seen herror
      obtain ⟨lexed, hlexed⟩ := hwhole
      rw [hlexed] at herror
      cases herror }
  refine ⟨r, hr, hframed, ?_⟩
  rcases compile_framed MySql.dialect { trimOutput := false } rfl "p" hframed with
    h | ⟨error, _, herror, -⟩
  · exact h
  · rw [herror] at hcompile
    cases hcompile

end QueryMachine
