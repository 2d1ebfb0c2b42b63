import QueryMachine.Proofs.Render.Program
import QueryMachine.Proofs.Template.Derivation
import QueryMachine.Proofs.Template.Faults
import QueryMachine.Proofs.Token.Positions

/-!
# Every diagnostic points into the source

A compilation that fails says where. Four stages can fail, and each makes spans of
its own: the lexer cuts them out of the text, the instrumenter splits data into
lines and puts calls in at single places, the parser covers the tokens it reads,
and rendering reports at the expressions that it evaluates, or that it evaluated
long before a placeholder turned out to have no code. This file follows the spans
through the stages. All of them are true spans of the source (`Span.InText`).

The lexer's part is `Positions.lean`. The instrumenter keeps the property by a step
lemma over what a visit can do, with one more fact than spans: data stands in the
source as it is, which is what makes the places between its lines true ones. From
there on spans are only covered and handed on, so the parser and the rendering are
treated for any property of spans.
-/

namespace QueryMachine

open Lexer (Stands)

variable {source : String}

/-! ## Instrumentation -/

/-- All spans that an error names are spans of the source. -/
def RegionError.InText (source : String) : RegionError → Prop
  | nested span opened => span.InText source ∧ opened.InText source
  | unmatchedClose span | unclosed span | malformed _ _ span => span.InText source

theorem RegionError.InText.span {error : RegionError} (h : error.InText source) :
    error.span.InText source := by
  cases error with
  | nested span opened => exact h.1
  | unmatchedClose | unclosed | malformed => exact h

namespace Region

theorem inText_call {pos : Position} (h : pos.InText source.toList) (name : String) :
    ∀ t ∈ (call name pos).toList, t.span.InText source := by
  simp only [call, Array.toList_map, List.map_cons, List.map_nil, List.forall_mem_cons]
  exact ⟨h.point, h.point, h.point, h.point, h.point, by simp⟩

theorem inText_dataAt {pos : Position} {line rest : List Char}
    (h : pos.At source.toList (line ++ rest)) : (dataAt pos line).span.InText source :=
  h.span

/-- The lines of data that stands in the source have their places there, and so have
the calls between them. -/
theorem inText_lineTokens (hooks : Hooks) {due : Bool} {pos : Position}
    {lines : List (List Char)} {rest : List Char}
    (h : pos.At source.toList (['\n'].intercalate lines ++ rest)) :
    ∀ t ∈ lineTokens hooks due pos lines, t.span.InText source := by
  induction lines generalizing due pos with
  | nil => simp [lineTokens]
  | cons line lines ih =>
    cases lines with
    | nil =>
      rw [List.intercalate_singleton] at h
      simp only [lineTokens, List.forall_mem_cons]
      exact ⟨inText_dataAt h, by simp⟩
    | cons next lines =>
      rw [List.intercalate_cons_cons, List.append_assoc, List.append_assoc] at h
      have hstop := h.advanceOver
      intro t ht
      simp only [lineTokens, List.mem_append] at ht
      rcases ht with (ht | ht) | ht
      · split at ht
        · cases ht
        · rw [List.mem_singleton.mp ht]
          exact inText_dataAt h
      · split at ht
        · exact inText_call hstop.inText _ t ht
        · cases ht
      · exact ih hstop.advance t ht

def Progress.Sound (source : String) (p : Progress) : Prop :=
  ∀ opened, p.opened = some opened → opened.InText source

section Walk

variable {hooks : Hooks} {p : Progress} {token : Located Token} {rest : List (Located Token)}

/-- What a visit may give: tokens with true spans and a walk that goes on with some
of the tokens, or an error with true spans. -/
def Visit.Sound (source : String) (rest : List (Located Token)) (v : Visit) : Prop :=
  match v.result with
  | .ok out =>
    (∀ t ∈ out.toList, t.span.InText source) ∧ v.progress.Sound source ∧ v.rest <:+ rest
  | .error error => error.InText source

theorem Visits.sound {v : Visit} (h : Visits hooks p token rest v) (hp : p.Sound source)
    (htoken : Stands source token) (hrest : ∀ t ∈ rest, Stands source t) :
    v.Sound source rest := by
  cases h with
  | @handOn _ _ q hopened _ _ _ _ =>
    refine ⟨by simpa using htoken.span, ?_, List.suffix_refl rest⟩
    intro opened h
    exact hp opened (hopened ▸ h)
  | @openTag _ name third rest _ _ _ _ =>
    simp only [List.forall_mem_cons] at hrest
    obtain ⟨hname, hthird, -⟩ := hrest
    refine ⟨?_, ?_, (List.suffix_cons third rest).trans (List.suffix_cons name _)⟩
    · simp only [Array.toList_append, List.forall_mem_append, List.forall_mem_cons]
      exact ⟨⟨htoken.span, hname.span, hthird.span, by simp⟩,
        inText_call hthird.span.stop _⟩
    · intro opened h
      cases h
      exact htoken.span.cover hthird.span
  | closeTag =>
    refine ⟨?_, ?_, List.suffix_refl _⟩
    · simp only [Array.toList_push, List.forall_mem_append, List.forall_mem_cons]
      exact ⟨inText_call htoken.span.start _, htoken.span, by simp⟩
    · intro opened h
      cases h
  | @data text span _ _ =>
    refine ⟨?_, ?_, List.suffix_refl rest⟩
    · -- The lines joined again are the data, which stands in the source.
      obtain ⟨after, hafter⟩ := htoken.data rfl
      have hlines : ['\n'].intercalate (text.toList.splitOn '\n') = text.toList :=
        List.intercalate_splitOn '\n'
      rw [← hlines] at hafter
      exact inText_lineTokens hooks hafter
    · intro opened h
      rw [Progress.opened_sawData] at h
      exact hp opened h
  | finish _ hopened =>
    refine ⟨by simpa using htoken.span, ?_, List.nil_suffix⟩
    exact hp
  | @nested _ name following opened _ _ hopened =>
    refine ⟨?_, hp _ hopened⟩
    cases following with
    | nil => exact htoken.span
    | cons third rest => exact htoken.span.cover (hrest third (by simp)).span
  | @malformed _ name third rest => exact (hrest third (by simp)).span
  | @unfinished _ name => exact (hrest name (by simp)).span
  | unmatched => exact htoken.span
  | unclosed _ hopened => exact hp _ hopened

theorem inText_runFrom {tokens : List (Located Token)} {out : Array (Located Token)}
    (hp : p.Sound source) (htokens : ∀ t ∈ tokens, Stands source t)
    (hout : ∀ t ∈ out.toList, t.span.InText source) :
    (∀ final q, runFrom hooks p out tokens = .ok (final, q) →
      ∀ t ∈ final.toList, t.span.InText source) ∧
    ∀ error, runFrom hooks p out tokens = .error error → error.InText source := by
  fun_induction runFrom hooks p out tokens with
  | case1 p out =>
    refine ⟨?_, by simp⟩
    intro final q h
    cases h
    exact hout
  | case2 p out token rest v error hresult =>
    rw [List.forall_mem_cons] at htokens
    have hv := (visits_visit hooks p token rest).sound hp htokens.1 htokens.2
    unfold Visit.Sound at hv
    rw [hresult] at hv
    refine ⟨by simp, ?_⟩
    intro error' h
    cases h
    exact hv
  | case3 p out token rest v more hresult ih =>
    rw [List.forall_mem_cons] at htokens
    have hv := (visits_visit hooks p token rest).sound hp htokens.1 htokens.2
    unfold Visit.Sound at hv
    rw [hresult] at hv
    obtain ⟨hmore, hprogress, hsuffix⟩ := hv
    refine ih hprogress (fun t ht => htokens.2 t (hsuffix.subset ht)) ?_
    rw [Array.toList_append, List.forall_mem_append]
    exact ⟨hout, hmore⟩

end Walk

/-- The tokens that the lexer gives come out of the instrumenter with true spans. -/
theorem inText_instrument (hooks : Hooks) {lexed : Lexed}
    (h : Lexer.tokenize source = .ok lexed) :
    (∀ i, instrument hooks lexed.tokens.toList = .ok i →
      ∀ t ∈ i.tokens.toList, t.span.InText source) ∧
    ∀ error, instrument hooks lexed.tokens.toList = .error error → error.InText source := by
  have hstart : Progress.Sound source {} := by
    intro opened hopened
    cases hopened
  obtain ⟨hok, herror⟩ := @inText_runFrom source hooks {} _ #[] hstart
    (Lexer.stands_of_tokenize h) (by simp)
  unfold instrument
  rw [closed_of_tokenize h]
  constructor
  · intro i hi
    obtain ⟨⟨final, q⟩, hrun, rfl⟩ := Lexer.exists_of_map_eq_ok hi
    exact hok final q hrun
  · intro error hi
    exact herror error (Lexer.eq_of_map_eq_error hi)

end Region

/-! ## The tree -/

theorem spanClosed_inText (source : String) : Grammar.SpanClosed (Span.InText source) :=
  ⟨Span.inText_nowhere, fun h => h.stop.point, fun ha hb => ha.cover hb⟩

/-- A template whose expressions and regions have spans of some kind. -/
structure Template.Spans (P : Span → Prop) (t : Template) : Prop where
  expr : ∀ {n e}, t.Occurs n e → P e.span
  region : ∀ {body span}, .region body span ∈ t.nodes → P span

theorem Grammar.Covers.property {P : Span → Prop} (hP : SpanClosed P)
    {w : List (Located Token)} {span : Span} (h : Covers w span) (hw : ∀ t ∈ w, P t.span) :
    P span := by
  obtain ⟨first, last, hfirst, hlast, rfl⟩ := h
  exact hP.cover (hw first (List.mem_of_head? hfirst)) (hw last (List.mem_of_getLast? hlast))

theorem Grammar.Traced.spans {P : Span → Prop} (hP : SpanClosed P) {w : List (Located Token)}
    {t : Template} (h : Traced w t) (hw : ∀ t ∈ w, P t.span) : t.Spans P where
  expr := by
    intro n e he
    obtain ⟨v, hv, -, hcovers⟩ := h.expr he
    exact hcovers.property hP fun t ht => hw t (hv.subset ht)
  region := by
    intro body span hmem
    obtain ⟨v, hv, first, tag, last, inside, first', tag', last', -, rfl, hcovers⟩ :=
      h.region hmem
    refine hcovers.property hP fun t ht => hw t (hv.subset ?_)
    exact List.mem_append_left _ ht

/-! ## Rendering -/

namespace Rendered

/-- Every placeholder comes from an expression with a span of some kind. -/
def Spans (P : Span → Prop) (r : Rendered) : Prop :=
  ∀ t span, .thunk t span ∈ r.segments.toList → P span

variable {P : Span → Prop} {r : Rendered}

theorem spans_empty : Rendered.Spans P {} := by
  intro t span h
  cases h

theorem mem_segments {t : Thunk} {span : Span} :
    .thunk t span ∈ r.segments.toList ↔ .thunk t span ∈ r.closed.toList := by
  have htext : ∀ s, Segment.thunk t span ∉ (textSegments s).toList := by
    intro s
    unfold textSegments
    split <;> simp
  rw [segments, Array.toList_append, List.mem_append]
  exact or_iff_left (htext r.tail)

theorem Spans.pushText (h : r.Spans P) (s : String) : (r.pushText s).Spans P := by
  intro t span hmem
  rw [mem_segments] at hmem
  exact h t span (mem_segments.mpr hmem)

theorem Spans.pushThunk (h : r.Spans P) (thunk : Thunk) {span : Span} (hspan : P span) :
    (r.pushThunk thunk span).Spans P := by
  intro t span' hmem
  have hclosed : (r.pushThunk thunk span).closed.toList
      = r.segments.toList ++ [.thunk thunk span] := by
    simp [Rendered.pushThunk, segments]
  rw [mem_segments, hclosed, List.mem_append] at hmem
  rcases hmem with hmem | hmem
  · exact h t span' hmem
  · cases List.mem_singleton.mp hmem
    exact hspan

end Rendered

theorem Resolution.span_of_resolveFrom_error {d : Dialect} {policy : LabelPolicy} {m : Machine}
    {r : Resolution} {notices : Array Notice} {segments : List Segment} {error : ResolveError}
    (h : (resolveFrom d policy m r notices segments).1 = .error error) :
    ∃ t, .thunk t error.span ∈ segments := by
  induction segments generalizing r notices with
  | nil => cases h
  | cons segment rest ih =>
    cases segment with
    | text s =>
      obtain ⟨t, ht⟩ := ih h
      exact ⟨t, List.mem_cons_of_mem _ ht⟩
    | thunk t span =>
      rw [resolveFrom.eq_def] at h
      simp only at h
      split at h
      · cases h
        exact ⟨t, List.mem_cons_self⟩
      · split at h
        · cases h
          exact ⟨t, List.mem_cons_self⟩
        · obtain ⟨t', ht'⟩ := ih h
          exact ⟨t', List.mem_cons_of_mem _ ht'⟩

namespace Render

variable {P : Span → Prop} (d : Dialect) (policy : LabelPolicy) {s : Session}

def ReportSpans (P : Span → Prop) (s : Session) : Prop :=
  ∀ r ∈ s.reports, P r.span

/-- What a part of a rendering may give: a value of some kind, or an error at a span
of some kind; and the reports that it leaves have such spans too. -/
inductive Within (P : Span → Prop) {α : Type} (good : α → Prop) :
    Except RenderError α × Session → Prop where
  | ok {a : α} {s : Session} : good a → ReportSpans P s → Within P good (.ok a, s)
  | fail {error : RenderError} {s : Session} : P error.span → ReportSpans P s →
      Within P good (.error error, s)

/-- The spans of an expression and of all that stands in it. -/
def ExprSpans (P : Span → Prop) (e : Expr) : Prop :=
  ∀ {n sub}, Expr.Occurs n sub e → P sub.span

theorem within_call {name : String} {args : List Value} {span : Span} (hspan : P span)
    (hs : ReportSpans P s) : Within P (fun _ => True) (call d name args span s) := by
  unfold call
  split
  · exact .fail hspan hs
  · split
    · exact .fail hspan hs
    · next f _ _ =>
      cases f.run args s.machine with
      | mk result machine =>
        cases result with
        | ok fragment => exact .ok trivial hs
        | error error => exact .fail hspan hs

mutual

theorem within_eval {e : Expr} (he : ExprSpans P e) {s : Session} (hs : ReportSpans P s) :
    Within P (fun _ => True) (eval d e s) := by
  match e with
  | .str .. | .int .. => exact .ok trivial hs
  | .var name span =>
    rw [eval]
    split
    · exact .ok trivial hs
    · exact .fail (he (.self _)) hs
  | .call name args span =>
    rw [eval]
    have hspans : ∀ a ∈ args, ExprSpans P a := by
      intro a ha n sub hsub
      exact he (.arg name span ha hsub)
    have hargs := within_evalArgs name [] hspans hs
    generalize evalArgs d name [] args s = result at hargs ⊢
    cases hargs with
    | ok _ hs' => exact within_call d (he (.self _)) hs'
    | fail hspan hs' => exact .fail hspan hs'

theorem within_evalArgs (function : String) (before : List Value) {args : List Expr}
    (hargs : ∀ e ∈ args, ExprSpans P e) {s : Session} (hs : ReportSpans P s) :
    Within P (fun _ => True) (evalArgs d function before args s) := by
  match args with
  | [] => exact .ok trivial hs
  | arg :: rest =>
    rw [List.forall_mem_cons] at hargs
    have harg := within_eval hargs.1 hs
    rw [evalArgs]
    generalize eval d arg s = result at harg ⊢
    cases harg with
    | @ok value _ _ hs' =>
      cases value with
      | str | int => exact within_evalArgs function _ hargs.2 hs'
      -- A placeholder cannot be an argument: the error is at the argument.
      | deferred thunk => exact .fail (hargs.1 (.self _)) hs'
    | fail hspan hs' => exact .fail hspan hs'

end

theorem spans_emit {out : Rendered} (hout : out.Spans P) (value : Value) {span : Span}
    (hspan : P span) : (emit out value span).Spans P := by
  cases value with
  | str text => exact hout.pushText text
  | int n => exact hout.pushText _
  | deferred thunk => exact hout.pushThunk thunk hspan

def ItemSpans (P : Span → Prop) (i : Item) : Prop :=
  ∀ {e}, i.expr? = some e → ExprSpans P e

theorem within_item {out : Rendered} (hout : out.Spans P) {i : Item} (hi : ItemSpans P i)
    (hs : ReportSpans P s) : Within P (Rendered.Spans P) (item d out i s) := by
  cases i with
  | data text span => exact .ok (hout.pushText text) hs
  | output e span =>
    have he : ExprSpans P e := hi rfl
    have heval := within_eval d he hs
    rw [item]
    generalize eval d e s = result at heval ⊢
    cases heval with
    | @ok value _ _ hs' => exact .ok (spans_emit hout value (he (.self e))) hs'
    | fail hspan hs' => exact .fail hspan hs'
  | set name e span =>
    have heval := within_eval d (hi rfl) hs
    rw [item]
    generalize eval d e s = result at heval ⊢
    cases heval with
    | ok _ hs' => exact .ok hout hs'
    | fail hspan hs' => exact .fail hspan hs'

theorem within_items {out : Rendered} (hout : out.Spans P) {is : List Item}
    (his : ∀ i ∈ is, ItemSpans P i) (hs : ReportSpans P s) :
    Within P (Rendered.Spans P) (items d out is s) := by
  induction is generalizing out s with
  | nil => exact .ok hout hs
  | cons i is ih =>
    rw [List.forall_mem_cons] at his
    have hitem := within_item d hout his.1 hs
    rw [items]
    generalize item d out i s = result at hitem ⊢
    cases hitem with
    | ok hout' hs' => exact ih hout' his.2 hs'
    | fail hspan hs' => exact .fail hspan hs'

theorem within_resolve {out : Rendered} (hout : out.Spans P) (hs : ReportSpans P s) :
    Within P (fun _ => True) (resolve d policy out s) := by
  simp only [resolve]
  cases hresult : (Resolution.ofRendered d policy s.machine out).1 with
  | ok resolution => exact .ok trivial hs
  | error error =>
    obtain ⟨t, ht⟩ := Resolution.span_of_resolveFrom_error hresult
    exact .fail (hout t _ ht) hs

theorem within_region {body : List Item} (hbody : ∀ i ∈ body, ItemSpans P i) {span : Span}
    (hspan : P span) (hs : ReportSpans P s) :
    Within P (fun _ => True) (region d policy body span s) := by
  have hstarted : ReportSpans P (s.note (.regionStarted span)) := hs
  have hitems := within_items d Rendered.spans_empty hbody hstarted
  unfold region
  generalize items d {} body (s.note (.regionStarted span)) = result at hitems ⊢
  cases hitems with
  | fail herror hs' => exact .fail herror hs'
  | @ok out s' hout hs' =>
    have hresolve := within_resolve d policy hout hs'
    simp only
    generalize resolve d policy out s' = result at hresolve ⊢
    cases hresolve with
    | fail herror hs'' => exact .fail herror hs''
    | ok _ hs'' =>
      refine .ok trivial ?_
      intro r hr
      rcases Array.mem_push.mp hr with hr | rfl
      · exact hs'' r hr
      · exact hspan

def NodeSpans (P : Span → Prop) : Node → Prop
  | .item i => ItemSpans P i
  | .region body span => (∀ i ∈ body, ItemSpans P i) ∧ P span

theorem within_nodes {out : Rendered} (hout : out.Spans P) {ns : List Node}
    (hns : ∀ n ∈ ns, NodeSpans P n) (hs : ReportSpans P s) :
    Within P (Rendered.Spans P) (nodes d policy out ns s) := by
  induction ns generalizing out s with
  | nil => exact .ok hout hs
  | cons n ns ih =>
    rw [List.forall_mem_cons] at hns
    have hnode : Within P (Rendered.Spans P) (node d policy out n s) := by
      cases n with
      | item i => exact within_item d hout hns.1 hs
      | region body span =>
        have hregion := within_region d policy hns.1.1 hns.1.2 hs
        rw [node]
        generalize region d policy body span s = result at hregion ⊢
        cases hregion with
        | ok _ hs' => exact .ok (hout.pushText _) hs'
        | fail hspan hs' => exact .fail hspan hs'
    rw [nodes]
    generalize node d policy out n s = result at hnode ⊢
    cases hnode with
    | ok hout' hs' => exact ih hout' hns.2 hs'
    | fail hspan hs' => exact .fail hspan hs'

theorem nodeSpans_of_spans {t : Template} (ht : t.Spans P) : ∀ n ∈ t.nodes, NodeSpans P n := by
  intro n hn
  cases n with
  | item i =>
    intro e he n sub hsub
    exact ht.expr ⟨0, n, i, e, .top hn, he, hsub, rfl⟩
  | region body span =>
    refine ⟨?_, ht.region hn⟩
    intro i hi e he n sub hsub
    exact ht.expr ⟨1, n, i, e, .inside hn hi, he, hsub, rfl⟩

/-- Rendering reports at the spans of a template and nowhere else. -/
theorem within_render {t : Template} (ht : t.Spans P) (hs : ReportSpans P s) :
    Within P (fun _ => True) (t.render d policy s) := by
  have hnodes := within_nodes d policy Rendered.spans_empty (nodeSpans_of_spans ht) hs
  unfold Template.render
  generalize nodes d policy {} t.nodes s = result at hnodes ⊢
  cases hnodes with
  | fail hspan hs' => exact .fail hspan hs'
  | @ok out s' hout hs' =>
    have hresolve := within_resolve d policy hout hs'
    simp only
    generalize resolve d policy out s' = result at hresolve ⊢
    cases hresolve with
    | fail hspan hs'' => exact .fail hspan hs''
    | ok _ hs'' => exact .ok trivial hs''

end Render

/-! ## Compilation -/

/-- The stage at which a compilation fails, and its error. -/
theorem error_of_compile {d : Dialect} {preferences : CompilerPreferences} {name : String}
    {error : CompileError} {notices : Array Notice}
    (h : compile d preferences name source = (.error error, notices)) :
    (∃ failure, Lexer.tokenize source = .error failure ∧ error = .lexical failure.error) ∨
    ∃ lexed, Lexer.tokenize source = .ok lexed ∧
      ((∃ e, Region.instrument {} lexed.tokens.toList = .error e ∧ error = .region e) ∨
      ∃ i, Region.instrument {} lexed.tokens.toList = .ok i ∧
        ((∃ e, Template.parse i.tokens.toList = .error e ∧ error = .parse e) ∨
        ∃ t e s, Template.parse i.tokens.toList = .ok t ∧
          t.render d preferences.policy {} = (.error e, s) ∧ error = .render e)) := by
  unfold compile Compile.tokenize at h
  simp only at h
  cases hlexed : Lexer.tokenize source with
  | error failure =>
    rw [hlexed] at h
    cases h
    exact .inl ⟨failure, rfl, rfl⟩
  | ok lexed =>
    refine .inr ⟨lexed, rfl, ?_⟩
    rw [hlexed] at h
    simp only [Compile.instrument] at h
    cases hinstrumented : Region.instrument {} lexed.tokens.toList with
    | error e =>
      rw [hinstrumented] at h
      cases h
      exact .inl ⟨e, rfl, rfl⟩
    | ok i =>
      refine .inr ⟨i, rfl, ?_⟩
      rw [hinstrumented] at h
      simp only [Compile.parse] at h
      cases hparsed : Template.parse i.tokens.toList with
      | error e =>
        rw [hparsed] at h
        cases h
        exact .inl ⟨e, rfl, rfl⟩
      | ok t =>
        rw [hparsed] at h
        simp only [Compile.render] at h
        cases hrendered : t.render d preferences.policy {} with
        | mk result s =>
          rw [hrendered] at h
          cases result with
          | ok text => cases h
          | error e =>
            cases h
            exact .inr ⟨t, e, s, rfl, hrendered, rfl⟩

theorem spans_of_parse {tokens : List (Located Token)} {t : Template}
    (htokens : ∀ t ∈ tokens, t.span.InText source) (h : Template.parse tokens = .ok t) :
    t.Spans (Span.InText source) := by
  have hderived := (Grammar.parse_eq_ok_iff.mp h).1
  refine (Grammar.traced_of_nodesTokens hderived).spans (spanClosed_inText source) ?_
  intro t ht
  exact htokens t ((List.takeWhile_sublist _).subset ht)

theorem reportSpans_start (P : Span → Prop) : Render.ReportSpans P {} := by
  intro r hr
  exact absurd hr (Array.not_mem_empty r)

/-- Whatever a compilation has to say about a template, it says of a place in the
source: each error has a span, and so have the region that another is nested in and
each region that is reported on. -/
theorem compile_spans_inText (d : Dialect) (preferences : CompilerPreferences)
    (name source : String) :
    (∀ error notices, compile d preferences name source = (.error error, notices) →
      (∃ span, error.span? = some span ∧ span.InText source) ∧
      ∀ span opened, error = .region (.nested span opened) → opened.InText source) ∧
    ∀ compiled notices, compile d preferences name source = (.ok compiled, notices) →
      ∀ r ∈ compiled.reports, r.span.InText source := by
  constructor
  · intro error notices h
    rcases error_of_compile h with ⟨failure, hlexed, rfl⟩ | ⟨lexed, hlexed, h⟩
    · exact ⟨⟨_, rfl, Lexer.span_of_tokenize_error hlexed⟩, by simp⟩
    obtain ⟨hok, herror⟩ := Region.inText_instrument {} hlexed
    rcases h with ⟨e, he, rfl⟩ | ⟨i, hi, h⟩
    · have hinText := herror e he
      refine ⟨⟨_, rfl, hinText.span⟩, ?_⟩
      intro span opened heq
      cases heq
      exact hinText.2
    have htokens := hok i hi
    rcases h with ⟨e, he, rfl⟩ | ⟨t, e, s, ht, hrender, rfl⟩
    · have hspan := Grammar.span_of_parse_error (spanClosed_inText source) htokens he
      exact ⟨⟨_, rfl, hspan⟩, by simp⟩
    · have hwithin := Render.within_render d preferences.policy (spans_of_parse htokens ht)
        (reportSpans_start _)
      rw [hrender] at hwithin
      cases hwithin with
      | fail hspan _ => exact ⟨⟨_, rfl, hspan⟩, by simp⟩
  · intro compiled notices h r hr
    obtain ⟨lexed, i, t, output, s, hlexed, hi, ht, hrender, hreports, rfl⟩ :=
      exists_of_compile h
    have htokens := (Region.inText_instrument {} hlexed).1 i hi
    have hwithin := Render.within_render d preferences.policy (spans_of_parse htokens ht)
      (reportSpans_start _)
    rw [hrender] at hwithin
    simp only [Compile.result] at hr
    split at hr
    · rw [hreports] at hr
      cases hwithin with
      | ok _ hs => exact hs r hr
    · exact absurd hr (Array.not_mem_empty r)

/-- A call on the second line, behind a character of two bytes. -/
theorem compile_spans_inText_second_line :
    ∃ error notices, compile MySql.dialect {} "p" "é\n\x7b\x7b f(1) \x7d\x7d"
        = (.error error, notices) ∧
      error.span? = some ⟨⟨6, 2, 4⟩, ⟨10, 2, 8⟩⟩ ∧
      Span.InText "é\n\x7b\x7b f(1) \x7d\x7d" ⟨⟨6, 2, 4⟩, ⟨10, 2, 8⟩⟩ := by
  have hresult : (match (compile MySql.dialect {} "p" "é\n\x7b\x7b f(1) \x7d\x7d").1 with
      | .error error => error.span?
      | .ok _ => none) = some ⟨⟨6, 2, 4⟩, ⟨10, 2, 8⟩⟩ := by decide +kernel
  cases hcompile : compile MySql.dialect {} "p" "é\n\x7b\x7b f(1) \x7d\x7d" with
  | mk result notices =>
    rw [hcompile] at hresult
    cases result with
    | ok compiled => cases hresult
    | error error =>
      obtain ⟨⟨span, hspan, hinText⟩, -⟩ :=
        (compile_spans_inText MySql.dialect {} "p" _).1 error notices hcompile
      simp only at hresult
      rw [hresult] at hspan
      cases hspan
      exact ⟨error, notices, rfl, hresult, hinText⟩

end QueryMachine
