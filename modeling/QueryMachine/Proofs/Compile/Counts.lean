import QueryMachine.Proofs.Region.Counts
import QueryMachine.Proofs.Render.Program
import QueryMachine.Proofs.Token.Metrics

/-!
# The counts of a compilation agree

Four stages count the same things on their own. The lexer counts tokens, the walk
counts regions and statements while it puts calls in, the tree has its regions, and
each region reports how far its machine has counted. Nothing passes a count from one
stage to the next, so that the numbers of a compiled template fit together is a fact
about all of them.

Regions are compared through the opening tags: the walk hands them on, the tree takes
its spans from them, and a region is reported under its span. Instructions are
compared through calls: the machine counts calls of the statement, a region makes
exactly the calls that are written in it, and what is written in it is what the walk
has put in.
-/

namespace QueryMachine

/-! ## Tokens -/

theorem Lexed.totalTokens_metrics (lexed : Lexed) :
    lexed.metrics.totalTokens = lexed.tokens.size := by
  have htotal := lexed.tells_metrics.total
  rw [List.length_map, Array.length_toList] at htotal
  exact htotal

/-! ## Placeholders -/

namespace Resolution

variable {d : Dialect} {policy : LabelPolicy} {m : Machine}

theorem thunksResolved_of_resolveFrom {r r' : Resolution} {notices notices' : Array Notice}
    {segments : List Segment}
    (h : resolveFrom d policy m r notices segments = (.ok r', notices')) :
    r'.thunksResolved = r.thunksResolved + (segments.filterMap Segment.thunk?).length := by
  induction segments generalizing r notices with
  | nil =>
    cases h
    rfl
  | cons segment rest ih =>
    cases segment with
    | text s =>
      rw [resolveFrom] at h
      have hrest := ih h
      exact hrest
    | thunk t span =>
      rw [resolveFrom.eq_def] at h
      simp only at h
      split at h
      · cases h
      · split at h
        · cases h
        · rw [ih h, addCode, List.filterMap_cons]
          simp only [Segment.thunk?, List.length_cons]
          omega

theorem thunksResolved_of_ofRendered {rendered : Rendered} {r : Resolution}
    {notices : Array Notice} (h : ofRendered d policy m rendered = (.ok r, notices)) :
    r.thunksResolved = rendered.thunks.length :=
  (thunksResolved_of_resolveFrom h).trans (Nat.zero_add _)

end Resolution

namespace Render

variable {d : Dialect}

/-- An output tag whose value is a placeholder. -/
def isDeferredOutput : Item × Option Value → Bool
  | (.output .., some (.deferred _)) => true
  | _ => false

/-- Only output tags add placeholders. -/
theorem length_thunks_of_runs {s s' : Session} {is : List Item} {values : List (Option Value)}
    {calls : List Call} (h : Runs d s is values calls s') :
    (values.filterMap addedThunk?).length = (is.zip values).countP isDeferredOutput := by
  induction h with
  | nil => rfl
  | @cons _ _ _ i is value values _ _ hi _ ih =>
    rw [List.zip_cons_cons, List.countP_cons, ← ih, List.filterMap_cons]
    cases hi with
    | data => rfl
    | set => rfl
    | @output span _ _ e value _ hvalue => cases value <;> rfl

/-! ## Calls -/

mutual

theorem names_of_evaluates {e : Expr} {s s' : Session} {value : Value} {calls : List Call}
    (h : Evaluates d s e value calls s') : calls.map Call.name = e.callNames := by
  match h with
  | .str .. | .int .. | .var .. => rfl
  | .call name span hargs hcall =>
    rw [List.map_append, names_of_evaluatesAll hargs, Expr.callNames]
    rfl

theorem names_of_evaluatesAll {es : List Expr} {s s' : Session} {values : List Value}
    {calls : List Call} (h : EvaluatesAll d s es values calls s') :
    calls.map Call.name = Expr.callNamesAll es := by
  match h with
  | .nil _ => rfl
  | .cons hvalue _ hall =>
    rw [List.map_append, names_of_evaluates hvalue, names_of_evaluatesAll hall,
      Expr.callNamesAll]

end

/-- Items that are rendered make the calls written in them, each once and in order. -/
theorem names_of_runs {is : List Item} {s s' : Session} {values : List (Option Value)}
    {calls : List Call} (h : Runs d s is values calls s') :
    calls.map Call.name = is.flatMap Item.callNames := by
  induction h with
  | nil => rfl
  | cons hi _ ih =>
    rw [List.map_append, ih, List.flatMap_cons]
    congr 1
    cases hi with
    | data => rfl
    | output _ hvalue => exact names_of_evaluates hvalue
    | set _ _ hvalue => exact names_of_evaluates hvalue

end Render

namespace MySql

open Render

variable {policy : LabelPolicy}

/-! ## Regions -/

theorem run_of_region {body : List Item} {span : Span} {s s' : Session} {text : String}
    (h : region dialect policy body span s = (.ok text, s')) :
    ∃ r values calls end',
      Runs dialect (s.note (.regionStarted span)) body values calls end' ∧
      s'.reports = s.reports.push r ∧ r.span = span ∧
      r.finalCounter = end'.machine.counter ∧
      r.thunksResolved = (body.zip values).countP isDeferredOutput := by
  unfold region at h
  split at h
  · cases h
  · next out s₁ hitems =>
    obtain ⟨values, calls, hruns, -, hthunks⟩ := runs_of_items hitems
    obtain ⟨-, hreports⟩ := history_of_runs hruns
    split at h
    · cases h
    · next resolution s₂ hresolve =>
      cases h
      obtain ⟨⟨notices, hrendered⟩, hmachine, hreports'⟩ := exists_of_resolve hresolve
      refine ⟨report span s₂.machine resolution, values, calls, s₁, hruns, ?_, rfl,
        congrArg Machine.counter hmachine, ?_⟩
      · show s₂.reports.push _ = _
        rw [hreports', hreports]
        rfl
      · show resolution.thunksResolved = _
        rw [Resolution.thunksResolved_of_ofRendered hrendered, hthunks, Rendered.thunks_empty,
          List.nil_append, length_thunks_of_runs hruns]

/-- A report is that of a region: it has its span, and its counter is the one that a
run of its body has left. -/
def Reported (n : Node) (r : RegionReport) : Prop :=
  ∃ body span s values calls end', n = .region body span ∧
    Runs dialect s body values calls end' ∧ r.span = span ∧
    r.finalCounter = end'.machine.counter

theorem reported_of_nodes {out out' : Rendered} {ns : List Node} {s s' : Session}
    (h : nodes dialect policy out ns s = (.ok out', s')) :
    ∃ new, s'.reports.toList = s.reports.toList ++ new ∧
      List.Forall₂ Reported (ns.filter Node.isRegion) new := by
  induction ns generalizing out s with
  | nil =>
    cases h
    exact ⟨[], by simp, .nil⟩
  | cons n ns ih =>
    rw [nodes] at h
    split at h
    · next out₁ s₁ hnode =>
      obtain ⟨new, hnew, hreported⟩ := ih h
      cases n with
      | item i =>
        obtain ⟨value, calls, hruns, -⟩ := itemRuns_of_item hnode
        obtain ⟨-, hreports⟩ := history_of_itemRuns hruns
        rw [hreports] at hnew
        exact ⟨new, hnew, hreported⟩
      | region body span =>
        rw [node] at hnode
        split at hnode
        · next text s₂ hregion =>
          cases hnode
          obtain ⟨r, values, calls, end', hruns, hreports, hspan, hcounter, -⟩ :=
            run_of_region hregion
          refine ⟨r :: new, ?_, ?_⟩
          · rw [hnew, hreports]
            simp
          · rw [List.filter_cons_of_pos rfl]
            exact .cons ⟨body, span, _, values, calls, end', rfl, hruns, hspan, hcounter⟩
              hreported
        · cases hnode
    · cases h

theorem spans_of_reported {regions : List Node} {reports : List RegionReport}
    (h : List.Forall₂ Reported regions reports) :
    reports.map RegionReport.span = regions.map Node.span := by
  induction h with
  | nil => rfl
  | cons hr _ ih =>
    obtain ⟨body, span, -, -, -, -, rfl, -, hspan, -⟩ := hr
    rw [List.map_cons, List.map_cons, ih, hspan]
    rfl

/-- Where the prologue is called first and not again, a region has as many
instructions as statements are written in it. -/
theorem instructionCount_of_runs {body rest : List Item} {first last : Span} {s end' : Session}
    {values : List (Option Value)} {calls : List Call} {r : RegionReport}
    (hbody : body = .output (.call Operation.prologue.name [] first) last :: rest)
    (hrest : Operation.prologue.name ∉ rest.flatMap Item.callNames)
    (h : Runs dialect s body values calls end') (hr : r.finalCounter = end'.machine.counter) :
    r.instructionCount = Region.statementCalls {} body := by
  have hnames := names_of_runs h
  obtain ⟨more, rfl, hmore, hhistory⟩ := history_of_region hbody hrest h
  have hcount : Region.statementCalls {} body = statementCount more := by
    rw [Region.statementCalls, ← hnames, ← statementCount_prologue, statementCount,
      List.count, List.countP_map]
    rfl
  have hstart : s.machine.restart.counter = -1 := rfl
  rw [RegionReport.instructionCount, hr, counter_of_history hhistory hmore, hstart, hcount]
  omega

theorem sum_instructionCount {regions : List Node} {reports : List RegionReport}
    (h : List.Forall₂ Reported regions reports)
    (hbody : ∀ body span, .region body span ∈ regions → ∃ first last rest,
      body = .output (.call Operation.prologue.name [] first) last :: rest ∧
        Operation.prologue.name ∉ rest.flatMap Item.callNames) :
    (reports.map RegionReport.instructionCount).sum
      = (regions.flatMap Node.callNames).count Operation.statement.name := by
  induction h with
  | nil => rfl
  | cons hr _ ih =>
    obtain ⟨body, span, s, values, calls, end', rfl, hruns, -, hcounter⟩ := hr
    obtain ⟨first, last, rest, heq, hrest⟩ := hbody body span List.mem_cons_self
    rw [List.map_cons, List.sum_cons, List.flatMap_cons, List.count_append,
      instructionCount_of_runs heq hrest hruns hcounter,
      ih fun body span hmem => hbody body span (List.mem_cons_of_mem _ hmem)]
    rfl

/-- The report of a region stands behind those of the regions before it, and the region
is rendered in the session that the nodes before it leave. -/
theorem report_of_region {policy : LabelPolicy} {before after : List Node} {body : List Item}
    {span : Span} {final : Rendered} {s' : Session}
    (h : Render.nodes dialect policy {} (before ++ .region body span :: after) {}
      = (.ok final, s')) :
    ∃ out s values calls end' r,
      Render.nodes dialect policy {} before {} = (.ok out, s) ∧
      Render.Runs dialect (s.note (.regionStarted span)) body values calls end' ∧
      s'.reports[before.countP Node.isRegion]? = some r ∧
      r.thunksResolved = (body.zip values).countP Render.isDeferredOutput := by
  obtain ⟨out, s, out₂, s₂, hbefore, hnode, hafter⟩ := exists_of_nodes h
  rw [Render.node] at hnode
  split at hnode
  · next text s₁ hregion =>
    cases hnode
    obtain ⟨r, values, calls, end', hruns, hpushed, -, -, hthunks⟩ := run_of_region hregion
    obtain ⟨earlier, hearlier, hlength⟩ := reports_of_nodes hbefore
    obtain ⟨later, hlater, -⟩ := reports_of_nodes hafter
    have hsplit : s'.reports.toList = earlier ++ r :: later := by
      rw [hlater, hpushed, Array.toList_push, hearlier]
      simp
    refine ⟨out, s, values, calls, end', r, hbefore, hruns, ?_, hthunks⟩
    rw [← Array.getElem?_toList, hsplit, ← hlength]
    simp
  · cases hnode

end MySql

namespace Region

variable {hooks : Hooks}

theorem filter_isRegion_withoutSpans (ns : List Node) :
    (ns.map Node.withoutSpans).filter Node.isRegion
      = (ns.filter Node.isRegion).map Node.withoutSpans := by
  rw [List.filter_map]
  congr 2
  funext n
  cases n <;> rfl

theorem countP_isRegion_of_withoutSpans_eq {ns ns' : List Node}
    (h : ns.map Node.withoutSpans = ns'.map Node.withoutSpans) :
    ns.countP Node.isRegion = ns'.countP Node.isRegion := by
  have hregions := congrArg (List.filter Node.isRegion) h
  rw [filter_isRegion_withoutSpans, filter_isRegion_withoutSpans] at hregions
  have hlength := congrArg List.length hregions
  rw [List.length_map, List.length_map] at hlength
  rw [List.countP_eq_length_filter, List.countP_eq_length_filter, hlength]

theorem regionStatements_of_withoutSpans_eq {ns ns' : List Node}
    (h : ns.map Node.withoutSpans = ns'.map Node.withoutSpans) :
    regionStatements hooks ns = regionStatements hooks ns' := by
  have hnames : ∀ n : Node, n.withoutSpans.callNames = n.callNames := by
    intro n
    cases n with
    | item i => exact i.callNames_withoutSpans
    | region body span =>
      simp only [Node.withoutSpans, Node.callNames, List.flatMap_map]
      exact List.flatMap_congr fun i _ => i.callNames_withoutSpans
  have hall : ∀ ms : List Node,
      regionStatements hooks (ms.map Node.withoutSpans) = regionStatements hooks ms := by
    intro ms
    rw [regionStatements, filter_isRegion_withoutSpans, List.flatMap_map, regionStatements]
    simp only [hnames]
  rw [← hall ns, h, hall ns']

theorem countP_isRegion_instrumentedTemplate (t : Template) :
    (instrumentedTemplate hooks t).nodes.countP Node.isRegion
      = t.nodes.countP Node.isRegion := by
  rw [instrumentedTemplate, List.countP_map]
  congr 1
  funext n
  cases n <;> rfl

/-- Without calls of the statement in a template its regions hold none. -/
theorem regionStatements_eq_zero {t : Template} (h : hooks.statement ∉ t.callNames) :
    regionStatements hooks t.nodes = 0 := by
  refine List.count_eq_zero.mpr fun hmem => h ?_
  obtain ⟨n, hn, hname⟩ := List.mem_flatMap.mp hmem
  exact List.mem_flatMap.mpr ⟨n, (List.mem_filter.mp hn).1, hname⟩

end Region

/-! ## Compiled templates -/

/-- How the numbers of a compiled template fit together, and with the opening tags
among its tokens. -/
structure Compiled.Counted (lexed : Lexed) (c : Compiled) : Prop where
  reports : c.reports.size = c.summary.regions
  regionCount : c.regionCount = c.summary.regions
  openings : (Region.openings lexed.tokens.toList).length = c.summary.regions
  /-- Each report has the span of its tag, from `{%` to `%}`. -/
  spans : c.reports.toList.map RegionReport.span
    = (Region.openings lexed.tokens.toList).map fun o => ⟨o.1.start, o.2.stop⟩
  tokens : c.tokenCount = c.metrics.totalTokens
  injected : c.summary.injectedTokens = 5 * (2 * c.summary.regions + c.summary.statementSites)

/-- The counts of all stages agree. The placeholders of a region are those of its
output tags, as it is rendered after the nodes before it; and the instructions of all
regions are the statements that were put in, unless the template itself calls what
only the instrumentation should. -/
theorem compiled_counts_agree {preferences : CompilerPreferences} {name source : String}
    {compiled : Compiled} {notices : Array Notice}
    (h : compile MySql.dialect preferences name source = (.ok compiled, notices))
    (hcollect : preferences.collectReports = true) :
    ∃ lexed raw instrumented template,
      Lexer.tokenize source = .ok lexed ∧
      Template.parse lexed.tokens.toList = .ok raw ∧
      Region.instrument {} lexed.tokens.toList = .ok instrumented ∧
      Template.parse instrumented.tokens.toList = .ok template ∧
      compiled.Counted lexed ∧
      (∀ before body span after, template.nodes = before ++ .region body span :: after →
        ∃ out s values calls end' r,
          Render.nodes MySql.dialect preferences.policy {} before {} = (.ok out, s) ∧
          Render.Runs MySql.dialect (s.note (.regionStarted span)) body values calls end' ∧
          compiled.reports[before.countP Node.isRegion]? = some r ∧
          r.thunksResolved = (body.zip values).countP Render.isDeferredOutput) ∧
      (Operation.prologue.name ∉ raw.callNames → Operation.statement.name ∉ raw.callNames →
        (compiled.reports.toList.map RegionReport.instructionCount).sum
          = compiled.summary.statementSites) := by
  obtain ⟨lexed, instrumented, template, output, s₀, hlexed, hinstrumented, hparsed, hrender,
    houtput, rfl⟩ := exists_of_compile h
  obtain ⟨raw, hraw, htree⟩ := Region.exists_rewritten hlexed hinstrumented hparsed
  have hhooks : Region.Hooks.Apart {} := ⟨by decide, by decide⟩
  obtain ⟨n, hsummary, hstatements, hspans⟩ :=
    Region.exists_summary_eq hhooks hlexed hinstrumented hraw hparsed
  obtain ⟨out', s₁, hnodes, hfinal⟩ := exists_of_render hrender
  obtain ⟨reports, hreports, hreported⟩ := MySql.reported_of_nodes hnodes
  have hall : output.reports.toList = reports := by
    rw [houtput, hfinal, hreports]
    rfl
  have hnodesEq := congrArg Template.nodes htree
  have hregions : (template.nodes.filter Node.isRegion).length
      = raw.nodes.countP Node.isRegion := by
    rw [← List.countP_eq_length_filter, Region.countP_isRegion_of_withoutSpans_eq hnodesEq,
      Region.countP_isRegion_instrumentedTemplate]
  have hresult : (Compile.result preferences name lexed instrumented.summary output).reports
      = output.reports := by
    simp only [Compile.result, hcollect, if_true]
  refine ⟨lexed, raw, instrumented, template, hlexed, hraw, hinstrumented, hparsed, ?_, ?_, ?_⟩
  · have hsize : output.reports.size = raw.nodes.countP Node.isRegion := by
      rw [← Array.length_toList, hall, ← hreported.length_eq, hregions]
    have hsum : instrumented.summary.regions = raw.nodes.countP Node.isRegion := by
      rw [hsummary]
      exact Nat.zero_add _
    refine ⟨?_, rfl, ?_, ?_, lexed.totalTokens_metrics.symm, ?_⟩
    · rw [hresult, hsize]
      exact hsum.symm
    · have hlength := congrArg List.length hspans
      rw [List.length_map, List.length_map, hregions] at hlength
      exact hlength.symm.trans hsum.symm
    · rw [hresult, hall, MySql.spans_of_reported hreported, hspans]
    · simp only [Compile.result, hsummary, Region.Summary.plus]
      omega
  · intro before body span after heq
    rw [heq] at hnodes
    obtain ⟨out, s, values, calls, end', r, hbefore, hruns, hreport, hthunks⟩ :=
      MySql.report_of_region hnodes
    refine ⟨out, s, values, calls, end', r, hbefore, hruns, ?_, hthunks⟩
    rw [hresult, houtput, hfinal]
    exact hreport
  · intro hprologue hstatement
    have hsum := MySql.sum_instructionCount hreported fun body span hmem =>
      Region.body_of_rewritten htree hprologue (List.mem_filter.mp hmem).1
    have hzero : Region.regionStatements {} raw.nodes = 0 :=
      Region.regionStatements_eq_zero hstatement
    have hsites : Region.regionStatements {} template.nodes = n := by
      rw [Region.regionStatements_of_withoutSpans_eq hnodesEq, hstatements, hzero, Nat.zero_add]
    rw [hresult, hall, hsum]
    refine hsites.trans ?_
    simp only [Compile.result, hsummary, Region.Summary.plus]
    exact (Nat.zero_add _).symm

/-- Two regions, the first with a placeholder on a line of its own. -/
theorem compiled_counts_agree_two_regions :
    ∃ compiled notices lexed,
      compile MySql.dialect {} "p" "\x7b%sqlvm%\x7d\n\x7b\x7bexit()\x7d\x7d\x7b%endsqlvm%\x7dx\x7b%sqlvm%\x7d\n\x7b%endsqlvm%\x7d"
        = (.ok compiled, notices) ∧
      Lexer.tokenize "\x7b%sqlvm%\x7d\n\x7b\x7bexit()\x7d\x7d\x7b%endsqlvm%\x7dx\x7b%sqlvm%\x7d\n\x7b%endsqlvm%\x7d"
        = .ok lexed ∧
      compiled.Counted lexed ∧ compiled.summary = ⟨2, 2, 30⟩ ∧
      (compiled.reports.toList.map RegionReport.instructionCount).sum = 2 := by
  generalize hsource : "\x7b%sqlvm%\x7d\n\x7b\x7bexit()\x7d\x7d\x7b%endsqlvm%\x7dx\x7b%sqlvm%\x7d\n\x7b%endsqlvm%\x7d" = source
  have hresult : (compile MySql.dialect {} "p" source).1.toOption.map (·.summary)
      = some ⟨2, 2, 30⟩ := by
    subst hsource
    decide +kernel
  have hraw : ((Lexer.tokenize source).toOption.bind fun lexed =>
      (Template.parse lexed.tokens.toList).toOption).map Template.callNames = some ["exit"] := by
    subst hsource
    decide +kernel
  cases hcompile : compile MySql.dialect {} "p" source with
  | mk result notices =>
    rw [hcompile] at hresult
    cases result with
    | error => cases hresult
    | ok compiled =>
      have hsummary : compiled.summary = ⟨2, 2, 30⟩ := by
        simpa [Except.toOption] using hresult
      obtain ⟨lexed, raw, -, -, hlexed, hparsed, -, -, hcounted, -, hsum⟩ :=
        compiled_counts_agree hcompile rfl
      simp only [hlexed, Except.toOption, Option.bind_some, hparsed, Option.map_some,
        Option.some.injEq] at hraw
      refine ⟨compiled, notices, lexed, rfl, hlexed, hcounted, hsummary, ?_⟩
      rw [hsum (by rw [hraw]; decide) (by rw [hraw]; decide), hsummary]

end QueryMachine
