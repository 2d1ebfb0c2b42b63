import QueryMachine.Log.Buffer
import QueryMachine.Proofs.Compile.Policies
import QueryMachine.Proofs.Compile.Stages
import QueryMachine.Proofs.Render.Notices
import QueryMachine.Proofs.Render.Trace

/-!
# The log tells how a compilation ends

Failures are noted by every stage and sometimes twice, warnings by every resolving in
between, and nobody looks at what the others have noted. Yet whoever reads the log can
tell the outcome from it: no failure is logged if there is none, every failure that is
logged is the one that the compilation ends with, and the warnings of fallbacks are the
reports once more, with those behind them that belong to no region.

Of a notice only two things matter here, the failure it tells of (`Notice.fault?`) and
the fallback (`Notice.fallback?`), and what the log makes of them is said at the end. A
rendering never notes a failure, whether it fails or not. As to fallbacks, evaluation
leaves nothing but the notices of its calls (`LeavesCalls`), so they come from resolving
alone; and between two nodes of a template the labels that were warned of are those of
the reports so far (`Session.Told`).
-/

namespace QueryMachine

/-- The failure that a notice tells of: its code and its place. -/
def Notice.fault? : Notice → Option (Code × Option Span)
  | loadFailed code _ _ | dialectMissing code _ _ => some (code, none)
  | lexFailed error _ => some (error.code, some error.span)
  | failed code _ span => some (code, some span)
  | _ => none

/-- The failures that were noted, in order. -/
def faultsOf (notices : Array Notice) : List (Code × Option Span) :=
  notices.toList.filterMap Notice.fault?

@[simp] theorem faultsOf_append (as bs : Array Notice) :
    faultsOf (as ++ bs) = faultsOf as ++ faultsOf bs := by
  simp [faultsOf]

@[simp] theorem faultsOf_push (notices : Array Notice) (n : Notice) :
    faultsOf (notices.push n) = faultsOf notices ++ n.fault?.toList := by
  cases h : n.fault? <;> simp [faultsOf, h]

/-- The labels that were warned of, in order. -/
def warnedLabels (notices : Array Notice) : List String :=
  (fallbacksOf notices).map Prod.fst

@[simp] theorem warnedLabels_append (as bs : Array Notice) :
    warnedLabels (as ++ bs) = warnedLabels as ++ warnedLabels bs := by
  simp [warnedLabels]

/-- The labels that the reports of regions call undefined, in order. -/
def reportedLabels (reports : Array RegionReport) : List String :=
  reports.toList.flatMap fun r => r.fallbacks.toList

theorem reportedLabels_push (reports : Array RegionReport) (r : RegionReport) :
    reportedLabels (reports.push r) = reportedLabels reports ++ r.fallbacks.toList := by
  simp [reportedLabels]

/-! ## Resolving -/

namespace Resolution

variable {d : Dialect} {policy : LabelPolicy} {m : Machine}

theorem faults_resolveFrom (r : Resolution) (notices : Array Notice) (segments : List Segment) :
    faultsOf (resolveFrom d policy m r notices segments).2 = faultsOf notices := by
  induction segments generalizing r notices with
  | nil => rfl
  | cons segment rest ih =>
    cases segment with
    | text s => exact ih _ notices
    | thunk t span =>
      have hwarned : faultsOf (notices ++
          ((missingLabel? m t).map fun name => Notice.labelFallback name span).toArray)
            = faultsOf notices := by
        cases missingLabel? m t <;> simp [faultsOf, Notice.fault?]
      rw [resolveFrom.eq_def]
      simp only
      split
      · rfl
      · split
        · exact hwarned
        · exact (ih _ _).trans hwarned

/-- Resolving warns of the labels that the result calls undefined, and these are the ones
that the machine lacks. -/
theorem labels_of_resolveFrom {r r' : Resolution} {notices notices' : Array Notice}
    {segments : List Segment}
    (h : resolveFrom d policy m r notices segments = (.ok r', notices')) :
    warnedLabels notices' = warnedLabels notices ++
        (segments.filterMap Segment.thunk?).filterMap (missingLabel? m) ∧
      r'.fallbacks.toList = r.fallbacks.toList ++
        (segments.filterMap Segment.thunk?).filterMap (missingLabel? m) := by
  induction segments generalizing r notices with
  | nil =>
    cases h
    simp
  | cons segment rest ih =>
    cases segment with
    | text s =>
      rw [resolveFrom] at h
      obtain ⟨hwarned, hfallbacks⟩ := ih h
      exact ⟨hwarned, hfallbacks⟩
    | thunk t span =>
      rw [resolveFrom.eq_def] at h
      simp only at h
      split at h
      · cases h
      · split at h
        · cases h
        · obtain ⟨hwarned, hfallbacks⟩ := ih h
          have hsegments : (Segment.thunk t span :: rest).filterMap Segment.thunk?
              = t :: rest.filterMap Segment.thunk? := rfl
          rw [hwarned, hfallbacks, hsegments, addCode]
          cases hmissing : missingLabel? m t with
          | none => simp [hmissing]
          | some label => simp [hmissing, warnedLabels, fallbacksOf, Notice.fallback?]

end Resolution

namespace Render

variable {α β : Type} {d : Dialect} {policy : LabelPolicy} {s : Session}

/-! ## Evaluation -/

theorem LeavesCalls.faults {run : Except RenderError α × Session} (h : LeavesCalls s run) :
    faultsOf run.2.notices = faultsOf s.notices := by
  refine h.filterMap_eq fun n hcall => ?_
  cases n <;> first | rfl | cases hcall

theorem LeavesCalls.labels {run : Except RenderError α × Session} (h : LeavesCalls s run) :
    warnedLabels run.2.notices = warnedLabels s.notices := by
  refine congrArg (List.map Prod.fst) (h.filterMap_eq fun n hcall => ?_)
  cases n <;> first | rfl | cases hcall

end Render

/-! ## Nodes -/

/-- What holds between two nodes of a rendering: no failure was noted, and the labels that
were warned of are those that the reports call undefined. -/
structure Session.Told (s : Session) : Prop where
  faults : faultsOf s.notices = []
  labels : warnedLabels s.notices = reportedLabels s.reports

namespace Render

variable {α β : Type} {d : Dialect} {policy : LabelPolicy} {s : Session}

/-- A run that notes no failure even if it fails, and leaves a session like the one it
began with if it does not. -/
structure Tells (run : Except RenderError α × Session) : Prop where
  faults : faultsOf run.2.notices = []
  told : ∀ a, run.1 = .ok a → run.2.Told

theorem Tells.andThen {run : Except RenderError α × Session} {next : α → Rendering β}
    (h : Tells run) (hnext : ∀ a s', s'.Told → Tells (next a s')) : Tells (andThen run next) := by
  obtain ⟨result, s'⟩ := run
  cases result with
  | error error => exact ⟨h.faults, by rintro _ ⟨⟩⟩
  | ok a => exact hnext a s' (h.told a rfl)

theorem LeavesCalls.tells {run : Except RenderError α × Session} (h : LeavesCalls s run)
    (hs : s.Told) : Tells run := by
  have hfaults : faultsOf run.2.notices = [] := h.faults.trans hs.faults
  refine ⟨hfaults, fun a _ => ⟨hfaults, ?_⟩⟩
  rw [h.labels, h.reports, hs.labels]

theorem faults_resolve (out : Rendered) (s : Session) :
    faultsOf (resolve d policy out s).2.notices = faultsOf s.notices := by
  have hnew : faultsOf (Resolution.ofRendered d policy s.machine out).2 = [] :=
    Resolution.faults_resolveFrom _ _ _
  simp only [resolve, faultsOf_append, hnew, List.append_nil]

/-- What resolving adds to a session. -/
theorem labels_of_resolve {out : Rendered} {r : Resolution} {s' : Session}
    (h : resolve d policy out s = (.ok r, s')) :
    s'.reports = s.reports ∧ s'.machine = s.machine ∧
      warnedLabels s'.notices = warnedLabels s.notices ++
        out.thunks.filterMap (Resolution.missingLabel? s.machine) ∧
      r.fallbacks.toList = out.thunks.filterMap (Resolution.missingLabel? s.machine) := by
  unfold resolve at h
  cases hrendered : Resolution.ofRendered d policy s.machine out with
  | mk result notices =>
    rw [hrendered] at h
    cases result with
    | error error => cases h
    | ok r =>
      cases h
      obtain ⟨hwarned, hfallbacks⟩ := Resolution.labels_of_resolveFrom hrendered
      refine ⟨rfl, rfl, ?_, hfallbacks⟩
      rw [warnedLabels_append, hwarned]
      rfl

theorem tells_region (body : List Item) (span : Span) (hs : s.Told) :
    Tells (region d policy body span s) := by
  rw [region_eq]
  have hstart : (s.note (.regionStarted span)).Told := by
    refine ⟨?_, ?_⟩
    · simpa [Session.note, Notice.fault?] using hs.faults
    · simpa [Session.note, warnedLabels, Notice.fallback?] using hs.labels
  refine ((leavesCalls_items {} body _).tells hstart).andThen fun out s' hs' => ?_
  have hfaults : faultsOf (resolve d policy out s').2.notices = [] :=
    (faults_resolve out s').trans hs'.faults
  cases hresolve : resolve d policy out s' with
  | mk result s'' =>
    rw [hresolve] at hfaults
    cases result with
    | error error => exact ⟨hfaults, by rintro _ ⟨⟩⟩
    | ok r =>
      -- The labels are warned of first and reported afterwards.
      obtain ⟨hreports, -, hwarned, hfallbacks⟩ := labels_of_resolve hresolve
      have hfinished : faultsOf (finish s'' (report span s''.machine r)).notices = [] := by
        simpa [finish, Session.note, Notice.fault?] using hfaults
      refine ⟨hfinished, fun _ _ => ⟨hfinished, ?_⟩⟩
      have hlabels : warnedLabels s''.notices
          = reportedLabels s''.reports ++ r.fallbacks.toList := by
        rw [hwarned, hfallbacks, hreports, hs'.labels]
      show warnedLabels (s''.notices.push _) = reportedLabels (s''.reports.push _)
      rw [reportedLabels_push, Array.push_eq_append, warnedLabels_append, hlabels]
      exact List.append_nil _

theorem tells_node (out : Rendered) (n : Node) (hs : s.Told) :
    Tells (node d policy out n s) := by
  cases n with
  | item i => exact (leavesCalls_item out i s).tells hs
  | region body span =>
    rw [node_region]
    refine (tells_region body span hs).andThen fun text s' hs' => ?_
    exact ⟨hs'.faults, fun _ _ => hs'⟩

theorem tells_nodes (out : Rendered) (ns : List Node) (hs : s.Told) :
    Tells (nodes d policy out ns s) := by
  induction ns generalizing out s with
  | nil => exact ⟨hs.faults, fun _ _ => hs⟩
  | cons n ns ih =>
    rw [nodes_cons]
    exact (tells_node out n hs).andThen fun out' s' hs' => ih out' hs'

/-- Nodes are rendered one after the other. Each adds a value to the output: an item its
own, and a region its text, in which no placeholder is left. -/
inductive NodesRun (d : Dialect) (policy : LabelPolicy) :
    Session → List Node → List (Option Value) → Session → Prop where
  | nil (s : Session) : NodesRun d policy s [] [] s
  | item {s s' s'' : Session} {i : Item} {ns : List Node} {value : Option Value}
      {values : List (Option Value)} {calls : List Call} :
      ItemRuns d s i value calls s' → NodesRun d policy s' ns values s'' →
      NodesRun d policy s (.item i :: ns) (value :: values) s''
  | region {s s' s'' : Session} {body : List Item} {span : Span} {ns : List Node} {text : String}
      {values : List (Option Value)} :
      Render.region d policy body span s = (.ok text, s') →
      NodesRun d policy s' ns values s'' →
      NodesRun d policy s (.region body span :: ns) (some (.str text) :: values) s''

theorem nodesRun_of_nodes {out out' : Rendered} {ns : List Node} {s' : Session}
    (h : nodes d policy out ns s = (.ok out', s')) :
    ∃ values, NodesRun d policy s ns values s' ∧ Adds out out' values := by
  induction ns generalizing out s with
  | nil =>
    cases h
    exact ⟨[], .nil _, .refl _⟩
  | cons n ns ih =>
    rw [nodes] at h
    split at h
    · next out₁ s₁ hnode =>
      obtain ⟨values, hruns, hadds⟩ := ih h
      cases n with
      | item i =>
        obtain ⟨value, calls, hi, hadd⟩ := itemRuns_of_item hnode
        exact ⟨value :: values, .item hi hruns, hadd.cons hadds⟩
      | region body span =>
        rw [node] at hnode
        split at hnode
        · next text s₂ hregion =>
          cases hnode
          exact ⟨some (.str text) :: values, .region hregion hruns,
            (adds_emit out (.str text) span).cons hadds⟩
        · cases hnode
    · cases h

/-- The labels that the placeholders among some values go to and a machine lacks. -/
def missingLabels (m : Machine) (values : List (Option Value)) : List String :=
  (values.filterMap addedThunk?).filterMap (Resolution.missingLabel? m)

theorem faults_render (t : Template) : faultsOf (t.render d policy {}).2.notices = [] := by
  have hnodes : Tells (nodes d policy {} t.nodes {}) := tells_nodes {} t.nodes ⟨rfl, rfl⟩
  rw [render_eq]
  cases hrun : nodes d policy {} t.nodes {} with
  | mk result s =>
    rw [hrun] at hnodes
    cases result with
    | error error => exact hnodes.faults
    | ok out =>
      have hfaults : faultsOf (resolve d policy out s).2.notices = [] :=
        (faults_resolve out s).trans hnodes.faults
      rw [andThen_ok]
      generalize resolve d policy out s = run at hfaults ⊢
      obtain ⟨_ | _, _⟩ := run <;> exact hfaults

/-- The labels that a rendering warns of: those of the reports, and then those of the
placeholders that no region has. -/
theorem labels_of_render {t : Template} {text : String} {s : Session}
    (h : t.render d policy {} = (.ok text, s)) :
    ∃ values s', NodesRun d policy {} t.nodes values s' ∧
      warnedLabels s.notices = reportedLabels s.reports ++ missingLabels s'.machine values := by
  have hnodes : Tells (nodes d policy {} t.nodes {}) := tells_nodes {} t.nodes ⟨rfl, rfl⟩
  rw [render_eq] at h
  cases hrun : nodes d policy {} t.nodes {} with
  | mk result s₁ =>
    rw [hrun] at h hnodes
    cases result with
    | error error => cases h
    | ok out =>
      rw [andThen_ok] at h
      cases hresolve : resolve d policy out s₁ with
      | mk result s₂ =>
        rw [hresolve] at h
        cases result with
        | error error => cases h
        | ok r =>
          cases h
          obtain ⟨values, hruns, -, hthunks⟩ := nodesRun_of_nodes hrun
          obtain ⟨hreports, -, hwarned, -⟩ := labels_of_resolve hresolve
          refine ⟨values, s₁, hruns, ?_⟩
          rw [hwarned, hreports, (hnodes.told _ rfl).labels, hthunks]
          rfl

end Render

/-! ## Compilation -/

/-- The failures that are noted are none if there is an answer, else all of them are the
error. -/
def Blames (outcome : Except CompileError Compiled) (faults : List (Code × Option Span)) : Prop :=
  match outcome with
  | .ok _ => faults = []
  | .error e => faults ≠ [] ∧ ∀ f ∈ faults, f = (e.code, e.span?)

theorem blames_compile (d : Dialect) (preferences : CompilerPreferences) (name source : String) :
    Blames (compile d preferences name source).1
      (faultsOf (compile d preferences name source).2) := by
  unfold compile Compile.tokenize
  cases Lexer.tokenize source with
  | error failure =>
    -- The lexer notes its failure itself, and then once more the compilation.
    simp [Blames, faultsOf, Notice.fault?, CompileError.code, CompileError.span?]
  | ok lexed =>
    simp only [Compile.instrument]
    cases Region.instrument {} lexed.tokens.toList with
    | error error =>
      simp [Blames, faultsOf, Notice.fault?, CompileError.code, CompileError.span?]
    | ok instrumented =>
      simp only [Compile.parse]
      cases Template.parse instrumented.tokens.toList with
      | error error =>
        simp [Blames, faultsOf, Notice.fault?, CompileError.code, CompileError.span?]
      | ok template =>
        have hrender : faultsOf (template.render d preferences.policy {}).2.notices = [] :=
          Render.faults_render template
        simp only [Compile.render]
        generalize template.render d preferences.policy {} = run at hrender ⊢
        obtain ⟨error | text, s⟩ := run
        all_goals have hnone : faultsOf s.notices = [] := hrender
        · simp only [Blames]
          rw [faultsOf_append, faultsOf_push s.notices, hnone]
          simp [faultsOf, Notice.fault?, CompileError.code, CompileError.span?]
        · simp only [Blames]
          rw [faultsOf_push, faultsOf_append _ s.notices, hnone]
          simp [faultsOf, Notice.fault?, Compile.finished]

/-- The labels that a compilation warns of. -/
theorem labels_of_compile {d : Dialect} {preferences : CompilerPreferences} {name source : String}
    {compiled : Compiled} {notices : Array Notice} (hreports : preferences.collectReports = true)
    (h : compile d preferences name source = (.ok compiled, notices)) :
    ∃ lexed summary template values s,
      Compile.front source = .ok (lexed, summary, template) ∧
      Render.NodesRun d preferences.policy {} template.nodes values s ∧
      warnedLabels notices
        = reportedLabels compiled.reports ++ Render.missingLabels s.machine values := by
  have hanswer := Compile.compile_fst d preferences name source
  have hwarned := Compile.fallbacks_compile d preferences name source
  rw [h] at hanswer hwarned
  cases hfront : Compile.front source with
  | error error =>
    rw [hfront] at hanswer
    cases hanswer
  | ok stages =>
    obtain ⟨lexed, summary, template⟩ := stages
    rw [hfront] at hanswer hwarned
    simp only [Except.bind, Compile.back, Compile.render] at hanswer hwarned
    cases hrender : template.render d preferences.policy {} with
    | mk result s =>
      rw [hrender] at hanswer hwarned
      cases result with
      | error error => cases hanswer
      | ok text =>
        cases hanswer
        obtain ⟨values, s', hruns, hlabels⟩ := Render.labels_of_render hrender
        refine ⟨lexed, summary, template, values, s', rfl, hruns, ?_⟩
        rw [warnedLabels, hwarned, Compile.result, if_pos hreports]
        exact hlabels

/-! ## Logs -/

namespace Event

/-- The failure that an event tells of. -/
def fault? (e : Event) : Option (Code × Option Span) :=
  if e.level = .error then some (e.code, e.span) else none

/-- Whether an event is the warning W140. -/
def isFallback (e : Event) : Bool :=
  e.level == .warning && e.code == .labelFallback

/-- The label that an event warns of, as it stands in the context. -/
def fallbackLabel? (e : Event) : Option (Option String) :=
  if e.isFallback then some e.context["label"]? else none

end Event

/-- An event tells of the failure that its notice tells of. -/
theorem fault?_event (n : Notice) (template : Option String) (showTemplate : Bool)
    (clock : Clock) : ((⟨n, template⟩ : Record).event showTemplate clock).fault? = n.fault? := by
  cases showTemplate <;> cases template <;> cases n <;> rfl

theorem fallbackLabel?_event (n : Notice) (template : Option String) (showTemplate : Bool)
    (clock : Clock) :
    ((⟨n, template⟩ : Record).event showTemplate clock).fallbackLabel?
      = n.fallback?.map fun fallback => some fallback.1 := by
  cases n with
  | labelFallback label span =>
    have hlabel : (((∅ : Std.TreeMap String String).insert "label" label))["label"]?
        = some label := Std.TreeMap.getElem?_insert_self
    cases showTemplate with
    | false => exact congrArg some hlabel
    | true =>
      cases template with
      | none => exact congrArg some hlabel
      | some name =>
        -- The name of the template has a key of its own.
        refine congrArg some ((Std.TreeMap.getElem?_insert).trans ?_)
        rw [if_neg (by decide)]
        exact hlabel
  | _ => cases showTemplate <;> cases template <;> rfl

/-- The events that are logged while a template is compiled, by a log set to `minimum`. -/
def loggedEvents (minimum : Level) (showTemplate : Bool) (clock : Clock) (name : String)
    (notices : Array Notice) : List Event :=
  (recordsOf name notices).toList.filterMap fun r => Log.filter minimum (r.event showTemplate clock)

/-- A log that keeps warnings keeps all that an event tells of failures and fallbacks. -/
theorem Log.filter_tells {minimum : Level} (h : Level.warning.passes minimum = true) (e : Event) :
    (filter minimum e).bind Event.fault? = e.fault? ∧
      (filter minimum e).bind Event.fallbackLabel? = e.fallbackLabel? := by
  unfold filter
  split
  · exact ⟨rfl, rfl⟩
  · next hpasses =>
    have hlevel : e.level ≠ .error ∧ e.level ≠ .warning := by
      have hrank : 1 ≤ minimum.rank := of_decide_eq_true h
      have habove : ¬ e.level.rank ≤ minimum.rank := fun hle => hpasses (decide_eq_true hle)
      constructor <;> (intro heq; rw [heq, Level.rank] at habove; omega)
    constructor
    · simp [Event.fault?, hlevel.1]
    · simp [Event.fallbackLabel?, Event.isFallback, hlevel.2]

section Logged

variable {minimum : Level} (showTemplate : Bool) (clock : Clock) (name : String)
  (notices : Array Notice)

theorem faults_loggedEvents (h : Level.warning.passes minimum = true) :
    (loggedEvents minimum showTemplate clock name notices).filterMap Event.fault?
      = faultsOf notices := by
  rw [loggedEvents, recordsOf, Array.toList_map, List.filterMap_filterMap, List.filterMap_map,
    faultsOf]
  refine List.filterMap_congr fun n _ => ?_
  exact (Log.filter_tells h _).1.trans (fault?_event n (some name) showTemplate clock)

theorem labels_loggedEvents (h : Level.warning.passes minimum = true) :
    ((loggedEvents minimum showTemplate clock name notices).filter Event.isFallback).map
        (fun e => e.context["label"]?)
      = (warnedLabels notices).map some := by
  have hfilter : ∀ events : List Event,
      (events.filter Event.isFallback).map (fun e => e.context["label"]?)
        = events.filterMap Event.fallbackLabel? := by
    intro events
    rw [← List.filterMap_eq_map, List.filterMap_filter]
    rfl
  rw [hfilter, loggedEvents, recordsOf, Array.toList_map, List.filterMap_filterMap,
    List.filterMap_map, warnedLabels, fallbacksOf, List.map_map, List.map_filterMap]
  refine List.filterMap_congr fun n _ => ?_
  exact (Log.filter_tells h _).2.trans (fallbackLabel?_event n (some name) showTemplate clock)

end Logged

/-- A log that keeps warnings tells how a compilation ended. If it succeeded then no failure
is logged, and the labels of the warnings W140 are those that the reports call undefined,
region by region, followed by those of the jumps outside of regions that go to no label of
the machine at the end. If it failed then a failure is logged, and every failure that is
logged has the code and the place of the error. -/
theorem log_tells_outcome (d : Dialect) {preferences : CompilerPreferences}
    (hreports : preferences.collectReports = true) {minimum : Level}
    (hminimum : Level.warning.passes minimum = true) (showTemplate : Bool) (clock : Clock)
    (name source : String) :
    match compile d preferences name source with
    | (.ok compiled, notices) =>
      let events := loggedEvents minimum showTemplate clock name notices
      (∀ e ∈ events, e.level ≠ .error) ∧
      ∃ lexed summary template values s,
        Compile.front source = .ok (lexed, summary, template) ∧
        Render.NodesRun d preferences.policy {} template.nodes values s ∧
        (events.filter Event.isFallback).map (fun e => e.context["label"]?)
          = (reportedLabels compiled.reports ++ Render.missingLabels s.machine values).map some
    | (.error error, notices) =>
      let events := loggedEvents minimum showTemplate clock name notices
      (∃ e ∈ events, e.level = .error) ∧
      ∀ e ∈ events, e.level = .error → e.code = error.code ∧ e.span = error.span? := by
  have hfaults := faults_loggedEvents showTemplate clock name
    (compile d preferences name source).2 hminimum
  have hlabels := labels_loggedEvents showTemplate clock name
    (compile d preferences name source).2 hminimum
  have hblames := blames_compile d preferences name source
  rw [← hfaults] at hblames
  cases hcompile : compile d preferences name source with
  | mk outcome notices =>
    rw [hcompile] at hlabels hblames
    cases outcome with
    | ok compiled =>
      refine ⟨?_, ?_⟩
      · intro e he herror
        have hfault := List.filterMap_eq_nil_iff.mp hblames e he
        rw [Event.fault?, if_pos herror] at hfault
        cases hfault
      · obtain ⟨lexed, summary, template, values, s, hfront, hruns, hwarned⟩ :=
          labels_of_compile hreports hcompile
        exact ⟨lexed, summary, template, values, s, hfront, hruns, by rw [← hwarned]; exact hlabels⟩
    | error error =>
      obtain ⟨hsome, hall⟩ := hblames
      refine ⟨?_, ?_⟩
      · obtain ⟨f, hf⟩ := List.exists_mem_of_ne_nil _ hsome
        obtain ⟨e, he, hfault⟩ := List.mem_filterMap.mp hf
        refine ⟨e, he, ?_⟩
        by_contra hlevel
        rw [Event.fault?, if_neg hlevel] at hfault
        cases hfault
      · intro e he herror
        have hfault : e.fault? = some (e.code, e.span) := if_pos herror
        have hsame := hall _ (List.mem_filterMap.mpr ⟨e, he, hfault⟩)
        exact ⟨congrArg Prod.fst hsame, congrArg Prod.snd hsame⟩

/-- A template with an undefined jump outside of its region and one inside. -/
def strayJumps : String :=
  "\x7b\x7b jump('a') \x7d\x7d\x7b% sqlvm %\x7d\x7b\x7b jump('b') \x7d\x7d\x7b% endsqlvm %\x7d"

/-- The jump before the region is warned of behind the one in it. -/
theorem log_tells_outcome_jumps :
    ∃ compiled notices lexed summary template values s,
      compile MySql.dialect {} "t" strayJumps = (.ok compiled, notices) ∧
      Compile.front strayJumps = .ok (lexed, summary, template) ∧
      Render.NodesRun MySql.dialect .lenient {} template.nodes values s ∧
      reportedLabels compiled.reports = ["b"] ∧ Render.missingLabels s.machine values = ["a"] ∧
      ((loggedEvents .warning true ⟨0, "0.00", "0.000", "0.00"⟩ "t" notices).filter
          Event.isFallback).map (fun e => e.context["label"]?) = [some "b", some "a"] := by
  have hwarned : warnedLabels (compile MySql.dialect {} "t" strayJumps).2 = ["b", "a"] := by
    decide +kernel
  have hreported : (compile MySql.dialect {} "t" strayJumps).1.toOption.map
      (fun c => reportedLabels c.reports) = some ["b"] := by
    decide +kernel
  have htells := @log_tells_outcome MySql.dialect {} rfl .warning rfl true
    ⟨0, "0.00", "0.000", "0.00"⟩ "t" strayJumps
  cases hcompile : compile MySql.dialect {} "t" strayJumps with
  | mk outcome notices =>
    rw [hcompile] at hwarned hreported htells
    cases outcome with
    | error error => cases hreported
    | ok compiled =>
      obtain ⟨-, lexed, summary, template, values, s, hfront, hruns, hlabels⟩ := htells
      have hreported : reportedLabels compiled.reports = ["b"] := Option.some.inj hreported
      have hlogged := @labels_loggedEvents .warning true ⟨0, "0.00", "0.000", "0.00"⟩ "t" notices
        rfl
      rw [show warnedLabels notices = ["b", "a"] from hwarned] at hlogged
      rw [hlogged, hreported, List.map_inj_right (fun _ _ => Option.some.inj)] at hlabels
      exact ⟨compiled, notices, lexed, summary, template, values, s, rfl, hfront, hruns, hreported,
        (List.cons.inj hlabels).2.symm, hlogged⟩

end QueryMachine
