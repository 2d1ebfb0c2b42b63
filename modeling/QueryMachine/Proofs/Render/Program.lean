import QueryMachine.Compile
import QueryMachine.Proofs.Dialect.History
import QueryMachine.Proofs.Region.Tree

/-!
# The program of a compiled region

A compiled region is a program whose instructions are numbered from 0 and whose
jumps name those numbers. Nothing in the compiler writes such a program down:
numbers are handed out by calls while the region is rendered, a jump leaves a
placeholder, and the placeholders are filled in from the machine that is left at
the end, when every label is known. `Numbered` says what comes out of it, and
`compiled_regions_numbered` that it comes out of every compilation.

Three facts meet here. The tree of a region begins with the prologue and calls it
nowhere else, unless the template does so itself; that is the rewriting of trees.
So the calls of a region are the prologue and then calls that never start over,
and their history gives the numbers and the labels. And the text is what the
items add, with the placeholders coded by the final machine.
-/

namespace QueryMachine

/-! ## The calls written in a region -/

namespace Expr

mutual

theorem callNames_withoutSpans (e : Expr) : e.withoutSpans.callNames = e.callNames := by
  match e with
  | .str .. | .int .. | .var .. => rfl
  | .call name args span =>
    rw [withoutSpans, callNames, callNames, callNamesAll_withoutSpansAll args]

theorem callNamesAll_withoutSpansAll (es : List Expr) :
    callNamesAll (withoutSpansAll es) = callNamesAll es := by
  match es with
  | [] => rfl
  | e :: es =>
    rw [withoutSpansAll, callNamesAll, callNamesAll, callNames_withoutSpans e,
      callNamesAll_withoutSpansAll es]

end

end Expr

theorem Item.callNames_withoutSpans (i : Item) : i.withoutSpans.callNames = i.callNames := by
  cases i with
  | data => rfl
  | output e _ => exact e.callNames_withoutSpans
  | set _ e _ => exact e.callNames_withoutSpans

theorem callNames_of_withoutSpans_eq {is js : List Item}
    (h : is.map Item.withoutSpans = js.map Item.withoutSpans) :
    is.flatMap Item.callNames = js.flatMap Item.callNames := by
  have hnames : ∀ ks : List Item,
      (ks.map Item.withoutSpans).flatMap Item.callNames = ks.flatMap Item.callNames := by
    intro ks
    rw [List.flatMap_map]
    simp only [Item.callNames_withoutSpans]
  rw [← hnames is, h, hnames js]

namespace Region

variable {hooks : Hooks}

theorem callNames_lineItems (due : Bool) (pieces : List (List Char)) :
    ∀ f ∈ (lineItems hooks due pieces).1.flatMap Item.callNames, f = hooks.statement := by
  induction pieces generalizing due with
  | nil => simp [lineItems]
  | cons piece pieces ih =>
    cases pieces with
    | nil => simp [lineItems, Item.callNames]
    | cons next more =>
      intro f hf
      rw [lineItems] at hf
      simp only [List.flatMap_append, List.mem_append] at hf
      rcases hf with (hf | hf) | hf
      · split at hf
        · cases hf
        · simp [Item.callNames] at hf
      · split at hf
        · simpa [callItem, Item.callNames, Expr.callNames, Expr.callNamesAll] using hf
        · cases hf
      · exact ih false f hf

/-- The rewriting of a body adds calls of the statement only. -/
theorem callNames_bodyItems (due : Bool) (is : List Item) :
    ∀ f ∈ (bodyItems hooks due is).flatMap Item.callNames,
      f = hooks.statement ∨ f ∈ is.flatMap Item.callNames := by
  induction is generalizing due with
  | nil => simp [bodyItems]
  | cons i is ih =>
    intro f hf
    rw [List.flatMap_cons, List.mem_append]
    cases i with
    | data text span =>
      rw [bodyItems, List.flatMap_append, List.mem_append] at hf
      rcases hf with hf | hf
      · exact .inl (callNames_lineItems _ _ f hf)
      · rcases ih _ f hf with hf | hf
        · exact .inl hf
        · exact .inr (.inr hf)
    | output | set =>
      rw [bodyItems, List.flatMap_cons, List.mem_append] at hf
      rcases hf with hf | hf
      · exact .inr (.inl hf)
      · rcases ih _ f hf with hf | hf
        · exact .inl hf
        · exact .inr (.inr hf)

theorem eq_of_withoutSpans_eq_callItem {i : Item} {name : String}
    (h : i.withoutSpans = (callItem name).withoutSpans) :
    ∃ first last, i = .output (.call name [] first) last := by
  cases i with
  | data => cases h
  | set => cases h
  | output e last =>
    cases e with
    | str => cases h
    | int => cases h
    | var => cases h
    | call f args first =>
      simp only [Item.withoutSpans, Expr.withoutSpans, callItem, Expr.withoutSpansAll,
        Item.output.injEq, Expr.call.injEq, and_true] at h
      obtain ⟨rfl, hargs⟩ := h
      cases args with
      | nil => exact ⟨first, last, rfl⟩
      | cons => cases hargs

/-- The body of a region of a rewritten template: the call of the prologue, and then
the rewritten items and the call of the epilogue. -/
theorem exists_of_rewritten {t t' : Template}
    (h : t'.withoutSpans = (instrumentedTemplate {} t).withoutSpans) {body : List Item}
    {span : Span} (hbody : .region body span ∈ t'.nodes) :
    ∃ raw rawSpan first last rest, .region raw rawSpan ∈ t.nodes ∧
      body = .output (.call Operation.prologue.name [] first) last :: rest ∧
      (bodyItems {} true raw ++ [callItem Operation.epilogue.name]).map Item.withoutSpans
        = rest.map Item.withoutSpans := by
  have hmem : (Node.region body span).withoutSpans ∈ t'.withoutSpans.nodes :=
    List.mem_map_of_mem hbody
  rw [h] at hmem
  obtain ⟨n', hn', heq⟩ := List.mem_map.mp hmem
  obtain ⟨n, hn, rfl⟩ := List.mem_map.mp hn'
  cases n with
  | item => cases heq
  | region raw rawSpan =>
    simp only [instrumentedNode, Node.withoutSpans, Node.region.injEq, and_true,
      List.map_cons] at heq
    cases body with
    | nil => cases heq
    | cons i rest =>
      rw [List.map_cons, List.cons.injEq] at heq
      obtain ⟨first, last, rfl⟩ := eq_of_withoutSpans_eq_callItem heq.1.symm
      exact ⟨raw, rawSpan, first, last, rest, hn, rfl, heq.2⟩

/-- The prologue is called nowhere else in it, unless the template does so. -/
theorem body_of_rewritten {t t' : Template}
    (h : t'.withoutSpans = (instrumentedTemplate {} t).withoutSpans)
    (ht : Operation.prologue.name ∉ t.callNames) {body : List Item} {span : Span}
    (hbody : .region body span ∈ t'.nodes) :
    ∃ first last rest, body = .output (.call Operation.prologue.name [] first) last :: rest ∧
      Operation.prologue.name ∉ rest.flatMap Item.callNames := by
  obtain ⟨raw, rawSpan, first, last, rest, hn, hbody, hrest⟩ := exists_of_rewritten h hbody
  refine ⟨first, last, rest, hbody, ?_⟩
  rw [← callNames_of_withoutSpans_eq hrest, List.flatMap_append, List.mem_append]
  rintro (hname | hname)
  · rcases callNames_bodyItems true raw _ hname with hname | hname
    · exact absurd hname (by decide)
    · exact ht (List.mem_flatMap.mpr ⟨_, hn, hname⟩)
  · simp [callItem, Item.callNames, Expr.callNames, Expr.callNamesAll, Operation.name] at hname

end Region

namespace MySql

open Render

/-! ## The history of a region -/

/-- The calls of a region: the prologue, and calls on the machine that it left. -/
theorem history_of_region {body rest : List Item} {first last : Span} {s s' : Session}
    {values : List (Option Value)} {calls : List Call}
    (hbody : body = .output (.call Operation.prologue.name [] first) last :: rest)
    (hrest : Operation.prologue.name ∉ rest.flatMap Item.callNames)
    (h : Runs dialect s body values calls s') :
    ∃ more, calls = prologueCall :: more ∧ Uninterrupted more ∧
      History s.machine.restart more s'.machine := by
  subst hbody
  cases h with
  | @cons _ s₁ _ _ _ _ _ _ more hi his =>
    cases hi with
    | output _ hvalue =>
      cases hvalue with
      | call _ _ hargs hcall =>
        cases hargs
        obtain ⟨hstep, -⟩ := steps_of_call hcall
        obtain ⟨hhistory, -⟩ := history_of_runs his
        have hmore : Uninterrupted more := by
          intro c hc heq
          exact hrest (heq ▸ name_mem_of_runs his c hc)
        obtain ⟨hcall, hrestart⟩ := restart_of_steps hstep rfl
        rw [hrestart] at hhistory
        exact ⟨more, by rw [hcall]; rfl, hmore, hhistory⟩

/-- The code of a placeholder in a finished program. -/
def placeholderCode (r : RegionReport) : Thunk → String
  | .jumpTo label =>
    "@pc:=" ++
      match r.labels[label]? with
      | some address => toString address
      | none => label
  | .exit => "@pc:=" ++ toString r.finalCounter

/-- What a region that made these calls and added these values comes to. -/
structure Numbered (r : RegionReport) (text : String) (values : List (Option Value))
    (calls : List Call) : Prop where
  /-- The statements are the instructions, in order and without a gap. -/
  statements : (calls.filter (Call.isOf Operation.statement.name)).map Call.answer
    = (List.range r.instructionCount).map
        fun i : Nat => .str ("\n        WHEN " ++ toString (i : Int) ++ " THEN ")
  counter : r.finalCounter = statementCount calls - 1
  /-- A label is bound to the instruction that it stands in. -/
  labels : ∀ (name : String) (address : Int), r.labels[name]? = some address ↔
    ∃ count : Nat, Defines calls name count ∧ address = count - 1
  addresses : ∀ (name : String) (address : Int), r.labels[name]? = some address →
    -1 ≤ address ∧ address ≤ r.finalCounter
  text_eq : text = String.join (values.map (addedText (placeholderCode r)))

theorem statementCount_le_of_defines {calls : List Call} {name : String} {count : Nat}
    (h : Defines calls name count) : count ≤ statementCount calls := by
  obtain ⟨before, c, after, rfl, -, rfl⟩ := h
  rw [statementCount, statementCount, List.countP_append]
  omega

/-- The placeholders are coded by the machine that the report is made of. -/
theorem resolve_eq_placeholderCode {m : Machine} {r : RegionReport}
    (hcounter : r.finalCounter = m.counter) (hlabels : r.labels = m.labels) :
    resolve m = placeholderCode r := by
  funext thunk
  cases thunk with
  | jumpTo label =>
    simp only [resolve, placeholderCode, Machine.address?, hlabels]
    cases m.labels[label]? <;> rfl
  | exit => rw [resolve, placeholderCode, Machine.finalCounter, hcounter, assignCounter]

/-- The numbering of a region, from its history. -/
theorem numbered_of_history {m m' : Machine} {more : List Call} {r : RegionReport}
    {text : String} {values : List (Option Value)} (hmore : Uninterrupted more)
    (h : History m.restart more m') (hcounter : r.finalCounter = m'.counter)
    (hlabels : r.labels = m'.labels)
    (htext : text = String.join (values.map (addedText (resolve m')))) :
    Numbered r text values (prologueCall :: more) := by
  have hstart : m.restart.counter = -1 := rfl
  have hempty : ∀ name : String, m.restart.labels[name]? = none := by
    intro name
    exact Std.TreeMap.getElem?_emptyc
  have hfinal : r.finalCounter = statementCount more - 1 := by
    rw [hcounter, counter_of_history h hmore, hstart]
    omega
  have hbound : ∀ (name : String) (address : Int), r.labels[name]? = some address ↔
      ∃ count : Nat, Defines (prologueCall :: more) name count ∧ address = count - 1 := by
    intro name address
    rw [hlabels, labels_of_history h hmore, hempty, hstart]
    simp only [defines_prologue, reduceCtorEq, false_or]
    refine exists_congr fun count => and_congr_right fun _ => ?_
    omega
  refine ⟨?_, ?_, hbound, ?_, ?_⟩
  · have hinstructions : r.instructionCount = statementCount more := by
      rw [RegionReport.instructionCount, hfinal]
      omega
    rw [List.filter_cons_of_neg (by decide), answers_of_history h hmore, hinstructions, hstart]
    apply List.map_congr_left
    intro i _
    rw [branch]
    congr 4
    omega
  · rw [hfinal, statementCount_prologue]
  · intro name address haddress
    obtain ⟨count, hdefines, rfl⟩ := (hbound name address).mp haddress
    have := statementCount_le_of_defines hdefines
    rw [statementCount_prologue] at this
    omega
  · rw [htext, resolve_eq_placeholderCode hcounter hlabels]

/-! ## Regions of a rendering -/

variable {policy : LabelPolicy}

/-- Resolving looks at the machine and adds notices. -/
theorem exists_of_resolve {d : Dialect} {out : Rendered} {s s' : Session} {r : Resolution}
    (h : Render.resolve d policy out s = (.ok r, s')) :
    (∃ notices, Resolution.ofRendered d policy s.machine out = (.ok r, notices)) ∧
      s'.machine = s.machine ∧ s'.reports = s.reports := by
  unfold Render.resolve at h
  cases hrendered : Resolution.ofRendered d policy s.machine out with
  | mk result notices =>
    rw [hrendered] at h
    cases result with
    | error => cases h
    | ok r =>
      cases h
      exact ⟨⟨notices, rfl⟩, rfl, rfl⟩

/-- A region that is rendered: its items run, its report is that of the machine
they leave, and its text is what they add. -/
theorem exists_of_region {body : List Item} {span : Span} {s s' : Session} {text : String}
    (h : region dialect policy body span s = (.ok text, s')) :
    ∃ r values calls end',
      Runs dialect (s.note (.regionStarted span)) body values calls end' ∧
      s'.reports = s.reports.push r ∧ r.span = span ∧
      r.finalCounter = end'.machine.counter ∧ r.labels = end'.machine.labels ∧
      text = String.join (values.map (addedText (resolve end'.machine))) ∧
      (policy = .strict → ∀ label, some (.deferred (.jumpTo label)) ∈ values →
        (r.labels[label]?).isSome = true) := by
  unfold region at h
  split at h
  · cases h
  · next out s₁ hitems =>
    obtain ⟨values, calls, hruns, htext, hthunks⟩ := runs_of_items hitems
    obtain ⟨-, hreports⟩ := history_of_runs hruns
    split at h
    · cases h
    · next resolution s₂ hresolve =>
      cases h
      obtain ⟨⟨notices, hrendered⟩, hmachine, hreports'⟩ := exists_of_resolve hresolve
      have hcode : ∀ t, dialect.resolve s₁.machine t = .ok (resolve s₁.machine t) :=
        fun _ => rfl
      obtain ⟨hcoded, hdefined⟩ := Resolution.text_of_ofRendered hcode hrendered
      refine ⟨report span s₂.machine resolution, values, calls, s₁, hruns, ?_, rfl, ?_, ?_, ?_, ?_⟩
      · show s₂.reports.push _ = _
        rw [hreports', hreports]
        rfl
      · exact congrArg Machine.counter hmachine
      · exact congrArg Machine.labels hmachine
      · rw [hcoded, htext, Rendered.textWith_empty, String.empty_append]
      · intro hstrict label hlabel
        have hmem : Thunk.jumpTo label ∈ out.thunks := by
          rw [hthunks, Rendered.thunks_empty, List.nil_append]
          exact List.mem_filterMap.mpr ⟨_, hlabel, rfl⟩
        have := hdefined hstrict _ hmem
        rw [Resolution.missingLabel?] at this
        show (s₂.machine.labels[label]?).isSome = true
        rw [hmachine]
        cases haddress : s₁.machine.labels[label]? with
        | some => rfl
        | none => simp [Machine.address?, haddress] at this

/-- Every node leaves the reports of the nodes before it, and a region adds one. -/
theorem reports_of_node {out out' : Rendered} {n : Node} {s s' : Session}
    (h : node dialect policy out n s = (.ok out', s')) :
    ∃ new : List RegionReport, s'.reports.toList = s.reports.toList ++ new ∧
      new.length = if n.isRegion then 1 else 0 := by
  cases n with
  | item i =>
    obtain ⟨value, calls, hruns, -⟩ := itemRuns_of_item h
    obtain ⟨-, hreports⟩ := history_of_itemRuns hruns
    exact ⟨[], by simp [hreports], rfl⟩
  | region body span =>
    rw [node] at h
    split at h
    · next text s₁ hregion =>
      cases h
      obtain ⟨r, _, _, _, -, hreports, -⟩ := exists_of_region hregion
      exact ⟨[r], by simp [hreports], rfl⟩
    · cases h

theorem reports_of_nodes {out out' : Rendered} {ns : List Node} {s s' : Session}
    (h : nodes dialect policy out ns s = (.ok out', s')) :
    ∃ new : List RegionReport, s'.reports.toList = s.reports.toList ++ new ∧
      new.length = ns.countP Node.isRegion := by
  induction ns generalizing out s with
  | nil =>
    cases h
    exact ⟨[], by simp, rfl⟩
  | cons n ns ih =>
    rw [nodes] at h
    split at h
    · next out₁ s₁ hnode =>
      obtain ⟨first, hfirst, hlength⟩ := reports_of_node hnode
      obtain ⟨rest, hrest, hlength'⟩ := ih h
      refine ⟨first ++ rest, ?_, ?_⟩
      · rw [hrest, hfirst, List.append_assoc]
      · rw [List.length_append, hlength, hlength', List.countP_cons]
        omega
    · cases h

/-- The rendering of one node among others. -/
theorem exists_of_nodes {d : Dialect} {out out' : Rendered} {before after : List Node}
    {n : Node} {s s' : Session}
    (h : nodes d policy out (before ++ n :: after) s = (.ok out', s')) :
    ∃ out₁ s₁ out₂ s₂, nodes d policy out before s = (.ok out₁, s₁) ∧
      node d policy out₁ n s₁ = (.ok out₂, s₂) ∧
      nodes d policy out₂ after s₂ = (.ok out', s') := by
  induction before generalizing out s with
  | nil =>
    rw [List.nil_append, nodes] at h
    split at h
    · next out₂ s₂ hnode => exact ⟨out, s, out₂, s₂, rfl, hnode, h⟩
    · cases h
  | cons b before ih =>
    rw [List.cons_append, nodes] at h
    split at h
    · next out₀ s₀ hb =>
      obtain ⟨out₁, s₁, out₂, s₂, hbefore, hnode, hafter⟩ := ih h
      refine ⟨out₁, s₁, out₂, s₂, ?_, hnode, hafter⟩
      rw [nodes, hb]
      exact hbefore
    · cases h

end MySql

/-! ## Compiled regions -/

theorem exists_of_render {d : Dialect} {policy : LabelPolicy} {t : Template} {s s' : Session}
    {text : String} (h : t.render d policy s = (.ok text, s')) :
    ∃ out s₁, Render.nodes d policy {} t.nodes s = (.ok out, s₁) ∧ s'.reports = s₁.reports := by
  unfold Template.render at h
  split at h
  · cases h
  · next out s₁ hnodes =>
    split at h
    · cases h
    · next r s₂ hresolve =>
      cases h
      obtain ⟨-, -, hreports⟩ := MySql.exists_of_resolve hresolve
      exact ⟨out, s₁, hnodes, hreports⟩

theorem eq_of_tokenize {source : String} {lexed : Lexed} {notices : Array Notice}
    (h : Compile.tokenize source = (.ok lexed, notices)) :
    Lexer.tokenize source = .ok lexed := by
  unfold Compile.tokenize at h
  split at h
  · next heq =>
    cases h
    exact heq
  · cases h

theorem eq_of_instrument {hooks : Hooks} {tokens : List (Located Token)}
    {instrumented : Region.Instrumented} {notices : Array Notice}
    (h : Compile.instrument hooks tokens = (.ok instrumented, notices)) :
    Region.instrument hooks tokens = .ok instrumented := by
  unfold Compile.instrument at h
  split at h
  · next heq =>
    cases h
    exact heq
  · cases h

theorem eq_of_render {d : Dialect} {policy : LabelPolicy} {t : Template}
    {output : Compile.Output} {notices : Array Notice}
    (h : Compile.render d policy t = (.ok output, notices)) :
    ∃ s, t.render d policy {} = (.ok output.text, s) ∧ output.reports = s.reports := by
  unfold Compile.render at h
  split at h
  · next text s heq =>
    cases h
    exact ⟨s, heq, rfl⟩
  · cases h

/-- The stages of a compilation that succeeds. -/
theorem exists_of_compile {d : Dialect} {preferences : CompilerPreferences}
    {name source : String} {compiled : Compiled} {notices : Array Notice}
    (h : compile d preferences name source = (.ok compiled, notices)) :
    ∃ lexed instrumented template output s,
      Lexer.tokenize source = .ok lexed ∧
      Region.instrument {} lexed.tokens.toList = .ok instrumented ∧
      Template.parse instrumented.tokens.toList = .ok template ∧
      template.render d preferences.policy {} = (.ok output.text, s) ∧
      output.reports = s.reports ∧
      compiled = Compile.result preferences name lexed instrumented.summary output := by
  unfold compile at h
  simp only at h
  split at h
  · cases h
  · next lexed _ hlexed =>
    split at h
    · cases h
    · next instrumented _ hinstrumented =>
      split at h
      · cases h
      · next template _ hparsed =>
        split at h
        · cases h
        · next output _ hrendered =>
          cases h
          obtain ⟨s, hrender, hreports⟩ := eq_of_render hrendered
          exact ⟨lexed, instrumented, template, output, s, eq_of_tokenize hlexed,
            eq_of_instrument hinstrumented, congrArg Prod.fst hparsed, hrender, hreports, rfl⟩

/-- Every region of a compiled template is a numbered program. The template may
call anything but the prologue, which belongs to the regions alone.

A region is found by the nodes before it: they are rendered first, and the region
goes on in the session that they leave. -/
theorem compiled_regions_numbered {preferences : CompilerPreferences} {name source : String}
    {compiled : Compiled} {notices : Array Notice}
    (h : compile MySql.dialect preferences name source = (.ok compiled, notices))
    (hsource : ∀ lexed t, Lexer.tokenize source = .ok lexed →
      Template.parse lexed.tokens.toList = .ok t → Operation.prologue.name ∉ t.callNames) :
    ∃ lexed instrumented template,
      Lexer.tokenize source = .ok lexed ∧
      Region.instrument {} lexed.tokens.toList = .ok instrumented ∧
      Template.parse instrumented.tokens.toList = .ok template ∧
      ∀ before body span after, template.nodes = before ++ .region body span :: after →
        ∃ out s text s' r values calls end',
          Render.nodes MySql.dialect preferences.policy {} before {} = (.ok out, s) ∧
          Render.region MySql.dialect preferences.policy body span s = (.ok text, s') ∧
          s'.reports = s.reports.push r ∧ r.span = span ∧
          (preferences.collectReports = true →
            compiled.reports[before.countP Node.isRegion]? = some r) ∧
          Render.Runs MySql.dialect (s.note (.regionStarted span)) body values calls end' ∧
          MySql.Numbered r text values calls ∧
          (preferences.strictLabels = true →
            ∀ label, some (.deferred (.jumpTo label)) ∈ values →
              (r.labels[label]?).isSome = true) := by
  obtain ⟨lexed, instrumented, template, output, s₀, hlexed, hinstrumented, hparsed, hrender,
    houtput, rfl⟩ := exists_of_compile h
  refine ⟨lexed, instrumented, template, hlexed, hinstrumented, hparsed, ?_⟩
  intro before body span after hnodes
  -- The tree of the region.
  obtain ⟨t, ht, htree⟩ := Region.exists_rewritten hlexed hinstrumented hparsed
  have hmem : .region body span ∈ template.nodes := by rw [hnodes]; simp
  obtain ⟨first, last, rest, hbody, hrest⟩ :=
    Region.body_of_rewritten htree (hsource lexed t hlexed ht) hmem
  -- Its rendering.
  obtain ⟨out', s₁, hall, hfinal⟩ := exists_of_render hrender
  rw [hnodes] at hall
  obtain ⟨out, s, out₂, s₂, hbefore, hnode, hafter⟩ := MySql.exists_of_nodes hall
  rw [Render.node] at hnode
  split at hnode
  · next text s' hregion =>
    cases hnode
    obtain ⟨r, values, calls, end', hruns, hreports, hspan, hcounter, hlabels, htext, hdefined⟩ :=
      MySql.exists_of_region hregion
    obtain ⟨more, rfl, hmore, hhistory⟩ := MySql.history_of_region hbody hrest hruns
    refine ⟨out, s, text, _, r, values, _, end', hbefore, hregion, hreports, hspan, ?_, hruns,
      MySql.numbered_of_history hmore hhistory hcounter hlabels htext, ?_⟩
    · intro hcollect
      obtain ⟨earlier, hearlier, hlength⟩ := MySql.reports_of_nodes hbefore
      obtain ⟨later, hlater, -⟩ := MySql.reports_of_nodes hafter
      have hall : output.reports.toList = earlier ++ r :: later := by
        rw [houtput, hfinal, hlater, hreports, Array.toList_push, hearlier]
        simp
      simp only [Compile.result, hcollect, if_true]
      rw [← Array.getElem?_toList, hall, ← hlength]
      simp
    · intro hstrict
      exact hdefined (by rw [CompilerPreferences.policy, hstrict]; rfl)
  · cases hnode

/-- A jump to a label that is defined on the line after it. -/
theorem compiled_regions_numbered_forward_jump :
    ∃ compiled notices body span text s' r values calls end',
      compile MySql.dialect {} "p" "\x7b% sqlvm %\x7d\n\x7b\x7b jump(\"b\") \x7d\x7d\n\x7b\x7b label(\"b\") \x7d\x7d\n\x7b% endsqlvm %\x7d"
        = (.ok compiled, notices) ∧
      Render.region MySql.dialect .lenient body span {} = (.ok text, s') ∧
      compiled.reports[0]? = some r ∧
      Render.Runs MySql.dialect (Session.note {} (.regionStarted span)) body values calls end' ∧
      MySql.Numbered r text values calls ∧
      r.finalCounter = 2 ∧ r.labels["b"]? = some 1 := by
  have hresult : (compile MySql.dialect {} "p" "\x7b% sqlvm %\x7d\n\x7b\x7b jump(\"b\") \x7d\x7d\n\x7b\x7b label(\"b\") \x7d\x7d\n\x7b% endsqlvm %\x7d").1.toOption.map
      (fun c => c.reports[0]?.map fun r => (r.finalCounter, r.labels["b"]?))
      = some (some (2, some 1)) := by decide +kernel
  have hraw : ((Lexer.tokenize "\x7b% sqlvm %\x7d\n\x7b\x7b jump(\"b\") \x7d\x7d\n\x7b\x7b label(\"b\") \x7d\x7d\n\x7b% endsqlvm %\x7d").toOption.bind fun lexed =>
      (Template.parse lexed.tokens.toList).toOption).map Template.callNames
      = some ["jump", "label"] := by decide +kernel
  have hregion : ((Lexer.tokenize "\x7b% sqlvm %\x7d\n\x7b\x7b jump(\"b\") \x7d\x7d\n\x7b\x7b label(\"b\") \x7d\x7d\n\x7b% endsqlvm %\x7d").toOption.bind fun lexed =>
      (Region.instrument {} lexed.tokens.toList).toOption.bind fun i =>
        (Template.parse i.tokens.toList).toOption).map (fun t => t.nodes.map Node.isRegion)
      = some [true] := by decide +kernel
  cases hcompile : compile MySql.dialect {} "p" "\x7b% sqlvm %\x7d\n\x7b\x7b jump(\"b\") \x7d\x7d\n\x7b\x7b label(\"b\") \x7d\x7d\n\x7b% endsqlvm %\x7d" with
  | mk result notices =>
    cases result with
    | error => rw [hcompile] at hresult; cases hresult
    | ok compiled =>
      obtain ⟨lexed, i, t, hlexed, hi, ht, hregions⟩ := compiled_regions_numbered hcompile (by
        intro lexed t hlexed ht
        rw [hlexed] at hraw
        simp only [Except.toOption, Option.bind_some, ht, Option.map_some,
          Option.some.injEq] at hraw
        rw [hraw]
        decide)
      simp only [hlexed, Except.toOption, Option.bind_some, hi, ht, Option.map_some,
        Option.some.injEq] at hregion
      obtain ⟨n, hnodes, hn⟩ := List.map_eq_singleton_iff.mp hregion
      cases n with
      | item => cases hn
      | region body span =>
        obtain ⟨out, s, text, s', r, values, calls, end', hbefore, hrender, -, -, hreport, hruns,
          hnumbered, -⟩ := hregions [] body span [] hnodes
        cases hbefore
        have hr := hreport rfl
        rw [hcompile] at hresult
        simp only [Except.toOption, Option.map_some, Option.some.injEq] at hresult
        rw [show compiled.reports[0]? = some r from hr] at hresult
        simp only [Option.map_some, Option.some.injEq, Prod.mk.injEq] at hresult
        exact ⟨compiled, notices, body, span, text, s', r, values, calls, end', rfl, hrender, hr,
          hruns, hnumbered, hresult⟩

end QueryMachine
