import QueryMachine.Compile.Error
import QueryMachine.Proofs.Render.Resolved
import QueryMachine.Proofs.Render.Sequence
import QueryMachine.Proofs.Template.Erasure

/-!
# Rendering with text around it

Two templates are rendered side by side. They differ in their spans, and the second
has a text in front of its nodes and another behind them. Spans go into notices, into
errors and into reports and come back from none of them, so the sessions stay alike:
same machine, same variables, same reports spans aside. Of the outputs all that can
differ is the text before and after; the placeholders are the same, and so is what
they are resolved to, also at the top level, where they wait until the text behind the
template has been rendered.

`Alike` says this of any two runs. It is kept by `andThen`, so that each part of a
rendering needs one lemma.
-/

namespace QueryMachine

/-- A report with no trace of where its region stood. -/
def RegionReport.withoutSpan (r : RegionReport) : RegionReport :=
  { r with span := .nowhere }

/-- Sessions that differ in spans and notices only. -/
structure Session.Alike (s s' : Session) : Prop where
  machine : s'.machine = s.machine
  bindings : s'.bindings = s.bindings
  reports : s'.reports.map RegionReport.withoutSpan = s.reports.map RegionReport.withoutSpan

theorem Session.Alike.refl (s : Session) : s.Alike s := ⟨rfl, rfl, rfl⟩

theorem Session.Alike.note {s s' : Session} (h : s.Alike s') (notice notice' : Notice) :
    (s.note notice).Alike (s'.note notice') :=
  ⟨h.machine, h.bindings, h.reports⟩

/-- The second output is the first with a text before it and a text after it. -/
structure Rendered.Framed (pre post : String) (out out' : Rendered) : Prop where
  text : ∀ code, out'.textWith code = pre ++ out.textWith code ++ post
  thunks : out'.thunks = out.thunks

/-! ## Resolving -/

namespace Resolution

variable {d : Dialect} {policy : LabelPolicy} {m : Machine}

/-- The code of a placeholder, or nothing if the dialect has none. -/
def codeOf (d : Dialect) (m : Machine) (t : Thunk) : String :=
  match d.resolve m t with
  | .ok code => code
  | .error _ => ""

/-- What resolving placeholders comes to, apart from the text: how many there are and
which labels are missing, or the kind of the error. -/
def verdict (d : Dialect) (policy : LabelPolicy) (m : Machine) (count : Nat)
    (fallbacks : Array String) : List Thunk → Except ErrorKind (Nat × Array String)
  | [] => .ok (count, fallbacks)
  | t :: rest =>
    let missing := missingLabel? m t
    match policy, missing with
    | .strict, some _ => .error .undefinedLabel
    | _, _ =>
      match d.resolve m t with
      | .error error => .error error.kind
      | .ok _ => verdict d policy m (count + 1) (fallbacks ++ missing.toArray) rest

/-- What is left of a result without its text and its place. -/
def outcome (result : Except ResolveError Resolution) : Except ErrorKind (Nat × Array String) :=
  match result with
  | .ok r => .ok (r.thunksResolved, r.fallbacks)
  | .error error => .error error.kind

/-- The texts between the placeholders have no say in how resolving ends. -/
theorem outcome_resolveFrom (r : Resolution) (notices : Array Notice)
    (segments : List Segment) :
    outcome (resolveFrom d policy m r notices segments).1
      = verdict d policy m r.thunksResolved r.fallbacks (segments.filterMap Segment.thunk?) := by
  induction segments generalizing r notices with
  | nil => rfl
  | cons segment rest ih =>
    cases segment with
    | text s => exact ih { r with text := r.text ++ s } notices
    | thunk t span =>
      rw [show (Segment.thunk t span :: rest).filterMap Segment.thunk?
        = t :: rest.filterMap Segment.thunk? from rfl, resolveFrom.eq_def, verdict.eq_def]
      simp only
      generalize missingLabel? m t = missing
      cases policy <;> cases missing
      case strict.some label => rfl
      all_goals
        cases d.resolve m t with
        | error error => rfl
        | ok code => exact ih (r.addCode code _) _

/-- Where resolving succeeds, every placeholder has a code, and the codes are in place. -/
theorem text_of_resolveFrom_ok {r r' : Resolution} {notices : Array Notice}
    {segments : List Segment} (h : (resolveFrom d policy m r notices segments).1 = .ok r') :
    r'.text = r.text ++ String.join (segments.map (Segment.textWith (codeOf d m))) := by
  induction segments generalizing r notices with
  | nil =>
    cases h
    simp
  | cons segment rest ih =>
    rw [List.map_cons, String.join_cons, ← String.append_assoc]
    cases segment with
    | text s => exact ih h
    | thunk t span =>
      rw [resolveFrom.eq_def] at h
      simp only at h
      split at h
      · cases h
      · split at h
        · cases h
        · next code hcode =>
          rw [ih h]
          simp [Segment.textWith, codeOf, hcode, addCode]

theorem outcome_ofRendered (rendered : Rendered) :
    outcome (ofRendered d policy m rendered).1 = verdict d policy m 0 #[] rendered.thunks :=
  outcome_resolveFrom {} #[] rendered.segments.toList

theorem text_of_ofRendered_ok {rendered : Rendered} {r : Resolution}
    (h : (ofRendered d policy m rendered).1 = .ok r) :
    r.text = rendered.textWith (codeOf d m) := by
  rw [text_of_resolveFrom_ok h]
  exact String.empty_append

end Resolution

/-! ## Output -/

namespace Rendered

variable {pre : String} {out out' : Rendered}

theorem Framed.opens (pre : String) : Framed pre "" {} (({} : Rendered).pushText pre) := by
  refine ⟨fun code => ?_, ?_⟩
  · rw [textWith_pushText]
    simp
  · rw [thunks_pushText]

theorem Framed.closes (h : Framed pre "" out out') (post : String) :
    Framed pre post out (out'.pushText post) := by
  refine ⟨fun code => ?_, ?_⟩
  · rw [textWith_pushText, h.text]
    simp
  · rw [thunks_pushText, h.thunks]

theorem Framed.pushText (h : Framed pre "" out out') (s : String) :
    Framed pre "" (out.pushText s) (out'.pushText s) := by
  refine ⟨fun code => ?_, ?_⟩
  · rw [textWith_pushText, textWith_pushText, h.text]
    simp [String.append_assoc]
  · rw [thunks_pushText, thunks_pushText, h.thunks]

theorem Framed.emit (h : Framed pre "" out out') (value : Value) (span span' : Span) :
    Framed pre "" (Render.emit out value span) (Render.emit out' value span') := by
  cases value with
  | str s => exact h.pushText s
  | int n => exact h.pushText (toString n)
  | deferred thunk =>
    refine ⟨fun code => ?_, ?_⟩
    · rw [Render.emit, Render.emit, textWith_pushThunk, textWith_pushThunk, h.text]
      simp [String.append_assoc]
    · rw [Render.emit, Render.emit, thunks_pushThunk, thunks_pushThunk, h.thunks]

end Rendered

/-! ## Runs -/

namespace Render

open Rendered (Framed)

variable {α β : Type} {d : Dialect} {policy : LabelPolicy} {s s' : Session} {pre : String}
  {out out' : Rendered}

/-- Two runs end alike: with values in the relation `R` and alike sessions, or with
errors of the same kind. -/
inductive Alike (R : α → α → Prop) :
    Except RenderError α × Session → Except RenderError α × Session → Prop where
  | ok {a a' : α} {s s' : Session} : R a a' → s.Alike s' → Alike R (.ok a, s) (.ok a', s')
  | error {e e' : RenderError} {s s' : Session} : e'.kind = e.kind →
      Alike R (.error e, s) (.error e', s')

theorem Alike.andThen {R : α → α → Prop} {Q : β → β → Prop}
    {run run' : Except RenderError α × Session} {next next' : α → Rendering β}
    (h : Alike R run run')
    (hnext : ∀ {a a' s s'}, R a a' → s.Alike s' → Alike Q (next a s) (next' a' s')) :
    Alike Q (andThen run next) (andThen run' next') := by
  cases h with
  | ok ha hs => exact hnext ha hs
  | error hkind => exact .error hkind

theorem alike_call (hs : s.Alike s') (name : String) (args : List Value) (span span' : Span) :
    Alike Eq (call d name args span s) (call d name args span' s') := by
  unfold call
  split
  · exact .error rfl
  · next f _ =>
    split
    · exact .error rfl
    · rw [hs.machine]
      rcases f.run args s.machine with ⟨_ | fragment, machine⟩
      · exact .error rfl
      · exact .ok rfl ⟨rfl, hs.bindings, hs.reports⟩

mutual

theorem alike_eval {e e' : Expr} {s s' : Session} (h : e'.withoutSpans = e.withoutSpans)
    (hs : s.Alike s') : Alike Eq (eval d e s) (eval d e' s') := by
  match e, e' with
  | .str .., .str .. | .int .., .int .. =>
    cases h
    exact .ok rfl hs
  | .var name span, .var name' span' =>
    cases h
    simp only [eval, hs.bindings]
    split
    · exact .ok rfl hs
    · exact .error rfl
  | .call name args span, .call name' args' span' =>
    simp only [Expr.withoutSpans, Expr.call.injEq, and_true] at h
    obtain ⟨rfl, hargs⟩ := h
    rw [eval_call, eval_call]
    refine (alike_evalArgs hargs name' [] hs).andThen ?_
    rintro values _ t t' rfl ht
    exact alike_call ht name' values span span'

theorem alike_evalArgs {es es' : List Expr} {s s' : Session}
    (h : Expr.withoutSpansAll es' = Expr.withoutSpansAll es) (function : String)
    (before : List Value) (hs : s.Alike s') :
    Alike Eq (evalArgs d function before es s) (evalArgs d function before es' s') := by
  match es, es' with
  | [], [] => exact .ok rfl hs
  | e :: es, e' :: es' =>
    simp only [Expr.withoutSpansAll, List.cons.injEq] at h
    rw [evalArgs_cons, evalArgs_cons]
    refine (alike_eval h.1 hs).andThen ?_
    rintro value _ t t' rfl ht
    cases value with
    | deferred thunk => exact .error rfl
    | str | int => exact alike_evalArgs h.2 function _ ht

end

theorem alike_item {i i' : Item} (h : i'.withoutSpans = i.withoutSpans)
    (hout : Framed pre "" out out') (hs : s.Alike s') :
    Alike (Framed pre "") (item d out i s) (item d out' i' s') := by
  cases i <;> cases i' <;>
    simp only [Item.withoutSpans, Item.data.injEq, Item.output.injEq, Item.set.injEq,
      and_true, reduceCtorEq] at h
  · subst h
    exact .ok (hout.pushText _) hs
  · rw [item_output, item_output]
    refine (alike_eval h hs).andThen ?_
    rintro value _ t t' rfl ht
    exact .ok (hout.emit value _ _) ht
  · obtain ⟨rfl, he⟩ := h
    rw [item_set, item_set]
    refine (alike_eval he hs).andThen ?_
    rintro value _ t t' rfl ht
    exact .ok hout ⟨ht.machine, by simp only [Session.assign, ht.bindings], ht.reports⟩

theorem alike_items {is is' : List Item}
    (h : is'.map Item.withoutSpans = is.map Item.withoutSpans)
    (hout : Framed pre "" out out') (hs : s.Alike s') :
    Alike (Framed pre "") (items d out is s) (items d out' is' s') := by
  induction is generalizing is' out out' s s' with
  | nil =>
    obtain rfl := List.map_eq_nil_iff.mp h
    exact .ok hout hs
  | cons i is ih =>
    obtain ⟨i', is', rfl, hi, his⟩ := List.map_eq_cons_iff.mp h
    rw [items_cons, items_cons]
    exact (alike_item hi hout hs).andThen fun hout hs => ih his hout hs

/-- Resolving looks at the placeholders and at the machine. -/
theorem alike_resolve {post : String} (hout : Framed pre post out out') (hs : s.Alike s') :
    Alike (fun r r' => r'.text = pre ++ r.text ++ post ∧
        r'.thunksResolved = r.thunksResolved ∧ r'.fallbacks = r.fallbacks)
      (resolve d policy out s) (resolve d policy out' s') := by
  have hsame : Resolution.outcome (Resolution.ofRendered d policy s'.machine out').1
      = Resolution.outcome (Resolution.ofRendered d policy s.machine out).1 := by
    rw [Resolution.outcome_ofRendered, Resolution.outcome_ofRendered, hs.machine, hout.thunks]
  unfold resolve
  cases hresult : (Resolution.ofRendered d policy s.machine out).1 with
  | error error =>
    cases hresult' : (Resolution.ofRendered d policy s'.machine out').1 with
    | ok r' => rw [hresult, hresult'] at hsame; cases hsame
    | error error' =>
      rw [hresult, hresult'] at hsame
      simp only [hresult, hresult']
      exact .error (Except.error.inj hsame)
  | ok r =>
    cases hresult' : (Resolution.ofRendered d policy s'.machine out').1 with
    | error error' => rw [hresult, hresult'] at hsame; cases hsame
    | ok r' =>
      rw [hresult, hresult'] at hsame
      simp only [hresult, hresult']
      obtain ⟨hcount, hfallbacks⟩ := Prod.mk.inj (Except.ok.inj hsame)
      have htext : r'.text = pre ++ r.text ++ post := by
        rw [Resolution.text_of_ofRendered_ok hresult', Resolution.text_of_ofRendered_ok hresult,
          hs.machine, hout.text]
      exact .ok ⟨htext, hcount, hfallbacks⟩ ⟨hs.machine, hs.bindings, hs.reports⟩

theorem alike_region {body body' : List Item}
    (h : body'.map Item.withoutSpans = body.map Item.withoutSpans) (span span' : Span)
    (hs : s.Alike s') :
    Alike Eq (region d policy body span s) (region d policy body' span' s') := by
  rw [region_eq, region_eq]
  refine (alike_items h (.opens "") (hs.note _ _)).andThen fun hout hs => ?_
  refine (alike_resolve hout hs).andThen ?_
  rintro r r' t t' ⟨htext, hcount, hfallbacks⟩ ht
  refine .ok (by rw [htext]; simp) ⟨ht.machine, ht.bindings, ?_⟩
  simp [finish, Session.note, ht.reports, report, RegionReport.withoutSpan, ht.machine, hcount,
    hfallbacks]

theorem alike_node {n n' : Node} (h : n'.withoutSpans = n.withoutSpans)
    (hout : Framed pre "" out out') (hs : s.Alike s') :
    Alike (Framed pre "") (node d policy out n s) (node d policy out' n' s') := by
  cases n <;> cases n' <;>
    simp only [Node.withoutSpans, Node.item.injEq, Node.region.injEq, and_true,
      reduceCtorEq] at h
  · exact alike_item h hout hs
  · rw [node_region, node_region]
    refine (alike_region h _ _ hs).andThen ?_
    rintro text _ t t' rfl ht
    exact .ok (hout.pushText text) ht

theorem alike_nodes {ns ns' : List Node}
    (h : ns'.map Node.withoutSpans = ns.map Node.withoutSpans)
    (hout : Framed pre "" out out') (hs : s.Alike s') :
    Alike (Framed pre "") (nodes d policy out ns s) (nodes d policy out' ns' s') := by
  induction ns generalizing ns' out out' s s' with
  | nil =>
    obtain rfl := List.map_eq_nil_iff.mp h
    exact .ok hout hs
  | cons n ns ih =>
    obtain ⟨n', ns', rfl, hn, hns⟩ := List.map_eq_cons_iff.mp h
    rw [nodes_cons, nodes_cons]
    exact (alike_node hn hout hs).andThen fun hout hs => ih hns hout hs

theorem nodes_plain {ns : List Node} {text : List Char}
    (h : ns.map Node.withoutSpans = Grammar.plainNodes text) :
    nodes d policy out ns s = (.ok (out.pushText (String.ofList text)), s) := by
  unfold Grammar.plainNodes at h
  split at h
  · next hnil =>
    rw [List.map_eq_nil_iff.mp h, hnil, nodes]
    simp [Rendered.pushText]
  · obtain ⟨n, rest, rfl, hn, hrest⟩ := List.map_eq_cons_iff.mp h
    obtain rfl := List.map_eq_nil_iff.mp hrest
    cases n with
    | region body span => cases hn
    | item i =>
      cases i with
      | data text' span =>
        cases hn
        rw [nodes_cons, node, item]
        rfl
      | output e span => cases hn
      | set name e span => cases hn

/-- A template with data around its nodes is rendered to the text of the template with
the data around it. -/
theorem alike_render {t t' : Template} {pre post : List Char}
    (h : t'.nodes.map Node.withoutSpans = Grammar.plainNodes pre ++
      (t.nodes.map Node.withoutSpans ++ Grammar.plainNodes post)) (hs : s.Alike s') :
    Alike (fun text text' => text' = String.ofList pre ++ text ++ String.ofList post)
      (t.render d policy s) (t'.render d policy s') := by
  obtain ⟨front, rest, hnodes, hfront, hrest⟩ := List.map_eq_append_iff.mp h
  obtain ⟨middle, back, rfl, hmiddle, hback⟩ := List.map_eq_append_iff.mp hrest
  have hall : Alike (Framed (String.ofList pre) (String.ofList post)) (nodes d policy {} t.nodes s)
      (nodes d policy {} t'.nodes s') := by
    rw [hnodes, nodes_append, nodes_plain hfront, andThen_ok, nodes_append]
    have hrun : Alike (Framed (String.ofList pre) "") (nodes d policy {} t.nodes s)
        (nodes d policy (({} : Rendered).pushText (String.ofList pre)) middle s') :=
      alike_nodes hmiddle (.opens _) hs
    generalize nodes d policy {} t.nodes s = run at hrun ⊢
    generalize nodes d policy _ middle s' = run' at hrun ⊢
    cases hrun with
    | ok hout hs =>
      rw [andThen_ok, nodes_plain hback]
      exact .ok (hout.closes (String.ofList post)) hs
    | error hkind => exact .error hkind
  rw [render_eq, render_eq]
  exact hall.andThen fun hout hs => (alike_resolve hout hs).andThen fun hr hs => .ok hr.1 hs

end Render

end QueryMachine
