import QueryMachine.Proofs.Render.Program
import QueryMachine.Proofs.Render.Sequence

/-!
# A region does not see what was rendered before it

The machine is handed on from region to region, with its counter and its labels. What
keeps the regions apart is that the first thing in a region is the call of the prologue,
before anything that could look at the machine, and that the prologue leaves of the
machine the step budget alone.

So two renderings of a region are followed side by side, from sessions with the same
variables and the same step budget. After the prologue they are twins: same machine and
same variables. Twins stay twins, whatever is rendered in them, and what they give is the
same (`Meet`). They may have reports and notices of their own from before, to which both
add the same reports.
-/

namespace QueryMachine

/-- Two sessions that differ in what was reported before they met, in `base` and `base'`,
and in notices. -/
structure Session.Twins (base base' s s' : Session) : Prop where
  machine : s'.machine = s.machine
  bindings : ∀ name : String, s'.bindings[name]? = s.bindings[name]?
  reports : ∃ new, s.reports = base.reports ++ new ∧ s'.reports = base'.reports ++ new

namespace Session.Twins

variable {base base' s s' : Session}

theorem note (h : Twins base base' s s') (notice notice' : Notice) :
    Twins base base' (s.note notice) (s'.note notice') :=
  ⟨h.machine, h.bindings, h.reports⟩

theorem assign (h : Twins base base' s s') (name : String) (value : Value) :
    Twins base base' (s.assign name value) (s'.assign name value) := by
  refine ⟨h.machine, ?_, h.reports⟩
  intro other
  simp only [Session.assign, Std.TreeMap.getElem?_insert, h.bindings]

theorem finish (h : Twins base base' s s') (r : RegionReport) :
    Twins base base' (Render.finish s r) (Render.finish s' r) := by
  obtain ⟨new, hnew, hnew'⟩ := h.reports
  refine ⟨h.machine, h.bindings, new.push r, ?_, ?_⟩
  · rw [Render.finish, Session.note, hnew, Array.append_push]
  · rw [Render.finish, Session.note, hnew', Array.append_push]

end Session.Twins

namespace Render

open Session (Twins)

variable {α β : Type} {d : Dialect} {policy : LabelPolicy} {base base' s s' : Session}

/-- Two runs give the same value or the same error, and end as twins. -/
structure Meet (base base' : Session) (run run' : Except RenderError α × Session) : Prop where
  result : run'.1 = run.1
  session : Twins base base' run.2 run'.2

theorem Meet.andThen {run run' : Except RenderError α × Session} {next next' : α → Rendering β}
    (h : Meet base base' run run')
    (hnext : ∀ a s s', Twins base base' s s' → Meet base base' (next a s) (next' a s')) :
    Meet base base' (andThen run next) (andThen run' next') := by
  obtain ⟨result, s⟩ := run
  obtain ⟨result', s'⟩ := run'
  obtain ⟨rfl, hs⟩ := h
  cases result' with
  | error error => exact ⟨rfl, hs⟩
  | ok a => exact hnext a s s' hs

theorem meet_call (hs : Twins base base' s s') (name : String) (args : List Value) (span : Span) :
    Meet base base' (call d name args span s) (call d name args span s') := by
  unfold call
  split
  · exact ⟨rfl, hs⟩
  · next f _ =>
    split
    · exact ⟨rfl, hs⟩
    · rw [hs.machine]
      rcases f.run args s.machine with ⟨_ | _, machine⟩
      · exact ⟨rfl, rfl, hs.bindings, hs.reports⟩
      · exact ⟨rfl, rfl, hs.bindings, hs.reports⟩

mutual

theorem meet_eval (e : Expr) {s s' : Session} (hs : Twins base base' s s') :
    Meet base base' (eval d e s) (eval d e s') := by
  match e with
  | .str .. | .int .. => exact ⟨rfl, hs⟩
  | .var name span =>
    rw [eval, eval, hs.bindings]
    split
    · exact ⟨rfl, hs⟩
    · exact ⟨rfl, hs⟩
  | .call name args span =>
    rw [eval_call, eval_call]
    refine (meet_evalArgs name [] args hs).andThen fun values t t' ht => ?_
    exact meet_call ht name values span

theorem meet_evalArgs (function : String) (before : List Value) (args : List Expr)
    {s s' : Session} (hs : Twins base base' s s') :
    Meet base base' (evalArgs d function before args s) (evalArgs d function before args s') := by
  match args with
  | [] => exact ⟨rfl, hs⟩
  | arg :: rest =>
    rw [evalArgs_cons, evalArgs_cons]
    refine (meet_eval arg hs).andThen fun value t t' ht => ?_
    cases value with
    | deferred thunk => exact ⟨rfl, ht⟩
    | str | int => exact meet_evalArgs function _ rest ht

end

theorem meet_item (out : Rendered) (i : Item) (hs : Twins base base' s s') :
    Meet base base' (item d out i s) (item d out i s') := by
  cases i with
  | data text span => exact ⟨rfl, hs⟩
  | output e span =>
    rw [item_output, item_output]
    exact (meet_eval e hs).andThen fun value t t' ht => ⟨rfl, ht⟩
  | set name e span =>
    rw [item_set, item_set]
    exact (meet_eval e hs).andThen fun value t t' ht => ⟨rfl, ht.assign name value⟩

theorem meet_items (out : Rendered) (is : List Item) (hs : Twins base base' s s') :
    Meet base base' (items d out is s) (items d out is s') := by
  induction is generalizing out s s' with
  | nil => exact ⟨rfl, hs⟩
  | cons i is ih =>
    rw [items_cons, items_cons]
    exact (meet_item out i hs).andThen fun out' t t' ht => ih out' ht

theorem meet_resolve (out : Rendered) (hs : Twins base base' s s') :
    Meet base base' (resolve d policy out s) (resolve d policy out s') := by
  simp only [resolve, hs.machine]
  exact ⟨rfl, rfl, hs.bindings, hs.reports⟩

end Render

namespace MySql

open Render
open Session (Twins)

variable {policy : LabelPolicy} {s s' : Session}

/-- The call that every region begins with. -/
theorem item_prologue (out : Rendered) (first last : Span) (s : Session) :
    item dialect out (.output (.call Operation.prologue.name [] first) last) s
      = (.ok (out.pushText head),
          { s with machine := s.machine.restart }.note (.called "prologue" 0 (-1))) := rfl

/-- Where the variables and the step budget are the same, the prologue makes twins. -/
theorem twins_after_prologue (hbits : s'.machine.stepBits = s.machine.stepBits)
    (hvars : ∀ name : String, s'.bindings[name]? = s.bindings[name]?) :
    Twins s s' { s with machine := s.machine.restart }
      { s' with machine := s'.machine.restart } := by
  refine ⟨?_, hvars, #[], by simp, by simp⟩
  rw [Machine.restart, Machine.restart, hbits]

theorem meet_region {rest : List Item} {first last : Span}
    (hbits : s'.machine.stepBits = s.machine.stepBits)
    (hvars : ∀ name : String, s'.bindings[name]? = s.bindings[name]?) (span : Span) :
    Meet s s'
      (region dialect policy
        (.output (.call Operation.prologue.name [] first) last :: rest) span s)
      (region dialect policy
        (.output (.call Operation.prologue.name [] first) last :: rest) span s') := by
  have hstarted : Twins s s'
      ({ s with machine := s.machine.restart }.note (.regionStarted span))
      ({ s' with machine := s'.machine.restart }.note (.regionStarted span)) :=
    (twins_after_prologue hbits hvars).note _ _
  have hcalled := hstarted.note (.called "prologue" 0 (-1)) (.called "prologue" 0 (-1))
  have hbody := meet_items (d := dialect) (({} : Rendered).pushText head) rest hcalled
  rw [region_eq, region_eq, items_cons, items_cons, item_prologue, item_prologue]
  refine hbody.andThen fun out t t' ht => (meet_resolve out ht).andThen fun resolution u u' hu => ?_
  rw [hu.machine]
  exact ⟨rfl, hu.finish _⟩

/-- What the renderings of a region from two sessions have in common: all that the region
adds and leaves, or its error. -/
inductive SameRegion (s s' : Session) :
    Except RenderError String × Session → Except RenderError String × Session → Prop where
  | ok {text : String} {r : RegionReport} {e e' : Session} : e'.machine = e.machine →
      (∀ name : String, e'.bindings[name]? = e.bindings[name]?) →
      e.reports = s.reports.push r → e'.reports = s'.reports.push r →
      SameRegion s s' (.ok text, e) (.ok text, e')
  | error (error : RenderError) (e e' : Session) :
      SameRegion s s' (.error error, e) (.error error, e')

theorem sameRegion_of_meet {body : List Item} {span : Span}
    (h : Meet s s' (region dialect policy body span s) (region dialect policy body span s')) :
    SameRegion s s' (region dialect policy body span s) (region dialect policy body span s') := by
  obtain ⟨hresult, htwins⟩ := h
  cases hrun : region dialect policy body span s with
  | mk result e =>
    cases hrun' : region dialect policy body span s' with
    | mk result' e' =>
      rw [hrun, hrun'] at hresult htwins
      obtain rfl : result' = result := hresult
      cases result' with
      | error error => exact .error error e e'
      | ok text =>
        obtain ⟨r, _, _, _, -, hreports, -⟩ := exists_of_region hrun
        obtain ⟨new, hnew, hnew'⟩ := htwins.reports
        have hone : new = #[r] := by
          rw [hnew, Array.push_eq_append] at hreports
          exact Array.append_right_inj s.reports |>.mp hreports
        rw [hone, ← Array.push_eq_append] at hnew'
        exact .ok htwins.machine htwins.bindings hreports hnew'

/-- A region of a template depends on what was rendered before it through the variables
and the step budget, and in no other way. From any two sessions that have these in common,
whatever their counters and labels, it gives the same text and the same report and leaves
the same machine and the same variables, or it fails with the same error. So it is after
any nodes whatever that leave such sessions. -/
theorem region_independent {source : String} {lexed : Lexed} {i : Region.Instrumented}
    {t : Template} (hlexed : Lexer.tokenize source = .ok lexed)
    (hi : Region.instrument {} lexed.tokens.toList = .ok i)
    (ht : Template.parse i.tokens.toList = .ok t) {body : List Item} {span : Span}
    (hregion : .region body span ∈ t.nodes) (policy : LabelPolicy) :
    (∀ s s' : Session, s'.machine.stepBits = s.machine.stepBits →
      (∀ name : String, s'.bindings[name]? = s.bindings[name]?) →
      SameRegion s s' (region dialect policy body span s) (region dialect policy body span s')) ∧
    ∀ (before before' : List Node) (start start' s s' : Session) (out out' : Rendered),
      nodes dialect policy {} before start = (.ok out, s) →
      nodes dialect policy {} before' start' = (.ok out', s') →
      s'.machine.stepBits = s.machine.stepBits →
      (∀ name : String, s'.bindings[name]? = s.bindings[name]?) →
      (∃ text e e',
        nodes dialect policy {} (before ++ [.region body span]) start
          = (.ok (out.pushText text), e) ∧
        nodes dialect policy {} (before' ++ [.region body span]) start'
          = (.ok (out'.pushText text), e')) ∨
      ∃ error,
        (nodes dialect policy {} (before ++ [.region body span]) start).1 = .error error ∧
        (nodes dialect policy {} (before' ++ [.region body span]) start').1 = .error error := by
  obtain ⟨raw, -, htree⟩ := Region.exists_rewritten hlexed hi ht
  obtain ⟨_, _, first, last, rest, -, hbody, -⟩ := Region.exists_of_rewritten htree hregion
  have hsame : ∀ s s' : Session, s'.machine.stepBits = s.machine.stepBits →
      (∀ name : String, s'.bindings[name]? = s.bindings[name]?) →
      SameRegion s s' (region dialect policy body span s)
        (region dialect policy body span s') := by
    intro s s' hbits hvars
    refine sameRegion_of_meet ?_
    rw [hbody]
    exact meet_region hbits hvars span
  refine ⟨hsame, ?_⟩
  intro before before' start start' s s' out out' hbefore hbefore' hbits hvars
  have hregions := hsame s s' hbits hvars
  rw [nodes_append, nodes_append, hbefore, hbefore', andThen_ok, andThen_ok, nodes_cons,
    nodes_cons, node_region, node_region]
  generalize region dialect policy body span s = run at hregions ⊢
  generalize region dialect policy body span s' = run' at hregions ⊢
  cases hregions with
  | ok => exact .inl ⟨_, _, _, rfl, rfl⟩
  | error error => exact .inr ⟨error, rfl, rfl⟩

/-- A jump to a label that only an earlier program defined finds no label. -/
theorem region_independent_of_label_elsewhere :
    ∃ lexed i t body span,
      Lexer.tokenize "\x7b% sqlvm %\x7d\x7b\x7b jump('a') \x7d\x7d\x7b% endsqlvm %\x7d"
        = .ok lexed ∧
      Region.instrument {} lexed.tokens.toList = .ok i ∧
      Template.parse i.tokens.toList = .ok t ∧
      t.nodes = [.region body span] ∧
      (nodes dialect .lenient {} t.nodes {}).2.reports.map (·.fallbacks) = #[#["a"]] ∧
      SameRegion {} { machine := { counter := 9, labels := Std.TreeMap.insert ∅ "a" 7 } }
        (region dialect .lenient body span {})
        (region dialect .lenient body span
          { machine := { counter := 9, labels := Std.TreeMap.insert ∅ "a" 7 } }) := by
  obtain ⟨lexed, i, t, hlexed, hi, ht⟩ : ∃ lexed i t,
      Lexer.tokenize "\x7b% sqlvm %\x7d\x7b\x7b jump('a') \x7d\x7d\x7b% endsqlvm %\x7d"
        = .ok lexed ∧
      Region.instrument {} lexed.tokens.toList = .ok i ∧
      Template.parse i.tokens.toList = .ok t := ⟨_, _, _, by cbv, by cbv, by cbv⟩
  have hrun : ((Lexer.tokenize
      "\x7b% sqlvm %\x7d\x7b\x7b jump('a') \x7d\x7d\x7b% endsqlvm %\x7d").toOption.bind
        fun lexed => (Region.instrument {} lexed.tokens.toList).toOption.bind fun i =>
          (Template.parse i.tokens.toList).toOption).map (fun t =>
            (t.nodes.map Node.isRegion,
              (nodes dialect .lenient {} t.nodes {}).2.reports.map (·.fallbacks)))
      = some ([true], #[#["a"]]) := by decide +kernel
  simp only [hlexed, Except.toOption, Option.bind_some, hi, ht, Option.map_some,
    Option.some.injEq, Prod.mk.injEq] at hrun
  obtain ⟨hshape, hfallbacks⟩ := hrun
  obtain ⟨n, hnodes, hn⟩ := List.map_eq_singleton_iff.mp hshape
  cases n with
  | item => cases hn
  | region body span =>
    have hregion : .region body span ∈ t.nodes := by rw [hnodes]; exact .head _
    exact ⟨lexed, i, t, body, span, hlexed, hi, ht, hnodes, hfallbacks,
      (region_independent hlexed hi ht hregion .lenient).1 _ _ rfl fun _ => rfl⟩

end MySql

end QueryMachine
