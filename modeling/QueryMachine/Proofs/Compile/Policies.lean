import QueryMachine.Proofs.Compile.Stages
import QueryMachine.Proofs.Render.Notices

/-!
# Strict and lenient compilations

A label that is jumped to and never defined is an error under one policy and a
warning under the other. Only resolving asks for the policy, but it is asked at the
end of every region and once more at the end of the template, and a lenient
rendering goes on from there in a session that the strict one never reaches.

Both renderings are followed from the same session (`Agrees`). Up to the first label
that is missing they are one and the same run, notices included; at that label the
strict one stops with the error that the lenient one warns of, and whatever the
lenient one does afterwards no longer matters. The lenient notices are therefore
enough to say how the strict compilation ends.
-/

namespace QueryMachine

/-- The label and the place of a jump that goes to the label's name because nothing
defines it: the warning W140. -/
def Notice.fallback? : Notice → Option (String × Span)
  | labelFallback label span => some (label, span)
  | _ => none

/-- The fallbacks that were taken, in order. -/
def fallbacksOf (notices : Array Notice) : List (String × Span) :=
  notices.toList.filterMap Notice.fallback?

@[simp] theorem fallbacksOf_append (as bs : Array Notice) :
    fallbacksOf (as ++ bs) = fallbacksOf as ++ fallbacksOf bs := by
  simp [fallbacksOf]

@[simp] theorem fallbacksOf_push (notices : Array Notice) (n : Notice) :
    fallbacksOf (notices.push n) = fallbacksOf notices ++ n.fallback?.toList := by
  cases h : n.fallback? <;> simp [fallbacksOf, h]

/-! ## Resolving -/

namespace Resolution

variable {d : Dialect} {m : Machine}

theorem fallbacks_resolveFrom (policy : LabelPolicy) (r : Resolution) (notices : Array Notice)
    (segments : List Segment) :
    ∃ new, fallbacksOf (resolveFrom d policy m r notices segments).2
      = fallbacksOf notices ++ new := by
  induction segments generalizing r notices with
  | nil => exact ⟨[], (List.append_nil _).symm⟩
  | cons segment rest ih =>
    cases segment with
    | text s => exact ih _ notices
    | thunk t span =>
      rw [resolveFrom.eq_def]
      simp only
      split
      · exact ⟨[], (List.append_nil _).symm⟩
      · split
        · exact ⟨_, fallbacksOf_append notices _⟩
        · obtain ⟨new, hnew⟩ := ih (r.addCode _ (missingLabel? m t)) (notices ++ _)
          exact ⟨_, by rw [hnew, fallbacksOf_append, List.append_assoc]⟩

/-- Where no label is missing the policies resolve alike, and where one is missing
the strict policy stops at the first. -/
theorem resolveFrom_policies (r : Resolution) (notices : Array Notice)
    (segments : List Segment) :
    (fallbacksOf (resolveFrom d .lenient m r notices segments).2 = fallbacksOf notices ∧
      resolveFrom d .strict m r notices segments
        = resolveFrom d .lenient m r notices segments) ∨
    ∃ label span more, fallbacksOf (resolveFrom d .lenient m r notices segments).2
        = fallbacksOf notices ++ (label, span) :: more ∧
      (resolveFrom d .strict m r notices segments).1 = .error (.undefinedLabel label span) := by
  induction segments generalizing r notices with
  | nil => exact .inl ⟨rfl, rfl⟩
  | cons segment rest ih =>
    cases segment with
    | text s => exact ih _ notices
    | thunk t span =>
      cases hmissing : missingLabel? m t with
      | none =>
        -- The label is there or none is needed: both ask the dialect.
        simp only [resolveFrom, hmissing, Option.map_none, Option.toArray_none,
          Array.append_empty]
        cases d.resolve m t with
        | error error => exact .inl ⟨rfl, rfl⟩
        | ok code => exact ih _ notices
      | some label =>
        right
        have hstrict : (resolveFrom d .strict m r notices (.thunk t span :: rest)).1
            = .error (.undefinedLabel label span) := by
          simp [resolveFrom, hmissing]
        rw [hstrict]
        simp only [resolveFrom, hmissing, Option.map_some]
        cases d.resolve m t with
        | error error => exact ⟨label, span, [], fallbacksOf_append notices _, rfl⟩
        | ok code =>
          obtain ⟨more, hmore⟩ := fallbacks_resolveFrom (d := d) (m := m) .lenient
            (r.addCode code (some label)) (notices ++ #[.labelFallback label span]) rest
          refine ⟨label, span, more, ?_, rfl⟩
          rw [fallbacksOf_append, List.append_assoc] at hmore
          exact hmore

end Resolution

/-! ## Rendering -/

namespace Render

variable {α β : Type} {d : Dialect} {s : Session}

/-- How a strict run relates to the lenient run from the same session `s`. -/
inductive Agrees (s : Session) :
    Except RenderError α × Session → Except RenderError α × Session → Prop where
  /-- No fallback was taken: they are one run. -/
  | same {run : Except RenderError α × Session} :
      fallbacksOf run.2.notices = fallbacksOf s.notices → Agrees s run run
  /-- The strict run stopped where the lenient one took its first fallback. -/
  | stopped {lenient strict : Except RenderError α × Session} {label : String} {span : Span}
      {more : List (String × Span)} :
      fallbacksOf lenient.2.notices = fallbacksOf s.notices ++ (label, span) :: more →
      strict.1 = .error (.resolve (.undefinedLabel label span)) → Agrees s lenient strict

theorem Agrees.fallbacks {lenient strict : Except RenderError α × Session}
    (h : Agrees s lenient strict) :
    ∃ new, fallbacksOf lenient.2.notices = fallbacksOf s.notices ++ new := by
  cases h with
  | same hsame => exact ⟨[], by rw [hsame, List.append_nil]⟩
  | stopped hnew _ => exact ⟨_, hnew⟩

/-- Only the fallbacks of the session that a run starts from matter. -/
theorem Agrees.of_start {s' : Session} {lenient strict : Except RenderError α × Session}
    (hs : fallbacksOf s'.notices = fallbacksOf s.notices) (h : Agrees s' lenient strict) :
    Agrees s lenient strict := by
  cases h with
  | same hsame => exact .same (hsame.trans hs)
  | stopped hnew herror =>
    rw [hs] at hnew
    exact .stopped hnew herror

theorem andThen_of_error {run : Except RenderError α × Session} {error : RenderError}
    (h : run.1 = .error error) (next : α → Rendering β) :
    (andThen run next).1 = .error error := by
  obtain ⟨result, s'⟩ := run
  cases h
  rfl

/-- Runs that agree can be gone on with alike. -/
theorem Agrees.andThen {lenient strict : Except RenderError α × Session}
    {next next' : α → Rendering β} (h : Agrees s lenient strict)
    (hnext : ∀ a s', Agrees s' (next a s') (next' a s')) :
    Agrees s (andThen lenient next) (andThen strict next') := by
  cases h with
  | same hsame =>
    obtain ⟨result, s'⟩ := lenient
    cases result with
    | error error => exact .same hsame
    | ok a => exact (hnext a s').of_start hsame
  | stopped hnew herror =>
    have hstrict := andThen_of_error herror next'
    obtain ⟨result, s'⟩ := lenient
    cases result with
    | error error => exact .stopped hnew hstrict
    | ok a =>
      obtain ⟨later, hlater⟩ := (hnext a s').fallbacks
      rw [show fallbacksOf s'.notices = _ from hnew, List.append_assoc, List.cons_append]
        at hlater
      exact .stopped hlater hstrict

/-- The value of a run that adds no fallback. -/
theorem agrees_pure (result : Except RenderError α) {s' : Session}
    (h : fallbacksOf s'.notices = fallbacksOf s.notices) :
    Agrees s (result, s') (result, s') :=
  .same h

/-- Evaluation does not know the policy, and it takes no fallback. -/
theorem LeavesCalls.agrees {run : Except RenderError α × Session} (h : LeavesCalls s run) :
    Agrees s run run := by
  refine .same (h.filterMap_eq fun n hcall => ?_)
  cases n <;> first | rfl | cases hcall

/-- The one step in which the policies differ. -/
theorem agrees_resolve (out : Rendered) (s : Session) :
    Agrees s (resolve d .lenient out s) (resolve d .strict out s) := by
  simp only [resolve, Resolution.ofRendered]
  rcases Resolution.resolveFrom_policies (d := d) (m := s.machine) {} #[]
    out.segments.toList with ⟨hnone, hsame⟩ | ⟨label, span, more, hnew, herror⟩
  · rw [hsame]
    refine .same ?_
    rw [fallbacksOf_append, hnone]
    exact List.append_nil _
  · have hlenient : fallbacksOf (s.notices ++ (Resolution.resolveFrom d .lenient s.machine {} #[]
        out.segments.toList).2) = fallbacksOf s.notices ++ (label, span) :: more := by
      rw [fallbacksOf_append, hnew]
      rfl
    refine .stopped hlenient ?_
    rw [herror]
    rfl

theorem agrees_region (body : List Item) (span : Span) (s : Session) :
    Agrees s (region d .lenient body span s) (region d .strict body span s) := by
  rw [region_eq, region_eq]
  have hstarted : fallbacksOf (s.note (.regionStarted span)).notices = fallbacksOf s.notices := by
    simp [Session.note, Notice.fallback?]
  have hbody := (leavesCalls_items (d := d) {} body _).agrees.of_start hstarted
  refine hbody.andThen fun out s' => (agrees_resolve out s').andThen fun resolution s'' => ?_
  refine agrees_pure _ ?_
  simp [finish, Session.note, Notice.fallback?]

theorem agrees_node (out : Rendered) (n : Node) (s : Session) :
    Agrees s (node d .lenient out n s) (node d .strict out n s) := by
  cases n with
  | item i => exact (leavesCalls_item out i s).agrees
  | region body span =>
    rw [node_region, node_region]
    exact (agrees_region body span s).andThen fun text s' => agrees_pure _ rfl

theorem agrees_nodes (out : Rendered) (ns : List Node) (s : Session) :
    Agrees s (nodes d .lenient out ns s) (nodes d .strict out ns s) := by
  induction ns generalizing out s with
  | nil => exact .same rfl
  | cons n ns ih =>
    rw [nodes_cons, nodes_cons]
    exact (agrees_node out n s).andThen fun out' s' => ih out' s'

theorem agrees_render (t : Template) (s : Session) :
    Agrees s (t.render d .lenient s) (t.render d .strict s) := by
  rw [render_eq, render_eq]
  exact (agrees_nodes {} t.nodes s).andThen fun out s' =>
    (agrees_resolve out s').andThen fun resolution s'' => agrees_pure _ rfl

end Render

/-! ## Compilation -/

namespace Compile

/-- The last stage, the only one that knows the policy. -/
theorem render_policies (d : Dialect) (t : Template) :
    (fallbacksOf (render d .lenient t).2 = [] ∧
      (render d .strict t).1 = (render d .lenient t).1) ∨
    ∃ label span more, fallbacksOf (render d .lenient t).2 = (label, span) :: more ∧
      (render d .strict t).1 = .error (.resolve (.undefinedLabel label span)) := by
  have hfallbacks : ∀ policy, fallbacksOf (render d policy t).2
      = fallbacksOf (t.render d policy {}).2.notices := by
    intro policy
    unfold render
    rcases t.render d policy {} with ⟨_ | _, s⟩
    · simp [Notice.fallback?]
    · rfl
  rw [hfallbacks]
  have hagrees := Render.agrees_render (d := d) t {}
  unfold render
  generalize t.render d .lenient {} = lenient at hagrees ⊢
  generalize t.render d .strict {} = strict at hagrees ⊢
  cases hagrees with
  | same hsame => exact .inl ⟨hsame, rfl⟩
  | @stopped _ label span more hnew herror =>
    refine .inr ⟨label, span, more, hnew, ?_⟩
    obtain ⟨result, s⟩ := strict
    cases herror
    rfl

/-- All fallbacks of a compilation are taken by its last stage. -/
theorem fallbacks_compile (d : Dialect) (preferences : CompilerPreferences)
    (name source : String) :
    fallbacksOf (compile d preferences name source).2
      = match front source with
        | .error _ => []
        | .ok (_, _, template) => fallbacksOf (render d preferences.policy template).2 := by
  unfold compile front tokenize
  cases Lexer.tokenize source with
  | error failure => rfl
  | ok lexed =>
    simp only [instrument]
    cases Region.instrument {} lexed.tokens.toList with
    | error error => rfl
    | ok instrumented =>
      simp only [parse]
      cases Template.parse instrumented.tokens.toList with
      | error error => rfl
      | ok template =>
        simp only
        rcases render d preferences.policy template with ⟨_ | output, notices⟩
        · exact fallbacksOf_append _ notices
        · rw [fallbacksOf_push]
          refine (List.append_nil _).trans ?_
          exact fallbacksOf_append _ notices

end Compile

/-- The answer of the strict policy, as it can be told from a lenient compilation:
the same answer if no fallback was taken, else the error that the first one is. -/
def strictAnswer (lenient : Noted CompileError Compiled) : Except CompileError Compiled :=
  match fallbacksOf lenient.2 with
  | [] => lenient.1
  | (label, span) :: _ => .error (.render (.resolve (.undefinedLabel label span)))

/-- The policies agree on every template, for every dialect. Without a fallback they
give the same answer, be it a compiled template or an error; and a strict compilation
fails with the first fallback that the lenient one takes, whatever becomes of the
lenient one after that. -/
theorem compile_strict_eq (d : Dialect) (preferences : CompilerPreferences)
    (name source : String) :
    (compile d { preferences with strictLabels := true } name source).1
      = strictAnswer (compile d { preferences with strictLabels := false } name source) := by
  rw [strictAnswer, Compile.fallbacks_compile, Compile.compile_fst, Compile.compile_fst]
  cases Compile.front source with
  | error error => simp only [Except.bind]
  | ok stages =>
    obtain ⟨lexed, summary, template⟩ := stages
    have hstrict : ({ preferences with strictLabels := true } : CompilerPreferences).policy
        = .strict := rfl
    have hlenient : ({ preferences with strictLabels := false } : CompilerPreferences).policy
        = .lenient := rfl
    simp only [Except.bind, Compile.back, hstrict, hlenient]
    rcases Compile.render_policies d template with
      ⟨hnone, hsame⟩ | ⟨label, span, more, hnew, herror⟩
    · rw [hnone, hsame]
      cases (Compile.render d .lenient template).1 <;> rfl
    · rw [hnew, herror]

end QueryMachine
