import QueryMachine.Proofs.Render.Resolved
import QueryMachine.Render

/-!
# The calls of a rendering

Rendering threads one session through everything it evaluates, and what a call
answers depends on all calls before it. The relations here follow the rendering
and write those calls down, in the order in which they are made: the arguments of
a call before the call itself, one item after the other.

They are rules, not another evaluator. `runs_of_items` gives a derivation for
every rendering that succeeds, and the files that reason about programs take the
derivations apart and never look at the evaluator again. Along with the calls a
derivation keeps the value of every item, which is what the item adds to the text
once the placeholders in it are known.
-/

namespace QueryMachine

/-! ## The names that are called -/

namespace Expr

mutual

/-- The functions that an expression calls. -/
def callNames : Expr → List String
  | str .. | int .. | var .. => []
  | call name args _ => callNamesAll args ++ [name]

def callNamesAll : List Expr → List String
  | [] => []
  | e :: es => e.callNames ++ callNamesAll es

end

end Expr

def Item.callNames : Item → List String
  | data .. => []
  | output e _ | set _ e _ => e.callNames

def Node.callNames : Node → List String
  | item i => i.callNames
  | region body _ => body.flatMap Item.callNames

def Template.callNames (t : Template) : List String :=
  t.nodes.flatMap Node.callNames

namespace Render

/-! ## The rules -/

/-- A call that succeeded: the function, the arguments and the answer. -/
structure Call where
  name : String
  args : List Value
  answer : Value
  deriving DecidableEq, Repr

/-- Whether a call is of the function of that name. -/
def Call.isOf (name : String) (c : Call) : Bool := c.name == name

mutual

/-- An expression has a value, after some calls. -/
inductive Evaluates (d : Dialect) : Session → Expr → Value → List Call → Session → Prop where
  | str (value : String) (span : Span) (s : Session) :
      Evaluates d s (.str value span) (.str value) [] s
  | int (value : Int) (span : Span) (s : Session) :
      Evaluates d s (.int value span) (.int value) [] s
  | var (name : String) (span : Span) {s : Session} {value : Value} :
      s.bindings[name]? = some value → Evaluates d s (.var name span) value [] s
  | call (name : String) (span : Span) {s s' s'' : Session} {args : List Expr}
      {values : List Value} {answer : Value} {calls : List Call} :
      EvaluatesAll d s args values calls s' →
      Render.call d name values span s' = (.ok answer, s'') →
      Evaluates d s (.call name args span) answer (calls ++ [⟨name, values, answer⟩]) s''

/-- Arguments have values, from the first to the last; none is deferred. -/
inductive EvaluatesAll (d : Dialect) :
    Session → List Expr → List Value → List Call → Session → Prop where
  | nil (s : Session) : EvaluatesAll d s [] [] [] s
  | cons {s s' s'' : Session} {e : Expr} {es : List Expr} {value : Value}
      {values : List Value} {calls calls' : List Call} :
      Evaluates d s e value calls s' → (∀ thunk, value ≠ .deferred thunk) →
      EvaluatesAll d s' es values calls' s'' →
      EvaluatesAll d s (e :: es) (value :: values) (calls ++ calls') s''

end

/-- An item is rendered, after some calls; it adds a value to the output, or
nothing if it sets a variable. -/
inductive ItemRuns (d : Dialect) :
    Session → Item → Option Value → List Call → Session → Prop where
  | data (text : String) (span : Span) (s : Session) :
      ItemRuns d s (.data text span) (some (.str text)) [] s
  | output (span : Span) {s s' : Session} {e : Expr} {value : Value} {calls : List Call} :
      Evaluates d s e value calls s' → ItemRuns d s (.output e span) (some value) calls s'
  | set (name : String) (span : Span) {s s' : Session} {e : Expr} {value : Value}
      {calls : List Call} : Evaluates d s e value calls s' →
      ItemRuns d s (.set name e span) none calls (s'.assign name value)

/-- Items are rendered one after the other. -/
inductive Runs (d : Dialect) :
    Session → List Item → List (Option Value) → List Call → Session → Prop where
  | nil (s : Session) : Runs d s [] [] [] s
  | cons {s s' s'' : Session} {i : Item} {is : List Item} {value : Option Value}
      {values : List (Option Value)} {calls calls' : List Call} :
      ItemRuns d s i value calls s' → Runs d s' is values calls' s'' →
      Runs d s (i :: is) (value :: values) (calls ++ calls') s''

/-! ## Every rendering follows the rules -/

variable {d : Dialect}

mutual

theorem evaluates_of_eval {e : Expr} {s s' : Session} {value : Value}
    (h : eval d e s = (.ok value, s')) : ∃ calls, Evaluates d s e value calls s' := by
  match e with
  | .str text span =>
    cases h
    exact ⟨[], .str text span s⟩
  | .int n span =>
    cases h
    exact ⟨[], .int n span s⟩
  | .var name span =>
    rw [eval] at h
    split at h
    · next found =>
      cases h
      exact ⟨[], .var name span found⟩
    · cases h
  | .call name args span =>
    rw [eval] at h
    split at h
    · next values s₁ hargs =>
      obtain ⟨values', calls, rfl, hall⟩ := evaluatesAll_of_evalArgs hargs
      exact ⟨_, .call name span hall h⟩
    · cases h

theorem evaluatesAll_of_evalArgs {function : String} {before : List Value} {args : List Expr}
    {s s' : Session} {values : List Value}
    (h : evalArgs d function before args s = (.ok values, s')) :
    ∃ values' calls, values = before.reverse ++ values' ∧
      EvaluatesAll d s args values' calls s' := by
  match args with
  | [] =>
    cases h
    exact ⟨[], [], by simp, .nil s⟩
  | arg :: rest =>
    rw [evalArgs] at h
    split at h
    · cases h
    · next value s₁ hnot harg =>
      obtain ⟨calls, hvalue⟩ := evaluates_of_eval harg
      obtain ⟨values', calls', rfl, hall⟩ := evaluatesAll_of_evalArgs h
      refine ⟨value :: values', calls ++ calls', by simp, .cons hvalue ?_ hall⟩
      intro thunk heq
      exact hnot thunk heq
    · cases h

end

/-- What an item adds to the text, given the codes of the placeholders. -/
def addedText (code : Thunk → String) : Option Value → String
  | none => ""
  | some (.str text) => text
  | some (.int value) => toString value
  | some (.deferred thunk) => code thunk

def addedThunk? : Option Value → Option Thunk
  | some (.deferred thunk) => some thunk
  | _ => none

/-- The output grows by what the items add, in order. -/
def Adds (out out' : Rendered) (values : List (Option Value)) : Prop :=
  (∀ code, out'.textWith code
    = out.textWith code ++ String.join (values.map (addedText code))) ∧
  out'.thunks = out.thunks ++ values.filterMap addedThunk?

theorem Adds.refl (out : Rendered) : Adds out out [] :=
  ⟨by simp, by simp⟩

theorem Adds.cons {out out' out'' : Rendered} {value : Option Value}
    {values : List (Option Value)} (h : Adds out out' [value]) (h' : Adds out' out'' values) :
    Adds out out'' (value :: values) := by
  refine ⟨?_, ?_⟩
  · intro code
    rw [h'.1, h.1, String.append_assoc, ← String.join_append]
    rfl
  · rw [h'.2, h.2, List.append_assoc, ← List.filterMap_append]
    rfl

theorem adds_emit (out : Rendered) (value : Value) (span : Span) :
    Adds out (emit out value span) [some value] := by
  cases value with
  | str text => exact ⟨fun code => by simp [emit, Rendered.textWith_pushText, addedText],
      by simp [emit, Rendered.thunks_pushText, addedThunk?]⟩
  | int n => exact ⟨fun code => by simp [emit, Rendered.textWith_pushText, addedText],
      by simp [emit, Rendered.thunks_pushText, addedThunk?]⟩
  | deferred thunk =>
    exact ⟨fun code => by simp [emit, Rendered.textWith_pushThunk, addedText],
      by simp [emit, Rendered.thunks_pushThunk, addedThunk?]⟩

theorem itemRuns_of_item {out out' : Rendered} {i : Item} {s s' : Session}
    (h : item d out i s = (.ok out', s')) :
    ∃ value calls, ItemRuns d s i value calls s' ∧ Adds out out' [value] := by
  cases i with
  | data text span =>
    cases h
    refine ⟨some (.str text), [], .data text span s, ?_⟩
    exact adds_emit out (.str text) span
  | output e span =>
    rw [item] at h
    split at h
    · next value s₁ heval =>
      cases h
      obtain ⟨calls, hvalue⟩ := evaluates_of_eval heval
      exact ⟨some value, calls, .output span hvalue, adds_emit out value e.span⟩
    · cases h
  | set name e span =>
    rw [item] at h
    split at h
    · next value s₁ heval =>
      cases h
      obtain ⟨calls, hvalue⟩ := evaluates_of_eval heval
      refine ⟨none, calls, .set name span hvalue, ?_, ?_⟩
      · intro code
        simp [addedText]
      · simp [addedThunk?]
    · cases h

theorem runs_of_items {out out' : Rendered} {is : List Item} {s s' : Session}
    (h : items d out is s = (.ok out', s')) :
    ∃ values calls, Runs d s is values calls s' ∧ Adds out out' values := by
  induction is generalizing out s with
  | nil =>
    cases h
    exact ⟨[], [], .nil _, .refl _⟩
  | cons i is ih =>
    rw [items] at h
    split at h
    · next out₁ s₁ hitem =>
      obtain ⟨value, calls, hi, hadds⟩ := itemRuns_of_item hitem
      obtain ⟨values, calls', his, hadds'⟩ := ih h
      exact ⟨value :: values, calls ++ calls', .cons hi his, hadds.cons hadds'⟩
    · cases h

/-! ## What the calls are -/

mutual

theorem name_mem_of_evaluates {e : Expr} {s s' : Session} {value : Value}
    {calls : List Call} (h : Evaluates d s e value calls s') :
    ∀ c ∈ calls, c.name ∈ e.callNames := by
  match h with
  | .str .. | .int .. | .var .. => simp
  | .call name span hargs hcall =>
    intro c hc
    rw [Expr.callNames, List.mem_append, List.mem_singleton]
    rcases List.mem_append.mp hc with hc | hc
    · exact .inl (name_mem_of_evaluatesAll hargs c hc)
    · rw [List.mem_singleton.mp hc]
      exact .inr rfl

theorem name_mem_of_evaluatesAll {es : List Expr} {s s' : Session} {values : List Value}
    {calls : List Call} (h : EvaluatesAll d s es values calls s') :
    ∀ c ∈ calls, c.name ∈ Expr.callNamesAll es := by
  match h with
  | .nil _ => simp
  | .cons hvalue _ hall =>
    intro c hc
    rw [Expr.callNamesAll, List.mem_append]
    rcases List.mem_append.mp hc with hc | hc
    · exact .inl (name_mem_of_evaluates hvalue c hc)
    · exact .inr (name_mem_of_evaluatesAll hall c hc)

end

/-- Items make no calls but those written in them. -/
theorem name_mem_of_runs {is : List Item} {s s' : Session} {values : List (Option Value)}
    {calls : List Call} (h : Runs d s is values calls s') :
    ∀ c ∈ calls, c.name ∈ is.flatMap Item.callNames := by
  induction h with
  | nil => simp
  | cons hi _ ih =>
    intro c hc
    rw [List.flatMap_cons, List.mem_append]
    rcases List.mem_append.mp hc with hc | hc
    · refine .inl ?_
      cases hi with
      | data => cases hc
      | output _ hvalue => exact name_mem_of_evaluates hvalue c hc
      | set _ _ hvalue => exact name_mem_of_evaluates hvalue c hc
    · exact .inr (ih c hc)

end Render

end QueryMachine
