import QueryMachine.Dialect.MySql
import QueryMachine.Proofs.Render.Trace

/-!
# What calls do to the machine

A region is numbered by the calls that are made while it is rendered, and only
three functions take part in that: the prologue starts over, a statement goes on
to the next number, and a label binds its name to the number reached. `Steps`
says so for the MySQL dialect, one rule a function and one for all the rest, and
`steps_of_call` is the only place where the dialect's code is opened.

Everything else is about a sequence of calls. Where it holds no prologue, the
statements in it are numbered without a gap, the counter has moved by their
number, and a label is bound to the number of statements before it. These are
inductions on the sequence that carry the machine's counter along.
-/

namespace QueryMachine.MySql

open Render

/-- The call that starts a program. -/
def prologueCall : Call := ⟨Operation.prologue.name, [], .str head⟩

/-- What a successful call does to the machine. -/
inductive Steps : Machine → Call → Machine → Prop where
  | prologue (m : Machine) : Steps m prologueCall m.restart
  | statement (m : Machine) :
      Steps m ⟨Operation.statement.name, [], .str (branch (m.counter + 1))⟩ m.advance
  | label {m : Machine} {name : String} : m.address? name = none →
      Steps m ⟨Operation.label.name, [.str name], .str "0"⟩
        { m with labels := m.labels.insert name m.counter }
  | other {m m' : Machine} {c : Call} : c.name ≠ Operation.prologue.name →
      c.name ≠ Operation.statement.name → c.name ≠ Operation.label.name →
      m'.counter = m.counter → m'.labels = m.labels → Steps m c m'

/-! ## One call -/

theorem eq_of_ofName? {name : String} {op : Operation} (h : Operation.ofName? name = some op) :
    name = op.name := by
  have := List.find?_some h
  exact (beq_iff_eq.mp this).symm

theorem name_injective {a b : Operation} (h : a.name = b.name) : a = b := by
  have := Operation.ofName?_name a
  rw [h, Operation.ofName?_name] at this
  exact (Option.some.inj this).symm

/-- What a name can be called as in this dialect. -/
theorem callable_cases {name : String} {f : Callable} (h : callable? dialect name = some f) :
    (∃ op : Operation, name = op.name ∧ f = ⟨op.arity, op.invoke dialect⟩) ∨
      name = setStepsName ∧ f = ⟨1, setSteps⟩ := by
  unfold callable? at h
  split at h
  · next op hop =>
    cases h
    exact .inl ⟨op, eq_of_ofName? hop, rfl⟩
  · obtain ⟨e, he, rfl⟩ := Option.map_eq_some_iff.mp h
    have hinsert : dialect.extensions
        = (∅ : Extensions).insert setStepsName ⟨setStepsName, 1, setSteps⟩ := rfl
    rw [hinsert, Std.TreeMap.getElem?_insert] at he
    split at he
    · next heq =>
      cases he
      exact .inr ⟨(Std.LawfulEqCmp.eq_of_compare heq).symm, rfl⟩
    · simp at he

/-- An action that changes the machine and answers with a fixed text. -/
theorem update_text (f : Machine → Except DialectError Machine) (s : String) (m : Machine) :
    (do Action.update f; Action.text s : Action Fragment) m
      = match f m with
        | .ok m' => (.ok (.text s), m')
        | .error error => (.error error, m) := by
  simp only [Action.update, bind, ExceptT.bind, ExceptT.mk, StateT.bind]
  cases f m <;> rfl

theorem frame_of_setSteps {m m' : Machine} {args : List Value} {fragment : Fragment}
    (h : setSteps args m = (.ok fragment, m')) :
    m'.counter = m.counter ∧ m'.labels = m.labels := by
  unfold setSteps at h
  split at h
  · next bits =>
    rw [update_text] at h
    split at h
    · next m₁ hset =>
      cases h
      unfold Machine.setStepBits at hset
      split at hset
      · cases hset
        exact ⟨rfl, rfl⟩
      · cases hset
    · cases h
  · cases h
  · cases h

theorem steps_of_label {name : String} {m m' : Machine} {fragment : Fragment}
    (h : dialect.label name m = (.ok fragment, m')) :
    Steps m ⟨Operation.label.name, [.str name], .ofFragment fragment⟩ m' := by
  rw [show dialect.label name m = _ from update_text (·.defineLabel name) "0" m] at h
  split at h
  · next m₁ hdefine =>
    cases h
    unfold Machine.defineLabel at hdefine
    split at hdefine
    · cases hdefine
    · next hfree =>
      split at hdefine
      · cases hdefine
      · cases hdefine
        exact .label hfree
  · cases h

/-- A function that is given a label's name is given a string. -/
theorem eq_str_of_withLabel {op : Operation} {value : Value} {f : String → Action Fragment}
    {m m' : Machine} {fragment : Fragment}
    (h : op.withLabel value f m = (.ok fragment, m')) :
    ∃ name, value = .str name ∧ f name m = (.ok fragment, m') := by
  cases value with
  | str name => exact ⟨name, rfl, h⟩
  | int => cases h
  | deferred => cases h

theorem eq_of_ofExcept {result : Except DialectError Fragment} {m m' : Machine}
    {fragment : Fragment} (h : Action.ofExcept result m = (.ok fragment, m')) : m' = m :=
  (congrArg Prod.snd h).symm

/-- A core operation takes part in the numbering or leaves it alone. -/
theorem steps_of_invoke {op : Operation} {args : List Value} {m m' : Machine}
    {fragment : Fragment} (harity : args.length = op.arity)
    (h : op.invoke dialect args m = (.ok fragment, m')) :
    Steps m ⟨op.name, args, .ofFragment fragment⟩ m' := by
  have hother : op ≠ .prologue → op ≠ .statement → op ≠ .label → m' = m →
      Steps m ⟨op.name, args, .ofFragment fragment⟩ m' := by
    rintro hp hs hl rfl
    exact .other (mt name_injective hp) (mt name_injective hs) (mt name_injective hl) rfl rfl
  cases op with
  | prologue =>
    obtain rfl := List.length_eq_zero_iff.mp harity
    cases h
    exact .prologue m
  | statement =>
    obtain rfl := List.length_eq_zero_iff.mp harity
    cases h
    exact .statement m
  | label =>
    obtain ⟨value, rfl⟩ := List.length_eq_one_iff.mp harity
    obtain ⟨name, rfl, h⟩ := eq_str_of_withLabel h
    exact steps_of_label h
  | epilogue | exit | nop =>
    obtain rfl := List.length_eq_zero_iff.mp harity
    cases h
    exact hother (by decide) (by decide) (by decide) rfl
  | jump =>
    obtain ⟨value, rfl⟩ := List.length_eq_one_iff.mp harity
    obtain ⟨name, rfl, h⟩ := eq_str_of_withLabel h
    cases h
    exact hother (by decide) (by decide) (by decide) rfl
  | alloc =>
    obtain ⟨count, rfl⟩ := List.length_eq_one_iff.mp harity
    exact hother (by decide) (by decide) (by decide) (eq_of_ofExcept h)
  | load | store =>
    match args, harity with
    | [a, b], _ => exact hother (by decide) (by decide) (by decide) (eq_of_ofExcept h)

/-- A successful call is a step of the machine, and leaves the variables and the
reports alone. -/
theorem steps_of_call {name : String} {args : List Value} {span : Span} {s s' : Session}
    {answer : Value} (h : Render.call dialect name args span s = (.ok answer, s')) :
    Steps s.machine ⟨name, args, answer⟩ s'.machine ∧ s'.reports = s.reports := by
  unfold Render.call at h
  split at h
  · cases h
  · next f hf =>
    split at h
    · cases h
    · next harity =>
      cases hrun : f.run args s.machine with
      | mk result machine =>
        simp only [hrun] at h
        cases result with
        | error => cases h
        | ok fragment =>
          cases h
          refine ⟨?_, rfl⟩
          rcases callable_cases hf with ⟨op, rfl, rfl⟩ | ⟨rfl, rfl⟩
          · exact steps_of_invoke (by simpa using harity) hrun
          · obtain ⟨hcounter, hlabels⟩ := frame_of_setSteps hrun
            have hname : ∀ op : Operation, setStepsName ≠ op.name := by
              intro op
              cases op <;> decide
            exact .other (hname _) (hname _) (hname _) hcounter hlabels

/-! ## Calls in a row -/

inductive History : Machine → List Call → Machine → Prop where
  | nil (m : Machine) : History m [] m
  | cons {m m' m'' : Machine} {c : Call} {cs : List Call} : Steps m c m' →
      History m' cs m'' → History m (c :: cs) m''

theorem History.append {m m' m'' : Machine} {cs cs' : List Call} (h : History m cs m')
    (h' : History m' cs' m'') : History m (cs ++ cs') m'' := by
  induction h with
  | nil => exact h'
  | cons hc _ ih => exact .cons hc (ih h')

mutual

theorem history_of_evaluates {e : Expr} {s s' : Session} {value : Value} {calls : List Call}
    (h : Evaluates dialect s e value calls s') :
    History s.machine calls s'.machine ∧ s'.reports = s.reports := by
  match h with
  | .str .. | .int .. | .var .. => exact ⟨.nil _, rfl⟩
  | .call name span hargs hcall =>
    obtain ⟨hhistory, hreports⟩ := history_of_evaluatesAll hargs
    obtain ⟨hstep, hreports'⟩ := steps_of_call hcall
    exact ⟨hhistory.append (.cons hstep (.nil _)), hreports'.trans hreports⟩

theorem history_of_evaluatesAll {es : List Expr} {s s' : Session} {values : List Value}
    {calls : List Call} (h : EvaluatesAll dialect s es values calls s') :
    History s.machine calls s'.machine ∧ s'.reports = s.reports := by
  match h with
  | .nil _ => exact ⟨.nil _, rfl⟩
  | .cons hvalue _ hall =>
    obtain ⟨hhistory, hreports⟩ := history_of_evaluates hvalue
    obtain ⟨hhistory', hreports'⟩ := history_of_evaluatesAll hall
    exact ⟨hhistory.append hhistory', hreports'.trans hreports⟩

end

theorem history_of_itemRuns {i : Item} {s s' : Session} {value : Option Value}
    {calls : List Call} (h : ItemRuns dialect s i value calls s') :
    History s.machine calls s'.machine ∧ s'.reports = s.reports := by
  cases h with
  | data => exact ⟨.nil _, rfl⟩
  | output _ hvalue => exact history_of_evaluates hvalue
  | set _ _ hvalue =>
    obtain ⟨hhistory, hreports⟩ := history_of_evaluates hvalue
    exact ⟨hhistory, hreports⟩

theorem history_of_runs {is : List Item} {s s' : Session} {values : List (Option Value)}
    {calls : List Call} (h : Runs dialect s is values calls s') :
    History s.machine calls s'.machine ∧ s'.reports = s.reports := by
  induction h with
  | nil => exact ⟨.nil _, rfl⟩
  | cons hi _ ih =>
    obtain ⟨hhistory, hreports⟩ := history_of_itemRuns hi
    exact ⟨hhistory.append ih.1, ih.2.trans hreports⟩

def IsLabel (name : String) (c : Call) : Prop :=
  c.name = Operation.label.name ∧ c.args = [.str name]

/-- How many statements there are among some calls. -/
def statementCount (calls : List Call) : Nat :=
  calls.countP (Call.isOf Operation.statement.name)

/-- No call starts the numbering over. -/
def Uninterrupted (calls : List Call) : Prop :=
  ∀ c ∈ calls, c.name ≠ Operation.prologue.name

theorem statementCount_cons (c : Call) (cs : List Call) :
    statementCount (c :: cs)
      = statementCount cs + if c.isOf Operation.statement.name then 1 else 0 :=
  List.countP_cons ..

theorem statementCount_prologue (cs : List Call) :
    statementCount (prologueCall :: cs) = statementCount cs := by
  rw [statementCount_cons]
  rfl

theorem restart_of_steps {m m' : Machine} {c : Call} (h : Steps m c m')
    (hc : c.name = Operation.prologue.name) :
    c = prologueCall ∧ m' = m.restart := by
  cases h with
  | prologue => exact ⟨rfl, rfl⟩
  | statement => cases name_injective (a := .statement) (b := .prologue) hc
  | label => cases name_injective (a := .label) (b := .prologue) hc
  | other hp => exact absurd hc hp

theorem counter_of_steps {m m' : Machine} {c : Call} (h : Steps m c m')
    (hc : c.name ≠ Operation.prologue.name) :
    m'.counter = m.counter + if c.isOf Operation.statement.name then 1 else 0 := by
  cases h with
  | prologue => exact absurd rfl hc
  | statement => rfl
  | label hfree => exact (Int.add_zero _).symm
  | other hp hs hl hcounter hlabels =>
    have hnot : c.isOf Operation.statement.name = false := by simpa [Call.isOf] using hs
    rw [hcounter, hnot]
    exact (Int.add_zero _).symm

/-- A label that is bound for the first time is added to those that are. -/
theorem getElem?_insert_iff {labels : Std.TreeMap String Int} {new : String} {counter : Int}
    (hfree : labels[new]? = none) (name : String) (address : Int) :
    (labels.insert new counter)[name]? = some address ↔
      labels[name]? = some address ∨ new = name ∧ counter = address := by
  rw [Std.TreeMap.getElem?_insert]
  by_cases hnew : new = name
  · subst hnew
    simp [hfree]
  · have hcompare : compare new name ≠ .eq := by
      intro heq
      exact hnew (Std.LawfulEqCmp.eq_of_compare heq)
    simp [hcompare, hnew]

theorem labels_of_steps {m m' : Machine} {c : Call} (h : Steps m c m')
    (hc : c.name ≠ Operation.prologue.name) (name : String) (address : Int) :
    m'.labels[name]? = some address ↔
      m.labels[name]? = some address ∨ IsLabel name c ∧ address = m.counter := by
  cases h with
  | prologue => exact absurd rfl hc
  | statement => simp [Machine.advance, IsLabel, Operation.name]
  | @label new hfree =>
    rw [getElem?_insert_iff hfree]
    simp [IsLabel, eq_comm]
  | other hp hs hl hcounter hlabels =>
    simp [hlabels, IsLabel, hl]

/-- The counter moves by the number of statements. -/
theorem counter_of_history {m m' : Machine} {calls : List Call} (h : History m calls m')
    (hcalls : Uninterrupted calls) : m'.counter = m.counter + statementCount calls := by
  induction h with
  | nil => exact (Int.add_zero _).symm
  | cons hstep _ ih =>
    rw [Uninterrupted, List.forall_mem_cons] at hcalls
    rw [ih hcalls.2, counter_of_steps hstep hcalls.1, statementCount_cons]
    split <;> omega

/-- Statements are answered with the heads of their branches, numbered in a row. -/
theorem answers_of_history {m m' : Machine} {calls : List Call} (h : History m calls m')
    (hcalls : Uninterrupted calls) :
    (calls.filter (Call.isOf Operation.statement.name)).map Call.answer
      = (List.range (statementCount calls)).map
          fun i : Nat => .str (branch (m.counter + 1 + i)) := by
  induction h with
  | nil => rfl
  | @cons m m' m'' c cs hstep _ ih =>
    rw [Uninterrupted, List.forall_mem_cons] at hcalls
    have hcounter := counter_of_steps hstep hcalls.1
    cases hstatement : c.isOf Operation.statement.name with
    | false =>
      rw [hstatement] at hcounter
      rw [List.filter_cons_of_neg (by simp [hstatement]), ih hcalls.2, statementCount_cons,
        hstatement, hcounter]
      simp
    | true =>
      have hanswer : c.answer = .str (branch (m.counter + 1)) := by
        have hname : c.name = Operation.statement.name := by simpa [Call.isOf] using hstatement
        cases hstep with
        | prologue => exact absurd rfl hcalls.1
        | statement => rfl
        | label => cases name_injective (a := .label) (b := .statement) hname
        | other hp hs => exact absurd hname hs
      rw [hstatement] at hcounter
      rw [List.filter_cons_of_pos hstatement, List.map_cons, ih hcalls.2, hanswer,
        statementCount_cons, hstatement, if_pos rfl, List.range_succ_eq_map, List.map_cons,
        List.map_map]
      refine List.cons_eq_cons.mpr ⟨?_, ?_⟩
      · simp
      · apply List.map_congr_left
        intro i _
        rw [hcounter]
        simp only [Function.comp_apply, Nat.succ_eq_add_one, Int.natCast_add, if_true]
        congr 2
        omega

/-- Some call defines the label, after so many statements. -/
def Defines (calls : List Call) (name : String) (count : Nat) : Prop :=
  ∃ before c after, calls = before ++ c :: after ∧ IsLabel name c ∧
    count = statementCount before

theorem not_defines_nil {name : String} {count : Nat} : ¬ Defines [] name count := by
  rintro ⟨before, c, after, h, -⟩
  cases before <;> cases h

theorem defines_cons {c : Call} {cs : List Call} {name : String} {count : Nat} :
    Defines (c :: cs) name count ↔
      (IsLabel name c ∧ count = 0) ∨
      ∃ rest, Defines cs name rest ∧
        count = rest + if c.isOf Operation.statement.name then 1 else 0 := by
  constructor
  · rintro ⟨before, l, after, h, hl, rfl⟩
    cases before with
    | nil =>
      rw [List.nil_append, List.cons.injEq] at h
      rw [h.1]
      exact .inl ⟨hl, rfl⟩
    | cons b before =>
      rw [List.cons_append, List.cons.injEq] at h
      obtain ⟨rfl, rfl⟩ := h
      exact .inr ⟨_, ⟨before, l, after, rfl, hl, rfl⟩, statementCount_cons ..⟩
  · rintro (⟨hc, rfl⟩ | ⟨rest, ⟨before, l, after, rfl, hl, rfl⟩, rfl⟩)
    · exact ⟨[], c, cs, rfl, hc, rfl⟩
    · exact ⟨c :: before, l, after, rfl, hl, (statementCount_cons ..).symm⟩

theorem defines_prologue {cs : List Call} {name : String} {count : Nat} :
    Defines (prologueCall :: cs) name count ↔ Defines cs name count := by
  rw [defines_cons]
  constructor
  · rintro (⟨hlabel, -⟩ | ⟨rest, hrest, rfl⟩)
    · cases name_injective (a := .prologue) (b := .label) hlabel.1
    · exact hrest
  · intro h
    exact .inr ⟨count, h, rfl⟩

/-- A label is bound to the number reached where it is defined. -/
theorem labels_of_history {m m' : Machine} {calls : List Call} (h : History m calls m')
    (hcalls : Uninterrupted calls) (name : String) (address : Int) :
    m'.labels[name]? = some address ↔
      m.labels[name]? = some address ∨
        ∃ count, Defines calls name count ∧ address = m.counter + count := by
  induction h with
  | nil => simp [not_defines_nil]
  | @cons m m' m'' c cs hstep _ ih =>
    rw [Uninterrupted, List.forall_mem_cons] at hcalls
    rw [ih hcalls.2, labels_of_steps hstep hcalls.1, counter_of_steps hstep hcalls.1, or_assoc]
    refine or_congr_right ?_
    constructor
    · rintro (⟨hc, rfl⟩ | ⟨count, hcount, rfl⟩)
      · exact ⟨0, defines_cons.mpr (.inl ⟨hc, rfl⟩), (Int.add_zero _).symm⟩
      · refine ⟨_, defines_cons.mpr (.inr ⟨count, hcount, rfl⟩), ?_⟩
        split <;> omega
    · rintro ⟨count, hcount, rfl⟩
      rcases defines_cons.mp hcount with ⟨hc, rfl⟩ | ⟨rest, hrest, rfl⟩
      · exact .inl ⟨hc, Int.add_zero _⟩
      · refine .inr ⟨rest, hrest, ?_⟩
        split <;> omega

end QueryMachine.MySql
