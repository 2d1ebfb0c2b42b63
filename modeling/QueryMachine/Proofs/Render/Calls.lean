import QueryMachine.Proofs.Dialect.History
import QueryMachine.Proofs.Render.Pushes
import QueryMachine.Proofs.Render.Sequence

/-!
# A rendering calls functions as they are meant to be called

A function of a dialect may be given any number of values, of any kind, and it has
answers for the wrong ones. A rendering never hears those answers: it counts arguments
and refuses deferred ones before it calls. That has to be said of renderings that fail as
well, since a failing rendering has made calls too, the last of which may be the reason.

So the calls are written down next to the evaluator, in the order in which they are made
and up to the point where it stops; the rules for successful renderings would lose them.
That none is left out can be checked against the rendering itself, which gives a notice
of every call. `Accounted` puts together what is known of a part of a rendering: these
notices, that its calls are proper, and that a failure is either one of the renderer's
own or the answer of one of these calls. It is closed under `andThen`, and a variable
may hold what it likes.
-/

namespace QueryMachine

/-- A value that is not deferred. -/
def Value.Known (v : Value) : Prop := ∀ thunk, v ≠ .deferred thunk

theorem Value.known_str (text : String) : (str text).Known := by
  rintro thunk ⟨⟩

theorem Value.known_int (n : Int) : (int n).Known := by
  rintro thunk ⟨⟩

namespace Render

/-- A call of a function on a machine. -/
structure Invocation where
  name : String
  function : Callable
  args : List Value
  machine : Machine

namespace Invocation

/-- What the function answers. -/
def outcome (i : Invocation) : Except DialectError Fragment :=
  (i.function.run i.args i.machine).1

/-- The notice that is given of a call. -/
def notice (i : Invocation) : Notice :=
  .called i.name i.function.arity (i.function.run i.args i.machine).2.counter

/-- The function of that name is called with as many arguments as it takes, and all of
them are known. -/
structure Proper (d : Dialect) (i : Invocation) : Prop where
  function : callable? d i.name = some i.function
  arity : i.args.length = i.function.arity
  known : ∀ v ∈ i.args, v.Known

end Invocation

/-! ## The calls of a rendering -/

variable {α β : Type}

/-- The calls that follow a run, which are none if it failed. -/
def callsThen (run : Except RenderError α × Session) (next : α → Session → List Invocation) :
    List Invocation :=
  match run with
  | (.ok a, s) => next a s
  | (.error _, _) => []

/-- The call of a function, unless there is none or it takes more or fewer arguments. -/
def callsOfCall (d : Dialect) (name : String) (args : List Value) (s : Session) :
    List Invocation :=
  match callable? d name with
  | none => []
  | some f => if args.length ≠ f.arity then [] else [⟨name, f, args, s.machine⟩]

mutual

/-- The calls made while an expression is evaluated. -/
def callsOfEval (d : Dialect) : Expr → Session → List Invocation
  | .str .., _ | .int .., _ | .var .., _ => []
  | .call name args _, s =>
    callsOfArgs d name [] args s ++ callsThen (evalArgs d name [] args s) (callsOfCall d name)

def callsOfArgs (d : Dialect) (function : String) (before : List Value) :
    List Expr → Session → List Invocation
  | [], _ => []
  | arg :: rest, s =>
    callsOfEval d arg s ++ callsThen (eval d arg s) fun value s =>
      match value with
      | .deferred _ => []
      | value => callsOfArgs d function (value :: before) rest s

end

def callsOfItem (d : Dialect) : Item → Session → List Invocation
  | .data .., _ => []
  | .output e _, s | .set _ e _, s => callsOfEval d e s

def callsOfItems (d : Dialect) (out : Rendered) : List Item → Session → List Invocation
  | [], _ => []
  | i :: rest, s =>
    callsOfItem d i s ++ callsThen (item d out i s) fun out s => callsOfItems d out rest s

def callsOfNode (d : Dialect) : Node → Session → List Invocation
  | .item i, s => callsOfItem d i s
  | .region body span, s => callsOfItems d {} body (s.note (.regionStarted span))

def callsOfNodes (d : Dialect) (policy : LabelPolicy) (out : Rendered) :
    List Node → Session → List Invocation
  | [], _ => []
  | n :: rest, s =>
    callsOfNode d n s ++
      callsThen (node d policy out n s) fun out s => callsOfNodes d policy out rest s

end Render

open Render in
/-- The calls of a rendering, also of one that fails. -/
def Template.invocations (d : Dialect) (policy : LabelPolicy) (t : Template) (s : Session) :
    List Invocation :=
  callsOfNodes d policy {} t.nodes s

/-- The notice of a call. -/
def Notice.isCall : Notice → Bool
  | called .. => true
  | _ => false

/-- The notices of calls, in order. -/
def callNotices (notices : Array Notice) : List Notice :=
  notices.toList.filter Notice.isCall

@[simp] theorem callNotices_append (as bs : Array Notice) :
    callNotices (as ++ bs) = callNotices as ++ callNotices bs := by
  simp [callNotices]

theorem callNotices_push (notices : Array Notice) (n : Notice) :
    callNotices (notices.push n) = callNotices notices ++ [n].filter Notice.isCall := by
  simp [callNotices]

namespace Render

/-- Why a rendering fails that made these calls. -/
inductive Explained (policy : LabelPolicy) (calls : List Invocation) : RenderError → Prop where
  | unknownFunction (name : String) (span : Span) :
      Explained policy calls (.unknownFunction name span)
  | argumentCount (function : String) (expected found : Nat) (span : Span) :
      Explained policy calls (.argumentCount function expected found span)
  | undefinedVariable (name : String) (span : Span) :
      Explained policy calls (.undefinedVariable name span)
  | deferredArgument (function : String) (span : Span) :
      Explained policy calls (.deferredArgument function span)
  /-- One of the calls failed. -/
  | dialect {i : Invocation} {error : DialectError} (span : Span) : i ∈ calls →
      i.outcome = .error error → Explained policy calls (.dialect error span)
  | undefinedLabel (name : String) (span : Span) : policy = .strict →
      Explained policy calls (.resolve (.undefinedLabel name span))

theorem Explained.mono {policy : LabelPolicy} {calls calls' : List Invocation}
    {error : RenderError} (h : Explained policy calls error) (hsub : ∀ i ∈ calls, i ∈ calls') :
    Explained policy calls' error := by
  cases h with
  | unknownFunction name span => exact .unknownFunction name span
  | argumentCount function expected found span =>
    exact .argumentCount function expected found span
  | undefinedVariable name span => exact .undefinedVariable name span
  | deferredArgument function span => exact .deferredArgument function span
  | dialect span hi houtcome => exact .dialect span (hsub _ hi) houtcome
  | undefinedLabel name span hstrict => exact .undefinedLabel name span hstrict

/-- What is known of a run from `s` that made these calls. -/
structure Accounted (d : Dialect) (policy : LabelPolicy) (s : Session) (calls : List Invocation)
    (good : α → Prop) (run : Except RenderError α × Session) : Prop where
  notices : callNotices run.2.notices = callNotices s.notices ++ calls.map Invocation.notice
  proper : ∀ i ∈ calls, i.Proper d
  value : ∀ a, run.1 = .ok a → good a
  error : ∀ error, run.1 = .error error → Explained policy calls error

variable {d : Dialect} {policy : LabelPolicy} {s : Session}

theorem Accounted.andThen {good : α → Prop} {good' : β → Prop} {calls : List Invocation}
    {more : α → Session → List Invocation} {run : Except RenderError α × Session}
    {next : α → Rendering β} (h : Accounted d policy s calls good run)
    (hnext : ∀ a s', good a → Accounted d policy s' (more a s') good' (next a s')) :
    Accounted d policy s (calls ++ callsThen run more) good' (andThen run next) := by
  obtain ⟨result, s'⟩ := run
  cases result with
  | error error =>
    refine ⟨?_, ?_, ?_, ?_⟩
    · rw [callsThen, List.append_nil]
      exact h.notices
    · rw [callsThen, List.append_nil]
      exact h.proper
    · rintro b ⟨⟩
    · rintro _ ⟨⟩
      rw [callsThen, List.append_nil]
      exact h.error error rfl
  | ok a =>
    have hmore := hnext a s' (h.value a rfl)
    refine ⟨?_, ?_, hmore.value, ?_⟩
    · rw [callsThen, List.map_append, ← List.append_assoc, ← h.notices]
      exact hmore.notices
    · rw [callsThen, List.forall_mem_append]
      exact ⟨h.proper, hmore.proper⟩
    · intro error herror
      exact (hmore.error error herror).mono fun i hi => List.mem_append_right _ hi

/-- A run that is gone on with without calls. -/
theorem Accounted.andThen_quiet {good : α → Prop} {good' : β → Prop} {calls : List Invocation}
    {run : Except RenderError α × Session} {next : α → Rendering β}
    (h : Accounted d policy s calls good run)
    (hnext : ∀ a s', good a → Accounted d policy s' [] good' (next a s')) :
    Accounted d policy s calls good' (Render.andThen run next) := by
  have hnone : callsThen run (fun _ _ => []) = [] := by
    obtain ⟨_ | _, _⟩ := run <;> rfl
  have hall : Accounted d policy s (calls ++ callsThen run fun _ _ => []) good'
      (Render.andThen run next) := h.andThen hnext
  rwa [hnone, List.append_nil] at hall

/-- A run that makes no call and gives a value. -/
theorem accounted_ok {good : α → Prop} {a : α} (ha : good a) {s' : Session}
    (hs : callNotices s'.notices = callNotices s.notices) :
    Accounted d policy s [] good (.ok a, s') := by
  refine ⟨?_, by simp, ?_, ?_⟩
  · rw [hs, List.map_nil, List.append_nil]
  · rintro _ ⟨⟩
    exact ha
  · rintro _ ⟨⟩

/-- A run that makes no call and fails. -/
theorem accounted_error {good : α → Prop} {error : RenderError}
    (herror : Explained policy [] error) :
    Accounted d policy s [] good (.error error, s) := by
  refine ⟨?_, by simp, ?_, ?_⟩
  · rw [List.map_nil, List.append_nil]
  · rintro _ ⟨⟩
  · rintro _ ⟨⟩
    exact herror

theorem accounted_call (name : String) {args : List Value}
    (hargs : ∀ v ∈ args, v.Known) (span : Span) (s : Session) :
    Accounted d policy s (callsOfCall d name args s) (fun _ => True) (call d name args span s) := by
  cases hf : callable? d name with
  | none =>
    simp only [call, callsOfCall, hf]
    exact accounted_error (.unknownFunction name span)
  | some f =>
    simp only [call, callsOfCall, hf]
    by_cases harity : args.length = f.arity
    · have hproper : Invocation.Proper d ⟨name, f, args, s.machine⟩ := ⟨hf, harity, hargs⟩
      rw [if_neg (not_not_intro harity), if_neg (not_not_intro harity)]
      cases hrun : f.run args s.machine with
      | mk result machine =>
        have hnotices : callNotices (s.notices.push (.called name f.arity machine.counter))
            = callNotices s.notices ++
              [(⟨name, f, args, s.machine⟩ : Invocation)].map Invocation.notice := by
          rw [callNotices_push]
          simp [Invocation.notice, hrun, Notice.isCall]
        cases result with
        | ok fragment => exact ⟨hnotices, by simpa using hproper, by simp, by simp⟩
        | error error =>
          refine ⟨hnotices, by simpa using hproper, by simp, ?_⟩
          rintro _ ⟨⟩
          exact .dialect span (List.mem_singleton.mpr rfl) (by rw [Invocation.outcome, hrun])
    · rw [if_pos harity, if_pos harity]
      exact accounted_error (.argumentCount name f.arity args.length span)

mutual

theorem accounted_eval (e : Expr) (s : Session) :
    Accounted d policy s (callsOfEval d e s) (fun _ => True) (eval d e s) := by
  match e with
  | .str .. | .int .. => exact accounted_ok trivial rfl
  | .var name span =>
    rw [eval, callsOfEval]
    split
    · exact accounted_ok trivial rfl
    · exact accounted_error (.undefinedVariable name span)
  | .call name args span =>
    rw [eval_call, callsOfEval]
    refine (accounted_evalArgs name (by simp) args s).andThen fun values s' hvalues => ?_
    exact accounted_call name hvalues span s'

/-- Arguments that are all evaluated are all known. -/
theorem accounted_evalArgs (function : String) {before : List Value}
    (hbefore : ∀ v ∈ before, v.Known) (args : List Expr) (s : Session) :
    Accounted d policy s (callsOfArgs d function before args s)
      (fun values => ∀ v ∈ values, v.Known) (evalArgs d function before args s) := by
  match args with
  | [] => exact accounted_ok (by simpa using hbefore) rfl
  | arg :: rest =>
    rw [evalArgs_cons, callsOfArgs]
    refine (accounted_eval arg s).andThen fun value s' _ => ?_
    cases value with
    | deferred thunk => exact accounted_error (.deferredArgument function arg.span)
    | str text =>
      have hbefore' := List.forall_mem_cons.mpr ⟨Value.known_str text, hbefore⟩
      exact accounted_evalArgs function hbefore' rest s'
    | int n =>
      have hbefore' := List.forall_mem_cons.mpr ⟨Value.known_int n, hbefore⟩
      exact accounted_evalArgs function hbefore' rest s'

end

theorem accounted_item (out : Rendered) (i : Item) (s : Session) :
    Accounted d policy s (callsOfItem d i s) (fun _ => True) (item d out i s) := by
  cases i with
  | data text span => exact accounted_ok trivial rfl
  | output e span =>
    rw [item_output]
    exact (accounted_eval e s).andThen_quiet fun value s' _ => accounted_ok trivial rfl
  | set name e span =>
    rw [item_set]
    exact (accounted_eval e s).andThen_quiet fun value s' _ => accounted_ok trivial rfl

theorem accounted_items (out : Rendered) (is : List Item) (s : Session) :
    Accounted d policy s (callsOfItems d out is s) (fun _ => True) (items d out is s) := by
  induction is generalizing out s with
  | nil => exact accounted_ok trivial rfl
  | cons i is ih =>
    rw [items_cons, callsOfItems]
    exact (accounted_item out i s).andThen fun out' s' _ => ih out' s'

/-- Only the calls of `s` matter to what is accounted for from there. -/
theorem Accounted.of_start {good : α → Prop} {calls : List Invocation} {s' : Session}
    {run : Except RenderError α × Session} (h : Accounted d policy s' calls good run)
    (hs : callNotices s'.notices = callNotices s.notices) :
    Accounted d policy s calls good run :=
  ⟨hs ▸ h.notices, h.proper, h.value, h.error⟩

/-! Resolving calls no function, and a dialect that has a code for every placeholder
leaves only the missing labels to fail for. -/

theorem callNotices_resolveFrom {m : Machine} (r : Resolution) (notices : Array Notice)
    (segments : List Segment) :
    callNotices (Resolution.resolveFrom d policy m r notices segments).2 = callNotices notices := by
  induction segments generalizing r notices with
  | nil => rfl
  | cons segment rest ih =>
    cases segment with
    | text s => exact ih _ notices
    | thunk t span =>
      have hmore : callNotices (notices ++ ((Resolution.missingLabel? m t).map fun name =>
          Notice.labelFallback name span).toArray) = callNotices notices := by
        rw [callNotices_append]
        cases Resolution.missingLabel? m t <;> simp [callNotices, Notice.isCall]
      rw [Resolution.resolveFrom.eq_def]
      simp only
      split
      · rfl
      · cases d.resolve m t with
        | error error => exact hmore
        | ok code => exact (ih _ _).trans hmore

theorem accounted_resolve (hd : ∀ m t, ∃ code, d.resolve m t = .ok code) (out : Rendered)
    (s : Session) : Accounted d policy s [] (fun _ => True) (resolve d policy out s) := by
  refine ⟨?_, by simp, by simp, ?_⟩
  · rw [resolve, callNotices_append, Resolution.ofRendered, callNotices_resolveFrom]
    rfl
  · intro error herror
    rw [resolve, Resolution.ofRendered] at herror
    cases hresult : (Resolution.resolveFrom d policy s.machine {} #[] out.segments.toList).1 with
    | ok r =>
      simp only [hresult] at herror
      cases herror
    | error error' =>
      simp only [hresult] at herror
      cases herror
      obtain ⟨_, _, _, -, -, hrefused⟩ := Resolution.resolveFrom_eq_error_iff.mp hresult
      cases hrefused with
      | undefinedLabel hstrict _ => exact .undefinedLabel _ _ hstrict
      | @dialect t _ _ _ hfails =>
        obtain ⟨code, hcode⟩ := hd s.machine t
        rw [hcode] at hfails
        cases hfails

theorem accounted_region (hd : ∀ m t, ∃ code, d.resolve m t = .ok code) (body : List Item)
    (span : Span) (s : Session) :
    Accounted d policy s (callsOfItems d {} body (s.note (.regionStarted span))) (fun _ => True)
      (region d policy body span s) := by
  rw [region_eq]
  have hstarted : callNotices (s.note (.regionStarted span)).notices = callNotices s.notices := by
    simp [Session.note, callNotices_push, Notice.isCall]
  have hbody : Accounted d policy s _ (fun _ => True)
      (items d {} body (s.note (.regionStarted span))) :=
    (accounted_items {} body _).of_start hstarted
  refine hbody.andThen_quiet fun out s' _ => ?_
  refine (accounted_resolve hd out s').andThen_quiet fun resolution s'' _ => ?_
  refine accounted_ok trivial ?_
  simp [finish, Session.note, callNotices_push, Notice.isCall]

theorem accounted_node (hd : ∀ m t, ∃ code, d.resolve m t = .ok code) (out : Rendered) (n : Node)
    (s : Session) :
    Accounted d policy s (callsOfNode d n s) (fun _ => True) (node d policy out n s) := by
  cases n with
  | item i => exact accounted_item out i s
  | region body span =>
    rw [node_region]
    exact (accounted_region hd body span s).andThen_quiet fun text s' _ => accounted_ok trivial rfl

theorem accounted_nodes (hd : ∀ m t, ∃ code, d.resolve m t = .ok code) (out : Rendered)
    (ns : List Node) (s : Session) :
    Accounted d policy s (callsOfNodes d policy out ns s) (fun _ => True)
      (nodes d policy out ns s) := by
  induction ns generalizing out s with
  | nil => exact accounted_ok trivial rfl
  | cons n ns ih =>
    rw [nodes_cons, callsOfNodes]
    exact (accounted_node hd out n s).andThen fun out' s' _ => ih out' s'

theorem accounted_render (hd : ∀ m t, ∃ code, d.resolve m t = .ok code) (t : Template)
    (s : Session) :
    Accounted d policy s (t.invocations d policy s) (fun _ => True) (t.render d policy s) := by
  rw [render_eq]
  refine (accounted_nodes hd {} t.nodes s).andThen_quiet fun out s' _ => ?_
  exact (accounted_resolve hd out s').andThen_quiet fun resolution s'' _ => accounted_ok trivial rfl

end Render

namespace MySql

open Render

/-! ## What the functions answer to proper calls -/

/-- How a function fails that is called as it is meant to be. -/
inductive Fault (m : Machine) : String → List Value → DialectError → Prop where
  | duplicateLabel {label : String} {address : Int} : m.labels[label]? = some address →
      Fault m "label" [.str label] (.duplicateLabel label address)
  | tooManyLabels (label : String) : Fault m "label" [.str label] .tooManyLabels
  | negativeAllocation {n : Int} : n < 0 → Fault m "alloc" [.int n] (.negativeAllocation n)
  | stepBudgetOutOfRange {bits : Int} : ¬ (0 ≤ bits ∧ bits ≤ 40) →
      Fault m "set_lg_steps" [.int bits] (.stepBudgetOutOfRange bits)
  | labelInteger (n : Int) : Fault m "label" [.int n]
      (.invalidArgument "label" "label name must be a string, got integer")
  | jumpInteger (n : Int) : Fault m "jump" [.int n]
      (.invalidArgument "jump" "label name must be a string, got integer")
  | stepsString (text : String) : Fault m "set_lg_steps" [.str text]
      (.invalidArgument "set_lg_steps" "expected an integer, got string")

theorem fault_of_defineLabel {m : Machine} {label : String} {error : DialectError}
    (h : m.defineLabel label = .error error) : Fault m "label" [.str label] error := by
  unfold Machine.defineLabel at h
  split at h
  · next address haddress =>
    cases h
    exact .duplicateLabel haddress
  · split at h
    · cases h
      exact .tooManyLabels label
    · cases h

theorem fault_of_setStepBits {m : Machine} {bits : Int} {error : DialectError}
    (h : m.setStepBits bits = .error error) : Fault m "set_lg_steps" [.int bits] error := by
  unfold Machine.setStepBits at h
  split at h
  · cases h
  · next hrange =>
    cases h
    exact .stepBudgetOutOfRange hrange

/-- An action that changes the machine and then has a text fails as the change does. -/
theorem error_of_update_text {f : Machine → Except DialectError Machine} {text : String}
    {m : Machine} {error : DialectError}
    (h : ((do Action.update f; Action.text text : Action Fragment) m).1 = .error error) :
    f m = .error error := by
  rw [update_text] at h
  split at h
  · cases h
  · next herror =>
    cases h
    exact herror

theorem code_known (operation : String) {value : Value} (h : value.Known) :
    ∃ text, Memory.code operation value = .ok text := by
  cases value with
  | str text => exact ⟨text, rfl⟩
  | int n => exact ⟨toString n, rfl⟩
  | deferred thunk => exact absurd rfl (h thunk)

theorem address_known (operation : String) {value : Value} (h : value.Known) :
    ∃ text, Memory.address operation value = .ok text := by
  cases value with
  | str name => exact ⟨_, rfl⟩
  | int n => exact ⟨toString n, rfl⟩
  | deferred thunk => exact absurd rfl (h thunk)

/-- Values that are known can be loaded and stored. -/
theorem load_known {target source : Value} (ht : target.Known) (hs : source.Known) :
    ∃ text, Memory.load target source = .ok text := by
  obtain ⟨target, htarget⟩ := code_known "load" ht
  obtain ⟨source, hsource⟩ := address_known "load" hs
  exact ⟨_, by rw [Memory.load, htarget, hsource]; rfl⟩

theorem store_known {value target : Value} (hv : value.Known) (ht : target.Known) :
    ∃ text, Memory.store value target = .ok text := by
  obtain ⟨target, htarget⟩ := address_known "store" ht
  obtain ⟨value, hvalue⟩ := code_known "store" hv
  exact ⟨_, by rw [Memory.store, htarget, hvalue]; rfl⟩

theorem fault_of_alloc {m : Machine} {count : Value} {error : DialectError}
    (h : Memory.alloc count = .error error) (hknown : count.Known) :
    Fault m "alloc" [count] error := by
  cases count with
  | str text => cases h
  | int n =>
    simp only [Memory.alloc] at h
    split at h
    · next hn =>
      cases h
      exact .negativeAllocation hn
    · cases h
  | deferred thunk => exact absurd rfl (hknown thunk)

theorem error_of_ofExcept {result : Except DialectError String} {m : Machine}
    {error : DialectError} (h : (Action.ofExcept (result.map .text) m).1 = .error error) :
    result = .error error := by
  cases result with
  | ok text => cases h
  | error error' =>
    cases h
    rfl

theorem fault_of_invoke {op : Operation} {args : List Value} {m : Machine} {error : DialectError}
    (harity : args.length = op.arity) (hknown : ∀ v ∈ args, v.Known)
    (h : (op.invoke dialect args m).1 = .error error) : Fault m op.name args error := by
  cases op with
  | prologue | epilogue | statement | exit | nop =>
    obtain rfl := List.length_eq_zero_iff.mp harity
    cases h
  | label =>
    obtain ⟨value, rfl⟩ := List.length_eq_one_iff.mp harity
    cases value with
    | str label => exact fault_of_defineLabel (error_of_update_text h)
    | int n =>
      cases h
      exact .labelInteger n
    | deferred thunk => exact absurd rfl (List.forall_mem_singleton.mp hknown thunk)
  | jump =>
    obtain ⟨value, rfl⟩ := List.length_eq_one_iff.mp harity
    cases value with
    | str label => cases h
    | int n =>
      cases h
      exact .jumpInteger n
    | deferred thunk => exact absurd rfl (List.forall_mem_singleton.mp hknown thunk)
  | alloc =>
    obtain ⟨count, rfl⟩ := List.length_eq_one_iff.mp harity
    exact fault_of_alloc (error_of_ofExcept h) (List.forall_mem_singleton.mp hknown)
  | load =>
    obtain ⟨target, source, rfl⟩ := List.length_eq_two.mp harity
    obtain ⟨htarget, hsource⟩ := List.forall_mem_cons.mp hknown
    obtain ⟨text, htext⟩ := load_known htarget (List.forall_mem_singleton.mp hsource)
    rw [error_of_ofExcept h] at htext
    cases htext
  | store =>
    obtain ⟨value, target, rfl⟩ := List.length_eq_two.mp harity
    obtain ⟨hvalue, htarget⟩ := List.forall_mem_cons.mp hknown
    obtain ⟨text, htext⟩ := store_known hvalue (List.forall_mem_singleton.mp htarget)
    rw [error_of_ofExcept h] at htext
    cases htext

theorem fault_of_setSteps {args : List Value} {m : Machine} {error : DialectError}
    (harity : args.length = 1) (hknown : ∀ v ∈ args, v.Known)
    (h : (setSteps args m).1 = .error error) : Fault m "set_lg_steps" args error := by
  obtain ⟨value, rfl⟩ := List.length_eq_one_iff.mp harity
  cases value with
  | str text =>
    cases h
    exact .stepsString text
  | int bits => exact fault_of_setStepBits (error_of_update_text h)
  | deferred thunk => exact absurd rfl (List.forall_mem_singleton.mp hknown thunk)

/-- A proper call fails in one of a few ways. -/
theorem fault_of_proper {i : Invocation} (hi : i.Proper dialect) {error : DialectError}
    (h : i.outcome = .error error) : Fault i.machine i.name i.args error := by
  obtain ⟨name, f, args, m⟩ := i
  obtain ⟨hf, harity, hknown⟩ := hi
  rcases callable_cases hf with ⟨op, rfl, rfl⟩ | ⟨rfl, rfl⟩
  · exact fault_of_invoke harity hknown h
  · exact fault_of_setSteps harity hknown h

/-- The functions that cannot fail when they are called properly. -/
def infallible : List String :=
  ["load", "store", "prologue", "statement", "epilogue", "nop", "exit"]

theorem Fault.not_infallible {m : Machine} {name : String} {args : List Value}
    {error : DialectError} (h : Fault m name args error) : name ∉ infallible := by
  cases h <;> decide

theorem outcome_of_infallible {i : Invocation} (hi : i.Proper dialect)
    (hname : i.name ∈ infallible) : ∃ fragment, i.outcome = .ok fragment := by
  cases houtcome : i.outcome with
  | ok fragment => exact ⟨fragment, rfl⟩
  | error error => exact absurd hname (fault_of_proper hi houtcome).not_infallible

theorem exists_code (m : Machine) (t : Thunk) : ∃ code, dialect.resolve m t = .ok code :=
  ⟨_, rfl⟩

/-- Whatever the template, the machine and the variables, and whether or not the rendering
succeeds: the calls that it gives notice of are all proper. So the functions that could
only be misused do not fail, the others fail in the few ways that are left, and a
placeholder always has a code. The rendering fails as one of its calls does or for a
reason of its own. -/
theorem render_calls_properly (policy : LabelPolicy) (t : Template) (s : Session) :
    callNotices (t.render dialect policy s).2.notices
      = callNotices s.notices ++ (t.invocations dialect policy s).map Invocation.notice ∧
    (∀ i ∈ t.invocations dialect policy s, i.Proper dialect ∧
      (i.name ∈ infallible → ∃ fragment, i.outcome = .ok fragment) ∧
      ∀ error, i.outcome = .error error → Fault i.machine i.name i.args error) ∧
    (∀ (m : Machine) (thunk : Thunk), ∃ code, dialect.resolve m thunk = .ok code) ∧
    ∀ error, (t.render dialect policy s).1 = .error error →
      Explained policy (t.invocations dialect policy s) error := by
  have haccounted : Accounted dialect policy s (t.invocations dialect policy s) (fun _ => True)
      (t.render dialect policy s) := accounted_render exists_code t s
  refine ⟨haccounted.notices, ?_, exists_code, haccounted.error⟩
  intro i hi
  have hproper := haccounted.proper i hi
  exact ⟨hproper, outcome_of_infallible hproper, fun _ => fault_of_proper hproper⟩

end MySql

end QueryMachine
