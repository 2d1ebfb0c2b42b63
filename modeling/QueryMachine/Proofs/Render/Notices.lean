import QueryMachine.Proofs.Render.Calls

/-!
# What evaluation leaves behind

Evaluation runs functions of the dialect and nothing else that anybody hears of: to the
notices it adds those of its calls, and it makes no report (`LeavesCalls`). That holds of
evaluations that fail as well. Whoever asks for notices of another kind need not look into
items and expressions at all (`LeavesCalls.filterMap_eq`).
-/

namespace QueryMachine.Render

variable {α β : Type} {d : Dialect} {s : Session}

/-- A run from `s` that leaves the notices of its calls and no report. -/
structure LeavesCalls (s : Session) (run : Except RenderError α × Session) : Prop where
  reports : run.2.reports = s.reports
  notices : ∃ new : Array Notice, run.2.notices = s.notices ++ new ∧
    ∀ n ∈ new, n.isCall = true

theorem LeavesCalls.of_eq {run : Except RenderError α × Session}
    (hreports : run.2.reports = s.reports) (hnotices : run.2.notices = s.notices) :
    LeavesCalls s run :=
  ⟨hreports, #[], by rw [hnotices, Array.append_empty], by simp⟩

theorem LeavesCalls.andThen {run : Except RenderError α × Session} {next : α → Rendering β}
    (h : LeavesCalls s run) (hnext : ∀ a s', LeavesCalls s' (next a s')) :
    LeavesCalls s (andThen run next) := by
  obtain ⟨result, s'⟩ := run
  cases result with
  | error error => exact ⟨h.reports, h.notices⟩
  | ok a =>
    obtain ⟨hreports, new, hnew, hcalls⟩ := h
    obtain ⟨hreports', new', hnew', hcalls'⟩ := hnext a s'
    refine ⟨hreports'.trans hreports, new ++ new', ?_, ?_⟩
    · rw [andThen_ok, hnew', hnew, Array.append_assoc]
    · intro n hn
      rcases Array.mem_append.mp hn with hn | hn
      · exact hcalls n hn
      · exact hcalls' n hn

/-- Nothing is new to whoever does not look at calls. -/
theorem LeavesCalls.filterMap_eq {γ : Type} {run : Except RenderError α × Session}
    (h : LeavesCalls s run) {f : Notice → Option γ} (hf : ∀ n, n.isCall = true → f n = none) :
    run.2.notices.toList.filterMap f = s.notices.toList.filterMap f := by
  obtain ⟨-, new, hnew, hcalls⟩ := h
  have hnone : new.toList.filterMap f = [] :=
    List.filterMap_eq_nil_iff.mpr fun n hn => hf n (hcalls n (Array.mem_toList_iff.mp hn))
  rw [hnew, Array.toList_append, List.filterMap_append, hnone, List.append_nil]

theorem leavesCalls_call (name : String) (args : List Value) (span : Span) (s : Session) :
    LeavesCalls s (call d name args span s) := by
  unfold call
  split
  · exact .of_eq rfl rfl
  · split
    · exact .of_eq rfl rfl
    · next f _ _ =>
      rcases f.run args s.machine with ⟨_ | _, machine⟩ <;>
        exact ⟨rfl, #[.called name f.arity machine.counter], Array.push_eq_append, by
          simp [Notice.isCall]⟩

mutual

theorem leavesCalls_eval (e : Expr) (s : Session) : LeavesCalls s (eval d e s) := by
  match e with
  | .str .. | .int .. => exact .of_eq rfl rfl
  | .var name span =>
    rw [eval]
    split <;> exact .of_eq rfl rfl
  | .call name args span =>
    rw [eval_call]
    exact (leavesCalls_evalArgs name [] args s).andThen fun values s' =>
      leavesCalls_call name values span s'

theorem leavesCalls_evalArgs (function : String) (before : List Value) (args : List Expr)
    (s : Session) : LeavesCalls s (evalArgs d function before args s) := by
  match args with
  | [] => exact .of_eq rfl rfl
  | arg :: rest =>
    rw [evalArgs_cons]
    refine (leavesCalls_eval arg s).andThen fun value s' => ?_
    cases value with
    | deferred thunk => exact .of_eq rfl rfl
    | str | int => exact leavesCalls_evalArgs function _ rest s'

end

theorem leavesCalls_item (out : Rendered) (i : Item) (s : Session) :
    LeavesCalls s (item d out i s) := by
  cases i with
  | data text span => exact .of_eq rfl rfl
  | output e span =>
    rw [item_output]
    exact (leavesCalls_eval e s).andThen fun value s' => .of_eq rfl rfl
  | set name e span =>
    rw [item_set]
    exact (leavesCalls_eval e s).andThen fun value s' => .of_eq rfl rfl

theorem leavesCalls_items (out : Rendered) (is : List Item) (s : Session) :
    LeavesCalls s (items d out is s) := by
  induction is generalizing out s with
  | nil => exact .of_eq rfl rfl
  | cons i is ih =>
    rw [items_cons]
    exact (leavesCalls_item out i s).andThen fun out' s' => ih out' s'

end QueryMachine.Render
