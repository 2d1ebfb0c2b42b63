import QueryMachine.Render

/-!
# A rendering as a sequence of steps

Every part of a rendering is made in the same way: run one thing, stop if it fails,
else go on with what it gave in the session that it left. `andThen` is that way, and
the equations below say which steps each part consists of. A statement about two
renderings at once then needs one lemma about `andThen` and one line for each part,
whatever it is that the two are compared in.
-/

namespace QueryMachine.Render

variable {α β : Type} {d : Dialect} {policy : LabelPolicy} {s : Session}

/-- Goes on with the value of a run, or stops with its error. -/
def andThen (run : Except RenderError α × Session) (next : α → Rendering β) :
    Except RenderError β × Session :=
  match run with
  | (.ok a, s) => next a s
  | (.error error, s) => (.error error, s)

@[simp] theorem andThen_ok (a : α) (next : α → Rendering β) :
    andThen (.ok a, s) next = next a s := rfl

@[simp] theorem andThen_error (error : RenderError) (next : α → Rendering β) :
    andThen (.error error, s) next = (.error error, s) := rfl

theorem eval_call (name : String) (args : List Expr) (span : Span) :
    eval d (.call name args span) s
      = andThen (evalArgs d name [] args s) fun values => call d name values span := by
  rw [eval]
  rcases evalArgs d name [] args s with ⟨_ | _, _⟩ <;> rfl

/-- What becomes of the value of an argument: a placeholder is refused. -/
def acceptArg (d : Dialect) (function : String) (before : List Value) (span : Span)
    (rest : List Expr) (value : Value) : Rendering (List Value) := fun s =>
  match value with
  | .deferred _ => (.error (.deferredArgument function span), s)
  | value => evalArgs d function (value :: before) rest s

theorem evalArgs_cons (function : String) (before : List Value) (arg : Expr)
    (rest : List Expr) :
    evalArgs d function before (arg :: rest) s
      = andThen (eval d arg s) (acceptArg d function before arg.span rest) := by
  rw [evalArgs]
  rcases eval d arg s with ⟨_ | value, _⟩
  · rfl
  · cases value <;> rfl

theorem item_output (out : Rendered) (e : Expr) (span : Span) :
    item d out (.output e span) s
      = andThen (eval d e s) fun value s => (.ok (emit out value e.span), s) := by
  rw [item]
  rcases eval d e s with ⟨_ | _, _⟩ <;> rfl

theorem item_set (out : Rendered) (name : String) (e : Expr) (span : Span) :
    item d out (.set name e span) s
      = andThen (eval d e s) fun value s => (.ok out, s.assign name value) := by
  rw [item]
  rcases eval d e s with ⟨_ | _, _⟩ <;> rfl

theorem items_cons (out : Rendered) (i : Item) (rest : List Item) :
    items d out (i :: rest) s
      = andThen (item d out i s) fun out => items d out rest := by
  rw [items]
  rcases item d out i s with ⟨_ | _, _⟩ <;> rfl

theorem region_eq (body : List Item) (span : Span) :
    region d policy body span s
      = andThen (items d {} body (s.note (.regionStarted span))) fun out s =>
          andThen (resolve d policy out s) fun resolution s =>
            (.ok resolution.text, finish s (report span s.machine resolution)) := by
  unfold region
  rcases items d {} body (s.note (.regionStarted span)) with ⟨_ | out, s'⟩
  · rfl
  · simp only [andThen_ok]
    rcases resolve d policy out s' with ⟨_ | _, _⟩ <;> rfl

theorem node_region (out : Rendered) (body : List Item) (span : Span) :
    node d policy out (.region body span) s
      = andThen (region d policy body span s) fun text s => (.ok (out.pushText text), s) := by
  rw [node]
  rcases region d policy body span s with ⟨_ | _, _⟩ <;> rfl

theorem nodes_cons (out : Rendered) (n : Node) (rest : List Node) :
    nodes d policy out (n :: rest) s
      = andThen (node d policy out n s) fun out => nodes d policy out rest := by
  rw [nodes]
  rcases node d policy out n s with ⟨_ | _, _⟩ <;> rfl

theorem nodes_append (out : Rendered) (as bs : List Node) :
    nodes d policy out (as ++ bs) s
      = andThen (nodes d policy out as s) fun out => nodes d policy out bs := by
  induction as generalizing out s with
  | nil => rfl
  | cons n as ih =>
    rw [List.cons_append, nodes_cons, nodes_cons]
    rcases node d policy out n s with ⟨_ | out', s'⟩
    · rfl
    · exact ih out'

theorem render_eq (t : Template) :
    t.render d policy s
      = andThen (nodes d policy {} t.nodes s) fun out s =>
          andThen (resolve d policy out s) fun resolution s => (.ok resolution.text, s) := by
  unfold Template.render
  rcases nodes d policy {} t.nodes s with ⟨_ | out, s'⟩
  · rfl
  · simp only [andThen_ok]
    rcases resolve d policy out s' with ⟨_ | _, _⟩ <;> rfl

end QueryMachine.Render
