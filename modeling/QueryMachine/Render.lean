import QueryMachine.Render.Error
import QueryMachine.Template

/-!
# Rendering

Rendering runs a template from its first node to its last. The session holds
all that a node can change: the machine, the variables, the reports and the
notices. A failure ends the run and leaves the session as the failing node left
it.

A placeholder waits for the end of what it stands in. For a region that is its
closing tag, so one region never sees the labels of another; for the rest of
the template it is the end of the text.
-/

namespace QueryMachine

/-- What is known about a rendered region. -/
structure RegionReport where
  /-- The opening tag. -/
  span : Span
  finalCounter : Int
  labels : Std.TreeMap String Int
  thunksResolved : Nat
  /-- The labels that were jumped to but not defined. -/
  fallbacks : Array String

/-- How many instructions a region has: they are numbered from 0 to the final
counter. -/
def RegionReport.instructionCount (r : RegionReport) : Nat :=
  (r.finalCounter + 1).toNat

/-- The state of a rendering. -/
structure Session where
  machine : Machine := {}
  bindings : Std.TreeMap String Value := ∅
  reports : Array RegionReport := #[]
  notices : Array Notice := #[]

namespace Session

/-- Adds a notice. -/
def note (s : Session) (notice : Notice) : Session :=
  { s with notices := s.notices.push notice }

/-- Sets a variable. -/
def assign (s : Session) (name : String) (value : Value) : Session :=
  { s with bindings := s.bindings.insert name value }

end Session

/-- A part of a rendering: it takes the session, gives a value or an error, and
the session after it. -/
abbrev Rendering (α : Type) : Type := Session → Except RenderError α × Session

namespace Render

/-- What a name can be called as: how many arguments it takes, and what it does
with them. -/
structure Callable where
  arity : Nat
  run : List Value → Action Fragment

/-- The function of a name: a core operation, else an extension. -/
def callable? (d : Dialect) (name : String) : Option Callable :=
  match Operation.ofName? name with
  | some op => some ⟨op.arity, op.invoke d⟩
  | none => d.extensions[name]?.map fun e => ⟨e.arity, e.run⟩

/-- Calls a function. The notice of a call comes up whether or not the call
succeeds. -/
def call (d : Dialect) (name : String) (args : List Value) (span : Span) :
    Rendering Value := fun s =>
  match callable? d name with
  | none => (.error (.unknownFunction name span), s)
  | some f =>
    if args.length ≠ f.arity then
      (.error (.argumentCount name f.arity args.length span), s)
    else
      let (result, machine) := f.run args s.machine
      let s := { s with machine }.note (.called name f.arity machine.counter)
      match result with
      | .ok fragment => (.ok (.ofFragment fragment), s)
      | .error error => (.error (.dialect error span), s)

mutual

/-- Evaluates an expression. -/
def eval (d : Dialect) : Expr → Rendering Value
  | .str value _, s => (.ok (.str value), s)
  | .int value _, s => (.ok (.int value), s)
  | .var name span, s =>
    match s.bindings[name]? with
    | some value => (.ok value, s)
    | none => (.error (.undefinedVariable name span), s)
  | .call name args span, s =>
    match evalArgs d name [] args s with
    | (.ok values, s) => call d name values span s
    | (.error error, s) => (.error error, s)

/-- Evaluates the arguments of a call in order; none of them may be deferred.
`before` holds the reversed values so far. -/
def evalArgs (d : Dialect) (function : String) (before : List Value) :
    List Expr → Rendering (List Value)
  | [], s => (.ok before.reverse, s)
  | arg :: rest, s =>
    match eval d arg s with
    | (.ok (.deferred _), s) => (.error (.deferredArgument function arg.span), s)
    | (.ok value, s) => evalArgs d function (value :: before) rest s
    | (.error error, s) => (.error error, s)

end

/-- Adds a value to the output. -/
def emit (out : Rendered) (value : Value) (span : Span) : Rendered :=
  match value with
  | .str s => out.pushText s
  | .int n => out.pushText (toString n)
  | .deferred thunk => out.pushThunk thunk span

/-- Renders an item after the output so far. -/
def item (d : Dialect) (out : Rendered) : Item → Rendering Rendered
  | .data text _, s => (.ok (out.pushText text), s)
  | .output expr _, s =>
    match eval d expr s with
    | (.ok value, s) => (.ok (emit out value expr.span), s)
    | (.error error, s) => (.error error, s)
  | .set name value _, s =>
    match eval d value s with
    | (.ok value, s) => (.ok out, s.assign name value)
    | (.error error, s) => (.error error, s)

/-- Renders items in order after the output so far. -/
def items (d : Dialect) (out : Rendered) : List Item → Rendering Rendered
  | [], s => (.ok out, s)
  | i :: rest, s =>
    match item d out i s with
    | (.ok out, s) => items d out rest s
    | (.error error, s) => (.error error, s)

/-- Resolves output against the machine as it is. -/
def resolve (d : Dialect) (policy : LabelPolicy) (out : Rendered) :
    Rendering Resolution := fun s =>
  let (result, notices) := Resolution.ofRendered d policy s.machine out
  (result.mapError .resolve, { s with notices := s.notices ++ notices })

/-- The report of a region that the machine has just finished. -/
def report (span : Span) (m : Machine) (r : Resolution) : RegionReport :=
  { span
    finalCounter := m.finalCounter
    labels := m.labels
    thunksResolved := r.thunksResolved
    fallbacks := r.fallbacks }

/-- Adds the report of a region and says that it is compiled. -/
def finish (s : Session) (r : RegionReport) : Session :=
  { s with reports := s.reports.push r }.note
    (.regionCompiled r.span r.instructionCount r.labels.size r.thunksResolved)

/-- Renders and resolves a region. -/
def region (d : Dialect) (policy : LabelPolicy) (body : List Item) (span : Span) :
    Rendering String := fun s =>
  match items d {} body (s.note (.regionStarted span)) with
  | (.error error, s) => (.error error, s)
  | (.ok out, s) =>
    match resolve d policy out s with
    | (.error error, s) => (.error error, s)
    | (.ok resolution, s) =>
      (.ok resolution.text, finish s (report span s.machine resolution))

/-- Renders a node after the output so far. -/
def node (d : Dialect) (policy : LabelPolicy) (out : Rendered) : Node → Rendering Rendered
  | .item i, s => item d out i s
  | .region body span, s =>
    match region d policy body span s with
    | (.ok text, s) => (.ok (out.pushText text), s)
    | (.error error, s) => (.error error, s)

/-- Renders nodes in order after the output so far. -/
def nodes (d : Dialect) (policy : LabelPolicy) (out : Rendered) :
    List Node → Rendering Rendered
  | [], s => (.ok out, s)
  | n :: rest, s =>
    match node d policy out n s with
    | (.ok out, s) => nodes d policy out rest s
    | (.error error, s) => (.error error, s)

end Render

/-- Renders a template in a session. -/
def Template.render (d : Dialect) (policy : LabelPolicy) (t : Template) :
    Rendering String := fun s =>
  match Render.nodes d policy {} t.nodes s with
  | (.error error, s) => (.error error, s)
  | (.ok out, s) =>
    match Render.resolve d policy out s with
    | (.error error, s) => (.error error, s)
    | (.ok resolution, s) => (.ok resolution.text, s)

end QueryMachine
