import QueryMachine.Dialect
import QueryMachine.Log.Notice
import QueryMachine.Render.Rendered

/-!
# Resolving placeholders

Placeholders become code once the machine is final: only then is it known where
a label stands that is jumped to before it is reached, and which instruction is
the last. A label that no instruction was bound to is the one thing that can be
missing; the policy says whether that is an error or a warning, after which the
dialect decides what the jump becomes.
-/

namespace QueryMachine

/-- Why a placeholder cannot be resolved. -/
inductive ResolveError where
  | undefinedLabel (name : String) (span : Span)
  | dialect (error : DialectError) (span : Span)
  deriving DecidableEq, Repr

namespace ResolveError

/-- The diagnostic code of an error. -/
def code : ResolveError → Code
  | undefinedLabel .. => .undefinedLabel
  | dialect error _ => error.code

/-- The expression that produced the placeholder. -/
def span : ResolveError → Span
  | undefinedLabel _ span | dialect _ span => span

/-- The text of an error. -/
def message : ResolveError → String
  | undefinedLabel name span => "Jump to undefined label '" ++ name ++ "' at " ++ span.text
  | dialect error span =>
    "Cannot resolve deferred value at " ++ span.text ++ ": " ++ error.message

end ResolveError

/-- What to do about a jump to a label that is not defined. -/
inductive LabelPolicy where
  /-- Warn, and go on with the label's name. -/
  | lenient
  | strict
  deriving DecidableEq, Repr, Inhabited

/-- The policy that a setting asks for. -/
def LabelPolicy.ofStrict (strict : Bool) : LabelPolicy :=
  if strict then .strict else .lenient

/-- A text without placeholders. -/
structure Resolution where
  text : String := ""
  thunksResolved : Nat := 0
  /-- The labels that were not defined, in order. -/
  fallbacks : Array String := #[]
  deriving DecidableEq, Repr

namespace Resolution

/-- The label that a placeholder needs and a machine lacks. -/
def missingLabel? (m : Machine) : Thunk → Option String
  | .jumpTo name => if (m.address? name).isNone then some name else none
  | .exit => none

/-- Adds the code of a placeholder. -/
def addCode (r : Resolution) (code : String) (missing : Option String) : Resolution :=
  { text := r.text ++ code
    thunksResolved := r.thunksResolved + 1
    fallbacks := r.fallbacks ++ missing.toArray }

/-- Resolves segments in order, after the result and the notices so far. The
label is looked up before the dialect is asked. -/
def resolveFrom (d : Dialect) (policy : LabelPolicy) (m : Machine) (r : Resolution)
    (notices : Array Notice) :
    List Segment → Except ResolveError Resolution × Array Notice
  | [] => (.ok r, notices)
  | .text s :: rest => resolveFrom d policy m { r with text := r.text ++ s } notices rest
  | .thunk t span :: rest =>
    let missing := missingLabel? m t
    match policy, missing with
    | .strict, some name => (.error (.undefinedLabel name span), notices)
    | _, _ =>
      let notices := notices ++ (missing.map fun name => Notice.labelFallback name span).toArray
      match d.resolve m t with
      | .error error => (.error (.dialect error span), notices)
      | .ok code => resolveFrom d policy m (r.addCode code missing) notices rest

/-- Resolves everything rendered, with the notices that come up. -/
def ofRendered (d : Dialect) (policy : LabelPolicy) (m : Machine) (rendered : Rendered) :
    Except ResolveError Resolution × Array Notice :=
  resolveFrom d policy m {} #[] rendered.segments.toList

end Resolution

end QueryMachine
