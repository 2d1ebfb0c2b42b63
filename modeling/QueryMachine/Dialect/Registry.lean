import QueryMachine.Dialect.MySql

/-!
# The registry of dialects

Dialects are chosen by name. The registry keeps the names apart: a second
dialect of a name is refused, and so is a dialect with an extension that could
never be called, because a core operation has its name.
-/

namespace QueryMachine

/-- Dialects by name. -/
structure Registry where
  dialects : Std.TreeMap String Dialect := ∅

namespace Registry

/-- The registered names, in order. -/
def names (r : Registry) : List String := r.dialects.keys

/-- Whether a name is registered. -/
def contains (r : Registry) (name : String) : Bool := r.dialects.contains name

/-- The least extension of a dialect that has the name of a core operation. -/
def shadowed? (d : Dialect) : Option String :=
  d.extensions.keys.find? fun name => (Operation.ofName? name).isSome

/-- Registers a dialect under its name. -/
def register (r : Registry) (d : Dialect) : Except DialectError Registry :=
  if r.contains d.name then .error (.duplicateDialect d.name)
  else
    match shadowed? d with
    | some name => .error (.shadowedOperation d.name name)
    | none => .ok ⟨r.dialects.insert d.name d⟩

/-- Offers a dialect to a registry: whether it is registered now, and the registry
afterwards. -/
def offer (r : Registry) (d : Dialect) : Except DialectError Unit × Registry :=
  match r.register d with
  | .ok r => (.ok (), r)
  | .error error => (.error error, r)

/-- The dialect of a name. -/
def get (r : Registry) (name : String) : Except DialectError Dialect :=
  match r.dialects[name]? with
  | some d => .ok d
  | none => .error (.unknownDialect name r.names)

/-- The dialects that every build has, in the order of their registration. -/
def builtinDialects : List Dialect := [MySql.dialect]

/-- A registry with the dialects that every build has. -/
def builtin : Except DialectError Registry :=
  builtinDialects.foldlM register {}

end Registry

end QueryMachine
