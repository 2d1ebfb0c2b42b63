import QueryMachine.Position

/-!
# Templates

The tree of a template. Regions do not nest, and the types say so: a template
is a list of nodes, a node is an item or a region, and a region holds items
only.
-/

namespace QueryMachine

/-- An expression of a tag. -/
inductive Expr where
  | str (value : String) (span : Span)
  | int (value : Int) (span : Span)
  | var (name : String) (span : Span)
  | call (name : String) (args : List Expr) (span : Span)
  deriving Repr, Inhabited

/-- Where an expression stands. -/
def Expr.span : Expr → Span
  | str _ span | int _ span | var _ span | call _ _ span => span

/-- What can stand inside and outside of regions. -/
inductive Item where
  | data (text : String) (span : Span)
  /-- `{{ expr }}` -/
  | output (expr : Expr) (span : Span)
  /-- `{% set name = value %}` -/
  | set (name : String) (value : Expr) (span : Span)
  deriving Repr, Inhabited

/-- Where an item stands. -/
def Item.span : Item → Span
  | data _ span | output _ span | set _ _ span => span

/-- A part of a template. -/
inductive Node where
  | item (item : Item)
  /-- `{% sqlvm %} body {% endsqlvm %}`; the span is that of the opening tag. -/
  | region (body : List Item) (span : Span)
  deriving Repr, Inhabited

namespace Node

/-- Where a node stands. -/
def span : Node → Span
  | item i => i.span
  | region _ span => span

/-- Whether a node is a region. -/
def isRegion : Node → Bool
  | item .. => false
  | region .. => true

end Node

/-- A parsed template. -/
structure Template where
  nodes : List Node
  deriving Repr, Inhabited

/-- How many regions a template has. -/
def Template.regionCount (t : Template) : Nat :=
  t.nodes.countP Node.isRegion

end QueryMachine
