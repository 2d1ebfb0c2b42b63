import QueryMachine.Exchange.Token
import QueryMachine.Template

/-!
# Templates as JSON

Every node and expression is an object whose only key is the kind, with its
content and its span below that key.
-/

namespace QueryMachine

open Text

/-- An object of one kind with a content and a span. -/
def tagged (kind : String) (content : List (String × Json)) (span : Span) : Json :=
  .object [(kind, .object (content ++ [("span", span.toJson)]))]

namespace Expr

mutual

/-- An expression as JSON. -/
def toJson : Expr → Json
  | str value span => tagged "Str" [("value", .string value)] span
  | int value span => tagged "Int" [("value", .number value)] span
  | var name span => tagged "Var" [("name", .string name)] span
  | call name args span =>
    tagged "Call" [("name", .string name), ("args", .array (listToJson args))] span

/-- Expressions as JSON. -/
def listToJson : List Expr → List Json
  | [] => []
  | e :: rest => e.toJson :: listToJson rest

end

end Expr

/-- An item as JSON. -/
def Item.toJson : Item → Json
  | data text span => tagged "Data" [("text", .string text)] span
  | output expr span => tagged "Output" [("expr", expr.toJson)] span
  | set name value span => tagged "Set" [("name", .string name), ("value", value.toJson)] span

/-- A node as JSON. -/
def Node.toJson : Node → Json
  | item i => i.toJson
  | region body span => tagged "Region" [("body", .array (body.map Item.toJson))] span

/-- A template as JSON. -/
def Template.toJson (t : Template) : Json :=
  .object [("nodes", .array (t.nodes.map Node.toJson))]

end QueryMachine
