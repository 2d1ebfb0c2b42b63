import QueryMachine.Compile

/-!
# The stages of a compilation

A compilation is four stages and the notices between them. Only the last one knows
the dialect and the preferences: what comes before is a function of the source
alone, `front`, and a statement that compares two compilations first compares their
fronts. Rendering is then compared on the templates that the fronts give.
-/

namespace QueryMachine

/-- The stage of a compilation that fails. -/
inductive Stage where
  | file
  | lexical
  | region
  | parse
  | dialect
  | render
  | resolve
  deriving DecidableEq, Repr

def CompileError.stage : CompileError → Stage
  | file _ => .file
  | lexical _ => .lexical
  | region _ => .region
  | parse _ => .parse
  | dialect _ => .dialect
  | render _ => .render
  | resolve _ => .resolve

namespace Compile

/-- The stages before rendering: the tokens, what was put into them, and the tree. -/
def front (source : String) : Except CompileError (Lexed × Region.Summary × Template) :=
  match Lexer.tokenize source with
  | .error failure => .error (.lexical failure.error)
  | .ok lexed =>
    match Region.instrument {} lexed.tokens.toList with
    | .error error => .error (.region error)
    | .ok instrumented =>
      match Template.parse instrumented.tokens.toList with
      | .error error => .error (.parse error)
      | .ok template => .ok (lexed, instrumented.summary, template)

/-- What the last stage makes of a front. -/
def back (d : Dialect) (preferences : CompilerPreferences) (name : String) :
    Lexed × Region.Summary × Template → Except CompileError Compiled
  | (lexed, summary, template) =>
    match (render d preferences.policy template).1 with
    | .error error => .error (.render error)
    | .ok output => .ok (result preferences name lexed summary output)

/-- The answer of a compilation is that of its stages. -/
theorem compile_fst (d : Dialect) (preferences : CompilerPreferences) (name source : String) :
    (compile d preferences name source).1 = (front source).bind (back d preferences name) := by
  unfold compile front tokenize
  cases Lexer.tokenize source with
  | error failure => rfl
  | ok lexed =>
    simp only [instrument]
    cases Region.instrument {} lexed.tokens.toList with
    | error error => rfl
    | ok instrumented =>
      simp only [parse]
      cases Template.parse instrumented.tokens.toList with
      | error error => rfl
      | ok template =>
        simp only [Except.bind, back]
        rcases render d preferences.policy template with ⟨_ | output, notices⟩ <;> rfl

end Compile

end QueryMachine
