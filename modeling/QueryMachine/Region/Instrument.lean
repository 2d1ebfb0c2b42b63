import QueryMachine.Dialect.Operation
import QueryMachine.Region.Error
import QueryMachine.Text.Blank
import QueryMachine.Text.Split
import QueryMachine.Token.Cursor

/-!
# Instrumented regions

A region is a program written line by line. Before a template is parsed, calls
of the dialect's bookkeeping hooks are put into the tokens of its regions:

- the prologue right after the opening tag,
- a statement at the end of the opening tag's line and of every later line
  that does something,
- the epilogue right before the closing tag.

A line does something if it holds an expression tag or text that is not blank.
Blank lines inside a region are dropped, and tokens outside of regions stay as
they are.

`visit` reads the next source token (the three tokens of an opening tag at
once) and says what comes out for it. `instrument` visits all tokens, and
`Instrumenter.next` hands the same output out one token at a time.
-/

namespace QueryMachine

/-- The functions called at the places where a region is instrumented. -/
structure Hooks where
  prologue : String := Operation.prologue.name
  statement : String := Operation.statement.name
  epilogue : String := Operation.epilogue.name
  deriving DecidableEq, Repr

namespace Region

/-- The name of the tag that opens a region. -/
def openName : String := "sqlvm"

/-- The name of the tag that closes a region. -/
def closeName : String := "endsqlvm"

/-- What was put into the tokens. -/
structure Summary where
  regions : Nat := 0
  statementSites : Nat := 0
  injectedTokens : Nat := 0
  deriving DecidableEq, Repr

/-- Where the walk over the tokens stands. -/
structure Progress where
  /-- Whether the walk is inside a region. -/
  inRegion : Bool := false
  /-- The opening tag of the region the walk is in. -/
  opened : Option Span := none
  /-- Whether the next line end of the region starts a statement. -/
  due : Bool := false
  summary : Summary := {}
  /-- The opening tag is known as long as the walk is inside, and no longer. -/
  inRegion_eq : inRegion = opened.isSome := by rfl
  deriving DecidableEq, Repr

namespace Progress

/-- The walk enters a region. The rest of the opening tag's line counts as a
line of its own. -/
def enter (p : Progress) (tag : Span) : Progress :=
  { inRegion := true
    opened := some tag
    due := true
    summary := { p.summary with regions := p.summary.regions + 1 } }

/-- The walk leaves its region. -/
def leave (p : Progress) : Progress :=
  { p with inRegion := false, opened := none, inRegion_eq := rfl }

/-- One more call was put in; a call has five tokens. -/
def countCall (p : Progress) : Progress :=
  { p with summary := { p.summary with injectedTokens := p.summary.injectedTokens + 5 } }

/-- One more statement was put in. -/
def countStatement (p : Progress) : Progress :=
  let p := p.countCall
  { p with
    due := false
    summary := { p.summary with statementSites := p.summary.statementSites + 1 } }

/-- The line does something. -/
def markDue (p : Progress) : Progress := { p with due := true }

variable {p : Progress}

theorem inRegion_of_opened {tag : Span} (h : p.opened = some tag) : p.inRegion = true := by
  rw [p.inRegion_eq, h]
  rfl

theorem inRegion_eq_false_iff : p.inRegion = false ↔ p.opened = none := by
  rw [p.inRegion_eq, Option.isSome_eq_false_iff, Option.isNone_iff_eq_none]

/-- Inside a region its opening tag is at hand. -/
theorem exists_opened (h : p.inRegion = true) : ∃ tag, p.opened = some tag := by
  rw [p.inRegion_eq] at h
  exact Option.isSome_iff_exists.mp h

theorem inRegion_congr {q : Progress} (h : q.opened = p.opened) : q.inRegion = p.inRegion := by
  rw [q.inRegion_eq, h, p.inRegion_eq]

end Progress

/-- The tokens of `{{ name() }}` at one place. -/
def call (name : String) (pos : Position) : Array (Located Token) :=
  #[.variableBegin, .name name, .leftParen, .rightParen, .variableEnd].map
    fun token => ⟨token, .point pos⟩

/-- A piece of data that begins at `pos`. -/
def dataAt (pos : Position) (text : List Char) : Located Token :=
  ⟨.data (String.ofList text), ⟨pos, pos.advanceOver text⟩⟩

/-- The lines of a data token inside a region, from `pos` on: each but the last
ends with a newline and is kept unless it is blank; the last one is always
kept. -/
def splitData (hooks : Hooks) (p : Progress) (out : Array (Located Token)) (pos : Position) :
    List (List Char) → Array (Located Token) × Progress
  | [] => (out, p)
  | [last] => (out.push (dataAt pos last), p)
  | line :: next :: rest =>
    let stop := pos.advanceOver line
    let blank := Text.isAllBlank line
    let out := if blank then out else out.push (dataAt pos line)
    let p := if blank then p else p.markDue
    if p.due then
      splitData hooks p.countStatement (out ++ call hooks.statement stop) (stop.advance '\n')
        (next :: rest)
    else splitData hooks p out (stop.advance '\n') (next :: rest)

/-- The outcome of visiting a source token: the progress after it, the tokens
still to visit, and what comes out. -/
structure Visit where
  progress : Progress
  rest : List (Located Token)
  result : Except RegionError (Array (Located Token))

/-- A token that comes out unchanged. -/
def pass (p : Progress) (token : Located Token) (rest : List (Located Token)) : Visit :=
  ⟨p, rest, .ok #[token]⟩

/-- A visit that ends the walk. -/
def fail (p : Progress) (error : RegionError) : Visit :=
  ⟨p, [], .error error⟩

/-- Visits an opening tag: `begin` and its name, and the tokens after the name.
The tag is entered before its third token is looked at. -/
def visitOpen (hooks : Hooks) (p : Progress) (begin name : Located Token)
    (following : List (Located Token)) : Visit :=
  let tag := (following.head?.map fun third => begin.span.cover third.span).getD begin.span
  if p.inRegion then fail p (.nested tag (p.opened.getD .nowhere))
  else
    match following with
    | [] => fail (p.enter tag) (.malformed Token.blockEnd.describe Token.eof.describe name.span)
    | third :: rest =>
      if third.value = .blockEnd then
        ⟨(p.enter tag).countCall, rest,
          .ok (#[begin, name, third] ++ call hooks.prologue third.span.stop)⟩
      else
        fail (p.enter tag)
          (.malformed Token.blockEnd.describe third.value.describe third.span)

/-- Visits the `{%` of a closing tag; the rest of the tag is visited on its own. -/
def visitClose (hooks : Hooks) (p : Progress) (begin : Located Token)
    (rest : List (Located Token)) : Visit :=
  if p.inRegion then
    ⟨p.leave.countCall, rest, .ok ((call hooks.epilogue begin.span.start).push begin)⟩
  else fail p (.unmatchedClose begin.span)

/-- Visits the source token `token` with the tokens after it. -/
def visit (hooks : Hooks) (p : Progress) (token : Located Token)
    (rest : List (Located Token)) : Visit :=
  match token.value with
  | .blockBegin =>
    match rest with
    | name :: following =>
      if name.value.isName openName then visitOpen hooks p token name following
      else if name.value.isName closeName then visitClose hooks p token rest
      else pass p token rest
    | [] => pass p token rest
  | .data text =>
    if p.inRegion then
      let split := splitData hooks p #[] token.span.start (Text.lines text.toList)
      ⟨split.2, rest, .ok split.1⟩
    else pass p token rest
  | .variableBegin => pass (if p.inRegion then p.markDue else p) token rest
  | .eof =>
    if p.inRegion then fail p (.unclosed (p.opened.getD token.span)) else pass p token []
  | _ => pass p token rest

/-- A visit goes on with tokens after the visited one. -/
theorem length_visit_rest_le (hooks : Hooks) (p : Progress) (token : Located Token)
    (rest : List (Located Token)) : (visit hooks p token rest).rest.length ≤ rest.length := by
  unfold visit
  split
  · split
    · split
      · simp only [visitOpen, fail]
        split
        · simp
        · split
          · simp
          · split <;> simp
            omega
      · split
        · simp only [visitClose, fail]
          split <;> simp
        · simp [pass]
    · simp [pass]
  · split <;> simp [pass]
  · simp [pass]
  · split <;> simp [pass, fail]
  · simp [pass]

/-- Visits tokens from a place on, after the output so far. -/
def runFrom (hooks : Hooks) (p : Progress) (out : Array (Located Token)) :
    List (Located Token) → Except RegionError (Array (Located Token) × Progress)
  | [] => .ok (out, p)
  | token :: rest =>
    let v := visit hooks p token rest
    match v.result with
    | .error error => .error error
    | .ok more => runFrom hooks v.progress (out ++ more) v.rest
termination_by tokens => tokens.length
decreasing_by
  have := length_visit_rest_le hooks p token rest
  simp only [List.length_cons]
  omega

/-- The tokens of a template with the calls put in, and their number. -/
structure Instrumented where
  tokens : Array (Located Token)
  summary : Summary

/-- Puts the calls of the hooks into the regions of a template. -/
def instrument (hooks : Hooks) (tokens : List (Located Token)) :
    Except RegionError Instrumented :=
  (runFrom hooks {} #[] (Cursor.closed tokens)).map fun (out, p) => ⟨out, p.summary⟩

/-- An instrumentation handed out token by token. -/
structure Instrumenter where
  hooks : Hooks
  /-- Source tokens not yet visited; none after the end or an error. -/
  rest : List (Located Token)
  /-- Output of the last visit not yet handed out. -/
  queue : List (Located Token) := []
  progress : Progress := {}

namespace Instrumenter

/-- The instrumentation of a template, before its first token. -/
def ofTokens (hooks : Hooks) (tokens : List (Located Token)) : Instrumenter :=
  { hooks, rest := Cursor.closed tokens }

/-- The next token, or the error that ends the instrumentation; nothing once it
has ended. Source tokens are visited only when the queue is empty. -/
def next (i : Instrumenter) : Option (Except RegionError (Located Token)) × Instrumenter :=
  match i.queue, _h : i.rest with
  | token :: queue, _ => (some (.ok token), { i with queue })
  | [], [] => (none, i)
  | [], token :: rest =>
    let v := visit i.hooks i.progress token rest
    match v.result with
    | .error error => (some (.error error), { i with rest := [], progress := v.progress })
    | .ok out => next { i with rest := v.rest, queue := out.toList, progress := v.progress }
termination_by i.rest.length
decreasing_by
  have := length_visit_rest_le i.hooks i.progress token rest
  simp only [_h, List.length_cons]
  omega

end Instrumenter

end Region

end QueryMachine
