import QueryMachine.Proofs.Token.Comments
import QueryMachine.Proofs.Token.Recognition
import QueryMachine.Token.Analyzer

/-!
# What an analyzer counts

An analyzer counts while it reads, and it is kept from one template to the next.
That nothing of one template is left in the counts of the next one is how it
begins: it is cleared. That the counts are those of the template is an invariant
of the run (`Analyzer.Counted`): at every moment they are the counts over the
lexemes recognised so far, which are the tokens kept and the comments passed. One
lemma says what taking in a lexeme does, one what a run does, and the two ends of
a run, the end of the text and an error, are then read off.

The compiler itself counts after the fact (`Lexer.tokenize`, `Lexed.metrics`), and it
comes to the same (`Ends.tokenize`).
-/

namespace QueryMachine

open Lexer

/-! ## Counts over tokens -/

/-- What counts say about some tokens and a number of comments. -/
structure Metrics.Tells (m : Metrics) (tokens : List Token) (comments : Nat) : Prop where
  total : m.totalTokens = tokens.length
  data : m.dataTokens = tokens.countP Token.isData
  expressions : m.expressionTags = tokens.count .variableBegin
  blocks : m.blockTags = tokens.count .blockBegin
  comments : m.comments = comments
  /-- No string is longer, -/
  bounds : ∀ value, .string value ∈ tokens → value.utf8ByteSize ≤ m.maxStringLength
  /-- and one is as long, if there is one. -/
  attains : (∃ value, .string value ∈ tokens ∧ value.utf8ByteSize = m.maxStringLength) ∨
    (∀ value, .string value ∉ tokens) ∧ m.maxStringLength = 0

theorem Metrics.tells_start (comments : Nat) :
    ({ comments } : Metrics).Tells [] comments :=
  ⟨rfl, rfl, rfl, rfl, rfl, by simp, .inr (by simp)⟩

/-- A token that is no string leaves the longest string as it is. -/
theorem Metrics.Tells.strings_concat {m : Metrics} {tokens : List Token} {comments : Nat}
    (h : m.Tells tokens comments) {token : Token} (htoken : ∀ value, .string value ≠ token) :
    (∀ value, .string value ∈ tokens ++ [token] → value.utf8ByteSize ≤ m.maxStringLength) ∧
      ((∃ value, .string value ∈ tokens ++ [token] ∧
          value.utf8ByteSize = m.maxStringLength) ∨
        (∀ value, .string value ∉ tokens ++ [token]) ∧ m.maxStringLength = 0) := by
  have hmem (value : String) :
      .string value ∈ tokens ++ [token] ↔ .string value ∈ tokens := by
    rw [List.mem_append, List.mem_singleton]
    exact or_iff_left (htoken value)
  simp only [hmem]
  exact ⟨h.bounds, h.attains⟩

theorem Metrics.Tells.record {m : Metrics} {tokens : List Token} {comments : Nat}
    (h : m.Tells tokens comments) (token : Token) :
    (m.record token).Tells (tokens ++ [token]) comments := by
  cases token with
  | string value =>
    refine ⟨?_, ?_, ?_, ?_, h.comments, ?_, .inl ?_⟩
    · simp [Metrics.record, h.total]
    · simp [Metrics.record, h.data, Token.isData]
    · simp [Metrics.record, h.expressions]
    · simp [Metrics.record, h.blocks]
    · intro other hmem
      simp only [Metrics.record]
      rcases List.mem_append.mp hmem with hmem | hmem
      · exact (h.bounds other hmem).trans (le_max_left ..)
      · cases List.mem_singleton.mp hmem
        exact le_max_right ..
    · simp only [Metrics.record]
      rcases h.attains with ⟨other, hmem, hsize⟩ | ⟨-, hzero⟩
      · rcases le_total m.maxStringLength value.utf8ByteSize with hle | hle
        · exact ⟨value, by simp, (max_eq_right hle).symm⟩
        · exact ⟨other, List.mem_append_left _ hmem, by rw [hsize, max_eq_left hle]⟩
      · exact ⟨value, by simp, by rw [hzero, Nat.zero_max]⟩
  | _ =>
    refine ⟨?_, ?_, ?_, ?_, h.comments, (h.strings_concat (by simp)).1,
      (h.strings_concat (by simp)).2⟩
    · simp [Metrics.record, h.total]
    · simp [Metrics.record, h.data, Token.isData]
    · simp [Metrics.record, h.expressions]
    · simp [Metrics.record, h.blocks]

/-- The counts over what was recognised tell what it is. -/
theorem Lexed.tells_metrics (lexed : Lexed) :
    lexed.metrics.Tells (lexed.tokens.toList.map Located.value) lexed.comments := by
  rw [Lexed.metrics, ← Array.foldl_toList]
  induction lexed.tokens.toList using List.reverseRecOn with
  | nil => exact Metrics.tells_start lexed.comments
  | append_singleton tokens token ih =>
    rw [List.foldl_append, List.map_append]
    exact ih.record token.value

/-- One more comment is counted, whenever it comes. -/
theorem Lexed.metrics_comment (tokens : Array (Located Token)) (comments : Nat) :
    Lexed.metrics ⟨tokens, comments + 1⟩
      = { Lexed.metrics ⟨tokens, comments⟩ with comments := comments + 1 } := by
  simp only [Lexed.metrics, ← Array.foldl_toList]
  induction tokens.toList using List.reverseRecOn with
  | nil => rfl
  | append_singleton tokens token ih =>
    rw [List.foldl_append, List.foldl_append, ih]
    cases hvalue : token.value <;> simp [Metrics.record, hvalue]

theorem Lexed.metrics_push (tokens : Array (Located Token)) (token : Located Token)
    (comments : Nat) :
    Lexed.metrics ⟨tokens.push token, comments⟩
      = (Lexed.metrics ⟨tokens, comments⟩).record token.value := by
  simp [Lexed.metrics]

/-! ## The analyzer at work -/

namespace Analyzer

/-- An analyzer has taken in lexemes: it holds their tokens and their counts. -/
structure Counted (a : Analyzer) (lexemes : List Lexeme) : Prop where
  tokens : a.tokens.toList = tokensOf lexemes
  metrics : a.metrics = Lexed.metrics ⟨a.tokens, lexemes.count .comment⟩
  fits : a.tokens.size ≤ Limits.maxTokenCount

theorem Counted.comments {a : Analyzer} {lexemes : List Lexeme} (h : a.Counted lexemes) :
    a.metrics.comments = lexemes.count .comment := by
  rw [h.metrics]
  exact (Lexed.tells_metrics _).comments

theorem Counted.trims {a : Analyzer} {lexemes : List Lexeme} (h : a.Counted lexemes)
    (trims : Bool) : { a with trimsNext := trims }.Counted lexemes :=
  ⟨h.tokens, h.metrics, h.fits⟩

theorem counted_cleared (a : Analyzer) : a.cleared.Counted [] :=
  ⟨rfl, rfl, Nat.zero_le _⟩

/-- A lexeme is taken in, or it is a token and there is no room for it. -/
theorem Counted.accept {a : Analyzer} {seen : List Lexeme} (h : a.Counted seen)
    (lexeme : Lexeme) :
    (∃ after, a.accept lexeme = (none, after) ∧ after.Counted (seen ++ [lexeme])) ∨
      ∃ token, lexeme = .token token ∧ a.tokens.size = Limits.maxTokenCount ∧
        a.accept lexeme = (some (.tooManyTokens (a.tokens.size + 1) token.span), a) := by
  cases lexeme with
  | comment =>
    refine .inl ⟨_, rfl, ?_, ?_, h.fits⟩
    · rw [tokensOf_append, ← h.tokens]
      simp [tokensOf]
    · simp only [List.count_append, List.count_singleton_self]
      rw [Lexed.metrics_comment, ← h.metrics, h.comments]
  | token token =>
    by_cases hroom : a.tokens.size < Limits.maxTokenCount
    · refine .inl ⟨_, if_pos hroom, ?_, ?_, ?_⟩
      · rw [tokensOf_append, ← h.tokens]
        simp [tokensOf]
      · simp only [List.count_append]
        rw [Lexed.metrics_push, h.metrics]
        rfl
      · simpa using hroom
    · have hfull : a.tokens.size = Limits.maxTokenCount :=
        Nat.le_antisymm h.fits (Nat.le_of_not_lt hroom)
      exact .inr ⟨token, rfl, hfull, if_neg hroom⟩

/-- Why an analyzer that has kept a number of tokens gets no further from a state:
the text is at fault, or the next token is one too many. -/
inductive Stuck (s : State) (kept : Nat) : LexError → Prop where
  | failed {error : LexError} : step s = .failed error → Stuck s kept error
  | refused {token : Located Token} :
      step s = .finished token ∨ (∃ next, step s = .more (some (.token token)) next) →
      kept = Limits.maxTokenCount → Stuck s kept (.tooManyTokens (kept + 1) token.span)

/-- How a run ends: at the end of the text, or where it is stuck. -/
inductive Ends (s : State) (seen : List Lexeme) : Option LexError × Analyzer → Prop where
  | finished {lexemes : List Lexeme} {after : Analyzer} : Runs s lexemes →
      after.Counted (seen ++ lexemes) → Ends s seen (none, after)
  | stuck {lexemes : List Lexeme} {last : State} {error : LexError} {after : Analyzer} :
      Reads s lexemes last → after.Counted (seen ++ lexemes) →
      Stuck last after.tokens.size error → Ends s seen (some error, after)

theorem Ends.of_step {s next : State} {lexeme : Option Lexeme} {seen : List Lexeme}
    {outcome : Option LexError × Analyzer} (hstep : step s = .more lexeme next)
    (h : Ends next (seen ++ lexeme.toList) outcome) : Ends s seen outcome := by
  cases h with
  | finished hruns hcounted =>
    rw [List.append_assoc] at hcounted
    exact .finished (.more hstep hruns) hcounted
  | stuck hreads hcounted hstuck =>
    rw [List.append_assoc] at hcounted
    exact .stuck (.more hstep hreads) hcounted hstuck

/-- Where it is stuck at once, a run has nothing to add. -/
theorem Counted.ends {a : Analyzer} {s : State} {seen : List Lexeme} {error : LexError}
    (h : a.Counted seen) (hstuck : Stuck s a.tokens.size error) :
    Ends s seen (some error, a) := by
  refine .stuck (.refl s) ?_ hstuck
  rw [List.append_nil]
  exact h

/-- A run counts what it recognises. -/
theorem ends_run {a : Analyzer} {s : State} {seen : List Lexeme} (h : a.Counted seen) :
    Ends s seen (a.run s) := by
  fun_induction run a s generalizing seen with
  | case1 a s next hstep ih =>
    refine .of_step hstep (ih ?_)
    rw [Option.toList_none, List.append_nil]
    exact h.trims next.trims
  | case2 a s lexeme next hstep after haccept ih =>
    refine .of_step hstep (ih ?_)
    rcases (h.trims next.trims).accept lexeme with ⟨_, heq, hafter⟩ | ⟨_, -, -, heq⟩
    · rw [haccept] at heq
      cases heq
      exact hafter
    · rw [haccept] at heq
      cases heq
  | case3 a s lexeme next hstep error after haccept =>
    rcases (h.trims next.trims).accept lexeme with ⟨_, heq, -⟩ | ⟨token, rfl, hfull, heq⟩
    · rw [haccept] at heq
      cases heq
    · rw [haccept] at heq
      cases heq
      exact (h.trims next.trims).ends (.refused (.inr ⟨next, hstep⟩) hfull)
  | case4 a s marker hstep =>
    rcases h.accept (.token marker) with ⟨after, heq, hafter⟩ | ⟨token, htoken, hfull, heq⟩
    · rw [heq]
      exact .finished (.finished hstep) hafter
    · cases htoken
      rw [heq]
      exact h.ends (.refused (.inl hstep) hfull)
  | case5 a s error hstep => exact h.ends (.failed hstep)

end Analyzer

/-! ## Counting after the fact -/

namespace Lexer

/-- Lexemes within the limit are all counted. -/
theorem countFrom_eq {seen : Lexed} {lexemes : List Lexeme}
    (h : seen.tokens.size + (tokensOf lexemes).length ≤ Limits.maxTokenCount)
    (rest : List Lexeme) :
    countFrom seen (lexemes ++ rest)
      = countFrom ⟨seen.tokens ++ (tokensOf lexemes).toArray,
          seen.comments + lexemes.count .comment⟩ rest := by
  induction lexemes generalizing seen with
  | nil => simp [tokensOf]
  | cons lexeme lexemes ih =>
    cases lexeme with
    | comment =>
      have hrest := @ih { seen with comments := seen.comments + 1 } h
      rw [List.cons_append, countFrom, count]
      simp only
      rw [hrest]
      simp [tokensOf, Nat.add_comm, Nat.add_left_comm]
    | token token =>
      have hsize : seen.tokens.size + ((tokensOf lexemes).length + 1)
          ≤ Limits.maxTokenCount := h
      have hroom : seen.tokens.size < Limits.maxTokenCount := by omega
      rw [List.cons_append, countFrom, count, if_pos hroom]
      simp only
      rw [ih (by rw [Array.size_push]; omega)]
      simp [tokensOf]

end Lexer

namespace Analyzer

theorem Counted.countFrom_eq {a : Analyzer} {lexemes : List Lexeme} (h : a.Counted lexemes)
    (rest : List Lexeme) :
    countFrom {} (lexemes ++ rest)
      = countFrom ⟨a.tokens, lexemes.count .comment⟩ rest := by
  have hsize : ({} : Lexed).tokens.size + (tokensOf lexemes).length
      ≤ Limits.maxTokenCount := by
    simpa [← h.tokens] using h.fits
  rw [Lexer.countFrom_eq hsize, ← h.tokens]
  simp

/-- The compiler counts the same. -/
theorem Ends.tokenize {source : String} {outcome : Option LexError × Analyzer}
    (h : Ends ⟨.data false, .start, source.toList⟩ [] outcome) :
    ∃ comments, outcome.2.metrics = Lexed.metrics ⟨outcome.2.tokens, comments⟩ ∧
      Lexer.tokenize source = match outcome.1 with
        | none => .ok ⟨outcome.2.tokens, comments⟩
        | some error => .error ⟨error, ⟨outcome.2.tokens, comments⟩⟩ := by
  cases h with
  | @finished lexemes after hruns hcounted =>
    refine ⟨_, hcounted.metrics, ?_⟩
    rw [List.nil_append] at hcounted ⊢
    have hcount := hcounted.countFrom_eq []
    rw [List.append_nil] at hcount
    rw [Lexer.tokenize, scan, runFrom_of_runs hruns, Trace.result]
    simp [hcount, countFrom]
  | @stuck lexemes last error after hreads hcounted hstuck =>
    refine ⟨_, hcounted.metrics, ?_⟩
    rw [List.nil_append] at hcounted ⊢
    rw [Lexer.tokenize, scan, runFrom_of_reads hreads, Array.empty_append]
    cases hstuck with
    | failed hstep =>
      have hcount := hcounted.countFrom_eq []
      rw [List.append_nil] at hcount
      rw [runFrom_failed hstep, Trace.result]
      simp [hcount, countFrom]
    | @refused token hstep hfull =>
      have hcount (rest : List Lexeme) : countFrom {} (lexemes ++ .token token :: rest)
          = .error ⟨.tooManyTokens (after.tokens.size + 1) token.span,
              ⟨after.tokens, lexemes.count .comment⟩⟩ := by
        rw [hcounted.countFrom_eq, countFrom, count, if_neg (by simp [hfull])]
      rcases hstep with hstep | ⟨next, hstep⟩
      · rw [runFrom_finished hstep, Trace.result]
        simp [hcount]
      · obtain ⟨more, failure, hrun⟩ := exists_runFrom_eq next
        rw [runFrom_more hstep, hrun, Trace.result]
        simp [hcount]

/-! ## One template after the other -/

/-- The counts over a template that is cut into tokens. The number of its comments is
that of its layouts, which is the same for all of them. -/
structure Complete (source : String) (tokens : List (Located Token)) (m : Metrics) : Prop where
  laidOut : ∃ l : Layout, l.Valid false ∧ l.text = source.toList ∧ l.tokens = tokens
  tells : ∀ l : Layout, l.Valid false → l.text = source.toList → l.tokens = tokens →
    m.Tells (tokens.map Located.value) l.comments

/-- The counts over a template that fails. The machine has passed `parts` of it and
stands at `last`, where it finds the error; the tokens and the comments of these
parts are counted. -/
structure Interrupted (source : String) (error : LexError) (tokens : List (Located Token))
    (m : Metrics) (parts : List Part) (last : State) : Prop where
  reads : Reads ⟨.data false, .start, source.toList⟩ (place .start parts) last
  passes : Passes ⟨.data false, .start, source.toList⟩ parts last
  tokens_eq : tokens = tokensOf (place .start parts)
  wellFormed : ∀ t ∈ tokens, TokenWellFormed t.value
  tells : m.Tells (tokens.map Located.value) (parts.countP Part.isComment)
  stuck : Stuck last tokens.length error

/-- What an analyzer makes of a template. The compiler comes to the same tokens or
the same error, and to the same counts. -/
inductive Analysis (source : String) :
    Except LexError (Array (Located Token)) × Analyzer → Prop where
  | success {tokens : Array (Located Token)} {after : Analyzer} {lexed : Lexed} :
      Complete source tokens.toList after.metrics →
      Lexer.tokenize source = .ok lexed → lexed.tokens = tokens →
      lexed.metrics = after.metrics → Analysis source (.ok tokens, after)
  | failure {error : LexError} {after : Analyzer} {parts : List Part} {last : State}
      {seen : Lexed} :
      Interrupted source error after.tokens.toList after.metrics parts last →
      Lexer.tokenize source = .error ⟨error, seen⟩ → seen.tokens = after.tokens →
      seen.metrics = after.metrics → Analysis source (.error error, after)

theorem Counted.tells {a : Analyzer} {lexemes : List Lexeme} (h : a.Counted lexemes) :
    a.metrics.Tells (a.tokens.toList.map Located.value) (lexemes.count .comment) := by
  rw [h.metrics]
  exact Lexed.tells_metrics _

theorem Counted.complete {source : String} {a : Analyzer} {lexemes : List Lexeme}
    (h : a.Counted lexemes) (hruns : Runs ⟨.data false, .start, source.toList⟩ lexemes) :
    Complete source a.tokens.toList a.metrics := by
  obtain ⟨l, hl, htext, hplace⟩ := remains_of_runs hruns
  have htokens : l.tokens = a.tokens.toList := by
    rw [h.tokens, Layout.tokens, ← hplace]
  have htells := h.tells
  rw [← hplace, count_comment_place, Layout.countP_comment] at htells
  refine ⟨⟨l, hl, htext, htokens⟩, fun l' hl' htext' htokens' => ?_⟩
  rw [← Layout.comments_eq hl hl' (htext.trans htext'.symm) (htokens.trans htokens'.symm)]
  exact htells

theorem Counted.interrupted {source : String} {a : Analyzer} {lexemes : List Lexeme}
    {last : State} {error : LexError} (h : a.Counted lexemes)
    (hreads : Reads ⟨.data false, .start, source.toList⟩ lexemes last)
    (hstuck : Stuck last a.tokens.size error) :
    ∃ parts, Interrupted source error a.tokens.toList a.metrics parts last := by
  obtain ⟨parts, hpasses, rfl⟩ := passes_of_reads hreads
  refine ⟨parts, hreads, hpasses, h.tokens, ?_, ?_, hstuck⟩
  · rw [h.tokens]
    exact wellFormed_of_reads hreads
  · rw [← count_comment_place]
    exact h.tells

theorem analysis_tokenize (a : Analyzer) (source : String) :
    Analysis source (a.tokenize source) := by
  have hends : Ends ⟨.data false, .start, source.toList⟩ []
      (a.cleared.run ⟨.data false, .start, source.toList⟩) := ends_run a.counted_cleared
  obtain ⟨comments, hmetrics, hlexer⟩ := hends.tokenize
  have htrims : a.cleared.trimsNext = false := rfl
  simp only [tokenize, htrims]
  generalize a.cleared.run ⟨.data false, .start, source.toList⟩ = outcome at *
  cases hends with
  | finished hruns hcounted =>
    exact .success (hcounted.complete hruns) hlexer rfl hmetrics.symm
  | stuck hreads hcounted hstuck =>
    obtain ⟨parts, hinterrupted⟩ := hcounted.interrupted hreads hstuck
    exact .failure hinterrupted hlexer rfl hmetrics.symm

theorem tokenizeAll_eq (a : Analyzer) (sources : List String) :
    a.tokenizeAll sources = sources.map fun source =>
      ((({} : Analyzer).tokenize source).1, (({} : Analyzer).tokenize source).2.metrics) := by
  induction sources generalizing a with
  | nil => rfl
  | cons source sources ih =>
    rw [tokenizeAll, List.map_cons, ← ih (a.tokenize source).2]
    rfl

/-- The limit is reached exactly. -/
theorem Stuck.full {s : State} {kept count : Nat} {span : Span}
    (h : Stuck s kept (.tooManyTokens count span)) :
    count = Limits.maxTokenCount + 1 ∧ kept = Limits.maxTokenCount := by
  cases h with
  | failed hstep => exact absurd rfl (isLocal_of_step hstep count span)
  | refused hstep hfull => exact ⟨by rw [hfull], hfull⟩

/-- An analyzer that is kept answers for each template as a new one does, and its
counts are those of the template, or of what was recognised of it before the
error. -/
theorem tokenizeAll_counts (a : Analyzer) :
    (∀ sources, a.tokenizeAll sources = sources.map fun source =>
      ((({} : Analyzer).tokenize source).1, (({} : Analyzer).tokenize source).2.metrics)) ∧
    (∀ source, Analysis source (a.tokenize source)) ∧
    ∀ source count span, (a.tokenize source).1 = .error (.tooManyTokens count span) →
      count = 1000001 ∧ (a.tokenize source).2.tokens.size = 1000000 ∧
        (a.tokenize source).2.metrics.totalTokens = 1000000 := by
  refine ⟨a.tokenizeAll_eq, a.analysis_tokenize, ?_⟩
  intro source count span herror
  have hanalysis := a.analysis_tokenize source
  generalize a.tokenize source = outcome at *
  cases hanalysis with
  | success => cases herror
  | failure hinterrupted =>
    cases herror
    obtain ⟨hcount, hkept⟩ := hinterrupted.stuck.full
    have htotal := hinterrupted.tells.total
    rw [List.length_map, hkept] at htotal
    exact ⟨hcount, hkept, htotal⟩

/-- Neither the `-` that ends a template nor the counts of a template that fails are
left for the next one. -/
example :
    (({} : Analyzer).tokenizeAll
      ["\x7b\x7b'é' -\x7d\x7d", " \x7b# c #\x7d\x7b%", " "]).map Prod.snd
      = [{ totalTokens := 4, expressionTags := 1, maxStringLength := 2 },
         { totalTokens := 2, dataTokens := 1, blockTags := 1, comments := 1 },
         { totalTokens := 2, dataTokens := 1 }] := by
  cbv

end Analyzer

end QueryMachine
