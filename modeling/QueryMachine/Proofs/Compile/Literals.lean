import QueryMachine.Proofs.Compile.Stages
import QueryMachine.Proofs.Region.Walk
import QueryMachine.Proofs.Render.Pushes
import QueryMachine.Proofs.Token.Numerals

/-!
# Integers from the source to the output

An integer is read in two parts. The lexer reads its digits and bounds them by the
largest word, the parser puts the sign on, and the renderer prints the number again.
The bound is on the magnitude, so the least word, whose magnitude is one too large,
is refused like everything beyond the words, and the negation of a number that was
read is always a word (`IsWord`).

A template that is one integer is followed through the stages one after the other:
its tokens, the tree, the output.
-/

namespace QueryMachine

/-- A signed word of 64 bits. -/
def IsWord (v : Int) : Prop := -2 ^ 63 ≤ v ∧ v < 2 ^ 63

namespace Literal

/-! ## The text -/

/-- The sign in the decimal form of an integer. -/
def sign (n : Int) : List Char := if n < 0 then ['-'] else []

/-- What stands before the digits of an integer that is a template of its own. -/
def opening (n : Int) : List Char := '\x7b' :: '\x7b' :: ' ' :: sign n

/-- The template that outputs an integer with some digits, `{{ -12 }}` or `{{ 12 }}`. -/
def source (n : Int) (digits : List Char) : String :=
  String.ofList (opening n ++ digits ++ [' ', '\x7d', '\x7d'])

/-- Where the digits stand in it. -/
def digitsSpan (n : Int) (digits : List Char) : Span :=
  ⟨Position.start.advanceOver (opening n), Position.start.advanceOver (opening n ++ digits)⟩

theorem toString_eq {n : Int} {digits : List Char} (h : Lexer.IsNumeral n.natAbs digits) :
    toString n = String.ofList (sign n ++ digits) := by
  rw [Lexer.isNumeral_iff] at h
  rw [h, Int.toString_eq_repr, Int.repr_eq_if, sign]
  split
  · next hn =>
    rw [if_neg (by omega), List.nil_append, show n.toNat = n.natAbs by omega, Nat.repr]
  · next hn =>
    rw [if_pos (by omega), String.ofList_append, show (-n).toNat = n.natAbs by omega, Nat.repr]

/-- A printed integer has no blanks around it. -/
theorem trimString_eq {n : Int} {digits : List Char} (h : Lexer.IsNumeral n.natAbs digits) :
    Text.trimString (String.ofList (sign n ++ digits)) = String.ofList (sign n ++ digits) := by
  have hblank : ∀ c ∈ sign n ++ digits, Text.isBlank c = false := by
    intro c hc
    rcases List.mem_append.mp hc with hc | hc
    · unfold sign at hc
      split at hc
      · rw [List.mem_singleton.mp hc]
        decide
      · cases hc
    · exact Lexer.isBlank_of_isWordChar (Lexer.isWordChar_of_isDigit (h.all_digits c hc))
  have hdrop : ∀ cs : List Char, (∀ c ∈ cs, Text.isBlank c = false) →
      cs.dropWhile Text.isBlank = cs := by
    intro cs hcs
    cases cs with
    | nil => rfl
    | cons c cs => rw [List.dropWhile_cons_of_neg (by rw [hcs c List.mem_cons_self]; decide)]
  rw [Text.trimString, String.toList_ofList, Text.trim, Text.trimStart, hdrop _ hblank,
    Text.trimEnd, hdrop _ (fun c hc => hblank c (List.mem_reverse.mp hc)), List.reverse_reverse]

/-! ## The tokens -/

open Lexer

/-- The token of the sign. -/
def signTokens (n : Int) : List (Located Token) :=
  if n < 0 then [⟨.minus, ⟨⟨3, 1, 4⟩, ⟨4, 1, 5⟩⟩⟩] else []

/-- The tokens before the digits. -/
def openingTokens (n : Int) : List (Located Token) :=
  ⟨.variableBegin, ⟨.start, ⟨2, 1, 3⟩⟩⟩ :: signTokens n

/-- The tokens of a template that is one output tag. -/
def outputTokens (w : List (Located Token)) (first last marker : Span) : List (Located Token) :=
  ⟨.variableBegin, first⟩ :: (w ++ [⟨.variableEnd, last⟩]) ++ [⟨.eof, marker⟩]

/-- The tokens of the template of an integer. -/
def tokens (n : Int) (digits : List Char) : List (Located Token) :=
  let span := digitsSpan n digits
  let close := span.stop.advance ' '
  let stop := close.advanceOver ['\x7d', '\x7d']
  outputTokens (signTokens n ++ [⟨.integer n.natAbs, span⟩]) ⟨.start, ⟨2, 1, 3⟩⟩ ⟨close, stop⟩
    (.point stop)

/-- The machine comes to the digits, with a blank still before them if no sign is. -/
theorem exists_runFrom_digits (n : Int) :
    ∃ opened pos blanks, (∀ b ∈ blanks, Text.isBlank b = true) ∧
      pos.advanceOver blanks = Position.start.advanceOver (opening n) ∧
      ∀ c cs, c.isDigit = true →
        runFrom ⟨.data false, .start, opening n ++ c :: cs⟩ #[]
          = runFrom ⟨.tag .expression opened, pos, blanks ++ c :: cs⟩
              ((openingTokens n).map .token).toArray := by
  have hopen : ∀ rest, runFrom ⟨.data false, .start, '\x7b' :: '\x7b' :: ' ' :: rest⟩ #[]
      = runFrom ⟨.tag .expression ⟨.start, ⟨2, 1, 3⟩⟩, ⟨2, 1, 3⟩, ' ' :: rest⟩
          #[.token ⟨.variableBegin, ⟨.start, ⟨2, 1, 3⟩⟩⟩] := by
    intro rest
    have hopener : step ⟨.data false, .start, '\x7b' :: '\x7b' :: ' ' :: rest⟩
        = .more none ⟨.opener (.tag .expression), .start, ' ' :: rest⟩ :=
      @step_opener _ (.tag .expression) (' ' :: rest) rfl
    rw [runFrom_more hopener, runFrom_more (step_begin .expression .start rfl)]
    rfl
  unfold opening sign openingTokens signTokens
  split
  · -- The sign is a token of its own, and the digits stand right behind it.
    refine ⟨⟨.start, ⟨2, 1, 3⟩⟩, ⟨4, 1, 5⟩, [], by simp, rfl, fun c cs hc => ?_⟩
    have hclose : closerAt .expression ('-' :: c :: cs) = none := by
      have hmark : c ≠ '\x7d' := by
        rintro rfl
        cases hc
      simp [closerAt, TagKind.closeMark, hmark]
    have hblank : Text.isBlank '-' = false := by decide
    have hminus : step ⟨.tag .expression ⟨.start, ⟨2, 1, 3⟩⟩, ⟨2, 1, 3⟩, ' ' :: '-' :: c :: cs⟩
        = _ := stepTag_cons .expression ⟨.start, ⟨2, 1, 3⟩⟩ ⟨2, 1, 3⟩ hblank (c :: cs)
    rw [hclose] at hminus
    refine (hopen ('-' :: c :: cs)).trans ?_
    rw [runFrom_more hminus]
    rfl
  · exact ⟨_, ⟨2, 1, 3⟩, [' '], isBlank_space, rfl, fun c cs _ => hopen (c :: cs)⟩

/-- The digits are a token, or the error that the text ends with. -/
theorem scan_source {n : Int} {digits : List Char} (h : IsNumeral n.natAbs digits) :
    scan (source n digits).toList
      = if n.natAbs ≤ maxInteger then ⟨((tokens n digits).map .token).toArray, none⟩
        else ⟨((openingTokens n).map .token).toArray,
          some (.invalidNumber (String.ofList digits) (digitsSpan n digits))⟩ := by
  obtain ⟨opened, pos, blanks, hblanks, hpos, hrun⟩ := exists_runFrom_digits n
  obtain ⟨c, cs, rfl⟩ := List.exists_cons_of_ne_nil h.nonempty
  have hdigits := List.forall_mem_cons.mp h.all_digits
  have hword : ∀ d ∈ cs, isWordChar d = true := fun d hd =>
    isWordChar_of_isDigit (hdigits.2 d hd)
  have hread := @readWord_eq pos c cs ['\x7d', '\x7d'] hword
  simp only [readWord, Prod.mk.injEq, List.cons.injEq, true_and] at hread
  have hstop : (Position.start.advanceOver (opening n)).advanceOver (c :: cs)
      = (digitsSpan n (c :: cs)).stop := by
    rw [digitsSpan, Position.advanceOver_append]
  have hspan : (⟨Position.start.advanceOver (opening n), (digitsSpan n (c :: cs)).stop⟩ : Span)
      = digitsSpan n (c :: cs) := rfl
  have hnumber := step_number .expression opened pos hblanks hdigits.1
    (cs ++ [' ', '\x7d', '\x7d'])
  simp only [hread.1, hread.2.2, hpos, h.value, hstop, hspan] at hnumber
  have htext : (source n (c :: cs)).toList
      = opening n ++ c :: (cs ++ [' ', '\x7d', '\x7d']) := by
    rw [source, String.toList_ofList, List.append_assoc, List.cons_append]
  rw [scan, htext, hrun c _ hdigits.1]
  split
  · next hle =>
    rw [if_pos ⟨h.all_digits, hle⟩] at hnumber
    have hclose : step ⟨.tag .expression opened, (digitsSpan n (c :: cs)).stop,
        [' ', '\x7d', '\x7d']⟩ = _ := step_close .expression opened _ []
    have hend : ∀ pos, step ⟨.data false, pos, []⟩ = .finished ⟨.eof, .point pos⟩ := fun _ => rfl
    rw [runFrom_more hnumber, runFrom_more hclose, runFrom_finished (hend _)]
    simp [tokens, outputTokens, openingTokens, TagKind.endToken, TagKind.closeMark]
  · next hlt =>
    rw [if_neg (fun hall => hlt hall.2)] at hnumber
    exact runFrom_failed hnumber

theorem tokensOf_map_token (ts : List (Located Token)) : tokensOf (ts.map .token) = ts := by
  induction ts with
  | nil => rfl
  | cons t ts ih => exact congrArg (t :: ·) ih

theorem tokenize_of_scan {text : String} {ts : List (Located Token)} {failure : Option LexError}
    (h : scan text.toList = ⟨(ts.map .token).toArray, failure⟩)
    (hroom : ts.length ≤ Limits.maxTokenCount) :
    ∃ seen : Lexed, seen.tokens.toList = ts ∧
      tokenize text = (failure.map fun error => .error ⟨error, seen⟩).getD (.ok seen) := by
  obtain ⟨seen, hcount⟩ := @exists_of_countFrom {} (ts.map .token)
    (by rw [tokensOf_map_token]; simpa using hroom)
  refine ⟨seen, ?_, ?_⟩
  · rw [tokens_of_countFrom hcount, tokensOf_map_token]
    rfl
  · rw [tokenize, h, Trace.result, hcount]
    cases failure <;> rfl

theorem length_signTokens (n : Int) : (signTokens n).length ≤ 1 := by
  unfold signTokens
  split <;> simp

/-! ## The tree and the output -/

open Grammar

/-- The sign and the digits are the tokens of an integer. -/
theorem exists_exprTokens (n : Int) (digits : Span) :
    ∃ place, ExprTokens (signTokens n ++ [⟨.integer n.natAbs, digits⟩]) (.int n place) := by
  unfold signTokens
  split
  · next hn =>
    have htokens := ExprTokens.neg n.natAbs ⟨⟨3, 1, 4⟩, ⟨4, 1, 5⟩⟩ digits
    rw [show -(n.natAbs : Int) = n by omega] at htokens
    exact ⟨_, htokens⟩
  · next hn =>
    have htokens := ExprTokens.int n.natAbs digits
    rw [show (n.natAbs : Int) = n by omega] at htokens ⊢
    exact ⟨_, htokens⟩

/-- Outside of regions nothing is put into a template. -/
theorem instrument_output {w : List (Located Token)}
    (hw : ∀ t ∈ w, isContent t.value = true) (first last marker : Span) :
    ∃ summary, Region.instrument {} (outputTokens w first last marker)
      = .ok ⟨(outputTokens w first last marker).toArray, summary⟩ := by
  have hclosed : ∀ ts : List (Located Token),
      Cursor.closed (ts ++ [⟨.eof, marker⟩]) = ts ++ [⟨.eof, marker⟩] := by
    intro ts
    simp [Cursor.closed, Token.isEof]
  have hmark : Region.beginsMark (⟨.variableBegin, first⟩ :: (w ++ [⟨.variableEnd, last⟩]))
      = false := by
    cases w <;> rfl
  have hpiece : Region.Emits {} {} (⟨.variableBegin, first⟩ :: (w ++ [⟨.variableEnd, last⟩]))
      (⟨.variableBegin, first⟩ :: (w ++ [⟨.variableEnd, last⟩])) {} :=
    Region.emits_piece_outside (IsPiece.tag .expression first last hw) hmark rfl
  refine ⟨({} : Region.Progress).summary, ?_⟩
  rw [outputTokens, Region.instrument, hclosed, hpiece, Region.runFrom_eof rfl]
  simp [Except.map]

theorem parse_output {w : List (Located Token)} {e : Expr} (hw : ExprTokens w e)
    (hdepth : e.depth ≤ Limits.maxNesting) (first last marker : Span) :
    Template.parse (outputTokens w first last marker)
      = .ok ⟨[.item (.output e (first.cover last))]⟩ := by
  have hnodes : NodesTokens (⟨.variableBegin, first⟩ :: (w ++ [⟨.variableEnd, last⟩]))
      [.item (.output e (first.cover last))] := by
    have htokens := NodesTokens.item (ItemTokens.output first last hw) .nil
    rw [List.append_nil] at htokens
    exact htokens
  refine parse_eq_ok_iff.mpr ⟨?_, List.forall_mem_singleton.mpr hdepth⟩
  rw [outputTokens, beforeEnd_append (not_eof_of_nodesTokens hnodes) (by simp [AtEnd])]
  exact hnodes

/-- The tree of an integer that is not too large. -/
theorem front_source {n : Int} {digits : List Char} (h : IsNumeral n.natAbs digits)
    (hle : n.natAbs ≤ maxInteger) :
    ∃ lexed summary place span,
      Compile.front (source n digits)
        = .ok (lexed, summary, ⟨[.item (.output (.int n place) span)]⟩) := by
  have hscan := scan_source h
  rw [if_pos hle] at hscan
  have hroom : (tokens n digits).length ≤ Limits.maxTokenCount := by
    have hsign := length_signTokens n
    have hfive : 5 ≤ Limits.maxTokenCount := by decide
    simp only [tokens, outputTokens, List.length_append, List.length_cons, List.length_nil]
    omega
  obtain ⟨lexed, htokens, htokenize⟩ := tokenize_of_scan hscan hroom
  obtain ⟨place, hw⟩ := exists_exprTokens n (digitsSpan n digits)
  obtain ⟨first, last, marker, htag⟩ : ∃ first last marker, tokens n digits
      = outputTokens (signTokens n ++ [⟨.integer n.natAbs, digitsSpan n digits⟩]) first last
          marker := ⟨_, _, _, rfl⟩
  obtain ⟨summary, hinstrument⟩ :=
    instrument_output (isContent_of_exprTokens hw) first last marker
  have hparse := parse_output hw (Nat.zero_le _) first last marker
  refine ⟨lexed, summary, place, first.cover last, ?_⟩
  rw [Compile.front, htokenize]
  simp only [Option.map_none, Option.getD_none, htokens, htag, hinstrument, hparse]

/-- An integer that is too large stops the lexer. -/
theorem front_source_large {n : Int} {digits : List Char} (h : IsNumeral n.natAbs digits)
    (hlt : ¬ n.natAbs ≤ maxInteger) :
    Compile.front (source n digits)
      = .error (.lexical (.invalidNumber (String.ofList digits) (digitsSpan n digits))) := by
  have hscan := scan_source h
  rw [if_neg hlt] at hscan
  have hroom : (openingTokens n).length ≤ Limits.maxTokenCount := by
    have hsign := length_signTokens n
    have htwo : 2 ≤ Limits.maxTokenCount := by decide
    simp only [openingTokens, List.length_cons]
    omega
  obtain ⟨seen, -, htokenize⟩ := tokenize_of_scan hscan hroom
  rw [Compile.front, htokenize, Option.map_some, Option.getD_some]

/-- The output of an integer is the integer, with any dialect. -/
theorem render_integer (d : Dialect) (policy : LabelPolicy) (n : Int) (place span : Span) :
    (Compile.render d policy ⟨[.item (.output (.int n place) span)]⟩).1
      = .ok ⟨toString n, #[]⟩ := by
  have hresolve : ∀ m, Resolution.ofRendered d policy m (({} : Rendered).pushText (toString n))
      = (.ok { text := toString n }, #[]) := by
    intro m
    have hpushed := Resolution.ofRendered_pushed d policy m [.text (toString n)]
    refine hpushed.trans ?_
    simp [Resolution.resolveFrom]
  simp only [Compile.render, Template.render, Render.nodes, Render.node, Render.item, Render.eval,
    Render.emit, Render.resolve, hresolve, Except.mapError]

end Literal

open Literal in
/-- An integer whose magnitude is less than that of the least word is output as it is
written, and every other one is refused by the lexer. Every number that is read from a
text is a word, and so is its negation; and a word of a tag that begins with a digit is
a number exactly if it has digits only and its value is at most the largest word. -/
theorem integer_literals (d : Dialect) (preferences : CompilerPreferences) (name : String) :
    (∀ (n : Int) (digits : List Char), Lexer.IsNumeral n.natAbs digits →
      (compile d preferences name (source n digits)).1.map Compiled.output
        = if -2 ^ 63 < n ∧ n < 2 ^ 63 then .ok (String.ofList (sign n ++ digits))
          else .error (.lexical
            (.invalidNumber (String.ofList digits) (digitsSpan n digits)))) ∧
    (∀ text lexed, Lexer.tokenize text = .ok lexed →
      ∀ v span, ⟨.integer v, span⟩ ∈ lexed.tokens.toList → IsWord v ∧ IsWord (-v)) ∧
    ∀ (kind : Lexer.TagKind) (opened : Span) (pos : Position) (blanks : List Char) (c : Char)
      (cs : List Char), (∀ b ∈ blanks, Text.isBlank b = true) → c.isDigit = true →
      Lexer.step ⟨.tag kind opened, pos, blanks ++ c :: cs⟩
        = let word := c :: cs.takeWhile Lexer.isWordChar
          let start := pos.advanceOver blanks
          let span : Span := ⟨start, start.advanceOver word⟩
          if (∀ d ∈ word, d.isDigit = true) ∧ Lexer.decimal word ≤ 2 ^ 63 - 1 then
            .more (some (.token ⟨.integer (Lexer.decimal word), span⟩))
              ⟨.tag kind opened, span.stop, cs.dropWhile Lexer.isWordChar⟩
          else .failed (.invalidNumber (String.ofList word) span) := by
  refine ⟨?_, ?_, ?_⟩
  · intro n digits h
    rw [Compile.compile_fst]
    have hmax : Lexer.maxInteger = 2 ^ 63 - 1 := by decide
    split
    · next hn =>
      obtain ⟨lexed, summary, place, span, hfront⟩ := front_source h (by omega)
      rw [hfront]
      simp only [Except.bind, Compile.back, render_integer, Except.map, Compile.result,
        toString_eq h, trimString_eq h, ite_self]
    · next hn =>
      rw [front_source_large h (by omega)]
      rfl
  · intro text lexed h v span hv
    have hword := (Lexer.tokenize_wellFormed h).each _ hv
    obtain ⟨hnonneg, hle⟩ : 0 ≤ v ∧ v ≤ 2 ^ 63 - 1 := hword
    refine ⟨⟨?_, ?_⟩, ⟨?_, ?_⟩⟩ <;> omega
  · intro kind opened pos blanks c cs hblanks hc
    exact Lexer.step_number kind opened pos hblanks hc cs

/-- The largest word and its negation pass, the least word does not. -/
theorem integer_literals_edge :
    ((compile MySql.dialect {} "t"
        (Literal.source (-9223372036854775807) "9223372036854775807".toList)).1.map
          Compiled.output = .ok "-9223372036854775807") ∧
    ((compile MySql.dialect {} "t"
        (Literal.source (-9223372036854775808) "9223372036854775808".toList)).1.map
          Compiled.output = .error (.lexical (.invalidNumber "9223372036854775808"
            ⟨⟨4, 1, 5⟩, ⟨23, 1, 24⟩⟩))) := by
  constructor
  · exact (integer_literals MySql.dialect {} "t").1 (-9223372036854775807)
      "9223372036854775807".toList (Lexer.isNumeral_iff.mpr (by decide))
  · exact (integer_literals MySql.dialect {} "t").1 (-9223372036854775808)
      "9223372036854775808".toList (Lexer.isNumeral_iff.mpr (by decide))

end QueryMachine
