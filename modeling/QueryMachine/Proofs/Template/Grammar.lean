import QueryMachine.Template.Parser
import QueryMachine.Proofs.Token.Layout

/-!
# The grammar of templates

The parser reads by recursive descent; this file says what it reads. The rules
below relate a sequence of tokens to the tree it is read as, spans included,
and do not mention cursors, lookahead or budgets. The one limit of the parser,
the nesting of calls, is a measure of the tree (`Node.depth`).

`parse_eq_ok_iff` is the equivalence: the parser answers a tree exactly when
the tokens before the first end marker derive it and the tree is not too deep.
Soundness and completeness go function by function. Both follow the parser's
own recursion, on the nesting budget for expressions and on the number of
tokens left for the loops; the rules are only ever taken apart, so nothing is
inducted over twice.
-/

namespace QueryMachine

namespace Expr

mutual

/-- How deep calls nest in an expression. -/
def depth : Expr → Nat
  | str .. | int .. | var .. => 0
  | call _ args _ => depthAll args + 1

/-- How deep calls nest in the deepest of some expressions. -/
def depthAll : List Expr → Nat
  | [] => 0
  | e :: es => max e.depth (depthAll es)

end

end Expr

def Item.depth : Item → Nat
  | data .. => 0
  | output e _ | set _ e _ => e.depth

/-- How deep a node nests; a region counts as one level. -/
def Node.depth : Node → Nat
  | item i => i.depth
  | region body _ => (body.map Item.depth).foldr max 0 + 1

namespace Grammar

/-! ## The rules -/

mutual

/-- The tokens of an expression. -/
inductive ExprTokens : List (Located Token) → Expr → Prop where
  | str (value : String) (span : Span) :
      ExprTokens [⟨.string value, span⟩] (.str value span)
  | int (value : Int) (span : Span) :
      ExprTokens [⟨.integer value, span⟩] (.int value span)
  | neg (value : Int) (sign digits : Span) :
      ExprTokens [⟨.minus, sign⟩, ⟨.integer value, digits⟩] (.int (-value) (sign.cover digits))
  | var (name : String) (span : Span) : ExprTokens [⟨.name name, span⟩] (.var name span)
  | callNone (name : String) (first left right : Span) :
      ExprTokens [⟨.name name, first⟩, ⟨.leftParen, left⟩, ⟨.rightParen, right⟩]
        (.call name [] (first.cover right))
  | call (name : String) (first left right : Span) {w : List (Located Token)}
      {args : List Expr} : ArgsTokens w args →
      ExprTokens (⟨.name name, first⟩ :: ⟨.leftParen, left⟩ :: (w ++ [⟨.rightParen, right⟩]))
        (.call name args (first.cover right))

/-- The tokens of one or more arguments. -/
inductive ArgsTokens : List (Located Token) → List Expr → Prop where
  | one {w : List (Located Token)} {e : Expr} : ExprTokens w e → ArgsTokens w [e]
  | more {w rest : List (Located Token)} {e : Expr} {es : List Expr} (comma : Span) :
      ExprTokens w e → ArgsTokens rest es →
      ArgsTokens (w ++ ⟨.comma, comma⟩ :: rest) (e :: es)

end

/-- The tokens of an item. -/
inductive ItemTokens : List (Located Token) → Item → Prop where
  | data (text : String) (span : Span) : ItemTokens [⟨.data text, span⟩] (.data text span)
  | output (first last : Span) {w : List (Located Token)} {e : Expr} : ExprTokens w e →
      ItemTokens (⟨.variableBegin, first⟩ :: (w ++ [⟨.variableEnd, last⟩]))
        (.output e (first.cover last))
  | set (name : String) (first tag target equals last : Span) {w : List (Located Token)}
      {e : Expr} : ExprTokens w e →
      ItemTokens (⟨.blockBegin, first⟩ :: ⟨.name "set", tag⟩ :: ⟨.name name, target⟩ ::
          ⟨.assign, equals⟩ :: (w ++ [⟨.blockEnd, last⟩]))
        (.set name e (first.cover last))

/-- The tokens of items in a row. -/
inductive ItemsTokens : List (Located Token) → List Item → Prop where
  | nil : ItemsTokens [] []
  | cons {w rest : List (Located Token)} {i : Item} {is : List Item} :
      ItemTokens w i → ItemsTokens rest is → ItemsTokens (w ++ rest) (i :: is)

/-- A block tag that holds a name only. -/
def nameTag (name : String) (first tag last : Span) : List (Located Token) :=
  [⟨.blockBegin, first⟩, ⟨.name name, tag⟩, ⟨.blockEnd, last⟩]

/-- The tokens of nodes in a row. Regions hold items, so they do not nest. -/
inductive NodesTokens : List (Located Token) → List Node → Prop where
  | nil : NodesTokens [] []
  | item {w rest : List (Located Token)} {i : Item} {ns : List Node} :
      ItemTokens w i → NodesTokens rest ns → NodesTokens (w ++ rest) (.item i :: ns)
  | region (first tag last first' tag' last' : Span) {body rest : List (Located Token)}
      {items : List Item} {ns : List Node} :
      ItemsTokens body items → NodesTokens rest ns →
      NodesTokens (nameTag Region.openName first tag last ++
          (body ++ (nameTag Region.closeName first' tag' last' ++ rest)))
        (.region items (first.cover last) :: ns)

mutual

theorem isContent_of_exprTokens {w : List (Located Token)} {e : Expr}
    (h : ExprTokens w e) : ∀ t ∈ w, Lexer.isContent t.value = true := by
  match h with
  | .str .. | .int .. | .neg .. | .var .. | .callNone .. => simp [Lexer.isContent]
  | .call name first left right hargs =>
    intro t ht
    have := isContent_of_argsTokens hargs
    simp only [List.mem_cons, List.mem_append, List.not_mem_nil, or_false] at ht
    rcases ht with rfl | rfl | ht | rfl
    · rfl
    · rfl
    · exact this t ht
    · rfl

theorem isContent_of_argsTokens {w : List (Located Token)} {es : List Expr}
    (h : ArgsTokens w es) : ∀ t ∈ w, Lexer.isContent t.value = true := by
  match h with
  | .one he => exact isContent_of_exprTokens he
  | .more comma he hes =>
    intro t ht
    have h1 := isContent_of_exprTokens he
    have h2 := isContent_of_argsTokens hes
    simp only [List.mem_cons, List.mem_append] at ht
    rcases ht with ht | rfl | ht
    · exact h1 t ht
    · rfl
    · exact h2 t ht

end

/-! ## Reading one token -/

/-- The tokens that carry neither a text nor a value. -/
def isBare : Token → Bool
  | .data _ | .name _ | .string _ | .integer _ => false
  | _ => true

theorem eq_of_sameKind {t wanted : Token} (hbare : isBare wanted = true)
    (h : t.sameKind wanted = true) : t = wanted := by
  cases wanted <;> cases hbare <;> cases t <;> first | rfl | cases h

theorem expect_sound {c : Cursor} {wanted : Token} {t : Located Token} {d : c.After}
    (h : Parser.expect c wanted = .ok (t, d)) :
    c.rest = t :: d.val.rest ∧ t.value.sameKind wanted = true := by
  unfold Parser.expect Cursor.expect at h
  split at h
  · next token rest hrest =>
    split at h
    · next hkind =>
      cases h
      exact ⟨hrest, hkind⟩
    · split at h <;> cases h
  · cases h

/-- A bare token that is read is the one that was wanted. -/
theorem expect_bare {c : Cursor} {wanted : Token} {t : Located Token} {d : c.After}
    (h : Parser.expect c wanted = .ok (t, d)) (hbare : isBare wanted = true) :
    c.rest = ⟨wanted, t.span⟩ :: d.val.rest := by
  obtain ⟨hrest, hkind⟩ := expect_sound h
  rw [hrest, ← eq_of_sameKind hbare hkind]

theorem expect_complete {c : Cursor} {wanted : Token} {t : Located Token}
    {rest : List (Located Token)} (hrest : c.rest = t :: rest)
    (hkind : t.value.sameKind wanted = true) :
    ∃ d : c.After, Parser.expect c wanted = .ok (t, d) ∧ d.val.rest = rest := by
  obtain ⟨tokens, last⟩ := c
  subst hrest
  refine ⟨⟨⟨rest, last⟩, by simp [Cursor.remaining]⟩, ?_, rfl⟩
  simp [Parser.expect, Cursor.expect, hkind, Except.mapError]

theorem expect_self {c : Cursor} {wanted : Token} {span : Span}
    {rest : List (Located Token)} (hrest : c.rest = ⟨wanted, span⟩ :: rest) :
    ∃ d : c.After, Parser.expect c wanted = .ok (⟨wanted, span⟩, d) ∧ d.val.rest = rest :=
  expect_complete hrest (Token.sameKind_self wanted)

theorem expectName_sound {c : Cursor} {name : String} {span : Span} {d : c.After}
    (h : Parser.expectName c = .ok ((name, span), d)) :
    c.rest = ⟨.name name, span⟩ :: d.val.rest := by
  unfold Parser.expectName at h
  split at h
  · cases h
  · next token rest hexpect =>
    obtain ⟨hrest, -⟩ := expect_sound hexpect
    split at h
    · next text hvalue =>
      cases h
      rw [hrest, ← hvalue]
    · cases h

theorem expectName_complete {c : Cursor} {name : String} {span : Span}
    {rest : List (Located Token)} (hrest : c.rest = ⟨.name name, span⟩ :: rest) :
    ∃ d : c.After, Parser.expectName c = .ok ((name, span), d) ∧ d.val.rest = rest := by
  have hkind : (Token.name name).sameKind Parser.anyName = true := rfl
  obtain ⟨d, hexpect, hd⟩ := expect_complete hrest hkind
  exact ⟨d, by simp [Parser.expectName, hexpect], hd⟩

theorem expectInteger_sound {c : Cursor} {value : Int} {span : Span} {d : c.After}
    (h : Parser.expectInteger c = .ok ((value, span), d)) :
    c.rest = ⟨.integer value, span⟩ :: d.val.rest := by
  unfold Parser.expectInteger at h
  split at h
  · cases h
  · next token rest hexpect =>
    obtain ⟨hrest, -⟩ := expect_sound hexpect
    split at h
    · next text hvalue =>
      cases h
      rw [hrest, ← hvalue]
    · cases h

theorem expectInteger_complete {c : Cursor} {value : Int} {span : Span}
    {rest : List (Located Token)} (hrest : c.rest = ⟨.integer value, span⟩ :: rest) :
    ∃ d : c.After, Parser.expectInteger c = .ok ((value, span), d) ∧ d.val.rest = rest := by
  have hkind : (Token.integer value).sameKind Parser.anyInteger = true := rfl
  obtain ⟨d, hexpect, hd⟩ := expect_complete hrest hkind
  exact ⟨d, by simp [Parser.expectInteger, hexpect], hd⟩

theorem check_eq_true_iff {c : Cursor} {wanted : Token} (hbare : isBare wanted = true) :
    c.check wanted = true ↔ ∃ span rest, c.rest = ⟨wanted, span⟩ :: rest := by
  unfold Cursor.check
  split
  · next token rest hrest =>
    rw [hrest]
    constructor
    · intro h
      exact ⟨token.span, rest, by rw [← eq_of_sameKind hbare h]⟩
    · rintro ⟨span, rest', heq⟩
      cases heq
      exact Token.sameKind_self wanted
  · next hrest =>
    rw [hrest]
    simp

theorem advanceIf_sound {c : Cursor} {wanted : Token} {d : c.After}
    (hbare : isBare wanted = true) (h : c.advanceIf wanted = some d) :
    ∃ span, c.rest = ⟨wanted, span⟩ :: d.val.rest := by
  unfold Cursor.advanceIf at h
  split at h
  · next token rest hrest =>
    split at h
    · next hkind =>
      cases h
      exact ⟨token.span, hrest.trans (by rw [← eq_of_sameKind hbare hkind])⟩
    · cases h
  · cases h

theorem advanceIf_complete {c : Cursor} {wanted : Token} {span : Span}
    {rest : List (Located Token)} (hrest : c.rest = ⟨wanted, span⟩ :: rest) :
    ∃ d : c.After, c.advanceIf wanted = some d ∧ d.val.rest = rest := by
  obtain ⟨tokens, last⟩ := c
  subst hrest
  refine ⟨⟨⟨rest, last⟩, by simp [Cursor.remaining]⟩, ?_, rfl⟩
  simp [Cursor.advanceIf, Token.sameKind_self]

theorem advanceIf_eq_none {c : Cursor} {wanted : Token} {t : Located Token}
    {rest : List (Located Token)} (hrest : c.rest = t :: rest)
    (hkind : t.value.sameKind wanted = false) : c.advanceIf wanted = none := by
  obtain ⟨tokens, last⟩ := c
  subst hrest
  simp [Cursor.advanceIf, hkind]

/-! ## Expressions -/

/-- What a parser of expressions reads, up to a depth. -/
def ReadsExpr (parse : (c : Cursor) → Parser.Parsed c Expr) (budget : Nat) : Prop :=
  ∀ {c : Cursor} {e : Expr} {d : c.After}, parse c = .ok (e, d) →
    ∃ w, c.rest = w ++ d.val.rest ∧ ExprTokens w e ∧ e.depth ≤ budget

/-- Every expression up to a depth is read. A name before a parenthesis would be
read as a call, so none may follow. -/
def ReadsEvery (parse : (c : Cursor) → Parser.Parsed c Expr) (budget : Nat) : Prop :=
  ∀ {c : Cursor} {w rest : List (Located Token)} {e : Expr}, ExprTokens w e →
    e.depth ≤ budget → c.rest = w ++ rest → (∀ t ∈ rest.head?, t.value ≠ .leftParen) →
    ∃ d : c.After, parse c = .ok (e, d) ∧ d.val.rest = rest

theorem argsFrom_sound {parse : (c : Cursor) → Parser.Parsed c Expr} {budget : Nat}
    (hparse : ReadsExpr parse budget) {c : Cursor} {d : c.After} {before args : List Expr}
    {e : c.After} (h : Parser.argsFrom parse c d before = .ok (args, e)) :
    ∃ w es, d.val.rest = w ++ e.val.rest ∧ args = before.reverse ++ es ∧
      ArgsTokens w es ∧ Expr.depthAll es ≤ budget := by
  fun_induction Parser.argsFrom parse c d before with
  | case1 => cases h
  | case2 d before arg f hread g hcomma ih =>
    obtain ⟨w, hrest, harg, hdepth⟩ := hparse hread
    obtain ⟨span, hg⟩ := advanceIf_sound rfl hcomma
    obtain ⟨rest, es, hd, rfl, hes, hdepths⟩ := ih h
    refine ⟨w ++ ⟨.comma, span⟩ :: rest, arg :: es, ?_, by simp, .more span harg hes, ?_⟩
    · rw [hrest, hg]
      simp only [Cursor.After.trans] at hd
      rw [hd]
      simp
    · rw [Expr.depthAll]
      omega
  | case3 d before arg f hread hcomma =>
    obtain ⟨w, hrest, harg, hdepth⟩ := hparse hread
    cases h
    refine ⟨w, [arg], hrest, by simp, .one harg, ?_⟩
    simpa [Expr.depthAll] using hdepth

theorem argsFrom_complete {parse : (c : Cursor) → Parser.Parsed c Expr} {budget : Nat}
    (hparse : ReadsEvery parse budget) {c : Cursor} {d : c.After} {before es : List Expr}
    {w rest : List (Located Token)} {right : Span} (hes : ArgsTokens w es)
    (hdepth : Expr.depthAll es ≤ budget)
    (hrest : d.val.rest = w ++ ⟨.rightParen, right⟩ :: rest) :
    ∃ e : c.After, Parser.argsFrom parse c d before = .ok (before.reverse ++ es, e) ∧
      e.val.rest = ⟨.rightParen, right⟩ :: rest := by
  induction es generalizing d before w with
  | nil => cases hes
  | cons e es ih =>
    rw [Expr.depthAll] at hdepth
    cases hes with
    | one he =>
      obtain ⟨f, hread, hf⟩ := hparse he (by omega) hrest (by simp)
      refine ⟨d.trans f, ?_, hf⟩
      rw [Parser.argsFrom, hread]
      simp only
      rw [advanceIf_eq_none hf rfl]
      simp
    | @more w rest' _ _ comma he hes =>
      rw [List.append_assoc, List.cons_append] at hrest
      obtain ⟨f, hread, hf⟩ := hparse he (by omega) hrest (by simp)
      obtain ⟨g, hcomma, hg⟩ := advanceIf_complete hf
      have hnext : (d.trans (f.trans g)).val.rest = rest' ++ ⟨.rightParen, right⟩ :: rest := hg
      obtain ⟨k, hargs, hk⟩ := ih hes (by omega) hnext
      refine ⟨k, ?_, hk⟩
      rw [Parser.argsFrom, hread]
      simp only
      rw [hcomma]
      simp only
      rw [hargs]
      simp

theorem parseArgs_sound {parse : (c : Cursor) → Parser.Parsed c Expr} {budget : Nat}
    (hparse : ReadsExpr parse budget) {c : Cursor} {args : List Expr} {close : Span}
    {d : c.After} (h : Parser.parseArgs parse c = .ok ((args, close), d)) :
    ∃ left w, c.rest = ⟨.leftParen, left⟩ :: (w ++ ⟨.rightParen, close⟩ :: d.val.rest) ∧
      (w = [] ∧ args = [] ∨ ArgsTokens w args) ∧ Expr.depthAll args ≤ budget := by
  unfold Parser.parseArgs at h
  split at h
  · cases h
  · next open' e hopen =>
    have hc := expect_bare hopen rfl
    simp only at h
    split at h
    · cases h
    · next args' f hargs =>
      split at h
      · cases h
      · next close' g hclose =>
        cases h
        have hf := expect_bare hclose rfl
        split at hargs
        · cases hargs
          exact ⟨open'.span, [], by rw [hc, hf]; rfl, .inl ⟨rfl, rfl⟩, Nat.zero_le _⟩
        · obtain ⟨w, es, he, rfl, hes, hdepth⟩ := argsFrom_sound hparse hargs
          refine ⟨open'.span, w, ?_, .inr hes, hdepth⟩
          rw [hc, he, hf]
          rfl

theorem parseArgs_none (parse : (c : Cursor) → Parser.Parsed c Expr) {c : Cursor}
    {left right : Span} {rest : List (Located Token)}
    (hrest : c.rest = ⟨.leftParen, left⟩ :: ⟨.rightParen, right⟩ :: rest) :
    ∃ d : c.After, Parser.parseArgs parse c = .ok (([], right), d) ∧ d.val.rest = rest := by
  obtain ⟨e, hopen, he⟩ := expect_self hrest
  obtain ⟨f, hclose, hf⟩ := expect_self he
  refine ⟨e.trans f, ?_, hf⟩
  have hcheck : e.val.check .rightParen = true := (check_eq_true_iff rfl).mpr ⟨_, _, he⟩
  unfold Parser.parseArgs
  rw [hopen]
  simp only [hcheck, if_true, hclose]

theorem not_rightParen_of_argsTokens {w : List (Located Token)} {es : List Expr}
    (h : ArgsTokens w es) : ∃ t rest, w = t :: rest ∧ t.value ≠ .rightParen := by
  have hexpr : ∀ {w : List (Located Token)} {e : Expr}, ExprTokens w e →
      ∃ t rest, w = t :: rest ∧ t.value ≠ .rightParen := by
    intro w e he
    cases he <;> exact ⟨_, _, rfl, by simp⟩
  cases h with
  | one he => exact hexpr he
  | more comma he hes =>
    obtain ⟨t, rest, rfl, ht⟩ := hexpr he
    exact ⟨t, _, rfl, ht⟩

theorem parseArgs_complete {parse : (c : Cursor) → Parser.Parsed c Expr} {budget : Nat}
    (hparse : ReadsEvery parse budget) {c : Cursor} {args : List Expr} {left right : Span}
    {w rest : List (Located Token)} (hargs : ArgsTokens w args)
    (hdepth : Expr.depthAll args ≤ budget)
    (hrest : c.rest = ⟨.leftParen, left⟩ :: (w ++ ⟨.rightParen, right⟩ :: rest)) :
    ∃ d : c.After, Parser.parseArgs parse c = .ok ((args, right), d) ∧
      d.val.rest = rest := by
  obtain ⟨e, hopen, he⟩ := expect_self hrest
  obtain ⟨f, hread, hf⟩ :
      ∃ f : c.After, Parser.argsFrom parse c e [] = .ok (args, f) ∧
        f.val.rest = ⟨.rightParen, right⟩ :: rest :=
    argsFrom_complete hparse hargs hdepth he
  obtain ⟨g, hclose, hg⟩ := expect_self hf
  refine ⟨f.trans g, ?_, hg⟩
  have hcheck : ¬ e.val.check .rightParen = true := by
    rw [check_eq_true_iff rfl]
    rintro ⟨span, rest', heq⟩
    obtain ⟨t, w', rfl, ht⟩ := not_rightParen_of_argsTokens hargs
    rw [he, List.cons_append, List.cons.injEq] at heq
    exact ht (by rw [heq.1])
  unfold Parser.parseArgs
  rw [hopen]
  simp only [hcheck, Bool.false_eq_true, if_false, hread, hclose]


/-- One level of expressions, given the levels below it. -/
theorem parseExpr_sound_step {budget : Nat}
    (ih : ∀ n, budget = n + 1 → ReadsExpr (Parser.parseExpr n) n) :
    ReadsExpr (Parser.parseExpr budget) budget := by
  intro c e d h
  unfold Parser.parseExpr at h
  split at h
  · cases h
  · next token span rest hrest =>
    simp only at h
    split at h
    · cases h
      exact ⟨_, hrest, .str .., Nat.zero_le _⟩
    · cases h
      exact ⟨_, hrest, .int .., Nat.zero_le _⟩
    · split at h
      · cases h
      · next value digits f hdigits =>
        cases h
        have hf := expectInteger_sound hdigits
        simp only at hf
        exact ⟨[⟨.minus, span⟩, ⟨.integer value, digits⟩],
          hrest.trans (congrArg _ hf), .neg .., Nat.zero_le _⟩
    · next name _ =>
      split at h
      · split at h
        · cases h
        · next n =>
          split at h
          · cases h
          · next args close f hargs =>
            cases h
            obtain ⟨left, w, hf, hw, hdepth⟩ := parseArgs_sound (ih n rfl) hargs
            simp only at hf
            refine ⟨⟨.name name, span⟩ :: ⟨.leftParen, left⟩ :: (w ++ [⟨.rightParen, close⟩]),
              ?_, ?_, ?_⟩
            · refine hrest.trans (congrArg _ (hf.trans ?_))
              simp [Cursor.After.trans]
            · rcases hw with ⟨rfl, rfl⟩ | hw
              · exact .callNone ..
              · exact .call name span left close hw
            · rw [Expr.depth]
              omega
      · cases h
        exact ⟨_, hrest, .var .., Nat.zero_le _⟩
    · cases h
    · cases h

theorem parseExpr_sound (budget : Nat) : ReadsExpr (Parser.parseExpr budget) budget := by
  induction budget with
  | zero => exact parseExpr_sound_step fun n h => by cases h
  | succ n ih => exact parseExpr_sound_step fun m h => by cases h; exact ih

theorem parseExpr_complete_step {budget : Nat}
    (ih : ∀ n, budget = n + 1 → ReadsEvery (Parser.parseExpr n) n) :
    ReadsEvery (Parser.parseExpr budget) budget := by
  intro c w rest e he hdepth hrest hstop
  obtain ⟨tokens, last⟩ := c
  simp only at hrest
  subst hrest
  have hlt : ∀ (t : Located Token) (ts : List (Located Token)),
      (⟨ts, last⟩ : Cursor).remaining < (⟨t :: ts, last⟩ : Cursor).remaining := by
    simp [Cursor.remaining]
  cases he with
  | str value span => exact ⟨⟨⟨rest, last⟩, hlt _ _⟩, by unfold Parser.parseExpr; rfl, rfl⟩
  | int value span => exact ⟨⟨⟨rest, last⟩, hlt _ _⟩, by unfold Parser.parseExpr; rfl, rfl⟩
  | neg value sign digits =>
    obtain ⟨d, hdigits, hd⟩ := expectInteger_complete
      (c := ⟨⟨.integer value, digits⟩ :: rest, last⟩) rfl
    refine ⟨Cursor.After.trans ⟨⟨⟨.integer value, digits⟩ :: rest, last⟩, hlt _ _⟩ d, ?_, hd⟩
    unfold Parser.parseExpr
    simp only [List.cons_append, List.nil_append, hdigits]
  | var name span =>
    refine ⟨⟨⟨rest, last⟩, hlt _ _⟩, ?_, rfl⟩
    have hcheck : (⟨rest, last⟩ : Cursor).check .leftParen = false := by
      rw [← Bool.not_eq_true, check_eq_true_iff rfl]
      rintro ⟨span', rest', rfl⟩
      exact hstop _ rfl rfl
    unfold Parser.parseExpr
    simp [hcheck]
  | callNone name first left right =>
    obtain ⟨n, rfl⟩ : ∃ n, budget = n + 1 := ⟨budget - 1, by rw [Expr.depth] at hdepth; omega⟩
    obtain ⟨d, hargs, hd⟩ := parseArgs_none (Parser.parseExpr n)
      (c := ⟨⟨.leftParen, left⟩ :: ⟨.rightParen, right⟩ :: rest, last⟩) rfl
    refine ⟨Cursor.After.trans ⟨_, hlt _ _⟩ d, ?_, hd⟩
    unfold Parser.parseExpr
    simp [Cursor.check, Token.sameKind, hargs]
  | @call name first left right w args hargs =>
    obtain ⟨n, rfl⟩ : ∃ n, budget = n + 1 := ⟨budget - 1, by rw [Expr.depth] at hdepth; omega⟩
    rw [Expr.depth] at hdepth
    have hrest : (⟨⟨.leftParen, left⟩ :: (w ++ [⟨.rightParen, right⟩] ++ rest), last⟩ :
        Cursor).rest = ⟨.leftParen, left⟩ :: (w ++ ⟨.rightParen, right⟩ :: rest) := by simp
    obtain ⟨d, hargs, hd⟩ := parseArgs_complete (ih n rfl) hargs (by omega) hrest
    refine ⟨Cursor.After.trans ⟨_, hlt _ _⟩ d, ?_, hd⟩
    unfold Parser.parseExpr
    simp only [List.cons_append, Cursor.check, Token.sameKind, if_true, hargs]
    rfl

theorem parseExpr_complete (budget : Nat) : ReadsEvery (Parser.parseExpr budget) budget := by
  induction budget with
  | zero => exact parseExpr_complete_step fun n h => by cases h
  | succ n ih => exact parseExpr_complete_step fun m h => by cases h; exact ih

/-! ## Items -/

theorem parseOutput_sound {budget : Nat} {c : Cursor} {i : Item} {d : c.After}
    (h : Parser.parseOutput budget c = .ok (i, d)) :
    ∃ w, c.rest = w ++ d.val.rest ∧ ItemTokens w i ∧ i.depth ≤ budget := by
  unfold Parser.parseOutput at h
  split at h
  · cases h
  · next first e hfirst =>
    have hc := expect_bare hfirst rfl
    split at h
    · cases h
    · next expr f hexpr =>
      obtain ⟨w, he, hw, hdepth⟩ := parseExpr_sound budget hexpr
      split at h
      · cases h
      · next last g hlast =>
        have hf := expect_bare hlast rfl
        cases h
        refine ⟨⟨.variableBegin, first.span⟩ :: (w ++ [⟨.variableEnd, last.span⟩]), ?_,
          .output first.span last.span hw, hdepth⟩
        rw [hc, he, hf]
        simp [Cursor.After.trans]

theorem parseOutput_complete {budget : Nat} {c : Cursor} {first last : Span} {e : Expr}
    {w rest : List (Located Token)} (hw : ExprTokens w e) (hdepth : e.depth ≤ budget)
    (hrest : c.rest = ⟨.variableBegin, first⟩ :: (w ++ ⟨.variableEnd, last⟩ :: rest)) :
    ∃ d : c.After, Parser.parseOutput budget c = .ok (.output e (first.cover last), d) ∧
      d.val.rest = rest := by
  obtain ⟨d, hfirst, hd⟩ := expect_self hrest
  obtain ⟨f, hexpr, hf⟩ := parseExpr_complete budget hw hdepth hd (by simp)
  obtain ⟨g, hlast, hg⟩ := expect_self hf
  refine ⟨d.trans (f.trans g), ?_, hg⟩
  unfold Parser.parseOutput
  simp only [hfirst, hexpr, hlast]

theorem parseSet_sound {budget : Nat} {first : Span} {c : Cursor} {i : Item} {d : c.After}
    (h : Parser.parseSet budget first c = .ok (i, d)) :
    ∃ name target equals last w e,
      c.rest = ⟨.name name, target⟩ :: ⟨.assign, equals⟩ ::
        (w ++ ⟨.blockEnd, last⟩ :: d.val.rest) ∧
      ExprTokens w e ∧ e.depth ≤ budget ∧ i = .set name e (first.cover last) := by
  unfold Parser.parseSet at h
  split at h
  · cases h
  · next name target d hname =>
    have hc := expectName_sound hname
    split at h
    · cases h
    · next equals e hequals =>
      have hd := expect_bare hequals rfl
      split at h
      · cases h
      · next value f hvalue =>
        obtain ⟨w, he, hw, hdepth⟩ := parseExpr_sound budget hvalue
        split at h
        · cases h
        · next last g hlast =>
          have hf := expect_bare hlast rfl
          cases h
          refine ⟨name, target, equals.span, last.span, w, value, ?_, hw, hdepth, rfl⟩
          rw [hc, hd, he, hf]
          rfl

theorem parseSet_complete {budget : Nat} {c : Cursor} {name : String} (first : Span)
    {target equals last : Span} {e : Expr} {w rest : List (Located Token)}
    (hw : ExprTokens w e) (hdepth : e.depth ≤ budget)
    (hrest : c.rest = ⟨.name name, target⟩ :: ⟨.assign, equals⟩ ::
      (w ++ ⟨.blockEnd, last⟩ :: rest)) :
    ∃ d : c.After, Parser.parseSet budget first c = .ok (.set name e (first.cover last), d) ∧
      d.val.rest = rest := by
  obtain ⟨d, hname, hd⟩ := expectName_complete hrest
  obtain ⟨f, hequals, hf⟩ := expect_self hd
  obtain ⟨g, hvalue, hg⟩ := parseExpr_complete budget hw hdepth hf (by simp)
  obtain ⟨k, hlast, hk⟩ := expect_self hg
  refine ⟨d.trans (f.trans (g.trans k)), ?_, hk⟩
  unfold Parser.parseSet
  simp only [hname, hequals, hvalue, hlast]

/-- A block tag that is read is a `set`, or opens a region. -/
theorem parseBlock_sound {budget : Nat} {c : Cursor} {block : Parser.Block} {d : c.After}
    (h : Parser.parseBlock budget c = .ok (block, d)) :
    (∃ w i, c.rest = w ++ d.val.rest ∧ block = .item i ∧ ItemTokens w i ∧
        i.depth ≤ budget) ∨
      ∃ first tag last, c.rest = nameTag Region.openName first tag last ++ d.val.rest ∧
        block = .opening (first.cover last) := by
  unfold Parser.parseBlock at h
  split at h
  · cases h
  · next first e hfirst =>
    have hc := expect_bare hfirst rfl
    split at h
    · cases h
    · next tag tagSpan f htag =>
      have he := expectName_sound htag
      split at h
      · next hopen =>
        split at h
        · cases h
        · next last g hlast =>
          have hf := expect_bare hlast rfl
          cases h
          refine .inr ⟨first.span, tagSpan, last.span, ?_, rfl⟩
          rw [hc, he, hf, hopen]
          rfl
      · split at h
        · next hset =>
          split at h
          · cases h
          · next item g hitem =>
            cases h
            obtain ⟨name, target, equals, last, w, value, hf, hw, hdepth, rfl⟩ :=
              parseSet_sound hitem
            refine .inl ⟨⟨.blockBegin, first.span⟩ :: ⟨.name "set", tagSpan⟩ ::
              ⟨.name name, target⟩ :: ⟨.assign, equals⟩ :: (w ++ [⟨.blockEnd, last⟩]), _, ?_,
              rfl, .set name first.span tagSpan target equals last hw, hdepth⟩
            rw [hc, he, hf, hset]
            simp [Cursor.After.trans]
        · cases h

theorem parseBlock_opening {budget : Nat} {c : Cursor} {first tag last : Span}
    {rest : List (Located Token)}
    (hrest : c.rest = nameTag Region.openName first tag last ++ rest) :
    ∃ d : c.After, Parser.parseBlock budget c = .ok (.opening (first.cover last), d) ∧
      d.val.rest = rest := by
  obtain ⟨d, hfirst, hd⟩ := expect_self hrest
  obtain ⟨f, htag, hf⟩ := expectName_complete hd
  obtain ⟨g, hlast, hg⟩ := expect_self hf
  refine ⟨d.trans (f.trans g), ?_, hg⟩
  unfold Parser.parseBlock
  simp only [hfirst, htag, hlast, if_true]

theorem parseBlock_set {budget : Nat} {c : Cursor} {name : String}
    {first tag target equals last : Span} {e : Expr} {w rest : List (Located Token)}
    (hw : ExprTokens w e) (hdepth : e.depth ≤ budget)
    (hrest : c.rest = ⟨.blockBegin, first⟩ :: ⟨.name "set", tag⟩ :: ⟨.name name, target⟩ ::
      ⟨.assign, equals⟩ :: (w ++ ⟨.blockEnd, last⟩ :: rest)) :
    ∃ d : c.After,
      Parser.parseBlock budget c = .ok (.item (.set name e (first.cover last)), d) ∧
      d.val.rest = rest := by
  obtain ⟨d, hfirst, hd⟩ := expect_self hrest
  obtain ⟨f, htag, hf⟩ := expectName_complete hd
  obtain ⟨g, hset, hg⟩ := parseSet_complete first hw hdepth hf
  refine ⟨d.trans (f.trans g), ?_, hg⟩
  unfold Parser.parseBlock
  simp only [hfirst, htag, hset]
  rfl

theorem parseClose_sound {c : Cursor} {d : c.After} {u : Unit}
    (h : Parser.parseClose c = .ok (u, d)) :
    ∃ name first tag last, c.rest = nameTag name first tag last ++ d.val.rest := by
  unfold Parser.parseClose at h
  split at h
  · cases h
  · next first e hfirst =>
    have hc := expect_bare hfirst rfl
    split at h
    · cases h
    · next tag f htag =>
      have he := expectName_sound htag
      split at h
      · cases h
      · next last g hlast =>
        have hf := expect_bare hlast rfl
        cases h
        exact ⟨tag.1, first.span, tag.2, last.span, by rw [hc, he, hf]; rfl⟩

theorem parseClose_complete {c : Cursor} {name : String} {first tag last : Span}
    {rest : List (Located Token)} (hrest : c.rest = nameTag name first tag last ++ rest) :
    ∃ d : c.After, Parser.parseClose c = .ok ((), d) ∧ d.val.rest = rest := by
  obtain ⟨d, hfirst, hd⟩ := expect_self hrest
  obtain ⟨f, htag, hf⟩ := expectName_complete hd
  obtain ⟨g, hlast, hg⟩ := expect_self hf
  refine ⟨d.trans (f.trans g), ?_, hg⟩
  unfold Parser.parseClose
  simp only [hfirst, htag, hlast]

/-! ## Bodies and nodes -/

/-- No token is left, or the next one is the end marker. -/
def AtEnd (tokens : List (Located Token)) : Prop :=
  ∀ t ∈ tokens.head?, t.value = .eof

theorem atEnd_of_ahead {c : Cursor} (h : Parser.ahead c = .finished) : AtEnd c.rest := by
  intro t ht
  unfold Parser.ahead at h
  split at h
  · next hrest => rw [hrest] at ht; cases ht
  · next token rest hrest =>
    rw [hrest] at ht
    cases ht
    split at h
    · assumption
    · cases h
    · cases h
    · split at h
      · split at h <;> cases h
      · cases h
    · cases h

theorem ahead_of_atEnd {c : Cursor} (h : AtEnd c.rest) : Parser.ahead c = .finished := by
  unfold Parser.ahead
  split
  · rfl
  · next token rest hrest =>
    have := h token (by rw [hrest]; rfl)
    rw [this]

theorem data_of_ahead {c : Cursor} {text : String} {span : Span}
    (h : Parser.ahead c = .data text span) :
    c.rest = ⟨.data text, span⟩ :: c.advance.rest := by
  unfold Parser.ahead at h
  split at h
  · cases h
  · next token rest hrest =>
    split at h
    · cases h
    · next text' hvalue =>
      cases h
      rw [Cursor.advance, hrest, ← hvalue]
      rfl
    · cases h
    · split at h
      · split at h <;> cases h
      · cases h
    · cases h

theorem close_of_ahead {c : Cursor} {span : Span} (h : Parser.ahead c = .close span) :
    ∃ first tag rest, c.rest = ⟨.blockBegin, first⟩ :: ⟨.name Region.closeName, tag⟩ :: rest := by
  unfold Parser.ahead at h
  split at h
  · cases h
  · next token rest hrest =>
    split at h
    · cases h
    · cases h
    · cases h
    · next hvalue =>
      split at h
      · next name rest' =>
        split at h
        · next hname =>
          obtain ⟨token, tokenSpan⟩ := token
          obtain ⟨name, nameSpan⟩ := name
          simp only at hvalue hname
          subst hvalue
          cases name <;> simp [Token.isName] at hname
          subst hname
          exact ⟨_, _, _, hrest⟩
        · cases h
      · cases h
    · cases h

/-- The tokens of a region's body up to the end of its closing tag, and the
tokens after that. -/
def BodyTokens (budget : Nat) (tokens : List (Located Token)) (items : List Item)
    (rest : List (Located Token)) : Prop :=
  ∃ w first tag last, tokens = w ++ (nameTag Region.closeName first tag last ++ rest) ∧
    ItemsTokens w items ∧ ∀ i ∈ items, i.depth ≤ budget

theorem BodyTokens.cons {budget : Nat} {w tokens rest : List (Located Token)} {i : Item}
    {is : List Item} (hi : ItemTokens w i) (hdepth : i.depth ≤ budget)
    (h : BodyTokens budget tokens is rest) : BodyTokens budget (w ++ tokens) (i :: is) rest := by
  obtain ⟨body, first, tag, last, rfl, hbody, hdepths⟩ := h
  refine ⟨w ++ body, first, tag, last, (List.append_assoc ..).symm, .cons hi hbody, ?_⟩
  rw [List.forall_mem_cons]
  exact ⟨hdepth, hdepths⟩

theorem bodyFrom_sound {budget : Nat} {opened : Span} {c : Cursor} {d e : c.After}
    {before items : List Item}
    (h : Parser.bodyFrom budget opened c d before = .ok (items, e)) :
    ∃ is, items = before.reverse ++ is ∧ BodyTokens budget d.val.rest is e.val.rest := by
  fun_induction Parser.bodyFrom budget opened c d before with
  | case1 => cases h
  | case2 d before text span hahead ih =>
    obtain ⟨is, rfl, hbody⟩ := ih h
    refine ⟨.data text span :: is, by simp, ?_⟩
    rw [data_of_ahead hahead]
    exact hbody.cons (.data text span) (Nat.zero_le _)
  | case3 => cases h
  | case4 d before hahead item f hitem ih =>
    obtain ⟨w, hd, hw, hdepth⟩ := parseOutput_sound hitem
    obtain ⟨is, rfl, hbody⟩ := ih h
    refine ⟨item :: is, by simp, ?_⟩
    rw [hd]
    exact hbody.cons hw hdepth
  | case5 => cases h
  | case6 d before span hahead u f hclose =>
    cases h
    obtain ⟨name, first, tag, last, hd⟩ := parseClose_sound hclose
    obtain ⟨first', tag', rest, hd'⟩ := close_of_ahead hahead
    refine ⟨[], by simp, [], first, tag, last, ?_, .nil, by simp⟩
    rw [hd', nameTag] at hd
    cases hd
    rw [hd']
    rfl
  | case7 => cases h
  | case8 => cases h
  | case9 d before hahead item f hblock ih =>
    rcases parseBlock_sound hblock with ⟨w, i, hd, hi, hw, hdepth⟩ | ⟨_, _, _, _, hopen⟩
    · cases hi
      obtain ⟨is, rfl, hbody⟩ := ih h
      refine ⟨item :: is, by simp, ?_⟩
      rw [hd]
      exact hbody.cons hw hdepth
    · cases hopen
  | case10 => cases h

/-- The tokens of nodes up to the end of the input. -/
def NodesToEnd (tokens : List (Located Token)) (nodes : List Node) : Prop :=
  ∃ w tail, tokens = w ++ tail ∧ AtEnd tail ∧ NodesTokens w nodes ∧
    ∀ n ∈ nodes, n.depth ≤ Limits.maxNesting

theorem NodesToEnd.item {w tokens : List (Located Token)} {i : Item} {ns : List Node}
    (hi : ItemTokens w i) (hdepth : i.depth ≤ Limits.maxNesting) (h : NodesToEnd tokens ns) :
    NodesToEnd (w ++ tokens) (.item i :: ns) := by
  obtain ⟨rest, tail, rfl, htail, hrest, hdepths⟩ := h
  refine ⟨w ++ rest, tail, (List.append_assoc ..).symm, htail, .item hi hrest, ?_⟩
  rw [List.forall_mem_cons]
  exact ⟨hdepth, hdepths⟩

theorem depth_region_le_iff {body : List Item} {span : Span} {n : Nat} :
    (Node.region body span).depth ≤ n + 1 ↔ ∀ i ∈ body, i.depth ≤ n := by
  rw [Node.depth, Nat.add_le_add_iff_right]
  induction body with
  | nil => simp
  | cons i is ih => simp [ih]

theorem NodesToEnd.region {first tag last : Span} {body tokens : List (Located Token)}
    {items : List Item} {ns : List Node}
    (hbody : BodyTokens (Limits.maxNesting - 1) body items tokens)
    (h : NodesToEnd tokens ns) :
    NodesToEnd (nameTag Region.openName first tag last ++ body)
      (.region items (first.cover last) :: ns) := by
  obtain ⟨w, first', tag', last', rfl, hw, hdepth⟩ := hbody
  obtain ⟨rest, tail, rfl, htail, hrest, hdepths⟩ := h
  refine ⟨_, tail, ?_, htail, .region first tag last first' tag' last' hw hrest, ?_⟩
  · simp
  · rw [List.forall_mem_cons]
    exact ⟨depth_region_le_iff.mpr hdepth, hdepths⟩

theorem nodesFrom_sound {c : Cursor} {before nodes : List Node}
    (h : Parser.nodesFrom c before = .ok nodes) :
    ∃ ns, nodes = before.reverse ++ ns ∧ NodesToEnd c.rest ns := by
  fun_induction Parser.nodesFrom c before with
  | case1 c before hahead =>
    cases h
    exact ⟨[], by simp, [], c.rest, rfl, atEnd_of_ahead hahead, .nil, by simp⟩
  | case2 c before text span hahead ih =>
    obtain ⟨ns, rfl, hns⟩ := ih h
    refine ⟨.item (.data text span) :: ns, by simp, ?_⟩
    rw [data_of_ahead hahead]
    exact hns.item (.data text span) (Nat.zero_le _)
  | case3 => cases h
  | case4 c before hahead item d hitem ih =>
    obtain ⟨w, hc, hw, hdepth⟩ := parseOutput_sound hitem
    obtain ⟨ns, rfl, hns⟩ := ih h
    refine ⟨.item item :: ns, by simp, ?_⟩
    rw [hc]
    exact hns.item hw hdepth
  | case5 => cases h
  | case6 => cases h
  | case7 c before hahead item d hblock ih =>
    rcases parseBlock_sound hblock with ⟨w, i, hc, hi, hw, hdepth⟩ | ⟨_, _, _, _, hopen⟩
    · cases hi
      obtain ⟨ns, rfl, hns⟩ := ih h
      refine ⟨.item item :: ns, by simp, ?_⟩
      rw [hc]
      exact hns.item hw hdepth
    · cases hopen
  | case8 => cases h
  | case9 c before hahead span d hblock body e hbody ih =>
    rcases parseBlock_sound hblock with ⟨_, _, _, hitem, _⟩ | ⟨first, tag, last, hc, hopen⟩
    · cases hitem
    · cases hopen
      obtain ⟨items, rfl, hitems⟩ := bodyFrom_sound hbody
      obtain ⟨ns, rfl, hns⟩ := ih h
      refine ⟨.region body (first.cover last) :: ns, by simp, ?_⟩
      rw [hc]
      exact hns.region hitems
  | case10 => cases h

/-! The loops unfold by what they see ahead. The match in them carries the
equation for its termination, so it is taken apart once here and the
completeness proofs rewrite with these equations. -/

section Unfolding

variable {budget : Nat} {opened : Span} {c : Cursor} {d : c.After}

theorem bodyFrom_data {before : List Item} {text : String} {span : Span}
    (h : Parser.ahead d.val = .data text span) :
    Parser.bodyFrom budget opened c d before
      = Parser.bodyFrom budget opened c
          (d.trans ⟨d.val.advance, Parser.remaining_advance_lt h⟩) (.data text span :: before) := by
  rw [Parser.bodyFrom]
  split <;> next h' => rw [h] at h'; cases h'; try rfl

theorem bodyFrom_output {before : List Item} {i : Item} {e : d.val.After}
    (h : Parser.ahead d.val = .output)
    (hitem : Parser.parseOutput budget d.val = .ok (i, e)) :
    Parser.bodyFrom budget opened c d before
      = Parser.bodyFrom budget opened c (d.trans e) (i :: before) := by
  rw [Parser.bodyFrom]
  split <;> next h' => rw [h] at h'; cases h'; try simp only [hitem]

theorem bodyFrom_item {before : List Item} {i : Item} {e : d.val.After}
    (h : Parser.ahead d.val = .block)
    (hitem : Parser.parseBlock budget d.val = .ok (.item i, e)) :
    Parser.bodyFrom budget opened c d before
      = Parser.bodyFrom budget opened c (d.trans e) (i :: before) := by
  rw [Parser.bodyFrom]
  split <;> next h' => rw [h] at h'; cases h'; try simp only [hitem]

theorem bodyFrom_close {before : List Item} {span : Span} {e : d.val.After}
    (h : Parser.ahead d.val = .close span) (hclose : Parser.parseClose d.val = .ok ((), e)) :
    Parser.bodyFrom budget opened c d before = .ok (before.reverse, d.trans e) := by
  rw [Parser.bodyFrom]
  split <;> next h' => rw [h] at h'; cases h'; try simp only [hclose]

theorem nodesFrom_finished {before : List Node} (h : Parser.ahead c = .finished) :
    Parser.nodesFrom c before = .ok before.reverse := by
  rw [Parser.nodesFrom]
  split
  · rfl
  all_goals next h' => rw [h] at h'; cases h'

theorem nodesFrom_data {before : List Node} {text : String} {span : Span}
    (h : Parser.ahead c = .data text span) :
    Parser.nodesFrom c before
      = Parser.nodesFrom c.advance (.item (.data text span) :: before) := by
  rw [Parser.nodesFrom]
  split <;> next h' => rw [h] at h'; cases h'; try rfl

theorem nodesFrom_output {before : List Node} {i : Item} (h : Parser.ahead c = .output)
    (hitem : Parser.parseOutput Limits.maxNesting c = .ok (i, d)) :
    Parser.nodesFrom c before = Parser.nodesFrom d.val (.item i :: before) := by
  rw [Parser.nodesFrom]
  split <;> next h' => rw [h] at h'; cases h'; try simp only [hitem]

theorem nodesFrom_item {before : List Node} {i : Item} (h : Parser.ahead c = .block)
    (hitem : Parser.parseBlock Limits.maxNesting c = .ok (.item i, d)) :
    Parser.nodesFrom c before = Parser.nodesFrom d.val (.item i :: before) := by
  rw [Parser.nodesFrom]
  split <;> next h' => rw [h] at h'; cases h'; try simp only [hitem]

theorem nodesFrom_region {before : List Node} {span : Span} {body : List Item} {e : c.After}
    (h : Parser.ahead c = .block)
    (hopen : Parser.parseBlock Limits.maxNesting c = .ok (.opening span, d))
    (hbody : Parser.bodyFrom (Limits.maxNesting - 1) span c d [] = .ok (body, e)) :
    Parser.nodesFrom c before = Parser.nodesFrom e.val (.region body span :: before) := by
  rw [Parser.nodesFrom]
  split <;> next h' => rw [h] at h'; cases h'; try simp only [hopen, hbody]

end Unfolding

theorem ahead_data {c : Cursor} {text : String} {span : Span} {rest : List (Located Token)}
    (h : c.rest = ⟨.data text, span⟩ :: rest) : Parser.ahead c = .data text span := by
  simp [Parser.ahead, h]

theorem ahead_output {c : Cursor} {span : Span} {rest : List (Located Token)}
    (h : c.rest = ⟨.variableBegin, span⟩ :: rest) : Parser.ahead c = .output := by
  simp [Parser.ahead, h]

theorem ahead_block {c : Cursor} {first tag : Span} {name : String}
    {rest : List (Located Token)} (hname : name ≠ Region.closeName)
    (h : c.rest = ⟨.blockBegin, first⟩ :: ⟨.name name, tag⟩ :: rest) :
    Parser.ahead c = .block := by
  simp [Parser.ahead, h, Token.isName, hname]

theorem ahead_close {c : Cursor} {first tag last : Span} {rest : List (Located Token)}
    (h : c.rest = nameTag Region.closeName first tag last ++ rest) :
    Parser.ahead c = .close (first.cover tag) := by
  simp [Parser.ahead, h, nameTag, Token.isName]

theorem bodyFrom_complete {budget : Nat} {opened : Span} {c : Cursor} {d : c.After}
    {before items : List Item} {w rest : List (Located Token)} {first tag last : Span}
    (hw : ItemsTokens w items) (hdepth : ∀ i ∈ items, i.depth ≤ budget)
    (hrest : d.val.rest = w ++ (nameTag Region.closeName first tag last ++ rest)) :
    ∃ e : c.After, Parser.bodyFrom budget opened c d before = .ok (before.reverse ++ items, e) ∧
      e.val.rest = rest := by
  induction hw generalizing d before with
  | nil =>
    obtain ⟨e, hclose, he⟩ := parseClose_complete hrest
    refine ⟨d.trans e, ?_, he⟩
    rw [bodyFrom_close (ahead_close hrest) hclose, List.append_nil]
  | @cons w rest' i is hi _ ih =>
    rw [List.forall_mem_cons] at hdepth
    rw [List.append_assoc] at hrest
    -- Whatever the item is, reading it leaves the loop at the tokens after it.
    suffices hstep : ∃ e : c.After, Parser.bodyFrom budget opened c d before
        = Parser.bodyFrom budget opened c e (i :: before) ∧
        e.val.rest = rest' ++ (nameTag Region.closeName first tag last ++ rest) by
      obtain ⟨e, hstep, he⟩ := hstep
      obtain ⟨f, hbody, hf⟩ := ih hdepth.2 he
      exact ⟨f, by rw [hstep, hbody]; simp, hf⟩
    cases hi with
    | data text span =>
      have hahead := ahead_data hrest
      refine ⟨_, bodyFrom_data hahead, ?_⟩
      simp [Cursor.After.trans, Cursor.advance, hrest]
    | output first last he =>
      rw [List.cons_append, List.append_assoc] at hrest
      obtain ⟨e, hitem, he⟩ := parseOutput_complete he hdepth.1 hrest
      exact ⟨d.trans e, bodyFrom_output (ahead_output hrest) hitem, he⟩
    | set name first tag target equals last he =>
      simp only [List.cons_append, List.append_assoc] at hrest
      obtain ⟨e, hitem, he⟩ := parseBlock_set he hdepth.1 hrest
      exact ⟨d.trans e, bodyFrom_item (ahead_block (by decide) hrest) hitem, he⟩

theorem nodesFrom_complete {c : Cursor} {before nodes : List Node}
    {w tail : List (Located Token)} (hw : NodesTokens w nodes)
    (hdepth : ∀ n ∈ nodes, n.depth ≤ Limits.maxNesting) (hrest : c.rest = w ++ tail)
    (htail : AtEnd tail) :
    Parser.nodesFrom c before = .ok (before.reverse ++ nodes) := by
  induction hw generalizing c before with
  | nil =>
    rw [List.nil_append] at hrest
    rw [nodesFrom_finished (ahead_of_atEnd (hrest ▸ htail)), List.append_nil]
  | @item w rest i ns hi _ ih =>
    rw [List.forall_mem_cons] at hdepth
    rw [List.append_assoc] at hrest
    suffices hstep : ∃ d : Cursor, Parser.nodesFrom c before
        = Parser.nodesFrom d (.item i :: before) ∧ d.rest = rest ++ tail by
      obtain ⟨d, hstep, hd⟩ := hstep
      rw [hstep, ih hdepth.2 hd]
      simp
    cases hi with
    | data text span =>
      have hahead := ahead_data hrest
      refine ⟨_, nodesFrom_data hahead, ?_⟩
      simp [Cursor.advance, hrest]
    | output first last he =>
      rw [List.cons_append, List.append_assoc] at hrest
      obtain ⟨e, hitem, he⟩ := parseOutput_complete he hdepth.1 hrest
      exact ⟨e.val, nodesFrom_output (ahead_output hrest) hitem, he⟩
    | set name first tag target equals last he =>
      simp only [List.cons_append, List.append_assoc] at hrest
      obtain ⟨e, hitem, he⟩ := parseBlock_set he hdepth.1 hrest
      exact ⟨e.val, nodesFrom_item (ahead_block (by decide) hrest) hitem, he⟩
  | @region first tag last first' tag' last' body rest items ns hitems _ ih =>
    rw [List.forall_mem_cons] at hdepth
    simp only [List.append_assoc] at hrest
    obtain ⟨d, hopen, hd⟩ := parseBlock_opening hrest
    obtain ⟨e, hbody, he⟩ := bodyFrom_complete hitems (depth_region_le_iff.mp hdepth.1) hd
    rw [nodesFrom_region (ahead_block (by decide) hrest) hopen hbody, ih hdepth.2 he]
    simp

/-! ## Templates -/

theorem not_eof_of_itemTokens {w : List (Located Token)} {i : Item} (h : ItemTokens w i) :
    ∀ t ∈ w, t.value.isEof = false := by
  have hexpr : ∀ {w : List (Located Token)} {e : Expr}, ExprTokens w e →
      ∀ t ∈ w, t.value.isEof = false := by
    intro w e he t ht
    have := isContent_of_exprTokens he t ht
    revert this
    cases t.value <;> simp [Lexer.isContent, Token.isEof]
  cases h with
  | data => simp [Token.isEof]
  | output first last he =>
    have := hexpr he
    simpa [or_imp, forall_and, Token.isEof] using this
  | set name first tag target equals last he =>
    have := hexpr he
    simpa [or_imp, forall_and, Token.isEof] using this

theorem not_eof_of_nodesTokens {w : List (Located Token)} {ns : List Node}
    (h : NodesTokens w ns) : ∀ t ∈ w, t.value.isEof = false := by
  have hitems : ∀ {w : List (Located Token)} {is : List Item}, ItemsTokens w is →
      ∀ t ∈ w, t.value.isEof = false := by
    intro w is his
    induction his with
    | nil => simp
    | cons hi _ ih =>
      intro t ht
      rcases List.mem_append.mp ht with ht | ht
      · exact not_eof_of_itemTokens hi t ht
      · exact ih t ht
  induction h with
  | nil => simp
  | item hi _ ih =>
    intro t ht
    rcases List.mem_append.mp ht with ht | ht
    · exact not_eof_of_itemTokens hi t ht
    · exact ih t ht
  | region first tag last first' tag' last' hbody _ ih =>
    have := hitems hbody
    simp only [nameTag, List.mem_append, List.mem_cons, List.not_mem_nil, or_false]
    rintro t ((rfl | rfl | rfl) | ht | (rfl | rfl | rfl) | ht)
    any_goals rfl
    · exact this t ht
    · exact ih t ht

/-- The tokens before the first end marker. -/
def beforeEnd (tokens : List (Located Token)) : List (Located Token) :=
  tokens.takeWhile fun t => !t.value.isEof

theorem beforeEnd_append {w tail : List (Located Token)}
    (hw : ∀ t ∈ w, t.value.isEof = false) (htail : AtEnd tail) : beforeEnd (w ++ tail) = w := by
  unfold beforeEnd
  rw [List.takeWhile_append_of_pos fun t ht => by rw [hw t ht]; rfl]
  cases tail with
  | nil => simp
  | cons t tail =>
    have := htail t rfl
    simp [this, Token.isEof]

theorem exists_atEnd (tokens : List (Located Token)) :
    ∃ tail, tokens = beforeEnd tokens ++ tail ∧ AtEnd tail := by
  refine ⟨tokens.dropWhile fun t => !t.value.isEof, List.takeWhile_append_dropWhile.symm, ?_⟩
  intro t ht
  have := List.head?_dropWhile_not (fun t : Located Token => !t.value.isEof) tokens
  rw [Option.mem_def.mp ht] at this
  exact Token.isEof_iff.mp (by simpa using this)

/-- The end marker that a sequence is closed with changes nothing before it. -/
theorem beforeEnd_closed (tokens : List (Located Token)) :
    beforeEnd (Cursor.closed tokens) = beforeEnd tokens := by
  unfold Cursor.closed
  split
  · next last hlast =>
    split
    · rfl
    · obtain ⟨tail, htokens, htail⟩ := exists_atEnd tokens
      have hw : ∀ t ∈ beforeEnd tokens, t.value.isEof = false := by
        intro t ht
        have := List.all_eq_true.mp (List.all_takeWhile (l := tokens)) t ht
        simpa using this
      conv => lhs; rw [htokens, List.append_assoc]
      refine beforeEnd_append hw ?_
      cases tail with
      | nil => intro t ht; cases ht; rfl
      | cons t tail => exact htail
  · next hnone =>
    rw [List.getLast?_eq_none_iff] at hnone
    subst hnone
    rfl

/-- The parser accepts exactly what the grammar derives within the nesting
limit, and answers the derived tree. -/
theorem parse_eq_ok_iff {tokens : List (Located Token)} {t : Template} :
    Template.parse tokens = .ok t ↔
      NodesTokens (beforeEnd tokens) t.nodes ∧ ∀ n ∈ t.nodes, n.depth ≤ Limits.maxNesting := by
  rw [← beforeEnd_closed]
  obtain ⟨nodes⟩ := t
  unfold Template.parse
  constructor
  · intro h
    obtain ⟨ns, hns, heq⟩ := Lexer.exists_of_map_eq_ok h
    cases heq
    obtain ⟨ns, rfl, w, tail, hclosed, htail, hw, hdepth⟩ := nodesFrom_sound hns
    have : beforeEnd (Cursor.closed tokens) = w := by
      rw [show Cursor.closed tokens = w ++ tail from hclosed]
      exact beforeEnd_append (not_eof_of_nodesTokens hw) htail
    rw [this]
    exact ⟨hw, hdepth⟩
  · rintro ⟨hw, hdepth⟩
    obtain ⟨tail, hclosed, htail⟩ := exists_atEnd (Cursor.closed tokens)
    rw [nodesFrom_complete (c := Cursor.ofTokens tokens) hw hdepth hclosed htail]
    rfl

end Grammar

end QueryMachine
