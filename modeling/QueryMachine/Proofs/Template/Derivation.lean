import QueryMachine.Proofs.Region.Walk

/-!
# What a parsed template was read from

`Grammar` says when the parser answers a tree. This file says which tree that
is. Tokens derive at most one tree (`nodesTokens_unique`), every expression,
item and region of it was read from tokens that stand in a row, and its span
runs from the first of them to the last (`Traced`).

The nesting limit is a measure there, the depth of a node. Here it is counted
from the other side, by what each call stands in (`Template.Occurs`), which is
how the limit reads to who writes a template.

That an expression is derived in one way only is not proved by comparing two
derivations: the parser, given a budget that is enough for both, can answer only
one of them.
-/

namespace QueryMachine

namespace Expr

/-- `Occurs n sub e`: the expression `sub` stands in `e`, inside of `n` calls. -/
inductive Occurs : Nat → Expr → Expr → Prop where
  | self (e : Expr) : Occurs 0 e e
  | arg (name : String) (span : Span) {n : Nat} {sub a : Expr} {args : List Expr} :
      a ∈ args → Occurs n sub a → Occurs (n + 1) sub (.call name args span)

theorem depth_le_depthAll {e : Expr} {es : List Expr} (h : e ∈ es) : e.depth ≤ depthAll es := by
  induction es with
  | nil => cases h
  | cons e' es ih =>
    rw [depthAll]
    rcases List.mem_cons.mp h with rfl | h
    · omega
    · have := ih h
      omega

theorem exists_depth_eq {es : List Expr} (h : 0 < depthAll es) :
    ∃ e ∈ es, e.depth = depthAll es := by
  induction es with
  | nil => cases h
  | cons e es ih =>
    rw [depthAll] at h ⊢
    by_cases hle : depthAll es ≤ e.depth
    · exact ⟨e, List.mem_cons_self, by omega⟩
    · obtain ⟨e', hmem, heq⟩ := ih (by omega)
      exact ⟨e', List.mem_cons_of_mem e hmem, by omega⟩

theorem lt_depth_of_occurs {n : Nat} {name : String} {args : List Expr} {span : Span} {e : Expr}
    (h : Occurs n (.call name args span) e) : n < e.depth := by
  generalize hsub : Expr.call name args span = sub at h
  induction h with
  | self =>
    subst hsub
    rw [depth]
    omega
  | arg _ _ hmem _ ih =>
    have hlt := ih hsub
    have hle := depth_le_depthAll hmem
    rw [depth]
    omega

/-- The depth of an expression is that of some call in it. -/
theorem exists_occurs_of_depth {n : Nat} {e : Expr} (h : e.depth = n + 1) :
    ∃ name args span, Occurs n (.call name args span) e := by
  -- On the depth: the argument to go on with is the deepest one, and only that.
  induction n generalizing e with
  | zero =>
    cases e with
    | call name args span => exact ⟨name, args, span, .self _⟩
    | str | int | var => rw [depth] at h; cases h
  | succ n ih =>
    cases e with
    | call name args span =>
      rw [depth, Nat.add_right_cancel_iff] at h
      have hpos : 0 < depthAll args := by omega
      obtain ⟨a, hmem, hdepth⟩ := exists_depth_eq hpos
      obtain ⟨name', args', span', hoccurs⟩ := ih (hdepth.trans h)
      exact ⟨name', args', span', .arg name span hmem hoccurs⟩
    | str | int | var => rw [depth] at h; cases h

theorem depth_le_iff {e : Expr} {limit : Nat} :
    e.depth ≤ limit ↔
      ∀ n name args span, Occurs n (.call name args span) e → n < limit := by
  constructor
  · intro h n name args span hoccurs
    exact Nat.lt_of_lt_of_le (lt_depth_of_occurs hoccurs) h
  · intro h
    cases hdepth : e.depth with
    | zero => exact Nat.zero_le limit
    | succ n =>
      obtain ⟨name, args, span, hoccurs⟩ := exists_occurs_of_depth hdepth
      exact h n name args span hoccurs

end Expr

def Item.expr? : Item → Option Expr
  | data .. => none
  | output e _ | set _ e _ => some e

theorem Item.depth_le_iff {i : Item} {limit : Nat} :
    i.depth ≤ limit ↔ ∀ e, i.expr? = some e → e.depth ≤ limit := by
  cases i <;> simp [Item.depth, Item.expr?]

namespace Template

/-- `t.HasItem n i`: the item `i` stands in `t`, inside of `n` regions. -/
inductive HasItem (t : Template) : Nat → Item → Prop where
  | top {i : Item} : .item i ∈ t.nodes → HasItem t 0 i
  | inside {i : Item} {body : List Item} {span : Span} :
      .region body span ∈ t.nodes → i ∈ body → HasItem t 1 i

/-- `t.Occurs n e`: the expression `e` stands in `t`, inside of `n` calls and
regions. -/
def Occurs (t : Template) (n : Nat) (e : Expr) : Prop :=
  ∃ regions calls i root, t.HasItem regions i ∧ i.expr? = some root ∧
    Expr.Occurs calls e root ∧ n = calls + regions

/-- A template keeps the nesting limit exactly if each of its calls does. -/
theorem depth_le_iff {t : Template} {limit : Nat} :
    (∀ n ∈ t.nodes, n.depth ≤ limit + 1) ↔
      ∀ n name args span, t.Occurs n (.call name args span) → n + 1 ≤ limit + 1 := by
  constructor
  · rintro h - name args span ⟨regions, calls, i, root, hi, hroot, hoccurs, rfl⟩
    have hlt := Expr.lt_depth_of_occurs hoccurs
    cases hi with
    | top hmem =>
      have := Item.depth_le_iff.mp (h _ hmem) root hroot
      omega
    | inside hmem hbody =>
      have := Item.depth_le_iff.mp (Grammar.depth_region_le_iff.mp (h _ hmem) i hbody) root hroot
      omega
  · rintro h (i | ⟨body, span⟩) hmem
    · refine Item.depth_le_iff.mpr fun root hroot => Expr.depth_le_iff.mpr ?_
      intro n name args span hoccurs
      exact h n name args span ⟨0, n, i, root, .top hmem, hroot, hoccurs, rfl⟩
    · refine Grammar.depth_region_le_iff.mpr fun i hi => ?_
      refine Item.depth_le_iff.mpr fun root hroot => Expr.depth_le_iff.mpr ?_
      intro n name args span' hoccurs
      have := h (n + 1) name args span' ⟨1, n, i, root, .inside hmem hi, hroot, hoccurs, rfl⟩
      omega

end Template

namespace Grammar

/-! ## One tree -/

theorem exprTokens_unique {w : List (Located Token)} {e e' : Expr} (h : ExprTokens w e)
    (h' : ExprTokens w e') : e = e' := by
  have hrest : (⟨w, .nowhere⟩ : Cursor).rest = w ++ [] := (List.append_nil w).symm
  obtain ⟨d, hread, -⟩ := parseExpr_complete (max e.depth e'.depth) h (Nat.le_max_left ..) hrest
    (by simp)
  obtain ⟨d', hread', -⟩ := parseExpr_complete (max e.depth e'.depth) h' (Nat.le_max_right ..)
    hrest (by simp)
  rw [hread] at hread'
  cases hread'
  rfl

theorem itemTokens_unique {w : List (Located Token)} {i i' : Item} (h : ItemTokens w i)
    (h' : ItemTokens w i') : i = i' := by
  cases h with
  | data text span =>
    cases h'
    rfl
  | @output first last v e he =>
    generalize hw : (⟨.variableBegin, first⟩ :: (v ++ [⟨.variableEnd, last⟩]) :
      List (Located Token)) = w at h'
    cases h' with
    | data | set => simp at hw
    | @output first' last' v' e' he' =>
      simp only [List.cons.injEq, Located.mk.injEq, true_and] at hw
      obtain ⟨rfl, hw⟩ := hw
      obtain ⟨rfl, hlast⟩ := List.append_inj' hw rfl
      simp only [List.cons.injEq, Located.mk.injEq, true_and, and_true] at hlast
      rw [exprTokens_unique he he', hlast]
  | @set name first tag target equals last v e he =>
    generalize hw : (⟨.blockBegin, first⟩ :: ⟨.name "set", tag⟩ :: ⟨.name name, target⟩ ::
      ⟨.assign, equals⟩ :: (v ++ [⟨.blockEnd, last⟩]) : List (Located Token)) = w at h'
    cases h' with
    | data | output => simp at hw
    | @set name' first' tag' target' equals' last' v' e' he' =>
      simp only [List.cons.injEq, Located.mk.injEq, true_and, Token.name.injEq] at hw
      obtain ⟨rfl, -, ⟨rfl, -⟩, -, hw⟩ := hw
      obtain ⟨rfl, hlast⟩ := List.append_inj' hw rfl
      simp only [List.cons.injEq, Located.mk.injEq, true_and, and_true] at hlast
      rw [exprTokens_unique he he', hlast]

/-- A region tag is no item. -/
theorem not_itemTokens_nameTag {name : String} (hname : name = Region.openName ∨
    name = Region.closeName) {first tag last : Span} {i : Item} :
    ¬ ItemTokens (nameTag name first tag last) i := by
  intro h
  have hmark := Region.beginsMark_of_itemTokens h
  rcases hname with rfl | rfl <;> cases hmark

theorem itemTokens_append_inj {w w' rest rest' : List (Located Token)} {i i' : Item}
    (h : ItemTokens w i) (h' : ItemTokens w' i') (heq : w ++ rest = w' ++ rest') :
    i = i' ∧ rest = rest' := by
  obtain ⟨rfl, hrest⟩ :=
    (Region.isPiece_of_itemTokens h).append_inj (Region.isPiece_of_itemTokens h') heq
  exact ⟨itemTokens_unique h h', hrest⟩

theorem itemTokens_append_ne_nameTag {name : String} (hname : name = Region.openName ∨
    name = Region.closeName) {w rest rest' : List (Located Token)} {i : Item}
    {first tag last : Span} (h : ItemTokens w i) :
    w ++ rest ≠ nameTag name first tag last ++ rest' := by
  intro heq
  obtain ⟨rfl, -⟩ := (Region.isPiece_of_itemTokens h).append_inj
    (Region.isPiece_nameTag name first tag last) heq
  exact not_itemTokens_nameTag hname h

/-- The items of a region end at the first closing tag. -/
theorem itemsTokens_append_inj {w w' rest rest' : List (Located Token)} {is is' : List Item}
    {first tag last first' tag' last' : Span} (h : ItemsTokens w is) (h' : ItemsTokens w' is')
    (heq : w ++ (nameTag Region.closeName first tag last ++ rest)
      = w' ++ (nameTag Region.closeName first' tag' last' ++ rest')) :
    is = is' ∧ rest = rest' := by
  induction h generalizing w' is' with
  | nil =>
    cases h' with
    | nil =>
      have hpiece := Region.isPiece_nameTag Region.closeName
      exact ⟨rfl, ((hpiece first tag last).append_inj (hpiece first' tag' last') heq).2⟩
    | cons hi _ =>
      rw [List.nil_append, List.append_assoc] at heq
      exact absurd heq.symm (itemTokens_append_ne_nameTag (.inr rfl) hi)
  | cons hi _ ih =>
    rw [List.append_assoc] at heq
    cases h' with
    | nil => exact absurd heq (itemTokens_append_ne_nameTag (.inr rfl) hi)
    | cons hi' his' =>
      rw [List.append_assoc] at heq
      obtain ⟨rfl, heq⟩ := itemTokens_append_inj hi hi' heq
      obtain ⟨rfl, hrest⟩ := ih his' heq
      exact ⟨rfl, hrest⟩

theorem nodesTokens_unique {w w' : List (Located Token)} {ns ns' : List Node}
    (h : NodesTokens w ns) (h' : NodesTokens w' ns') (heq : w = w') : ns = ns' := by
  induction h generalizing w' ns' with
  | nil =>
    cases h' with
    | nil => rfl
    | item hi _ =>
      have := (Region.isPiece_of_itemTokens hi).ne_nil
      simp [this] at heq
    | region => simp [nameTag] at heq
  | item hi _ ih =>
    cases h' with
    | nil =>
      have := (Region.isPiece_of_itemTokens hi).ne_nil
      simp [this] at heq
    | item hi' hns' =>
      obtain ⟨rfl, heq⟩ := itemTokens_append_inj hi hi' heq
      rw [ih hns' heq]
    | region => exact absurd heq (itemTokens_append_ne_nameTag (.inl rfl) hi)
  | region first tag last _ _ _ hbody _ ih =>
    cases h' with
    | nil => simp [nameTag] at heq
    | item hi _ => exact absurd heq.symm (itemTokens_append_ne_nameTag (.inl rfl) hi)
    | region first' tag' last' _ _ _ hbody' hns' =>
      have hpiece := Region.isPiece_nameTag Region.openName
      obtain ⟨hopen, heq⟩ := (hpiece first tag last).append_inj (hpiece first' tag' last') heq
      obtain ⟨rfl, heq⟩ := itemsTokens_append_inj hbody hbody' heq
      simp only [nameTag, List.cons.injEq, Located.mk.injEq, true_and, and_true] at hopen
      rw [ih hns' heq, hopen.1, hopen.2.2]

/-! ## Where its parts were read -/

/-- The span from the first of some tokens to the last. -/
def Covers (w : List (Located Token)) (span : Span) : Prop :=
  ∃ first last, w.head? = some first ∧ w.getLast? = some last ∧
    span = first.span.cover last.span

theorem cover_self (s : Span) : s.cover s = s := by
  simp [Span.cover]

theorem covers_singleton (t : Located Token) : Covers [t] t.span :=
  ⟨t, t, rfl, rfl, (cover_self t.span).symm⟩

theorem covers_cons_concat (first last : Located Token) (w : List (Located Token)) :
    Covers (first :: (w ++ [last])) (first.span.cover last.span) := by
  refine ⟨first, last, rfl, ?_, rfl⟩
  rw [← List.cons_append, List.getLast?_concat]

theorem covers_of_exprTokens {w : List (Located Token)} {e : Expr} (h : ExprTokens w e) :
    Covers w e.span := by
  cases h with
  | str value span => exact covers_singleton ⟨.string value, span⟩
  | int value span => exact covers_singleton ⟨.integer value, span⟩
  | neg value sign digits => exact covers_cons_concat ⟨.minus, sign⟩ ⟨.integer value, digits⟩ []
  | var name span => exact covers_singleton ⟨.name name, span⟩
  | callNone name first left right =>
    exact covers_cons_concat ⟨.name name, first⟩ ⟨.rightParen, right⟩ [⟨.leftParen, left⟩]
  | @call name first left right v args _ =>
    exact covers_cons_concat ⟨.name name, first⟩ ⟨.rightParen, right⟩ (⟨.leftParen, left⟩ :: v)

theorem covers_of_itemTokens {w : List (Located Token)} {i : Item} (h : ItemTokens w i) :
    Covers w i.span := by
  cases h with
  | data text span => exact covers_singleton ⟨.data text, span⟩
  | @output first last v _ _ =>
    exact covers_cons_concat ⟨.variableBegin, first⟩ ⟨.variableEnd, last⟩ v
  | @set name first tag target equals last v _ _ =>
    exact covers_cons_concat ⟨.blockBegin, first⟩ ⟨.blockEnd, last⟩
      (⟨.name "set", tag⟩ :: ⟨.name name, target⟩ :: ⟨.assign, equals⟩ :: v)

theorem exists_infix_of_mem_args {w : List (Located Token)} {es : List Expr} {e : Expr}
    (h : ArgsTokens w es) (he : e ∈ es) : ∃ v, v <:+: w ∧ ExprTokens v e := by
  induction es generalizing w with
  | nil => cases he
  | cons e' es ih =>
    cases h with
    | one he' =>
      rw [List.mem_singleton] at he
      exact ⟨w, List.infix_refl w, he ▸ he'⟩
    | @more v rest _ _ comma he' hes =>
      rcases List.mem_cons.mp he with rfl | he
      · exact ⟨v, (List.prefix_append v _).isInfix, he'⟩
      · obtain ⟨u, hpart, hu⟩ := ih hes he
        have hsuffix : rest <:+ v ++ ⟨.comma, comma⟩ :: rest :=
          (List.suffix_cons _ rest).trans (List.suffix_append v _)
        exact ⟨u, hpart.trans hsuffix.isInfix, hu⟩

theorem exists_infix_of_occurs {n : Nat} {sub e : Expr} (h : Expr.Occurs n sub e)
    {w : List (Located Token)} (hw : ExprTokens w e) : ∃ v, v <:+: w ∧ ExprTokens v sub := by
  induction h generalizing w with
  | self => exact ⟨w, List.infix_refl w, hw⟩
  | arg name _ hmem _ ih =>
    cases hw with
    | callNone => cases hmem
    | @call _ first left right v args hargs =>
      obtain ⟨u, hpart, hu⟩ := exists_infix_of_mem_args hargs hmem
      obtain ⟨s, hs, hsub⟩ := ih hu
      have hinside : v <:+: ⟨.name name, first⟩ :: ⟨.leftParen, left⟩ ::
          (v ++ [⟨.rightParen, right⟩]) := ⟨[⟨.name name, first⟩, ⟨.leftParen, left⟩], _, rfl⟩
      exact ⟨s, hs.trans (hpart.trans hinside), hsub⟩

theorem exists_infix_of_expr? {w : List (Located Token)} {i : Item} {e : Expr}
    (h : ItemTokens w i) (he : i.expr? = some e) : ∃ v, v <:+: w ∧ ExprTokens v e := by
  cases h with
  | data => cases he
  | @output first last v _ hv =>
    cases he
    exact ⟨v, ⟨[⟨.variableBegin, first⟩], [⟨.variableEnd, last⟩], by simp⟩, hv⟩
  | @set name first tag target equals last v _ hv =>
    cases he
    exact ⟨v, ⟨[⟨.blockBegin, first⟩, ⟨.name "set", tag⟩, ⟨.name name, target⟩,
      ⟨.assign, equals⟩], [⟨.blockEnd, last⟩], by simp⟩, hv⟩

theorem exists_infix_of_mem_items {w : List (Located Token)} {is : List Item} {i : Item}
    (h : ItemsTokens w is) (hi : i ∈ is) : ∃ v, v <:+: w ∧ ItemTokens v i := by
  induction h with
  | nil => cases hi
  | @cons v rest _ _ hv _ ih =>
    rcases List.mem_cons.mp hi with rfl | hi
    · exact ⟨v, (List.prefix_append v rest).isInfix, hv⟩
    · obtain ⟨u, hpart, hu⟩ := ih hi
      exact ⟨u, hpart.trans (List.suffix_append v rest).isInfix, hu⟩

theorem exists_infix_of_mem_nodes {w : List (Located Token)} {ns : List Node} {n : Node}
    (h : NodesTokens w ns) (hn : n ∈ ns) : ∃ v, v <:+: w ∧ NodesTokens v [n] := by
  induction h with
  | nil => cases hn
  | @item v rest _ _ hv _ ih =>
    rcases List.mem_cons.mp hn with rfl | hn
    · exact ⟨v ++ [], ⟨[], rest, by simp⟩, .item hv .nil⟩
    · obtain ⟨u, hpart, hu⟩ := ih hn
      exact ⟨u, hpart.trans (List.suffix_append v rest).isInfix, hu⟩
  | @region first tag last first' tag' last' inside rest _ _ hbody _ ih =>
    rcases List.mem_cons.mp hn with rfl | hn
    · exact ⟨_, ⟨[], rest, by simp⟩, .region first tag last first' tag' last' hbody .nil⟩
    · obtain ⟨u, hpart, hu⟩ := ih hn
      have hsuffix : rest <:+ nameTag Region.openName first tag last ++
          (inside ++ (nameTag Region.closeName first' tag' last' ++ rest)) :=
        (List.suffix_append _ rest).trans
          ((List.suffix_append inside _).trans (List.suffix_append _ _))
      exact ⟨u, hpart.trans hsuffix.isInfix, hu⟩

/-- The tokens of a whole region, from its opening tag to its closing tag. -/
def RegionTokens (body : List Item) (span : Span) (w : List (Located Token)) : Prop :=
  ∃ first tag last inside first' tag' last', ItemsTokens inside body ∧
    w = nameTag Region.openName first tag last ++
      (inside ++ nameTag Region.closeName first' tag' last') ∧
    Covers (nameTag Region.openName first tag last) span

theorem exists_infix_of_region_mem {w : List (Located Token)} {ns : List Node}
    {body : List Item} {span : Span} (h : NodesTokens w ns) (hmem : .region body span ∈ ns) :
    ∃ v, v <:+: w ∧ RegionTokens body span v := by
  obtain ⟨v, hv, hregion⟩ := exists_infix_of_mem_nodes h hmem
  refine ⟨v, hv, ?_⟩
  cases hregion with
  | region first tag last first' tag' last' hbody hrest =>
    cases hrest
    refine ⟨first, tag, last, _, first', tag', last', hbody, by simp, ?_⟩
    exact covers_cons_concat ⟨.blockBegin, first⟩ ⟨.blockEnd, last⟩ [⟨.name _, tag⟩]

/-- Each part of a template was read from tokens in a row, and its span covers
them. That of a region covers its opening tag. -/
structure Traced (w : List (Located Token)) (t : Template) : Prop where
  expr : ∀ {n e}, t.Occurs n e → ∃ v, v <:+: w ∧ ExprTokens v e ∧ Covers v e.span
  item : ∀ {n i}, t.HasItem n i → ∃ v, v <:+: w ∧ ItemTokens v i ∧ Covers v i.span
  region : ∀ {body span}, .region body span ∈ t.nodes →
    ∃ v, v <:+: w ∧ RegionTokens body span v

theorem exists_infix_of_hasItem {w : List (Located Token)} {t : Template} {n : Nat} {i : Item}
    (h : NodesTokens w t.nodes) (hi : t.HasItem n i) : ∃ v, v <:+: w ∧ ItemTokens v i := by
  cases hi with
  | top hmem =>
    obtain ⟨v, hv, hitem⟩ := exists_infix_of_mem_nodes h hmem
    cases hitem with
    | @item u rest _ _ hu _ => exact ⟨u, (List.prefix_append u rest).isInfix.trans hv, hu⟩
  | inside hmem hi =>
    obtain ⟨v, hpart, first, tag, last, inside, first', tag', last', hbody, rfl, -⟩ :=
      exists_infix_of_region_mem h hmem
    obtain ⟨u, hu, hitem⟩ := exists_infix_of_mem_items hbody hi
    have hinside : inside <:+: nameTag Region.openName first tag last ++
        (inside ++ nameTag Region.closeName first' tag' last') := ⟨_, _, List.append_assoc ..⟩
    exact ⟨u, hu.trans (hinside.trans hpart), hitem⟩

theorem traced_of_nodesTokens {w : List (Located Token)} {t : Template}
    (h : NodesTokens w t.nodes) : Traced w t where
  expr := by
    rintro n e ⟨regions, calls, i, root, hi, hroot, hoccurs, -⟩
    obtain ⟨v, hv, hitem⟩ := exists_infix_of_hasItem h hi
    obtain ⟨u, hu, hexpr⟩ := exists_infix_of_expr? hitem hroot
    obtain ⟨s, hs, hsub⟩ := exists_infix_of_occurs hoccurs hexpr
    exact ⟨s, hs.trans (hu.trans hv), hsub, covers_of_exprTokens hsub⟩
  item := by
    intro n i hi
    obtain ⟨v, hv, hitem⟩ := exists_infix_of_hasItem h hi
    exact ⟨v, hv, hitem, covers_of_itemTokens hitem⟩
  region := exists_infix_of_region_mem h

/-- Integers that are not negative can be negated, so a template holds no number
that its tokens do not allow. -/
theorem integer_fits {w : List (Located Token)} {value : Int} {span : Span}
    (hw : ∀ t ∈ w, ∀ v, t.value = .integer v → 0 ≤ v ∧ v ≤ Lexer.maxInteger)
    (h : ExprTokens w (.int value span)) :
    -Lexer.maxInteger ≤ value ∧ value ≤ Lexer.maxInteger := by
  have hmax : (0 : Int) ≤ Lexer.maxInteger := by decide
  cases h with
  | int =>
    have := hw _ List.mem_cons_self value rfl
    omega
  | neg v sign digits =>
    have := hw ⟨.integer v, digits⟩ (by simp) v rfl
    omega

/-! ## The parser -/

/-- The parser accepts what derives a tree whose calls keep the nesting limit, and
answers that tree; there is no other, and it knows where it was read. -/
theorem parse_iff_derived {tokens : List (Located Token)}
    (hintegers : ∀ t ∈ tokens, ∀ v, t.value = .integer v → 0 ≤ v ∧ v ≤ Lexer.maxInteger)
    (t : Template) :
    (Template.parse tokens = .ok t ↔
      NodesTokens (beforeEnd tokens) t.nodes ∧
        ∀ n name args span, t.Occurs n (.call name args span) → n + 1 ≤ Limits.maxNesting) ∧
    (NodesTokens (beforeEnd tokens) t.nodes →
      (∀ nodes, NodesTokens (beforeEnd tokens) nodes → nodes = t.nodes) ∧
      Traced (beforeEnd tokens) t ∧
      ∀ n value span, t.Occurs n (.int value span) →
        -Lexer.maxInteger ≤ value ∧ value ≤ Lexer.maxInteger) := by
  refine ⟨?_, ?_⟩
  · rw [parse_eq_ok_iff]
    exact and_congr_right fun _ => Template.depth_le_iff
  · intro h
    have htraced := traced_of_nodesTokens h
    refine ⟨fun nodes hnodes => nodesTokens_unique hnodes h rfl, htraced, ?_⟩
    intro n value span hoccurs
    obtain ⟨v, hv, hexpr, -⟩ := htraced.expr hoccurs
    refine integer_fits (fun t ht => hintegers t ?_) hexpr
    exact (List.takeWhile_sublist _).subset (hv.subset ht)

/-- The tokens of `{{f(-3)}}`, with something behind the end marker. -/
theorem parse_iff_derived_negative_argument :
    Template.parse [⟨.variableBegin, ⟨0, 1, 1⟩, ⟨2, 1, 3⟩⟩, ⟨.name "f", ⟨2, 1, 3⟩, ⟨3, 1, 4⟩⟩,
        ⟨.leftParen, ⟨3, 1, 4⟩, ⟨4, 1, 5⟩⟩, ⟨.minus, ⟨4, 1, 5⟩, ⟨5, 1, 6⟩⟩,
        ⟨.integer 3, ⟨5, 1, 6⟩, ⟨6, 1, 7⟩⟩, ⟨.rightParen, ⟨6, 1, 7⟩, ⟨7, 1, 8⟩⟩,
        ⟨.variableEnd, ⟨7, 1, 8⟩, ⟨9, 1, 10⟩⟩, ⟨.eof, ⟨9, 1, 10⟩, ⟨9, 1, 10⟩⟩,
        ⟨.comma, ⟨9, 1, 10⟩, ⟨10, 1, 11⟩⟩]
      = .ok ⟨[.item (.output
          (.call "f" [.int (-3) ⟨⟨4, 1, 5⟩, ⟨6, 1, 7⟩⟩] ⟨⟨2, 1, 3⟩, ⟨7, 1, 8⟩⟩)
          ⟨⟨0, 1, 1⟩, ⟨9, 1, 10⟩⟩)]⟩ := by
  refine (parse_iff_derived ?_ _).1.mpr ⟨?_, Template.depth_le_iff.mp ?_⟩
  · simp [Lexer.maxInteger]
  · exact .item (.output _ _ (.call "f" _ _ _ (.one (.neg 3 _ _)))) .nil
  · simp [Node.depth, Item.depth, Expr.depth, Expr.depthAll]

end Grammar

end QueryMachine
