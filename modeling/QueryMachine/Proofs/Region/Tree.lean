import QueryMachine.Proofs.Token.Shape
import QueryMachine.Proofs.Region.Walk
import Mathlib

/-!
# Instrumenting tokens is rewriting trees

The calls are put into the tokens before anything is parsed. This file says what
that comes to once the tokens are parsed: `instrumentedNode` rewrites a tree,
knows nothing of tokens, and gives the tree that the instrumented tokens are read
as. Spans are left out of the comparison, since a cut piece of data and a call
that stands nowhere in the text have spans of their own.

From the raw tree to the instrumented tokens the induction is on the derivation
of the tree: each item of a region is walked over by the lemma for its tokens,
and what is put out is again a derivation. Back from the instrumented tokens
there is no tree to follow, so the induction is on the pieces of the raw tokens,
and each piece is looked up in the derivation of the instrumented ones. That only
works because pieces cannot be confused with one another.
-/

namespace QueryMachine

/-! ## Trees without their spans -/

namespace Expr

mutual

/-- An expression with no trace of where it stood. -/
def withoutSpans : Expr → Expr
  | str value _ => .str value .nowhere
  | int value _ => .int value .nowhere
  | var name _ => .var name .nowhere
  | call name args _ => .call name (withoutSpansAll args) .nowhere

def withoutSpansAll : List Expr → List Expr
  | [] => []
  | e :: es => e.withoutSpans :: withoutSpansAll es

end

end Expr

def Item.withoutSpans : Item → Item
  | data text _ => .data text .nowhere
  | output e _ => .output e.withoutSpans .nowhere
  | set name e _ => .set name e.withoutSpans .nowhere

def Node.withoutSpans : Node → Node
  | item i => .item i.withoutSpans
  | region body _ => .region (body.map Item.withoutSpans) .nowhere

def Template.withoutSpans (t : Template) : Template :=
  ⟨t.nodes.map Node.withoutSpans⟩

namespace Region

/-! ## The rewriting -/

/-- `{{ name() }}`, written nowhere. -/
def callItem (name : String) : Item :=
  .output (.call name [] .nowhere) .nowhere

/-- What becomes of the pieces of data between newlines, and whether a statement
is due after them. A blank piece is dropped unless it is the last one; at a
newline there is a statement if one is due or the piece before it is not blank,
and after the newline none is due. -/
def lineItems (hooks : Hooks) (due : Bool) : List (List Char) → List Item × Bool
  | [] => ([], due)
  | [last] => ([.data (String.ofList last) .nowhere], due)
  | piece :: next :: rest =>
    let blank := Text.isAllBlank piece
    let kept := if blank then [] else [.data (String.ofList piece) .nowhere]
    let statement := if due || !blank then [callItem hooks.statement] else []
    let following := lineItems hooks false (next :: rest)
    (kept ++ statement ++ following.1, following.2)

/-- What becomes of the items of a region. -/
def bodyItems (hooks : Hooks) (due : Bool) : List Item → List Item
  | [] => []
  | .data text _ :: is =>
    let pieces := lineItems hooks due (text.toList.splitOn '\n')
    pieces.1 ++ bodyItems hooks pieces.2 is
  | .output e span :: is => .output e span :: bodyItems hooks true is
  | .set name e span :: is => .set name e span :: bodyItems hooks due is

/-- What becomes of a node: a region gets its calls, and everything else stays. -/
def instrumentedNode (hooks : Hooks) : Node → Node
  | .item i => .item i
  | .region body span =>
    .region (callItem hooks.prologue ::
      (bodyItems hooks true body ++ [callItem hooks.epilogue])) span

def instrumentedTemplate (hooks : Hooks) (t : Template) : Template :=
  ⟨t.nodes.map (instrumentedNode hooks)⟩

/-! ## From the raw tree -/

open Grammar

variable {hooks : Hooks} {p q : Progress}

/-- The tokens are read as these items, spans aside, within the nesting that a
region leaves. -/
def Reads (w : List (Located Token)) (items : List Item) : Prop :=
  ∃ is, ItemsTokens w is ∧ (∀ i ∈ is, i.depth ≤ Limits.maxNesting - 1) ∧
    is.map Item.withoutSpans = items.map Item.withoutSpans

theorem itemsTokens_append {w w' : List (Located Token)} {is is' : List Item}
    (h : ItemsTokens w is) (h' : ItemsTokens w' is') :
    ItemsTokens (w ++ w') (is ++ is') := by
  induction h with
  | nil => exact h'
  | cons hi _ ih =>
    rw [List.append_assoc]
    exact .cons hi ih

theorem Reads.nil : Reads [] [] := ⟨[], .nil, by simp, rfl⟩

theorem Reads.append {w w' : List (Located Token)} {items items' : List Item}
    (h : Reads w items) (h' : Reads w' items') : Reads (w ++ w') (items ++ items') := by
  obtain ⟨is, hw, hdepth, heq⟩ := h
  obtain ⟨is', hw', hdepth', heq'⟩ := h'
  refine ⟨is ++ is', itemsTokens_append hw hw', ?_, ?_⟩
  · intro i hi
    rcases List.mem_append.mp hi with hi | hi
    · exact hdepth i hi
    · exact hdepth' i hi
  · rw [List.map_append, List.map_append, heq, heq']

theorem Reads.of_item {w : List (Located Token)} {i j : Item} (h : ItemTokens w i)
    (hdepth : i.depth ≤ Limits.maxNesting - 1) (heq : i.withoutSpans = j.withoutSpans) :
    Reads w [j] := by
  refine ⟨[i], ?_, by simpa using hdepth, by simpa using heq⟩
  simpa using ItemsTokens.cons h .nil

theorem itemTokens_call (name : String) (pos : Position) :
    ∃ first last, ItemTokens (call name pos).toList (.output (.call name [] first) last) := by
  have h : ExprTokens [⟨.name name, .point pos⟩, ⟨.leftParen, .point pos⟩,
      ⟨.rightParen, .point pos⟩] (.call name [] _) :=
    .callNone name (.point pos) (.point pos) (.point pos)
  refine ⟨(Span.point pos).cover (.point pos), (Span.point pos).cover (.point pos), ?_⟩
  have hcall := ItemTokens.output (.point pos) (.point pos) h
  simpa [call] using hcall

theorem reads_call (name : String) (pos : Position) :
    Reads (call name pos).toList [callItem name] := by
  obtain ⟨first, last, h⟩ := itemTokens_call name pos
  have hdepth : (Item.output (.call name [] first) last).depth = 1 := rfl
  exact .of_item h (by rw [hdepth]; decide) rfl

theorem reads_data (text : List Char) (pos : Position) :
    Reads [dataAt pos text] [.data (String.ofList text) .nowhere] :=
  .of_item (.data _ _) (Nat.zero_le _) rfl

theorem reads_lineTokens (due : Bool) (pos : Position) (pieces : List (List Char)) :
    Reads (lineTokens hooks due pos pieces) (lineItems hooks due pieces).1 := by
  induction pieces generalizing due pos with
  | nil => exact .nil
  | cons piece rest ih =>
    cases rest with
    | nil => exact reads_data piece pos
    | cons next rest =>
      rw [lineTokens, lineItems]
      refine ((?_ : Reads _ _).append ?_).append (ih false _)
      · split
        · exact .nil
        · exact reads_data piece pos
      · split
        · exact reads_call hooks.statement _
        · exact .nil

theorem lineItems_snd (due : Bool) (pieces : List (List Char)) :
    (lineItems hooks due pieces).2 = dueAfter due pieces := by
  induction pieces generalizing due with
  | nil => rfl
  | cons piece rest ih =>
    cases rest with
    | nil => rfl
    | cons next rest =>
      rw [lineItems, ih, dueAfter_false]
      rfl

/-- One item of a region: what is put out for it is read as what becomes of it. -/
theorem reads_item {w : List (Located Token)} {i : Item} (h : ItemTokens w i)
    (is : List Item) (hdepth : i.depth ≤ Limits.maxNesting - 1) (hp : p.inRegion = true) :
    ∃ e q items, Emits hooks p w e q ∧ q.opened = p.opened ∧ Reads e items ∧
      bodyItems hooks p.due (i :: is) = items ++ bodyItems hooks q.due is := by
  cases h with
  | data text span =>
    refine ⟨_, _, _, emits_data_inside hp text span, p.opened_sawData text span.start,
      reads_lineTokens _ _ _, ?_⟩
    rw [bodyItems, Progress.due_sawData, lineItems_snd]
  | output first last he =>
    refine ⟨_, _, _, emits_variableTag (isContent_of_exprTokens he) first last,
      p.opened_sawOutput, .of_item (.output first last he) hdepth rfl, ?_⟩
    rw [bodyItems, Progress.due_sawOutput hp]
    rfl
  | set name first tag target equals last he =>
    refine ⟨_, p, _, emits_blockTag (isContent_of_set he) first last rfl, rfl,
      .of_item (.set name first tag target equals last he) hdepth rfl, ?_⟩
    rw [bodyItems]
    rfl

theorem reads_body {w : List (Located Token)} {is : List Item} (h : ItemsTokens w is)
    (hdepth : ∀ i ∈ is, i.depth ≤ Limits.maxNesting - 1) (hp : p.inRegion = true) :
    ∃ e q, Emits hooks p w e q ∧ q.opened = p.opened ∧ Reads e (bodyItems hooks p.due is) := by
  induction h generalizing p with
  | nil => exact ⟨[], p, .nil, rfl, .nil⟩
  | @cons w rest i is hi _ ih =>
    rw [List.forall_mem_cons] at hdepth
    obtain ⟨e, q, items, hw, hq, he, heq⟩ := reads_item hi is hdepth.1 hp
    have hin : q.inRegion = true := (Progress.inRegion_congr hq).trans hp
    obtain ⟨e', q', hrest, hq', he'⟩ := ih hdepth.2 hin
    refine ⟨e ++ e', q', hw.append hrest, hq'.trans hq, ?_⟩
    rw [heq]
    exact he.append he'

/-- What is put out for the nodes of a tree is read as what becomes of them. -/
theorem reads_nodes {w : List (Located Token)} {ns : List Node} (h : NodesTokens w ns)
    (hdepth : ∀ n ∈ ns, n.depth ≤ Limits.maxNesting) (hp : p.opened = none) :
    ∃ e q ns', Emits hooks p w e q ∧ q.opened = none ∧ NodesTokens e ns' ∧
      (∀ n ∈ ns', n.depth ≤ Limits.maxNesting) ∧
      ns'.map Node.withoutSpans
        = (ns.map (instrumentedNode hooks)).map Node.withoutSpans := by
  induction h generalizing p with
  | nil => exact ⟨[], p, [], .nil, hp, .nil, by simp, rfl⟩
  | @item w rest i ns hi _ ih =>
    rw [List.forall_mem_cons] at hdepth
    obtain ⟨e, q, ns', hrest, hq, he, hdepth', heq⟩ := ih hdepth.2 hp
    have hw := @emits_piece_outside hooks p w (isPiece_of_itemTokens hi)
      (beginsMark_of_itemTokens hi) hp
    refine ⟨w ++ e, q, .item i :: ns', hw.append hrest, hq, .item hi he, ?_, ?_⟩
    · rw [List.forall_mem_cons]
      exact ⟨hdepth.1, hdepth'⟩
    · rw [List.map_cons, List.map_cons, List.map_cons, heq]
      rfl
  | @region first tag last first' tag' last' body rest items ns hitems _ ih =>
    rw [List.forall_mem_cons] at hdepth
    -- The opening tag, the body and the closing tag, each with what it puts out.
    have hopen := @emits_open hooks p hp first tag last
    obtain ⟨eb, qb, hbody, hqb, hreads⟩ := @reads_body hooks (p.enter (first.cover last)).countCall
      _ _ hitems (depth_region_le_iff.mp hdepth.1) rfl
    have hin : qb.inRegion = true := Progress.inRegion_congr hqb
    have hclose := @emits_closeTag hooks qb hin [] (by simp) first' tag' last'
    obtain ⟨e, q, ns', hrest, hq, he, hdepth', heq⟩ := @ih qb.leave.countCall hdepth.2 rfl
    -- The calls around the body are read as two more items of it.
    obtain ⟨is, hw, hdepths, his⟩ := ((reads_call hooks.prologue last.stop).append hreads).append
      (reads_call hooks.epilogue first'.start)
    have hnodes := NodesTokens.region first tag last first' tag' last' hw he
    refine ⟨_, q, .region is (first.cover last) :: ns',
      hopen.append (hbody.append (hclose.append hrest)), hq, ?_, ?_, ?_⟩
    · simpa only [nameTag, List.append_assoc, List.cons_append, List.nil_append] using hnodes
    · rw [List.forall_mem_cons]
      exact ⟨depth_region_le_iff.mpr hdepths, hdepth'⟩
    · rw [List.map_cons, List.map_cons, List.map_cons, heq]
      simp only [Node.withoutSpans, instrumentedNode, his]
      rfl

/-! ## Back from the instrumented tokens -/

/-- The tokens are read as nodes. -/
def Accepts (w : List (Located Token)) : Prop :=
  ∃ ns, NodesTokens w ns ∧ ∀ n ∈ ns, n.depth ≤ Limits.maxNesting

/-- The tokens are read as the rest of a region and the nodes after it. -/
def AcceptsBody (w : List (Located Token)) : Prop :=
  ∃ items rest, BodyTokens (Limits.maxNesting - 1) w items rest ∧ Accepts rest

theorem Accepts.item {w rest : List (Located Token)} {i : Item} (hi : ItemTokens w i)
    (hdepth : i.depth ≤ Limits.maxNesting) (h : Accepts rest) : Accepts (w ++ rest) := by
  obtain ⟨ns, hns, hdepths⟩ := h
  refine ⟨.item i :: ns, .item hi hns, ?_⟩
  rw [List.forall_mem_cons]
  exact ⟨hdepth, hdepths⟩

theorem Accepts.region {rest : List (Located Token)} (first tag last : Span)
    (h : AcceptsBody rest) : Accepts (nameTag openName first tag last ++ rest) := by
  obtain ⟨items, rest, ⟨w, first', tag', last', rfl, hw, hdepth⟩, ns, hns, hdepths⟩ := h
  refine ⟨_, .region first tag last first' tag' last' hw hns, ?_⟩
  rw [List.forall_mem_cons]
  exact ⟨depth_region_le_iff.mpr hdepth, hdepths⟩

theorem AcceptsBody.item {w rest : List (Located Token)} {i : Item} (hi : ItemTokens w i)
    (hdepth : i.depth ≤ Limits.maxNesting - 1) (h : AcceptsBody rest) :
    AcceptsBody (w ++ rest) := by
  obtain ⟨items, rest', hbody, hrest⟩ := h
  exact ⟨i :: items, rest', hbody.cons hi hdepth, hrest⟩

theorem AcceptsBody.close {rest : List (Located Token)} (first tag last : Span)
    (h : Accepts rest) : AcceptsBody (nameTag closeName first tag last ++ rest) :=
  ⟨[], rest, ⟨[], first, tag, last, rfl, .nil, by simp⟩, h⟩

/-- The first piece of nodes is an item or opens a region. -/
theorem Accepts.of_piece {w rest : List (Located Token)} (hw : Lexer.IsPiece w)
    (h : Accepts (w ++ rest)) :
    (∃ i, ItemTokens w i ∧ i.depth ≤ Limits.maxNesting ∧ Accepts rest) ∨
      ∃ first tag last, w = nameTag openName first tag last ∧ AcceptsBody rest := by
  obtain ⟨ns, hns, hdepth⟩ := h
  generalize htokens : w ++ rest = tokens at hns
  cases hns with
  | nil => exact absurd (List.append_eq_nil_iff.mp htokens).1 hw.ne_nil
  | item hi hns =>
    rw [List.forall_mem_cons] at hdepth
    obtain ⟨rfl, rfl⟩ := hw.append_inj (isPiece_of_itemTokens hi) htokens
    exact .inl ⟨_, hi, hdepth.1, _, hns, hdepth.2⟩
  | region first tag last first' tag' last' hitems hns =>
    rw [List.forall_mem_cons] at hdepth
    obtain ⟨rfl, rfl⟩ := hw.append_inj (isPiece_nameTag ..) htokens
    refine .inr ⟨first, tag, last, rfl, _, _, ⟨_, first', tag', last', rfl, hitems, ?_⟩,
      _, hns, hdepth.2⟩
    exact depth_region_le_iff.mp hdepth.1

/-- The first piece of the rest of a region is an item or closes the region. -/
theorem AcceptsBody.of_piece {w rest : List (Located Token)} (hw : Lexer.IsPiece w)
    (h : AcceptsBody (w ++ rest)) :
    (∃ i, ItemTokens w i ∧ i.depth ≤ Limits.maxNesting - 1 ∧ AcceptsBody rest) ∨
      ∃ first tag last, w = nameTag closeName first tag last ∧ Accepts rest := by
  obtain ⟨items, after, ⟨body, first, tag, last, htokens, hitems, hdepth⟩, hafter⟩ := h
  cases hitems with
  | nil =>
    obtain ⟨rfl, rfl⟩ := hw.append_inj (isPiece_nameTag ..) htokens
    exact .inr ⟨first, tag, last, rfl, hafter⟩
  | cons hi his =>
    rw [List.forall_mem_cons] at hdepth
    rw [List.append_assoc] at htokens
    obtain ⟨rfl, rfl⟩ := hw.append_inj (isPiece_of_itemTokens hi) htokens
    exact .inl ⟨_, hi, hdepth.1, _, _, ⟨_, first, tag, last, rfl, his, hdepth.2⟩, hafter⟩

/-- An item that stands in front of nodes can stand in front of any nodes. -/
theorem Accepts.exchange {w rest : List (Located Token)} (hw : Lexer.IsPiece w)
    (hmark : beginsMark w = false) (h : Accepts (w ++ rest)) :
    Accepts rest ∧ ∀ rest', Accepts rest' → Accepts (w ++ rest') := by
  rcases h.of_piece hw with ⟨i, hi, hdepth, hrest⟩ | ⟨first, tag, last, rfl, -⟩
  · exact ⟨hrest, fun rest' h' => h'.item hi hdepth⟩
  · cases hmark

theorem AcceptsBody.exchange {w rest : List (Located Token)} (hw : Lexer.IsPiece w)
    (hmark : beginsMark w = false) (h : AcceptsBody (w ++ rest)) :
    AcceptsBody rest ∧ ∀ rest', AcceptsBody rest' → AcceptsBody (w ++ rest') := by
  rcases h.of_piece hw with ⟨i, hi, hdepth, hrest⟩ | ⟨first, tag, last, rfl, -⟩
  · exact ⟨hrest, fun rest' h' => h'.item hi hdepth⟩
  · cases hmark

theorem shaped_of_itemsTokens {w : List (Located Token)} {is : List Item}
    (h : ItemsTokens w is) : Lexer.Shaped w := by
  induction h with
  | nil => exact .nil
  | cons hi _ ih => exact .cons (isPiece_of_itemTokens hi) ih

theorem isPiece_call (name : String) (pos : Position) :
    Lexer.IsPiece (call name pos).toList := by
  obtain ⟨_, _, h⟩ := itemTokens_call name pos
  exact isPiece_of_itemTokens h

/-- The calls and pieces of data put into a region can be left out again. -/
theorem AcceptsBody.of_call {name : String} {pos : Position} {rest : List (Located Token)}
    (h : AcceptsBody ((call name pos).toList ++ rest)) : AcceptsBody rest :=
  (h.exchange (isPiece_call name pos) (by simp [call, beginsMark])).1

theorem AcceptsBody.of_lineTokens {due : Bool} {pos : Position} {pieces : List (List Char)}
    {rest : List (Located Token)} (h : AcceptsBody (lineTokens hooks due pos pieces ++ rest)) :
    AcceptsBody rest := by
  induction pieces generalizing due pos with
  | nil => exact h
  | cons piece pieces ih =>
    have hdata : ∀ {w : List (Located Token)}, AcceptsBody (dataAt pos piece :: w) →
        AcceptsBody w := by
      intro w hw
      exact (hw.exchange (w := [dataAt pos piece]) (.data _ _) rfl).1
    cases pieces with
    | nil => exact hdata h
    | cons next pieces =>
      rw [lineTokens, List.append_assoc, List.append_assoc] at h
      have hkept : AcceptsBody ((if due || !Text.isAllBlank piece then
          (call hooks.statement (pos.advanceOver piece)).toList else []) ++
          (lineTokens hooks false ((pos.advanceOver piece).advance '\n') (next :: pieces) ++
            rest)) := by
        split at h
        · exact h
        · exact hdata h
      refine @ih false ((pos.advanceOver piece).advance '\n') ?_
      split at hkept
      · exact hkept.of_call
      · exact hkept

theorem shaped_lineTokens (due : Bool) (pos : Position) (pieces : List (List Char)) :
    Lexer.Shaped (lineTokens hooks due pos pieces) := by
  obtain ⟨is, his, -⟩ := @reads_lineTokens hooks due pos pieces
  exact shaped_of_itemsTokens his

/-- What the walk puts out from `p` on is pieces and the end marker, and if the
pieces are accepted, so is what was read. -/
def Reflects (hooks : Hooks) (p : Progress) (last : Span)
    (accepts : List (Located Token) → Prop) (w : List (Located Token)) : Prop :=
  ∀ out final q, runFrom hooks p out (w ++ [⟨.eof, last⟩]) = .ok (final, q) →
    ∃ e, final.toList = out.toList ++ (e ++ [⟨.eof, last⟩]) ∧ Lexer.Shaped e ∧
      (accepts e → accepts w)

theorem Reflects.step {last : Span} {accepts accepts' : List (Located Token) → Prop}
    {w e rest : List (Located Token)} (hw : Emits hooks p w e q) (he : Lexer.Shaped e)
    (hrest : Reflects hooks q last accepts' rest)
    (h : ∀ e', accepts (e ++ e') → accepts' e' ∧ (accepts' rest → accepts (w ++ rest))) :
    Reflects hooks p last accepts (w ++ rest) := by
  intro out final q' hrun
  rw [List.append_assoc, hw] at hrun
  obtain ⟨e', hfinal, he', himp⟩ := hrest _ _ _ hrun
  refine ⟨e ++ e', ?_, he.append he', ?_⟩
  · rw [hfinal]
    simp
  · intro haccepts
    obtain ⟨hafter, hback⟩ := h e' haccepts
    exact hback (himp hafter)

theorem Reflects.of_error {last : Span} {accepts : List (Located Token) → Prop}
    {w : List (Located Token)}
    (h : ∀ out, ∃ error, runFrom hooks p out (w ++ [⟨.eof, last⟩]) = .error error) :
    Reflects hooks p last accepts w := by
  intro out final q hrun
  obtain ⟨error, herror⟩ := h out
  rw [herror] at hrun
  cases hrun

theorem Reflects.nil_outside (hp : p.opened = none) (last : Span) :
    Reflects hooks p last Accepts [] := by
  intro out final q hrun
  rw [List.nil_append, runFrom_eof hp] at hrun
  cases hrun
  exact ⟨[], by simp, .nil, fun h => h⟩

theorem Reflects.nil_inside (hp : p.inRegion = true) (last : Span) :
    Reflects hooks p last AcceptsBody [] := by
  obtain ⟨opened, hopened⟩ := Progress.exists_opened hp
  exact .of_error fun out => ⟨_, runFrom_unclosed hopened out last []⟩

/-- One piece outside of regions. A region that opens here is read on inside. -/
theorem Reflects.piece_outside {w rest : List (Located Token)} {last : Span}
    (hw : Lexer.IsPiece w) (hp : p.opened = none)
    (hout : Reflects hooks p last Accepts rest)
    (hin : ∀ q : Progress, q.inRegion = true → Reflects hooks q last AcceptsBody rest) :
    Reflects hooks p last Accepts (w ++ rest) := by
  rcases @piece_outside_cases hooks p w hw hp with
    ⟨hmark, hemits⟩ | ⟨first, tag, close, rfl, hemits⟩ | herror
  · refine .step hemits hw.shaped hout ?_
    intro e' h
    obtain ⟨hrest, hback⟩ := h.exchange hw hmark
    exact ⟨hrest, hback rest⟩
  · have hshaped := hw.shaped.append (isPiece_call hooks.prologue close.stop).shaped
    refine .step hemits hshaped (hin _ rfl) ?_
    intro e' h
    rw [List.append_assoc] at h
    rcases h.of_piece hw with ⟨i, hi, -⟩ | ⟨_, _, _, -, hbody⟩
    · cases beginsMark_of_itemTokens hi
    · exact ⟨hbody.of_call, .region first tag close⟩
  · refine .of_error fun out => ?_
    rw [List.append_assoc]
    exact herror out _

/-- One piece inside of a region. If the region closes here, the rest is read on
outside. -/
theorem Reflects.piece_inside {w rest : List (Located Token)} {last : Span}
    (hw : Lexer.IsPiece w) (hp : p.inRegion = true)
    (hout : ∀ q : Progress, q.opened = none → Reflects hooks q last Accepts rest)
    (hin : ∀ q : Progress, q.inRegion = true → Reflects hooks q last AcceptsBody rest) :
    Reflects hooks p last AcceptsBody (w ++ rest) := by
  rcases @piece_inside_cases hooks p w hw hp with
    hmark | ⟨first, tag, more, heq, hemits⟩ | herror
  · have hsame : ∀ e', AcceptsBody (w ++ e') →
        AcceptsBody e' ∧ (AcceptsBody rest → AcceptsBody (w ++ rest)) := by
      intro e' h
      obtain ⟨hrest, hback⟩ := h.exchange hw hmark
      exact ⟨hrest, hback rest⟩
    have hshaped := hw.shaped
    cases hw with
    | data text span =>
      have hq : (p.sawData hooks text span.start).inRegion = true :=
        (p.inRegion_sawData ..).trans hp
      refine .step (emits_data_inside hp text span) (shaped_lineTokens _ _ _) (hin _ hq) ?_
      intro e' h
      exact ⟨h.of_lineTokens, fun hrest => hrest.item (.data text span) (Nat.zero_le _)⟩
    | tag kind first close hcontent =>
      cases kind with
      | expression =>
        have hq : p.sawOutput.inRegion = true := p.inRegion_sawOutput.trans hp
        exact .step (emits_variableTag hcontent first close) hshaped (hin _ hq) hsame
      | block =>
        exact .step (emits_blockTag hcontent first close hmark) hshaped (hin p hp) hsame
  · have hshaped := (isPiece_call hooks.epilogue first.start).shaped.append hw.shaped
    refine .step hemits hshaped (hout _ rfl) ?_
    intro e' h
    rw [List.append_assoc] at h
    rcases h.of_call.of_piece hw with ⟨i, hi, -⟩ | ⟨first', tag', last', rfl, hrest⟩
    · rw [heq] at hi
      cases beginsMark_of_itemTokens hi
    · exact ⟨hrest, AcceptsBody.close first' tag' last'⟩
  · refine .of_error fun out => ?_
    rw [List.append_assoc]
    exact herror out _

/-- If the instrumented tokens are accepted, so are the raw ones: outside of
regions, and inside of them. -/
theorem reflects_shaped {w : List (Located Token)} (h : Lexer.Shaped w) (last : Span) :
    (∀ p : Progress, p.opened = none → Reflects hooks p last Accepts w) ∧
      ∀ p : Progress, p.inRegion = true → Reflects hooks p last AcceptsBody w := by
  induction h with
  | nil => exact ⟨fun p hp => .nil_outside hp last, fun p hp => .nil_inside hp last⟩
  | cons hw _ ih =>
    obtain ⟨hout, hin⟩ := ih
    exact ⟨fun p hp => .piece_outside hw hp (hout p hp) hin,
      fun p hp => .piece_inside hw hp hout hin⟩

/-! ## Templates -/

/-- The walk stops at the first end marker, where the parser stops. -/
theorem exists_closed_eq (tokens : List (Located Token)) :
    ∃ span rest, Cursor.closed tokens = beforeEnd tokens ++ ⟨.eof, span⟩ :: rest := by
  obtain ⟨tail, hclosed, htail⟩ := exists_atEnd (Cursor.closed tokens)
  rw [beforeEnd_closed] at hclosed
  cases tail with
  | nil =>
    obtain ⟨t, ht, heof⟩ := eof_mem_closed tokens
    rw [hclosed, List.append_nil] at ht
    have := List.all_eq_true.mp List.all_takeWhile t ht
    rw [heof] at this
    cases this
  | cons t tail =>
    obtain ⟨value, span⟩ := t
    obtain rfl : value = .eof := htail _ rfl
    exact ⟨span, tail, hclosed⟩

theorem beforeEnd_concat {w : List (Located Token)}
    (hw : ∀ t ∈ w, t.value.isEof = false) (span : Span) :
    beforeEnd (w ++ [⟨.eof, span⟩]) = w :=
  beforeEnd_append hw (by rintro t ⟨⟩; rfl)

/-- Whatever is parsed can be instrumented and parsed, and is then rewritten.
This holds for any tokens. -/
theorem exists_instrumented_of_parse {tokens : List (Located Token)} {t : Template}
    (h : Template.parse tokens = .ok t) (hooks : Hooks) :
    ∃ i t', instrument hooks tokens = .ok i ∧ Template.parse i.tokens.toList = .ok t' ∧
      t'.withoutSpans = (instrumentedTemplate hooks t).withoutSpans := by
  obtain ⟨hnodes, hdepth⟩ := parse_eq_ok_iff.mp h
  obtain ⟨span, rest, hclosed⟩ := exists_closed_eq tokens
  obtain ⟨e, q, ns, hw, hq, hns, hdepths, heq⟩ :=
    @reads_nodes hooks {} _ _ hnodes hdepth rfl
  have hrun : runFrom hooks {} #[] (Cursor.closed tokens)
      = .ok (e.toArray.push ⟨.eof, span⟩, q) := by
    rw [hclosed, hw, runFrom_eof hq, Array.empty_append]
  refine ⟨⟨e.toArray.push ⟨.eof, span⟩, q.summary⟩, ⟨ns⟩, ?_, ?_, ?_⟩
  · rw [instrument, hrun]
    rfl
  · rw [parse_eq_ok_iff]
    simp only [Array.toList_push, beforeEnd_concat (not_eof_of_nodesTokens hns)]
    exact ⟨hns, hdepths⟩
  · simp only [Template.withoutSpans, instrumentedTemplate, heq]

/-- Whatever is instrumented and parsed can be parsed without the calls. This
needs tokens of the lexer: outside of tags the walk passes over tokens that the
parser would refuse. -/
theorem exists_parse_of_instrumented {source : String} {lexed : Lexed}
    (h : Lexer.tokenize source = .ok lexed) {i : Instrumented} {t' : Template}
    (hi : instrument hooks lexed.tokens.toList = .ok i)
    (ht' : Template.parse i.tokens.toList = .ok t') :
    ∃ t, Template.parse lexed.tokens.toList = .ok t := by
  obtain ⟨w, span, htokens, hshaped⟩ := Lexer.shaped_of_tokenize h
  obtain ⟨⟨final, q⟩, hrun, rfl⟩ := Lexer.exists_of_map_eq_ok hi
  rw [closed_of_tokenize h, htokens] at hrun
  obtain ⟨e, hfinal, he, haccepts⟩ := (reflects_shaped hshaped span).1 {} rfl _ _ _ hrun
  rw [parse_eq_ok_iff] at ht'
  simp only [hfinal, List.nil_append, beforeEnd_concat he.not_eof] at ht'
  obtain ⟨ns, hns, hdepth⟩ := haccepts ⟨_, ht'⟩
  refine ⟨⟨ns⟩, ?_⟩
  rw [parse_eq_ok_iff, htokens, beforeEnd_concat hshaped.not_eof]
  exact ⟨hns, hdepth⟩

/-- What was instrumented and parsed is the rewriting of what the raw tokens are
parsed as. -/
theorem exists_rewritten {source : String} {lexed : Lexed}
    (h : Lexer.tokenize source = .ok lexed) {i : Instrumented} {t' : Template}
    (hi : instrument hooks lexed.tokens.toList = .ok i)
    (ht' : Template.parse i.tokens.toList = .ok t') :
    ∃ t, Template.parse lexed.tokens.toList = .ok t ∧
      t'.withoutSpans = (instrumentedTemplate hooks t).withoutSpans := by
  obtain ⟨t, ht⟩ := exists_parse_of_instrumented h hi ht'
  obtain ⟨j, t'', hj, ht'', heq⟩ := exists_instrumented_of_parse ht hooks
  rw [hi] at hj
  cases hj
  rw [ht'] at ht''
  cases ht''
  exact ⟨t, ht, heq⟩

/-- A template is accepted with its calls exactly when it is accepted without
them, and the calls change its tree by the rewriting and in no other way. -/
theorem instrument_parse_commute {source : String} {lexed : Lexed}
    (h : Lexer.tokenize source = .ok lexed) (hooks : Hooks) :
    ((∃ t, Template.parse lexed.tokens.toList = .ok t) ↔
      ∃ i t', instrument hooks lexed.tokens.toList = .ok i ∧
        Template.parse i.tokens.toList = .ok t') ∧
    ∀ t i t', Template.parse lexed.tokens.toList = .ok t →
      instrument hooks lexed.tokens.toList = .ok i →
      Template.parse i.tokens.toList = .ok t' →
      t'.withoutSpans = (instrumentedTemplate hooks t).withoutSpans := by
  refine ⟨⟨?_, ?_⟩, ?_⟩
  · rintro ⟨t, ht⟩
    obtain ⟨i, t', hi, ht', -⟩ := exists_instrumented_of_parse ht hooks
    exact ⟨i, t', hi, ht'⟩
  · rintro ⟨i, t', hi, ht'⟩
    exact exists_parse_of_instrumented h hi ht'
  · intro t i t' ht hi ht'
    obtain ⟨u, hu, heq⟩ := exists_rewritten h hi ht'
    rw [ht] at hu
    cases hu
    exact heq

/-- Two lines that do something and one that only sets a variable. -/
theorem instrument_parse_commute_three_lines :
    ∃ lexed t i t',
      Lexer.tokenize "\x7b% sqlvm %\x7d\nA\n\x7b\x7b x \x7d\x7d \n\x7b% set y = 1 %\x7d\n\x7b% endsqlvm %\x7d"
        = .ok lexed ∧
      Template.parse lexed.tokens.toList = .ok t ∧
      instrument {} lexed.tokens.toList = .ok i ∧
      Template.parse i.tokens.toList = .ok t' ∧
      t'.withoutSpans = (instrumentedTemplate {} t).withoutSpans ∧
      t'.withoutSpans.nodes = [.region
        [callItem "prologue", callItem "statement", .data "A" .nowhere, callItem "statement",
         .data "" .nowhere, .output (.var "x" .nowhere) .nowhere, callItem "statement",
         .data "" .nowhere, .set "y" (.int 1 .nowhere) .nowhere, .data "" .nowhere,
         callItem "epilogue"] .nowhere] := by
  obtain ⟨lexed, t, h, ht, htree⟩ : ∃ lexed t,
      Lexer.tokenize "\x7b% sqlvm %\x7d\nA\n\x7b\x7b x \x7d\x7d \n\x7b% set y = 1 %\x7d\n\x7b% endsqlvm %\x7d"
        = .ok lexed ∧
      Template.parse lexed.tokens.toList = .ok t ∧
      (instrumentedTemplate {} t).withoutSpans.nodes = [.region
        [callItem "prologue", callItem "statement", .data "A" .nowhere, callItem "statement",
         .data "" .nowhere, .output (.var "x" .nowhere) .nowhere, callItem "statement",
         .data "" .nowhere, .set "y" (.int 1 .nowhere) .nowhere, .data "" .nowhere,
         callItem "epilogue"] .nowhere] :=
    ⟨_, _, by cbv, by cbv, by cbv⟩
  obtain ⟨hiff, hcommute⟩ := instrument_parse_commute h {}
  obtain ⟨i, t', hi, ht'⟩ := hiff.mp ⟨t, ht⟩
  have heq := hcommute t i t' ht hi ht'
  exact ⟨lexed, t, i, t', h, ht, hi, ht', heq, by rw [heq]; exact htree⟩

end Region

end QueryMachine
