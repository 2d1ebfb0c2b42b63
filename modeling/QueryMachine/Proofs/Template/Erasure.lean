import QueryMachine.Proofs.Region.Tree
import QueryMachine.Proofs.Token.Locality

/-!
# Trees do not depend on where their tokens stand

A tree keeps the places of its tokens, but the grammar never asks for them: the same
tokens at other places derive the same tree, spans aside, and nothing that limits a
tree looks at a span either. Each rule is applied again to the moved tokens; the
induction is on the derivation.

Data around a template is the other thing that the grammar does not care about. A
data token in front of nodes or behind them is one node more, and if the nodes are not
accepted without it, they are not accepted with it.
-/

namespace QueryMachine

/-! ## Trees -/

namespace Expr

mutual

@[simp] theorem depth_withoutSpans (e : Expr) : e.withoutSpans.depth = e.depth := by
  match e with
  | .str .. | .int .. | .var .. => rfl
  | .call name args span =>
    rw [withoutSpans, depth, depth, depthAll_withoutSpansAll args]

theorem depthAll_withoutSpansAll (es : List Expr) :
    depthAll (withoutSpansAll es) = depthAll es := by
  match es with
  | [] => rfl
  | e :: es =>
    rw [withoutSpansAll, depthAll, depthAll, depth_withoutSpans e, depthAll_withoutSpansAll es]

end

mutual

@[simp] theorem withoutSpans_withoutSpans (e : Expr) :
    e.withoutSpans.withoutSpans = e.withoutSpans := by
  match e with
  | .str .. | .int .. | .var .. => rfl
  | .call name args span =>
    rw [withoutSpans, withoutSpans, withoutSpansAll_withoutSpansAll args]

theorem withoutSpansAll_withoutSpansAll (es : List Expr) :
    withoutSpansAll (withoutSpansAll es) = withoutSpansAll es := by
  match es with
  | [] => rfl
  | e :: es =>
    rw [withoutSpansAll, withoutSpansAll, withoutSpans_withoutSpans e,
      withoutSpansAll_withoutSpansAll es]

end

end Expr

@[simp] theorem Item.depth_withoutSpans (i : Item) : i.withoutSpans.depth = i.depth := by
  cases i with
  | data text span => rfl
  | output e span => exact e.depth_withoutSpans
  | set name e span => exact e.depth_withoutSpans

@[simp] theorem Node.depth_withoutSpans (n : Node) : n.withoutSpans.depth = n.depth := by
  cases n with
  | item i => exact i.depth_withoutSpans
  | region body span =>
    simp only [withoutSpans, depth, List.map_map]
    congr 2
    exact List.map_congr_left fun i _ => i.depth_withoutSpans

/-- Nodes that differ in their spans only are equally deep. -/
theorem depth_le_of_withoutSpans_eq {ns ns' : List Node} {limit : Nat}
    (h : ns'.map Node.withoutSpans = ns.map Node.withoutSpans)
    (hdepth : ∀ n ∈ ns, n.depth ≤ limit) : ∀ n ∈ ns', n.depth ≤ limit := by
  intro n hn
  have hmem : n.withoutSpans ∈ ns.map Node.withoutSpans := by
    rw [← h]
    exact List.mem_map_of_mem hn
  obtain ⟨m, hm, heq⟩ := List.mem_map.mp hmem
  rw [← n.depth_withoutSpans, ← heq, m.depth_withoutSpans]
  exact hdepth m hm

namespace Region

variable {hooks : Hooks}

theorem map_withoutSpans_bodyItems (due : Bool) (is : List Item) :
    (bodyItems hooks due (is.map Item.withoutSpans)).map Item.withoutSpans
      = (bodyItems hooks due is).map Item.withoutSpans := by
  induction is generalizing due with
  | nil => rfl
  | cons i is ih =>
    cases i <;> simp [Item.withoutSpans, bodyItems, ih]

/-- The calls that a node gets do not depend on its spans. -/
theorem withoutSpans_instrumentedNode (n : Node) :
    (instrumentedNode hooks n.withoutSpans).withoutSpans
      = (instrumentedNode hooks n).withoutSpans := by
  cases n with
  | item i => cases i <;> simp [Node.withoutSpans, Item.withoutSpans, instrumentedNode]
  | region body span =>
    simp [Node.withoutSpans, instrumentedNode, map_withoutSpans_bodyItems]

end Region

/-! ## Derivations -/

namespace Grammar

open Lexer (map_value_eq_cons)

mutual

theorem ExprTokens.relocate {w w' : List (Located Token)} {e : Expr} (h : ExprTokens w e)
    (hw' : w'.map Located.value = w.map Located.value) :
    ∃ e', ExprTokens w' e' ∧ e'.withoutSpans = e.withoutSpans := by
  match h with
  | .str value _ =>
    simp only [List.map_cons, List.map_nil, map_value_eq_cons, List.map_eq_nil_iff] at hw'
    obtain ⟨span, _, rfl, rfl⟩ := hw'
    exact ⟨_, .str value span, rfl⟩
  | .int value _ =>
    simp only [List.map_cons, List.map_nil, map_value_eq_cons, List.map_eq_nil_iff] at hw'
    obtain ⟨span, _, rfl, rfl⟩ := hw'
    exact ⟨_, .int value span, rfl⟩
  | .neg value _ _ =>
    simp only [List.map_cons, List.map_nil, map_value_eq_cons, List.map_eq_nil_iff] at hw'
    obtain ⟨sign, _, rfl, digits, _, rfl, rfl⟩ := hw'
    exact ⟨_, .neg value sign digits, rfl⟩
  | .var name _ =>
    simp only [List.map_cons, List.map_nil, map_value_eq_cons, List.map_eq_nil_iff] at hw'
    obtain ⟨span, _, rfl, rfl⟩ := hw'
    exact ⟨_, .var name span, rfl⟩
  | .callNone name _ _ _ =>
    simp only [List.map_cons, List.map_nil, map_value_eq_cons, List.map_eq_nil_iff] at hw'
    obtain ⟨first, _, rfl, left, _, rfl, right, _, rfl, rfl⟩ := hw'
    exact ⟨_, .callNone name first left right, rfl⟩
  | .call name _ _ _ hargs =>
    simp only [List.map_cons, List.map_nil, List.map_append, map_value_eq_cons,
      List.map_eq_append_iff, List.map_eq_nil_iff] at hw'
    obtain ⟨first, _, rfl, left, _, rfl, inside, _, rfl, hinside, right, _, rfl, rfl⟩ := hw'
    obtain ⟨args', hargs', heq⟩ := hargs.relocate hinside
    exact ⟨_, .call name first left right hargs', by simp [Expr.withoutSpans, heq]⟩

theorem ArgsTokens.relocate {w w' : List (Located Token)} {es : List Expr}
    (h : ArgsTokens w es) (hw' : w'.map Located.value = w.map Located.value) :
    ∃ es', ArgsTokens w' es' ∧ Expr.withoutSpansAll es' = Expr.withoutSpansAll es := by
  match h with
  | .one he =>
    obtain ⟨e', he', heq⟩ := he.relocate hw'
    exact ⟨[e'], .one he', by simp [Expr.withoutSpansAll, heq]⟩
  | .more _ he hes =>
    simp only [List.map_cons, List.map_append, map_value_eq_cons,
      List.map_eq_append_iff] at hw'
    obtain ⟨first, _, rfl, hfirst, comma, rest, rfl, hrest⟩ := hw'
    obtain ⟨e', he', heq⟩ := he.relocate hfirst
    obtain ⟨es', hes', heqs⟩ := hes.relocate hrest
    exact ⟨e' :: es', .more comma he' hes', by simp [Expr.withoutSpansAll, heq, heqs]⟩

end

theorem ItemTokens.relocate {w w' : List (Located Token)} {i : Item} (h : ItemTokens w i)
    (hw' : w'.map Located.value = w.map Located.value) :
    ∃ i', ItemTokens w' i' ∧ i'.withoutSpans = i.withoutSpans := by
  cases h with
  | data text _ =>
    simp only [List.map_cons, List.map_nil, map_value_eq_cons, List.map_eq_nil_iff] at hw'
    obtain ⟨span, _, rfl, rfl⟩ := hw'
    exact ⟨_, .data text span, rfl⟩
  | output _ _ he =>
    simp only [List.map_cons, List.map_nil, List.map_append, map_value_eq_cons,
      List.map_eq_append_iff, List.map_eq_nil_iff] at hw'
    obtain ⟨first, _, rfl, inside, _, rfl, hinside, last, _, rfl, rfl⟩ := hw'
    obtain ⟨e', he', heq⟩ := he.relocate hinside
    exact ⟨_, .output first last he', by simp [Item.withoutSpans, heq]⟩
  | set name _ _ _ _ _ he =>
    simp only [List.map_cons, List.map_nil, List.map_append, map_value_eq_cons,
      List.map_eq_append_iff, List.map_eq_nil_iff] at hw'
    obtain ⟨first, _, rfl, tag, _, rfl, target, _, rfl, equals, _, rfl, inside, _, rfl,
      hinside, last, _, rfl, rfl⟩ := hw'
    obtain ⟨e', he', heq⟩ := he.relocate hinside
    exact ⟨_, .set name first tag target equals last he', by simp [Item.withoutSpans, heq]⟩

theorem ItemsTokens.relocate {w w' : List (Located Token)} {is : List Item}
    (h : ItemsTokens w is) (hw' : w'.map Located.value = w.map Located.value) :
    ∃ is', ItemsTokens w' is' ∧ is'.map Item.withoutSpans = is.map Item.withoutSpans := by
  induction h generalizing w' with
  | nil =>
    rw [List.map_eq_nil_iff.mp hw']
    exact ⟨[], .nil, rfl⟩
  | cons hi _ ih =>
    rw [List.map_append, List.map_eq_append_iff] at hw'
    obtain ⟨first, rest, rfl, hfirst, hrest⟩ := hw'
    obtain ⟨i', hi', heq⟩ := hi.relocate hfirst
    obtain ⟨is', his', heqs⟩ := ih hrest
    exact ⟨i' :: is', .cons hi' his', by rw [List.map_cons, heq, heqs, List.map_cons]⟩

/-- The same tokens at other places derive the same nodes, spans aside. -/
theorem NodesTokens.relocate {w w' : List (Located Token)} {ns : List Node}
    (h : NodesTokens w ns) (hw' : w'.map Located.value = w.map Located.value) :
    ∃ ns', NodesTokens w' ns' ∧ ns'.map Node.withoutSpans = ns.map Node.withoutSpans := by
  induction h generalizing w' with
  | nil =>
    rw [List.map_eq_nil_iff.mp hw']
    exact ⟨[], .nil, rfl⟩
  | item hi _ ih =>
    rw [List.map_append, List.map_eq_append_iff] at hw'
    obtain ⟨first, rest, rfl, hfirst, hrest⟩ := hw'
    obtain ⟨i', hi', heq⟩ := hi.relocate hfirst
    obtain ⟨ns', hns', heqs⟩ := ih hrest
    refine ⟨.item i' :: ns', .item hi' hns', ?_⟩
    simp [Node.withoutSpans, heq, heqs]
  | region _ _ _ _ _ _ hitems _ ih =>
    simp only [nameTag, List.map_append, List.map_cons, List.cons_append, List.nil_append,
      map_value_eq_cons, List.map_eq_append_iff] at hw'
    obtain ⟨first, _, rfl, tag, _, rfl, last, _, rfl, body, _, rfl, hbody,
      first', _, rfl, tag', _, rfl, last', rest, rfl, hrest⟩ := hw'
    obtain ⟨items', hitems', heq⟩ := hitems.relocate hbody
    obtain ⟨ns', hns', heqs⟩ := ih hrest
    refine ⟨.region items' (first.cover last) :: ns',
      .region first tag last first' tag' last' hitems' hns', ?_⟩
    simp [Node.withoutSpans, heq, heqs]

/-! ## Data around nodes -/

theorem nodesTokens_append {w w' : List (Located Token)} {ns ns' : List Node}
    (h : NodesTokens w ns) (h' : NodesTokens w' ns') : NodesTokens (w ++ w') (ns ++ ns') := by
  induction h with
  | nil => exact h'
  | item hi _ ih =>
    rw [List.append_assoc]
    exact .item hi ih
  | region first tag last first' tag' last' hitems _ ih =>
    have hregion := NodesTokens.region first tag last first' tag' last' hitems ih
    simpa only [List.append_assoc, List.cons_append] using hregion

/-- The tokens of a text that is all data, standing nowhere. -/
def plainTokens (text : List Char) : List (Located Token) :=
  (Lexer.dataTokens text).map fun t => ⟨t, .nowhere⟩

/-- The nodes of a text that is all data; none if the text is empty. -/
def plainNodes (text : List Char) : List Node :=
  if text = [] then [] else [.item (.data (String.ofList text) .nowhere)]

theorem nodesTokens_plain (text : List Char) :
    NodesTokens (plainTokens text) (plainNodes text) := by
  unfold plainTokens plainNodes Lexer.dataTokens
  split
  · exact .nil
  · exact .item (.data _ _) .nil

theorem map_withoutSpans_plainNodes (text : List Char) :
    (plainNodes text).map Node.withoutSpans = plainNodes text := by
  unfold plainNodes
  split <;> rfl

theorem depth_plainNodes {text : List Char} {n : Node} (h : n ∈ plainNodes text) :
    n.depth = 0 := by
  unfold plainNodes at h
  split at h
  · cases h
  · rw [List.mem_singleton.mp h]
    rfl

end Grammar

namespace Region

open Grammar

theorem Accepts.relocate {w w' : List (Located Token)} (h : Accepts w)
    (hw' : w'.map Located.value = w.map Located.value) : Accepts w' := by
  obtain ⟨ns, hns, hdepth⟩ := h
  obtain ⟨ns', hns', heq⟩ := hns.relocate hw'
  exact ⟨ns', hns', depth_le_of_withoutSpans_eq heq hdepth⟩

theorem Accepts.of_plain {w : List (Located Token)} {text : List Char}
    (h : Accepts (plainTokens text ++ w)) : Accepts w := by
  unfold plainTokens Lexer.dataTokens at h
  split at h
  · exact h
  · exact (h.exchange (.data _ _) rfl).1

/-- Data behind nodes, or behind the rest of a region and the nodes after it, can be
left out. -/
theorem accepts_of_concat_data {w : List (Located Token)} (hw : Lexer.Shaped w)
    (text : String) (span : Span) :
    (Accepts (w ++ [⟨.data text, span⟩]) → Accepts w) ∧
      (AcceptsBody (w ++ [⟨.data text, span⟩]) → AcceptsBody w) := by
  induction hw with
  | nil =>
    refine ⟨fun _ => ⟨[], .nil, by simp⟩, fun h => ?_⟩
    exact (h.exchange (w := [⟨.data text, span⟩]) (.data _ _) rfl).1
  | cons hw _ ih =>
    rw [List.append_assoc]
    refine ⟨fun h => ?_, fun h => ?_⟩
    · rcases h.of_piece hw with ⟨i, hi, hdepth, hrest⟩ | ⟨first, tag, last, rfl, hbody⟩
      · exact (ih.1 hrest).item hi hdepth
      · exact .region first tag last (ih.2 hbody)
    · rcases h.of_piece hw with ⟨i, hi, hdepth, hrest⟩ | ⟨first, tag, last, rfl, hrest⟩
      · exact (ih.2 hrest).item hi hdepth
      · exact .close first tag last (ih.1 hrest)

theorem Accepts.of_framed {w : List (Located Token)} (hw : Lexer.Shaped w)
    {pre post : List Char} (h : Accepts (plainTokens pre ++ (w ++ plainTokens post))) :
    Accepts w := by
  have hbehind := h.of_plain
  unfold plainTokens Lexer.dataTokens at hbehind
  split at hbehind
  · rwa [List.map_nil, List.append_nil] at hbehind
  · exact (accepts_of_concat_data hw _ _).1 hbehind

end Region

/-! ## Templates -/

namespace Template

open Grammar Lexer Region

variable {tokens : List (Located Token)} {w : List (Located Token)} {pre post : List Char}

theorem map_value_beforeEnd (hw : Shaped w)
    (h : tokens.map Located.value
      = dataTokens pre ++ (w.map Located.value ++ (dataTokens post ++ [.eof]))) :
    (beforeEnd tokens).map Located.value
      = (plainTokens pre ++ (w ++ plainTokens post)).map Located.value := by
  have hplain : ∀ text, (plainTokens text).map Located.value = dataTokens text := by
    intro text
    rw [plainTokens, List.map_map]
    exact List.map_id _
  have hdata : ∀ text, ∀ t ∈ dataTokens text, (!t.isEof) = true := by
    intro text t ht
    unfold dataTokens at ht
    split at ht
    · cases ht
    · rw [List.mem_singleton.mp ht]
      rfl
  have hvalues : ∀ t ∈ w.map Located.value, (!t.isEof) = true := by
    intro t ht
    obtain ⟨located, hlocated, rfl⟩ := List.mem_map.mp ht
    rw [hw.not_eof located hlocated]
    rfl
  have hwhile : (beforeEnd tokens).map Located.value
      = (tokens.map Located.value).takeWhile fun t => !t.isEof := by
    rw [List.takeWhile_map]
    rfl
  rw [hwhile, h, List.map_append, List.map_append, hplain, hplain,
    List.takeWhile_append_of_pos (hdata pre), List.takeWhile_append_of_pos hvalues,
    List.takeWhile_append_of_pos (hdata post)]
  simp [Token.isEof]

/-- Tokens with data around them are parsed exactly if they are parsed without it, and
the data is a node more in front and a node more behind. -/
theorem parse_framed (hw : Shaped w) (span : Span)
    (h : tokens.map Located.value
      = dataTokens pre ++ (w.map Located.value ++ (dataTokens post ++ [.eof]))) :
    (∀ t, Template.parse (w ++ [⟨.eof, span⟩]) = .ok t →
      ∃ t', Template.parse tokens = .ok t' ∧ t'.nodes.map Node.withoutSpans
        = plainNodes pre ++ (t.nodes.map Node.withoutSpans ++ plainNodes post)) ∧
    ∀ t', Template.parse tokens = .ok t' →
      ∃ t, Template.parse (w ++ [⟨.eof, span⟩]) = .ok t := by
  have hvalues := map_value_beforeEnd hw h
  constructor
  · intro t ht
    obtain ⟨hnodes, hdepth⟩ := parse_eq_ok_iff.mp ht
    rw [beforeEnd_concat hw.not_eof] at hnodes
    have hframed := nodesTokens_append (nodesTokens_plain pre)
      (nodesTokens_append hnodes (nodesTokens_plain post))
    obtain ⟨ns', hns', heq⟩ := hframed.relocate hvalues
    refine ⟨⟨ns'⟩, parse_eq_ok_iff.mpr ⟨hns', depth_le_of_withoutSpans_eq heq ?_⟩, ?_⟩
    · intro n hn
      simp only [List.mem_append] at hn
      rcases hn with hn | hn | hn
      · rw [depth_plainNodes hn]
        exact Nat.zero_le _
      · exact hdepth n hn
      · rw [depth_plainNodes hn]
        exact Nat.zero_le _
    · rw [heq, List.map_append, List.map_append, map_withoutSpans_plainNodes,
        map_withoutSpans_plainNodes]
  · intro t' ht'
    have haccepts : Accepts (beforeEnd tokens) := ⟨t'.nodes, parse_eq_ok_iff.mp ht'⟩
    obtain ⟨ns, hns, hdepth⟩ := (haccepts.relocate hvalues.symm).of_framed hw
    refine ⟨⟨ns⟩, parse_eq_ok_iff.mpr ?_⟩
    rw [beforeEnd_concat hw.not_eof]
    exact ⟨hns, hdepth⟩

/-- Trees that differ by data at both ends still do when they have their calls. -/
theorem nodes_of_rewritten {hooks : Hooks} {t t' u u' : Template}
    (h : t'.nodes.map Node.withoutSpans
      = plainNodes pre ++ (t.nodes.map Node.withoutSpans ++ plainNodes post))
    (hu : u.withoutSpans = (instrumentedTemplate hooks t).withoutSpans)
    (hu' : u'.withoutSpans = (instrumentedTemplate hooks t').withoutSpans) :
    u'.nodes.map Node.withoutSpans
      = plainNodes pre ++ (u.nodes.map Node.withoutSpans ++ plainNodes post) := by
  -- What becomes of a tree, spans aside, can be told from the tree without its spans.
  have hcalls : ∀ {t u : Template},
      u.withoutSpans = (instrumentedTemplate hooks t).withoutSpans →
      u.nodes.map Node.withoutSpans = (t.nodes.map Node.withoutSpans).map
        fun n => (instrumentedNode hooks n).withoutSpans := by
    intro t u hu
    have hnodes := congrArg Template.nodes hu
    simp only [Template.withoutSpans, instrumentedTemplate, List.map_map] at hnodes
    rw [hnodes, List.map_map]
    exact List.map_congr_left fun n _ => (withoutSpans_instrumentedNode n).symm
  have hplain : ∀ text, (plainNodes text).map (fun n => (instrumentedNode hooks n).withoutSpans)
      = plainNodes text := by
    intro text
    unfold plainNodes
    split <;> rfl
  rw [hcalls hu', hcalls hu, h, List.map_append, List.map_append, hplain, hplain]

end Template

end QueryMachine
