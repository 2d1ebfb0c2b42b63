import QueryMachine.Proofs.Region.Agreement
import QueryMachine.Proofs.Region.Tree
import QueryMachine.Proofs.Render.Trace
import QueryMachine.Proofs.Token.Lossless

/-!
# What the walk counts

The walk keeps a summary while it puts calls in. What it comes to is known from the
tree alone: every region adds one region and the ten tokens of its two calls, and
every statement adds one site and five tokens. Where a statement is put in, the
rewritten tree has one call more, so the sites are counted by comparing the two
trees and not by looking at lines again.

Opening tags are handed on as they are, so the instrumented tokens hold the same
ones, with the same spans, and they are the regions of the tree.
-/

namespace QueryMachine.Region

open Grammar

variable {hooks : Hooks} {p q : Progress}

/-! ## Opening tags -/

/-- The spans of the `{%` and the `%}` of an opening tag that tokens begin with. -/
def opening? : List (Located Token) → Option (Span × Span)
  | begin :: name :: third :: _ =>
    if begin.value = .blockBegin ∧ name.value.isName openName = true ∧
        third.value = .blockEnd then some (begin.span, third.span)
    else none
  | _ => none

/-- The opening tags among some tokens, in order. -/
def openings (tokens : List (Located Token)) : List (Span × Span) :=
  tokens.tails.filterMap opening?

section Openings

variable {t : Located Token} {w rest : List (Located Token)}

theorem openings_cons (t : Located Token) (rest : List (Located Token)) :
    openings (t :: rest) = (opening? (t :: rest)).toList ++ openings rest := by
  rw [openings, List.tails_cons, List.filterMap_cons]
  cases opening? (t :: rest) <;> rfl

theorem openings_of_not_opening (h : opening? (t :: rest) = none) :
    openings (t :: rest) = openings rest := by
  rw [openings_cons, h]
  rfl

theorem openings_append_plain (hw : ∀ t ∈ w, isPlain t.value = true) :
    openings (w ++ rest) = openings rest := by
  induction w with
  | nil => rfl
  | cons t w ih =>
    rw [List.forall_mem_cons] at hw
    rw [List.cons_append, openings_of_not_opening, ih hw.2]
    have hne : t.value ≠ .blockBegin := by
      intro ht
      rw [ht] at hw
      cases hw.1
    rcases w ++ rest with _ | ⟨name, _ | ⟨third, more⟩⟩ <;> simp [opening?, hne]

theorem openings_of_name {name : Located Token} (h : name.value.isName openName = false) :
    openings (t :: name :: rest) = openings (name :: rest) := by
  refine openings_of_not_opening ?_
  cases rest <;> simp [opening?, h]

theorem openings_open (first tag last : Span) :
    openings (nameTag openName first tag last ++ rest) = (first, last) :: openings rest := by
  have hplain : openings ([⟨.name openName, tag⟩, ⟨.blockEnd, last⟩] ++ rest) = openings rest :=
    openings_append_plain (by simp [isPlain])
  rw [nameTag, List.cons_append, openings_cons, hplain]
  rfl

theorem openings_close (first tag last : Span) :
    openings (nameTag closeName first tag last ++ rest) = openings rest := by
  have hplain : openings ([⟨.name closeName, tag⟩, ⟨.blockEnd, last⟩] ++ rest)
      = openings rest := openings_append_plain (by simp [isPlain])
  rw [nameTag, List.cons_append, List.cons_append, openings_of_name rfl]
  exact hplain

theorem openings_item {i : Item} (h : ItemTokens w i) : openings (w ++ rest) = openings rest := by
  cases h with
  | data text span => exact openings_append_plain (by simp [isPlain])
  | output first last he =>
    refine openings_append_plain ?_
    rw [List.forall_mem_cons]
    refine ⟨rfl, fun t ht => ?_⟩
    rcases List.mem_append.mp ht with ht | ht
    · exact isPlain_of_isContent (isContent_of_exprTokens he t ht)
    · rw [List.mem_singleton.mp ht]
      rfl
  | set name first tag target equals last he =>
    rw [List.cons_append, List.cons_append, openings_of_name rfl, ← List.cons_append]
    refine openings_append_plain fun t ht => ?_
    rw [← List.cons_append, ← List.cons_append, ← List.cons_append] at ht
    rcases List.mem_append.mp ht with ht | ht
    · exact isPlain_of_isContent (isContent_of_set he t ht)
    · rw [List.mem_singleton.mp ht]
      rfl

theorem openings_items {is : List Item} (h : ItemsTokens w is) :
    openings (w ++ rest) = openings rest := by
  induction h with
  | nil => rfl
  | cons hi _ ih => rw [List.append_assoc, openings_item hi, ih]

/-- The opening tags of nodes are the spans of their regions. -/
theorem openings_nodes {ns : List Node} (h : NodesTokens w ns) :
    (openings (w ++ rest)).map (fun o => o.1.cover o.2)
      = (ns.filter Node.isRegion).map Node.span
        ++ (openings rest).map (fun o => o.1.cover o.2) := by
  induction h with
  | nil => rfl
  | item hi _ ih =>
    rw [List.append_assoc, openings_item hi, ih]
    rfl
  | region first tag last first' tag' last' hbody _ ih =>
    rw [List.append_assoc, openings_open, List.append_assoc, openings_items hbody,
      List.append_assoc, openings_close, List.map_cons, ih]
    rfl

theorem exists_of_mem_openings {tokens : List (Located Token)} {first last : Span}
    (h : (first, last) ∈ openings tokens) :
    ∃ before name after,
      tokens = before ++ ⟨.blockBegin, first⟩ :: name :: ⟨.blockEnd, last⟩ :: after := by
  obtain ⟨tail, htail, hopening⟩ := List.mem_filterMap.mp h
  obtain ⟨before, rfl⟩ := (List.mem_tails _ _).mp htail
  unfold opening? at hopening
  split at hopening
  · next begin name third after =>
    split at hopening
    · next hvalues =>
      cases hopening
      refine ⟨before, name, after, ?_⟩
      rw [← hvalues.1, ← hvalues.2.2]
    · cases hopening
  · cases hopening

end Openings

/-! ## The summary -/

/-- A summary, with more regions and more statements in them. Each region has two
calls besides the statements. -/
def Summary.plus (s : Summary) (regions sites : Nat) : Summary where
  regions := s.regions + regions
  statementSites := s.statementSites + sites
  injectedTokens := s.injectedTokens + 5 * (2 * regions + sites)

theorem Summary.plus_plus (s : Summary) (r n r' n' : Nat) :
    (s.plus r n).plus r' n' = s.plus (r + r') (n + n') := by
  simp only [plus, Summary.mk.injEq]
  omega

/-- How often items call the statement. -/
def statementCalls (hooks : Hooks) (is : List Item) : Nat :=
  (is.flatMap Item.callNames).count hooks.statement

theorem statementCalls_append (as bs : List Item) :
    statementCalls hooks (as ++ bs) = statementCalls hooks as + statementCalls hooks bs := by
  rw [statementCalls, List.flatMap_append, List.count_append]
  rfl

theorem statementCalls_cons (i : Item) (is : List Item) :
    statementCalls hooks (i :: is) = statementCalls hooks [i] + statementCalls hooks is :=
  statementCalls_append [i] is

theorem statementCalls_data (text : String) (span : Span) (is : List Item) :
    statementCalls hooks (.data text span :: is) = statementCalls hooks is := by
  rw [statementCalls_cons]
  exact Nat.zero_add _

theorem statementCalls_statement : statementCalls hooks [callItem hooks.statement] = 1 := by
  simp [statementCalls, callItem, Item.callNames, Expr.callNames, Expr.callNamesAll]

/-- Lines are counted as the calls that they come to. -/
theorem summary_splitData (out : Array (Located Token)) (pos : Position)
    (lines : List (List Char)) :
    (splitData hooks p out pos lines).2.summary
      = p.summary.plus 0 (statementCalls hooks (lineItems hooks p.due lines).1) := by
  fun_induction splitData hooks p out pos lines with
  | case1 p out pos => rfl
  | case2 p out pos last => rw [lineItems, statementCalls_data]; rfl
  | case3 p out pos line next rest stop blank out' p' hdue ih =>
    have hsite : (p.due || !Text.isAllBlank line) = true := by
      cases hblank : Text.isAllBlank line
      · simp
      · simpa [p', blank, hblank] using hdue
    have hsummary : p'.countStatement.summary = p.summary.plus 0 1 := by
      simp only [p', Progress.countStatement, Progress.countCall, Progress.markDue]
      split <;> rfl
    have hkept : statementCalls hooks (if Text.isAllBlank line = true then []
        else [.data (String.ofList line) .nowhere]) = 0 := by
      split <;> rfl
    rw [ih, hsummary, Summary.plus_plus, lineItems]
    simp only [hsite, if_true, statementCalls_append, hkept, statementCalls_statement]
    rfl
  | case4 p out pos line next rest stop blank out' p' hdue ih =>
    have hblank : Text.isAllBlank line = true := by
      cases hblank : Text.isAllBlank line
      · simp [p', blank, hblank, Progress.markDue] at hdue
      · rfl
    have hp : p' = p := by simp [p', blank, hblank]
    rw [hp] at ih hdue
    have hdue : p.due = false := by simpa using hdue
    rw [hp, ih, lineItems, hdue, hblank]
    rfl

theorem Progress.summary_sawData (text : String) (start : Position) :
    (p.sawData hooks text start).summary = p.summary.plus 0
      (statementCalls hooks (lineItems hooks p.due (text.toList.splitOn '\n')).1) := by
  rw [sawData, ← Text.lines_eq_splitOn]
  exact summary_splitData ..

theorem Progress.summary_sawOutput (p : Progress) : p.sawOutput.summary = p.summary := by
  unfold sawOutput
  split <;> rfl

/-! ## The walk over a tree -/

/-- One item of a region: it adds as many sites as its rewriting has statements more,
and no opening tag. -/
theorem counted_item {w : List (Located Token)} {i : Item} (h : ItemTokens w i)
    (is : List Item) (hp : p.inRegion = true) :
    ∃ e q n, Emits hooks p w e q ∧ q.opened = p.opened ∧ q.summary = p.summary.plus 0 n ∧
      (∀ rest, openings (e ++ rest) = openings rest) ∧
      statementCalls hooks (bodyItems hooks p.due (i :: is))
        = statementCalls hooks [i] + n + statementCalls hooks (bodyItems hooks q.due is) := by
  cases h with
  | data text span =>
    refine ⟨_, _, _, emits_data_inside hp text span, p.opened_sawData text span.start,
      Progress.summary_sawData text span.start,
      fun rest => openings_append_plain (isPlain_lineTokens hooks _ _ _), ?_⟩
    rw [bodyItems, Progress.due_sawData, ← lineItems_snd, statementCalls_append]
    rw [statementCalls_data]
    exact (Nat.add_assoc ..).symm ▸ (Nat.zero_add _).symm
  | output first last he =>
    refine ⟨_, _, 0, emits_variableTag (isContent_of_exprTokens he) first last,
      p.opened_sawOutput, p.summary_sawOutput, fun rest => openings_item (.output first last he),
      ?_⟩
    rw [bodyItems, Progress.due_sawOutput hp, statementCalls_cons]
    rfl
  | set name first tag target equals last he =>
    refine ⟨_, p, 0, emits_blockTag (isContent_of_set he) first last rfl, rfl, rfl,
      fun rest => openings_item (.set name first tag target equals last he), ?_⟩
    rw [bodyItems, statementCalls_cons]
    rfl

theorem counted_body {w : List (Located Token)} {is : List Item} (h : ItemsTokens w is)
    (hp : p.inRegion = true) :
    ∃ e q n, Emits hooks p w e q ∧ q.opened = p.opened ∧ q.summary = p.summary.plus 0 n ∧
      (∀ rest, openings (e ++ rest) = openings rest) ∧
      statementCalls hooks (bodyItems hooks p.due is) = statementCalls hooks is + n := by
  induction h generalizing p with
  | nil => exact ⟨[], p, 0, .nil, rfl, rfl, fun rest => rfl, rfl⟩
  | @cons w rest i is hi _ ih =>
    obtain ⟨e, q, n, hw, hq, hsummary, hopenings, hcalls⟩ := counted_item hi is hp
    have hin : q.inRegion = true := (Progress.inRegion_congr hq).trans hp
    obtain ⟨e', q', n', hrest, hq', hsummary', hopenings', hcalls'⟩ := ih hin
    refine ⟨e ++ e', q', n + n', hw.append hrest, hq'.trans hq, ?_, ?_, ?_⟩
    · rw [hsummary', hsummary, Summary.plus_plus]
    · intro rest
      rw [List.append_assoc, hopenings, hopenings']
    · rw [hcalls, hcalls', statementCalls_cons i is]
      omega

/-- How often the regions among some nodes call the statement. -/
def regionStatements (hooks : Hooks) (ns : List Node) : Nat :=
  ((ns.filter Node.isRegion).flatMap Node.callNames).count hooks.statement

theorem regionStatements_region (body : List Item) (span : Span) (ns : List Node) :
    regionStatements hooks (.region body span :: ns)
      = statementCalls hooks body + regionStatements hooks ns := by
  rw [regionStatements, List.filter_cons_of_pos rfl, List.flatMap_cons, List.count_append]
  rfl

/-- The calls around a region are no statements. -/
structure Hooks.Apart (hooks : Hooks) : Prop where
  prologue : hooks.prologue ≠ hooks.statement
  epilogue : hooks.epilogue ≠ hooks.statement

theorem statementCalls_other {name : String} (h : name ≠ hooks.statement) :
    statementCalls hooks [callItem name] = 0 := by
  simp [statementCalls, callItem, Item.callNames, Expr.callNames, Expr.callNamesAll, h]

theorem counted_nodes (hhooks : Hooks.Apart hooks) {w : List (Located Token)} {ns : List Node}
    (h : NodesTokens w ns) (hp : p.opened = none) :
    ∃ e q n, Emits hooks p w e q ∧ q.opened = none ∧
      q.summary = p.summary.plus (ns.countP Node.isRegion) n ∧
      (∀ rest, openings (e ++ rest) = openings (w ++ rest)) ∧
      regionStatements hooks (ns.map (instrumentedNode hooks))
        = regionStatements hooks ns + n := by
  induction h generalizing p with
  | nil => exact ⟨[], p, 0, .nil, hp, rfl, fun rest => rfl, rfl⟩
  | @item w rest i ns hi _ ih =>
    obtain ⟨e, q, n, hrest, hq, hsummary, hopenings, hcalls⟩ := ih hp
    have hw := @emits_piece_outside hooks p w (isPiece_of_itemTokens hi)
      (beginsMark_of_itemTokens hi) hp
    refine ⟨w ++ e, q, n, hw.append hrest, hq, hsummary, ?_, hcalls⟩
    intro rest
    rw [List.append_assoc, List.append_assoc, openings_item hi, openings_item hi, hopenings]
  | @region first tag last first' tag' last' body rest items ns hitems _ ih =>
    have hopen := @emits_open hooks p hp first tag last
    obtain ⟨eb, qb, n, hbody, hqb, hsummary, hopenings, hcalls⟩ :=
      @counted_body hooks (p.enter (first.cover last)).countCall _ _ hitems rfl
    have hin : qb.inRegion = true := Progress.inRegion_congr hqb
    have hclose := @emits_closeTag hooks qb hin [] (by simp) first' tag' last'
    obtain ⟨e, q, n', hrest, hq, hsummary', hopenings', hcalls'⟩ := @ih qb.leave.countCall rfl
    refine ⟨_, q, n + n', hopen.append (hbody.append (hclose.append hrest)), hq, ?_, ?_, ?_⟩
    · rw [hsummary']
      simp only [Progress.leave, Progress.countCall, hsummary, Progress.enter, Summary.plus,
        Summary.mk.injEq, List.countP_cons, Node.isRegion, if_true]
      omega
    · intro rest
      have hcall : ∀ name pos more, openings ((call name pos).toList ++ more) = openings more :=
        fun name pos more => openings_append_plain (isPlain_call name pos)
      have hcloses : ∀ more, openings (⟨.blockBegin, first'⟩ :: ⟨.name closeName, tag'⟩ ::
          ([] ++ [⟨.blockEnd, last'⟩]) ++ more) = openings more :=
        fun more => openings_close first' tag' last'
      rw [List.append_assoc, List.append_assoc, openings_open, hcall, List.append_assoc,
        hopenings, List.append_assoc, List.append_assoc, hcall, hcloses, hopenings']
      rw [List.append_assoc, openings_open, List.append_assoc, openings_items hitems,
        List.append_assoc, openings_close]
    · rw [List.map_cons, instrumentedNode, regionStatements_region, regionStatements_region,
        hcalls', statementCalls_cons, statementCalls_append, statementCalls_other hhooks.prologue,
        statementCalls_other hhooks.epilogue]
      have hbody : statementCalls hooks (bodyItems hooks true items)
          = statementCalls hooks items + n := hcalls
      omega

/-! ## Templates -/

theorem Emits.unique {w e e' : List (Located Token)} {q' : Progress} (h : Emits hooks p w e q)
    (h' : Emits hooks p w e' q') : e = e' ∧ q = q' := by
  have hend := (h #[] []).symm.trans (h' #[] [])
  rw [runFrom, runFrom] at hend
  simpa using hend

/-- The end of an opening tag lies behind its beginning. -/
theorem cover_of_mem_openings {source : String} {lexed : Lexed}
    (h : Lexer.tokenize source = .ok lexed) {first last : Span}
    (hmem : (first, last) ∈ openings lexed.tokens.toList) :
    first.cover last = ⟨first.start, last.stop⟩ := by
  obtain ⟨l, hvalid, -, htokens⟩ := Lexer.exists_layout h
  obtain ⟨before, name, after, heq⟩ := exists_of_mem_openings hmem
  have hordered := Lexer.pairwise_tokensOf_place .start l.parts
  rw [htokens] at heq
  rw [show Lexer.tokensOf (Lexer.place .start l.parts) = _ from heq] at hordered
  have hfirst : ⟨.blockBegin, first⟩ ∈ l.tokens := by rw [heq]; simp
  have hlast : ⟨.blockEnd, last⟩ ∈ l.tokens := by rw [heq]; simp
  have hforward : first.start.offset ≤ first.stop.offset := (Lexer.offset_le_of_mem hfirst).2
  have hapart : first.stop.offset ≤ last.start.offset := by
    have hpair := (List.pairwise_append.mp hordered).2.1
    rw [List.pairwise_cons] at hpair
    exact hpair.1 ⟨.blockEnd, last⟩ (by simp)
  have hpositive : last.start.offset < last.stop.offset := by
    obtain ⟨ps, token, text, qs, hparts, hlast⟩ := Lexer.mem_tokensOf_place.mp hlast
    cases hlast
    have hspells : Lexer.Spells .blockEnd text :=
      Lexer.Layout.explained hvalid (by simp [hparts] : .lexeme .blockEnd text ∈ l.parts)
    cases hspells with
    | blockEnd dash =>
      simp only [Position.offset_advanceOver, List.map_append, List.sum_append, List.map_cons,
        List.sum_cons]
      have hmark := Char.utf8Size_pos '%'
      omega
  unfold Span.cover
  rw [if_pos (by omega), if_neg (by omega)]

/-- What the walk says about a template that is then parsed. -/
theorem exists_summary_eq (hhooks : Hooks.Apart hooks) {source : String} {lexed : Lexed}
    (h : Lexer.tokenize source = .ok lexed) {i : Instrumented} {t t' : Template}
    (hi : instrument hooks lexed.tokens.toList = .ok i)
    (ht : Template.parse lexed.tokens.toList = .ok t)
    (ht' : Template.parse i.tokens.toList = .ok t') :
    ∃ n, i.summary = Summary.plus {} (t.nodes.countP Node.isRegion) n ∧
      regionStatements hooks (instrumentedTemplate hooks t).nodes
        = regionStatements hooks t.nodes + n ∧
      (t'.nodes.filter Node.isRegion).map Node.span
        = (openings lexed.tokens.toList).map fun o => ⟨o.1.start, o.2.stop⟩ := by
  obtain ⟨w, span, htokens, hshaped⟩ := Lexer.shaped_of_tokenize h
  obtain ⟨hnodes, hdepth⟩ := parse_eq_ok_iff.mp ht
  rw [htokens, beforeEnd_concat hshaped.not_eof] at hnodes
  obtain ⟨e, q, n, hw, hq, hsummary, hopenings, hcalls⟩ := @counted_nodes hooks {} hhooks _ _
    hnodes rfl
  obtain ⟨e', q', ns, hw', -, hns, -⟩ := @reads_nodes hooks {} _ _ hnodes hdepth rfl
  obtain ⟨rfl, rfl⟩ := hw.unique hw'
  -- The instrumented tokens are `e` and the end marker.
  obtain ⟨⟨final, q'⟩, hrun, rfl⟩ := Lexer.exists_of_map_eq_ok hi
  rw [closed_of_tokenize h, htokens, hw, runFrom_eof hq] at hrun
  cases hrun
  refine ⟨n, hsummary, hcalls, ?_⟩
  have hend : ∀ rest : Span, openings [⟨.eof, rest⟩] = [] := fun _ => rfl
  have hspans : (t'.nodes.filter Node.isRegion).map Node.span
      = (openings lexed.tokens.toList).map fun o => o.1.cover o.2 := by
    obtain ⟨hnodes', -⟩ := parse_eq_ok_iff.mp ht'
    simp only [Array.empty_append, Array.toList_push,
      beforeEnd_concat (not_eof_of_nodesTokens hns)] at hnodes'
    have hregions := @openings_nodes e [⟨.eof, span⟩] _ hnodes'
    rw [hopenings, ← htokens, hend, List.map_nil, List.append_nil] at hregions
    exact hregions.symm
  rw [hspans]
  refine List.map_congr_left fun o ho => ?_
  exact cover_of_mem_openings h ho

end QueryMachine.Region
