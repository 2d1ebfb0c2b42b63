import QueryMachine.Proofs.Token.Shape
import QueryMachine.Proofs.Token.Lossless

/-!
# The number of comments in a text

Comments leave no token, so how many there are is not a question to the tokens
alone. A layout shows them. A text may have more than one layout, because a
layout does not say where one name ends and the next begins; but all layouts with
the same tokens have the same number of comments (`Layout.comments_eq`). Runs end
at the first opener and comments at the first closer, which leaves no choice, and
a tag ends where its last token does.
-/

namespace QueryMachine.Lexer

/-- Whether a part of a text is a comment. -/
def Part.isComment : Part → Bool
  | comment _ => true
  | _ => false

/-- The number of comments in a layout. -/
def Layout.comments (l : Layout) : Nat := l.markups.countP fun m => m.opener == .comment

/-- A comment is recognised for each part that is one. -/
theorem count_comment_place (pos : Position) (parts : List Part) :
    (place pos parts).count .comment = parts.countP Part.isComment := by
  induction parts generalizing pos with
  | nil => rfl
  | cons part parts ih =>
    rw [place_cons, List.count_append, ih, List.countP_cons]
    cases part <;> simp [Part.recognised, Part.isComment, Nat.add_comm]

theorem Run.countP_comment (r : Run) : r.parts.countP Part.isComment = 0 := by
  unfold Run.parts
  split <;> rfl

theorem countP_comment_words (words : List Word) :
    (words.flatMap Word.parts).countP Part.isComment = 0 := by
  induction words with
  | nil => rfl
  | cons w words ih =>
    rw [List.flatMap_cons, List.countP_append, ih]
    rfl

theorem Markup.countP_comment (m : Markup) :
    m.parts.countP Part.isComment = if m.opener == .comment then 1 else 0 := by
  cases m with
  | comment dash body => rfl
  | tag kind dash words blanks closeDash =>
    rw [Markup.parts, tagParts, List.countP_cons, List.countP_append, countP_comment_words]
    rfl

theorem Layout.countP_comment (l : Layout) : l.parts.countP Part.isComment = l.comments := by
  induction l with
  | last run =>
    rw [Layout.parts, List.countP_append, Run.countP_comment]
    rfl
  | cons run m rest ih =>
    rw [Layout.parts, List.countP_append, List.countP_append, Run.countP_comment,
      Markup.countP_comment, ih, Layout.comments, Layout.comments, Layout.markups,
      List.countP_cons]
    omega

/-! ## One number of comments for a text -/

/-- A text is cut in one way at a number of bytes. -/
theorem append_inj_of_offset {as bs xs ys : List Char} {p : Position}
    (h : as ++ xs = bs ++ ys)
    (hoffset : (p.advanceOver as).offset = (p.advanceOver bs).offset) : as = bs ∧ xs = ys := by
  simp only [Position.offset_advanceOver, Nat.add_left_cancel_iff] at hoffset
  obtain ⟨between, rfl, rfl⟩ := exists_eq_append_of_le h hoffset.le
  have hnil : between = [] := by
    by_contra hne
    have hpos := sum_utf8Size_pos hne
    rw [List.map_append, List.sum_append] at hoffset
    omega
  subst hnil
  exact ⟨by simp, by simp⟩

/-- A comment ends at the first closer. -/
theorem breakAt_comment {dash : Bool} {body : List Char} (h : (Markup.comment dash body).Filled)
    (rest : List Char) :
    Text.breakAt closesComment (dashText dash ++ body ++ '#' :: '\x7d' :: rest)
      = (dashText dash ++ body, '#' :: '\x7d' :: rest) := by
  refine breakAt_append_eq ?_ (.inr rfl)
  intro suffix hsuffix hne
  have hbody (hsuffix : suffix <:+ body) :
      closesComment (suffix ++ '#' :: '\x7d' :: rest) = false := by
    rw [closesComment_append hne ('\x7d' :: rest) ['\x7d']]
    exact h suffix hsuffix hne
  cases dash with
  | false => exact hbody hsuffix
  | true =>
    rcases List.suffix_cons_iff.mp hsuffix with rfl | hsuffix
    · rfl
    · exact hbody hsuffix

theorem textOf_comment (dash : Bool) (body rest : List Char) :
    textOf (Markup.comment dash body).parts ++ rest
      = '\x7b' :: '#' :: (dashText dash ++ body ++ '#' :: '\x7d' :: rest) := by
  simp [Markup.parts, Markup.openText, Markup.opener, Markup.trimsBefore, Opener.mark, Part.text]

theorem offset_lt_of_run {r : Run} {pos : Position} {t : Located Token}
    (h : t ∈ tokensOf (place pos r.parts)) :
    t.span.start.offset < (pos.advanceOver r.all).offset := by
  unfold Run.parts at h
  split at h
  · cases h
  · next hne =>
    obtain rfl := List.mem_singleton.mp h
    obtain ⟨c, cs, htext⟩ := List.exists_cons_of_ne_nil (by simpa using hne)
    have := c.utf8Size_pos
    simp only [Part.text, Run.all, htext, Position.offset_advanceOver, List.map_append,
      List.sum_append, List.map_cons, List.sum_cons]
    omega

/-- Tokens before a place and tokens behind it are told apart by where they begin. -/
theorem append_inj_of_start {as bs xs ys : List (Located Token)} {n : Nat}
    (h : as ++ xs = bs ++ ys) (has : ∀ t ∈ as, t.span.start.offset < n)
    (hbs : ∀ t ∈ bs, t.span.start.offset < n) (hxs : ∀ t ∈ xs, n ≤ t.span.start.offset)
    (hys : ∀ t ∈ ys, n ≤ t.span.start.offset) : xs = ys := by
  have hdrop (us vs : List (Located Token)) (hus : ∀ t ∈ us, t.span.start.offset < n)
      (hvs : ∀ t ∈ vs, n ≤ t.span.start.offset) :
      (us ++ vs).filter (fun t => n ≤ t.span.start.offset) = vs := by
    rw [List.filter_append, List.filter_eq_nil_iff.mpr (by simpa using hus),
      List.filter_eq_self.mpr (by simpa using hvs), List.nil_append]
  rw [← hdrop as xs has hxs, h, hdrop bs ys hbs hys]

/-- The tokens of a tag are a piece that ends where the tag does. -/
theorem tokensOf_tag {kind : TagKind} {dash closeDash : Bool} {words : List Word}
    {blanks : List Char} (h : (Markup.tag kind dash words blanks closeDash).Valid)
    (pos : Position) :
    ∃ first w start, (∀ t ∈ w, isContent t.value = true) ∧
      tokensOf (place pos (Markup.tag kind dash words blanks closeDash).parts)
        = ⟨kind.beginToken, first⟩ :: (w ++ [⟨kind.endToken, ⟨start, pos.advanceOver
            (textOf (Markup.tag kind dash words blanks closeDash).parts)⟩⟩]) := by
  rw [Markup.parts, tagParts, place_cons, place_append, tokensOf_append, tokensOf_append]
  simp only [place_cons, place_nil, textOf_cons, textOf_append, textOf_nil, Part.text,
    Part.recognised, List.append_nil, Position.advanceOver_append]
  exact ⟨_, _, _, content_of_words h.filled.1 _, rfl⟩

/-- A tag or a comment at a place of a text with given tokens has one kind and one
length. -/
theorem Markup.append_inj {m m' : Markup} (hm : m.Valid) (hm' : m'.Valid) {pos : Position}
    {rest rest' : List Char} {tokens tokens' : List (Located Token)}
    (htext : textOf m.parts ++ rest = textOf m'.parts ++ rest')
    (htokens : tokensOf (place pos m.parts) ++ tokens
      = tokensOf (place pos m'.parts) ++ tokens') :
    m.opener = m'.opener ∧ textOf m.parts = textOf m'.parts ∧ rest = rest' ∧
      tokens = tokens' := by
  cases m with
  | comment dash body =>
    cases m' with
    | comment dash' body' =>
      rw [textOf_comment, textOf_comment] at htext
      have hcut := breakAt_comment hm.filled rest
      rw [(List.cons.inj (List.cons.inj htext).2).2, breakAt_comment hm'.filled] at hcut
      have hrest : rest = rest' := by
        simpa using (Prod.mk.inj hcut).2.symm
      rw [← textOf_comment, ← textOf_comment, hrest] at htext
      exact ⟨rfl, List.append_cancel_right htext, hrest, htokens⟩
    | tag kind' => cases kind' <;> cases htext
  | tag kind dash words blanks closeDash =>
    cases m' with
    | comment dash' body' => cases kind <;> cases htext
    | tag kind' dash' words' blanks' closeDash' =>
      obtain ⟨first, w, start, hw, hpiece⟩ := tokensOf_tag hm pos
      obtain ⟨first', w', start', hw', hpiece'⟩ := tokensOf_tag hm' pos
      rw [hpiece, hpiece'] at htokens
      obtain ⟨hsame, hrest⟩ := (IsPiece.tag kind first _ hw).append_inj
        (IsPiece.tag kind' first' _ hw') htokens
      have hkind : kind = kind' :=
        beginToken_injective (Located.mk.inj (List.cons.inj hsame).1).1
      have hlast := (List.append_inj' (List.cons.inj hsame).2 rfl).2
      have hstop := congrArg (fun t => t.span.stop.offset) (List.singleton_inj.mp hlast)
      obtain ⟨htexts, hrests⟩ := append_inj_of_offset htext hstop
      exact ⟨by rw [Markup.opener, hkind, Markup.opener], htexts, hrests, hrest⟩

/-- The tokens of a text and the text tell how many comments there are in it. -/
theorem Layout.comments_eq {after after' : Bool} {l l' : Layout} (hl : l.Valid after)
    (hl' : l'.Valid after') {pos : Position} (htext : l.text = l'.text)
    (htokens : tokensOf (place pos l.parts) = tokensOf (place pos l'.parts)) :
    l.comments = l'.comments := by
  induction l generalizing after after' l' pos with
  | last r =>
    have hsplit := Layout.breakAt_text hl
    rw [htext, Layout.breakAt_text hl'] at hsplit
    cases l' with
    | last r' => rfl
    | cons r' m' rest' =>
      have hnil := (Prod.mk.inj hsplit).2
      exact absurd (List.append_eq_nil_iff.mp hnil).1 m'.textOf_parts_ne_nil
  | cons r m rest ih =>
    have hsplit := Layout.breakAt_text hl
    rw [htext, Layout.breakAt_text hl'] at hsplit
    cases l' with
    | last r' =>
      have hnil := (Prod.mk.inj hsplit).2.symm
      exact absurd (List.append_eq_nil_iff.mp hnil).1 m.textOf_parts_ne_nil
    | cons r' m' rest' =>
      obtain ⟨-, -, hm, hrest⟩ := hl
      obtain ⟨-, -, hm', hrest'⟩ := hl'
      obtain ⟨hall, hmarkup⟩ := Prod.mk.inj hsplit
      simp only [Layout.parts, place_append, tokensOf_append, Run.textOf_parts, hall] at htokens
      -- What stands behind the run begins behind it, whichever layout is asked.
      have hbehind : ∀ (m : Markup) (rest : Layout), ∀ t ∈
          tokensOf (place (pos.advanceOver r.all) m.parts) ++
            tokensOf (place ((pos.advanceOver r.all).advanceOver (textOf m.parts)) rest.parts),
          (pos.advanceOver r.all).offset ≤ t.span.start.offset := by
        intro m rest t ht
        rw [← tokensOf_append, ← place_append] at ht
        exact (offset_le_of_mem ht).1
      have hbefore : ∀ t ∈ tokensOf (place pos r'.parts),
          t.span.start.offset < (pos.advanceOver r.all).offset := by
        intro t ht
        rw [← hall]
        exact offset_lt_of_run ht
      replace htokens := append_inj_of_start htokens (fun _ => offset_lt_of_run) hbefore
        (hbehind m rest) (hbehind m' rest')
      obtain ⟨hopener, hsame, hrests, htokens⟩ := Markup.append_inj hm hm' hmarkup.symm htokens
      rw [hsame] at htokens
      have hcount := ih hrest hrest' hrests htokens
      rw [Layout.comments] at hcount ⊢
      rw [Layout.markups, List.countP_cons, hcount, hopener, Layout.comments, Layout.comments,
        Layout.markups, List.countP_cons]

end QueryMachine.Lexer
