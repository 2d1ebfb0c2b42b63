import QueryMachine.Proofs.Token.Layout

/-!
# The shape of a token sequence

What every stage after the lexer relies on: outside of tags there is only data,
a tag is a pair of delimiters around content, and tags do not nest. Such a
sequence falls apart into pieces, and it does so in one way only
(`IsPiece.append_inj`), which is what lets a proof compare two readings of one
sequence piece by piece.
-/

namespace QueryMachine.Lexer

/-- A data token, or the tokens of one tag. -/
inductive IsPiece : List (Located Token) → Prop where
  | data (text : String) (span : Span) : IsPiece [⟨.data text, span⟩]
  | tag (kind : TagKind) (first last : Span) {w : List (Located Token)} :
      (∀ t ∈ w, isContent t.value = true) →
      IsPiece (⟨kind.beginToken, first⟩ :: (w ++ [⟨kind.endToken, last⟩]))

/-- Pieces in a row. -/
inductive Shaped : List (Located Token) → Prop where
  | nil : Shaped []
  | cons {w rest : List (Located Token)} : IsPiece w → Shaped rest → Shaped (w ++ rest)

/-- Tokens are told apart by their values, whatever their places are. -/
theorem map_value_eq_cons {w : List (Located Token)} {t : Token} {ts : List Token} :
    w.map Located.value = t :: ts ↔
      ∃ span rest, w = ⟨t, span⟩ :: rest ∧ rest.map Located.value = ts := by
  rw [List.map_eq_cons_iff]
  constructor
  · rintro ⟨⟨_, span⟩, rest, rfl, rfl, hrest⟩
    exact ⟨span, rest, rfl, hrest⟩
  · rintro ⟨span, rest, rfl, hrest⟩
    exact ⟨_, rest, rfl, rfl, hrest⟩

theorem isContent_endToken (kind : TagKind) : isContent kind.endToken = false := by
  cases kind <;> rfl

theorem beginToken_injective {a b : TagKind} (h : a.beginToken = b.beginToken) : a = b := by
  cases a <;> cases b <;> first | rfl | cases h

/-- The content of a tag ends at its closer. -/
theorem takeWhile_content {w : List (Located Token)}
    (hw : ∀ t ∈ w, isContent t.value = true) (kind : TagKind) (last : Span)
    (rest : List (Located Token)) :
    (w ++ ⟨kind.endToken, last⟩ :: rest).takeWhile (fun t => isContent t.value) = w := by
  rw [List.takeWhile_append_of_pos hw, List.takeWhile_cons_of_neg, List.append_nil]
  simp [isContent_endToken]

/-- A sequence begins with at most one piece. -/
theorem IsPiece.append_inj {p q as bs : List (Located Token)} (hp : IsPiece p)
    (hq : IsPiece q) (h : p ++ as = q ++ bs) : p = q ∧ as = bs := by
  cases hp with
  | data text span =>
    cases hq with
    | data text' span' =>
      rw [List.singleton_append, List.singleton_append, List.cons.injEq] at h
      exact ⟨by rw [h.1], h.2⟩
    | tag kind first last hw => cases kind <;> cases h
  | @tag kind first last w hw =>
    cases hq with
    | data text span => cases kind <;> cases h
    | @tag kind' first' last' w' hw' =>
      rw [List.cons_append, List.cons_append, List.cons.injEq] at h
      obtain ⟨hbegin, hrest⟩ := h
      obtain ⟨hkind, rfl⟩ := Located.mk.inj hbegin
      obtain rfl := beginToken_injective hkind
      simp only [List.append_assoc, List.singleton_append] at hrest
      have hcontent : w = w' := by
        have hleft := takeWhile_content hw kind last as
        rw [hrest, takeWhile_content hw'] at hleft
        exact hleft.symm
      subst hcontent
      rw [List.append_cancel_left_eq, List.cons.injEq] at hrest
      exact ⟨by rw [hrest.1], hrest.2⟩

theorem IsPiece.ne_nil {p : List (Located Token)} (h : IsPiece p) : p ≠ [] := by
  cases h <;> simp

theorem Shaped.append {as bs : List (Located Token)} (ha : Shaped as) (hb : Shaped bs) :
    Shaped (as ++ bs) := by
  induction ha with
  | nil => exact hb
  | cons hp _ ih =>
    rw [List.append_assoc]
    exact .cons hp ih

theorem IsPiece.shaped {p : List (Located Token)} (h : IsPiece p) : Shaped p := by
  simpa using Shaped.cons h .nil

theorem IsPiece.not_eof {p : List (Located Token)} (h : IsPiece p) :
    ∀ t ∈ p, t.value.isEof = false := by
  cases h with
  | data => simp [Token.isEof]
  | tag kind first last hw =>
    intro t ht
    simp only [List.mem_cons, List.mem_append, List.not_mem_nil, or_false] at ht
    rcases ht with rfl | ht | rfl
    · cases kind <;> rfl
    · have := hw t ht
      revert this
      cases t.value <;> simp [isContent, Token.isEof]
    · cases kind <;> rfl

theorem Shaped.not_eof {w : List (Located Token)} (h : Shaped w) :
    ∀ t ∈ w, t.value.isEof = false := by
  induction h with
  | nil => simp
  | cons hp _ ih =>
    intro t ht
    rcases List.mem_append.mp ht with ht | ht
    · exact hp.not_eof t ht
    · exact ih t ht

/-- A block tag begins where a piece begins. -/
theorem IsPiece.eq_nil_of_blockBegin {p before after : List (Located Token)} {span : Span}
    (h : IsPiece p) (heq : p = before ++ ⟨.blockBegin, span⟩ :: after) : before = [] := by
  cases before with
  | nil => rfl
  | cons t before =>
    cases h with
    | data => simp at heq
    | @tag kind first last w hw =>
      rw [List.cons_append, List.cons.injEq] at heq
      have hmem : ⟨.blockBegin, span⟩ ∈ w ++ [⟨kind.endToken, last⟩] := by
        rw [heq.2]
        simp
      rcases List.mem_append.mp hmem with hmem | hmem
      · cases hw _ hmem
      · cases kind <;> cases List.mem_singleton.mp hmem

/-- A sequence of pieces can be cut before a block tag. -/
theorem Shaped.cut {w before after : List (Located Token)} {span : Span} (h : Shaped w)
    (heq : w = before ++ ⟨.blockBegin, span⟩ :: after) :
    Shaped before ∧ Shaped (⟨.blockBegin, span⟩ :: after) := by
  induction h generalizing before with
  | nil => simp at heq
  | @cons p rest hp hrest ih =>
    rcases List.append_eq_append_iff.mp heq with ⟨more, rfl, hmore⟩ | ⟨more, hp', hmore⟩
    · obtain ⟨hbefore, hafter⟩ := ih hmore
      exact ⟨.cons hp hbefore, hafter⟩
    · cases more with
      | nil =>
        rw [List.append_nil] at hp'
        rw [hmore, ← hp']
        exact ⟨hp.shaped, hrest⟩
      | cons t more =>
        rw [List.cons_append, List.cons.injEq] at hmore
        obtain ⟨rfl, rfl⟩ := hmore
        obtain rfl := hp.eq_nil_of_blockBegin hp'
        rw [List.nil_append] at hp'
        subst hp'
        exact ⟨.nil, .cons hp hrest⟩

theorem Shaped.of_piece {p rest : List (Located Token)} (hp : IsPiece p)
    (h : Shaped (p ++ rest)) : Shaped rest := by
  generalize heq : p ++ rest = w at h
  cases h with
  | nil => exact absurd (List.append_eq_nil_iff.mp heq).1 hp.ne_nil
  | cons hq hrest =>
    obtain ⟨-, rfl⟩ := hp.append_inj hq heq
    exact hrest

/-! ## The lexer's sequences -/

theorem Run.shaped (r : Run) (pos : Position) : Shaped (tokensOf (place pos r.parts)) := by
  unfold Run.parts
  split
  · exact .nil
  · exact (IsPiece.data ..).shaped

theorem content_of_words {words : List Word} (h : ∀ w ∈ words, w.Valid) (pos : Position) :
    ∀ t ∈ tokensOf (place pos (words.flatMap Word.parts)), isContent t.value = true := by
  induction words generalizing pos with
  | nil => simp [tokensOf]
  | cons w words ih =>
    rw [List.forall_mem_cons] at h
    rw [List.flatMap_cons, place_append, tokensOf_append]
    intro t ht
    rcases List.mem_append.mp ht with ht | ht
    · simp only [Word.parts, place_cons, place_nil, Part.recognised, tokensOf, List.nil_append,
        List.append_nil, List.filterMap_cons, List.filterMap_nil, List.mem_singleton] at ht
      rw [ht]
      exact h.1.content
    · exact ih h.2 _ t ht

theorem Markup.shaped {m : Markup} (h : m.Valid) (pos : Position) :
    Shaped (tokensOf (place pos m.parts)) := by
  cases m with
  | comment dash body => exact .nil
  | tag kind dash words blanks closeDash =>
    rw [Markup.parts, tagParts, place_cons, place_append, tokensOf_append, tokensOf_append]
    exact (IsPiece.tag kind _ _ (content_of_words h.filled.1 _)).shaped

theorem Layout.shaped {after : Bool} {l : Layout} (h : l.Valid after) (pos : Position) :
    ∃ w span, tokensOf (place pos l.parts) = w ++ [⟨.eof, span⟩] ∧ Shaped w := by
  induction l generalizing after pos with
  | last run =>
    rw [Layout.parts, place_append, tokensOf_append]
    exact ⟨_, _, rfl, run.shaped pos⟩
  | cons run m rest ih =>
    obtain ⟨-, -, hm, hrest⟩ := h
    rw [Layout.parts, place_append, place_append, tokensOf_append, tokensOf_append]
    obtain ⟨w, span, heq, hw⟩ := ih hrest _
    rw [heq, ← List.append_assoc, ← List.append_assoc]
    exact ⟨_, span, rfl, ((run.shaped pos).append (Markup.shaped hm _)).append hw⟩

/-- A text is cut into pieces and one end marker. -/
theorem shaped_of_tokenize {source : String} {lexed : Lexed}
    (h : tokenize source = .ok lexed) :
    ∃ w span, lexed.tokens.toList = w ++ [⟨.eof, span⟩] ∧ Shaped w := by
  obtain ⟨l, hvalid, -, htokens⟩ := exists_layout h
  rw [htokens]
  exact Layout.shaped hvalid .start

end QueryMachine.Lexer
