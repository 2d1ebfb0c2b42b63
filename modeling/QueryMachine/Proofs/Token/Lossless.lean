import QueryMachine.Proofs.Token.Shape
import Mathlib

/-!
# Lexing loses nothing

What the layout of `Layout.lean` says about the tokens of a text, in the words
of spans. A span is two positions; that they are those of the source, that the
source between them spells the token, and that no two spans overlap, are three
facts about one walk over the parts of a layout (`place`), and all of them
follow from where that walk stands when it meets a part.

The last statement goes the other way: from a character of the source to the
part it stands in. A character that no span covers is in a part that was
dropped, and the kinds of parts are the reasons for dropping one.

Where blanks of data are dropped is decided by the `-` of the source. A layout
that overlooks one of them is not valid, so what it says of data can be said in
words of the source alone (`Markup.dashed`, `Layout.dataStands`).
-/

namespace QueryMachine

/-- A true position of a text: the one that the text before it leads to. -/
def Position.InText (text : List Char) (p : Position) : Prop :=
  ∃ before after, text = before ++ after ∧ (before.map Char.utf8Size).sum = p.offset ∧
    Position.start.advanceOver before = p

/-- Whether the byte at an offset lies in a span. -/
def Span.Covers (s : Span) (offset : Nat) : Prop :=
  s.start.offset ≤ offset ∧ offset < s.stop.offset

namespace Lexer

theorem inText_advanceOver (before after : List Char) :
    (Position.start.advanceOver before).InText (before ++ after) := by
  refine ⟨before, after, rfl, ?_, rfl⟩
  rw [Position.offset_advanceOver]
  simp [Position.start]

/-! ## Where the tokens of some parts stand -/

/-- The token of a lexeme begins where the parts before it end. -/
theorem mem_tokensOf_place {pos : Position} {parts : List Part} {t : Located Token} :
    t ∈ tokensOf (place pos parts) ↔
      ∃ before token text after, parts = before ++ .lexeme token text :: after ∧
        t = ⟨token, ⟨pos.advanceOver (textOf before),
          pos.advanceOver (textOf before ++ text)⟩⟩ := by
  constructor
  · intro h
    induction parts generalizing pos with
    | nil => cases h
    | cons part parts ih =>
      rw [place_cons, tokensOf_append, List.mem_append] at h
      rcases h with h | h
      · cases part with
        | lexeme token text =>
          simp only [Part.recognised, tokensOf, List.filterMap_cons, List.filterMap_nil,
            List.mem_singleton] at h
          exact ⟨[], token, text, parts, rfl, h⟩
        | tagBlanks text => cases h
        | comment text => cases h
        | trimmed text => cases h
      · obtain ⟨before, token, text, after, rfl, rfl⟩ := ih h
        refine ⟨part :: before, token, text, after, rfl, ?_⟩
        simp only [textOf_cons, List.append_assoc, Position.advanceOver_append]
  · rintro ⟨before, token, text, after, rfl, rfl⟩
    rw [place_append, tokensOf_append, List.mem_append]
    right
    rw [Position.advanceOver_append]
    simp [Part.recognised, tokensOf]

theorem offset_le_of_mem {pos : Position} {parts : List Part} {t : Located Token}
    (h : t ∈ tokensOf (place pos parts)) :
    pos.offset ≤ t.span.start.offset ∧ t.span.start.offset ≤ t.span.stop.offset := by
  obtain ⟨before, token, text, after, -, rfl⟩ := mem_tokensOf_place.mp h
  simp only [Position.offset_advanceOver, List.map_append, List.sum_append]
  omega

theorem pairwise_tokensOf_place (pos : Position) (parts : List Part) :
    (tokensOf (place pos parts)).Pairwise fun a b =>
      a.span.stop.offset ≤ b.span.start.offset := by
  induction parts generalizing pos with
  | nil => exact .nil
  | cons part parts ih =>
    rw [place_cons, tokensOf_append, List.pairwise_append]
    refine ⟨?_, ih _, ?_⟩
    · cases part <;> simp [Part.recognised, tokensOf]
    · intro a ha b hb
      have hle := (offset_le_of_mem hb).1
      cases part with
      | lexeme token text =>
        simp only [Part.recognised, tokensOf, List.filterMap_cons, List.filterMap_nil,
          List.mem_singleton] at ha
        rw [ha]
        exact hle
      | tagBlanks text => cases ha
      | comment text => cases ha
      | trimmed text => cases ha

/-- Every character of some parts stands in one of them. -/
theorem exists_part_of_textOf_eq {parts : List Part} {before after : List Char} {c : Char}
    (h : textOf parts = before ++ c :: after) :
    ∃ ps part qs as bs, parts = ps ++ part :: qs ∧ part.text = as ++ c :: bs ∧
      before = textOf ps ++ as := by
  induction parts generalizing before with
  | nil => simp at h
  | cons part parts ih =>
    rw [textOf_cons, List.append_eq_append_iff] at h
    rcases h with ⟨as, rfl, hparts⟩ | ⟨bs, hpart, hafter⟩
    · obtain ⟨ps, p, qs, as', bs, rfl, htext, rfl⟩ := ih hparts
      exact ⟨part :: ps, p, qs, as', bs, rfl, htext, by simp⟩
    · cases bs with
      | nil =>
        have hparts : textOf parts = [] ++ c :: after := by simpa using hafter.symm
        obtain ⟨ps, p, qs, as', bs, rfl, htext, has⟩ := ih hparts
        refine ⟨part :: ps, p, qs, as', bs, rfl, htext, ?_⟩
        rw [textOf_cons, List.append_assoc, ← has]
        simpa using hpart.symm
      | cons d bs =>
        rw [List.cons_append, List.cons.injEq] at hafter
        obtain ⟨rfl, -⟩ := hafter
        exact ⟨[], part, parts, before, bs, rfl, hpart, rfl⟩

/-- A character under no span is not part of a token's lexeme. -/
theorem exists_dropped_part {parts : List Part} {before after : List Char} {c : Char}
    (h : textOf parts = before ++ c :: after)
    (huncovered : ∀ t ∈ tokensOf (place .start parts),
      ¬ t.span.Covers (Position.start.advanceOver before).offset) :
    ∃ ps part qs as bs, parts = ps ++ part :: qs ∧ part.text = as ++ c :: bs ∧
      before = textOf ps ++ as ∧ ∀ token text, part ≠ .lexeme token text := by
  obtain ⟨ps, part, qs, as, bs, rfl, htext, rfl⟩ := exists_part_of_textOf_eq h
  refine ⟨ps, part, qs, as, bs, rfl, htext, rfl, ?_⟩
  rintro token text rfl
  refine huncovered _ (mem_tokensOf_place.mpr ⟨ps, token, text, qs, rfl, rfl⟩) ?_
  simp only [Part.text] at htext
  subst htext
  have hc := c.utf8Size_pos
  constructor <;>
    simp only [Position.offset_advanceOver, List.map_append, List.sum_append, List.map_cons,
      List.sum_cons] <;>
    omega

/-! ## What the parts of a layout are -/

theorem spells_begin (kind : TagKind) (dash : Bool) :
    Spells kind.beginToken ('\x7b' :: (Opener.tag kind).mark :: dashText dash) := by
  cases kind with
  | expression => exact .variableBegin dash
  | block => exact .blockBegin dash

theorem spells_end (kind : TagKind) (dash : Bool) :
    Spells kind.endToken (dashText dash ++ [kind.closeMark, '\x7d']) := by
  cases kind with
  | expression => exact .variableEnd dash
  | block => exact .blockEnd dash

def Layout.markups : Layout → List Markup
  | last _ => []
  | cons _ m rest => m :: rest.markups

/-- The runs of a layout, each between whether the closer before it and the
opener after it carry a `-`. -/
def Layout.runs (after : Bool) : Layout → List (Bool × Run × Bool)
  | last run => [(after, run, false)]
  | cons run m rest => (after, run, m.trimsBefore) :: rest.runs m.trimsAfter

/-- Why a character in a part of a layout is under no token. -/
inductive Dropped (runs : List (Bool × Run × Bool)) (markups : List Markup) (c : Char) :
    Part → Prop where
  | tagBlank {kind : TagKind} {dash closeDash : Bool} {words : List Word}
      {blanks text : List Char} :
      Markup.tag kind dash words blanks closeDash ∈ markups →
      .tagBlanks text ∈ (Markup.tag kind dash words blanks closeDash).parts →
      Text.isBlank c = true → Dropped runs markups c (.tagBlanks text)
  | comment {dash : Bool} {body : List Char} : Markup.comment dash body ∈ markups →
      Dropped runs markups c
        (.comment ('\x7b' :: '#' :: (dashText dash ++ (body ++ ['#', '\x7d']))))
  | afterDash {run : Run} {before : Bool} : (true, run, before) ∈ runs →
      Text.isBlank c = true → Dropped runs markups c (.trimmed run.lead)
  | beforeDash {run : Run} {after : Bool} : (after, run, true) ∈ runs →
      Text.isBlank c = true → Dropped runs markups c (.trimmed run.trail)

theorem Dropped.mono {runs runs' : List (Bool × Run × Bool)} {markups markups' : List Markup}
    {c : Char} {part : Part} (h : Dropped runs markups c part) (hruns : runs ⊆ runs')
    (hmarkups : markups ⊆ markups') : Dropped runs' markups' c part := by
  cases h with
  | tagBlank hm hpart hc => exact .tagBlank (hmarkups hm) hpart hc
  | comment hm => exact .comment (hmarkups hm)
  | afterDash hrun hc => exact .afterDash (hruns hrun) hc
  | beforeDash hrun hc => exact .beforeDash (hruns hrun) hc

/-- A part is the lexeme of a token, or every character in it was dropped for a
reason. -/
def Explained (runs : List (Bool × Run × Bool)) (markups : List Markup) : Part → Prop
  | .lexeme token text => Spells token text
  | part => ∀ c ∈ part.text, Dropped runs markups c part

theorem Explained.mono {runs runs' : List (Bool × Run × Bool)}
    {markups markups' : List Markup} {part : Part} (h : Explained runs markups part)
    (hruns : runs ⊆ runs') (hmarkups : markups ⊆ markups') :
    Explained runs' markups' part := by
  cases part with
  | lexeme token text => exact h
  | tagBlanks text => exact fun c hc => (h c hc).mono hruns hmarkups
  | comment text => exact fun c hc => (h c hc).mono hruns hmarkups
  | trimmed text => exact fun c hc => (h c hc).mono hruns hmarkups

theorem Run.explained {after before : Bool} {r : Run} (h : r.Valid after before) {part : Part}
    (hpart : part ∈ r.parts) : Explained [(after, r, before)] [] part := by
  simp only [Run.parts, List.mem_cons, List.mem_append, List.not_mem_nil, or_false] at hpart
  rcases hpart with rfl | hpart | rfl
  · intro c hc
    cases after with
    | false =>
      rw [Part.text, h.lead_eq_nil rfl] at hc
      cases hc
    | true => exact .afterDash (List.mem_singleton.mpr rfl) (h.lead_blank c hc)
  · split at hpart
    · cases hpart
    · rw [List.mem_singleton] at hpart
      subst hpart
      exact .data r.text
  · intro c hc
    cases before with
    | false =>
      rw [Part.text, h.trail_eq_nil rfl] at hc
      cases hc
    | true => exact .beforeDash (List.mem_singleton.mpr rfl) (h.trail_blank c hc)

theorem Markup.explained {m : Markup} (h : m.Valid) {part : Part} (hpart : part ∈ m.parts) :
    Explained [] [m] part := by
  have hmem : m ∈ [m] := List.mem_singleton.mpr rfl
  cases m with
  | comment dash body =>
    rw [Markup.parts, List.mem_singleton] at hpart
    subst hpart
    exact fun c _ => .comment hmem
  | tag kind dash words blanks closeDash =>
    obtain ⟨hwords, hblanks⟩ := h.filled
    have hkind := hpart
    simp only [Markup.parts, tagParts, List.mem_cons, List.mem_append, List.mem_flatMap,
      List.not_mem_nil, or_false] at hkind
    rcases hkind with rfl | ⟨w, hw, hword⟩ | rfl | rfl
    · exact spells_begin kind dash
    · simp only [Word.parts, List.mem_cons, List.not_mem_nil, or_false] at hword
      rcases hword with rfl | rfl
      · exact fun c hc => .tagBlank hmem hpart ((hwords w hw).blanks_blank c hc)
      · exact (hwords w hw).spells
    · exact fun c hc => .tagBlank hmem hpart (hblanks c hc)
    · exact spells_end kind closeDash

theorem Layout.explained {after : Bool} {l : Layout} (h : l.Valid after) {part : Part}
    (hpart : part ∈ l.parts) : Explained (l.runs after) l.markups part := by
  induction l generalizing after with
  | last run =>
    rw [Layout.parts, List.mem_append, List.mem_singleton] at hpart
    rcases hpart with hpart | rfl
    · exact Run.explained h.1 hpart
    · exact .eof
  | cons run m rest ih =>
    obtain ⟨hrun, -, hm, hrest⟩ := h
    simp only [Layout.parts, List.mem_append] at hpart
    rcases hpart with hpart | hpart | hpart
    · refine (Run.explained hrun hpart).mono ?_ (List.nil_subset _)
      simp [Layout.runs]
    · refine (Markup.explained hm hpart).mono (List.nil_subset _) ?_
      simp [Layout.markups]
    · exact (ih hrest hpart).mono (List.subset_cons_self ..) (List.subset_cons_self ..)

theorem Layout.valid_of_mem_runs {after : Bool} {l : Layout} (h : l.Valid after)
    {left right : Bool} {run : Run} (hrun : (left, run, right) ∈ l.runs after) :
    run.Valid left right := by
  induction l generalizing after with
  | last r =>
    rw [Layout.runs, List.mem_singleton] at hrun
    cases hrun
    exact h.1
  | cons r m rest ih =>
    rw [Layout.runs, List.mem_cons] at hrun
    rcases hrun with hrun | hrun
    · cases hrun
      exact h.1
    · exact ih h.2.2.2 hrun

theorem Layout.valid_of_mem_markups {after : Bool} {l : Layout} (h : l.Valid after) {m : Markup}
    (hm : m ∈ l.markups) : m.Valid := by
  induction l generalizing after with
  | last r => cases hm
  | cons r m' rest ih =>
    obtain ⟨-, -, hvalid, hrest⟩ := h
    rcases List.mem_cons.mp hm with rfl | hm
    · exact hvalid
    · exact ih hrest hm

/-- The `-` on either side of a tag or a comment, as its text has it: that of the opener stands
behind the first two characters, and that of the closer before the last two, unless the opener
has taken it. -/
structure Markup.Dashed (m : Markup) : Prop where
  text_eq : textOf m.parts = m.openText ++ (m.inside ++ m.closeText)
  opens : m.trimsBefore = beginsWithDash ((textOf m.parts).drop 2)
  closes : m.trimsAfter = (m.inside.getLast? == some '-')

theorem Markup.dashed {m : Markup} (h : m.Valid) : m.Dashed := by
  refine ⟨m.textOf_parts, ?_, Markup.trimsAfter_eq h⟩
  have hbehind : (textOf m.parts).drop 2
      = dashText m.trimsBefore ++ (m.inside ++ (m.closeText ++ [])) := by
    rw [m.textOf_parts, List.append_nil]
    rfl
  rw [hbehind]
  exact Markup.trimsBefore_eq h []

/-- The end marker stands behind everything else. -/
theorem Layout.parts_eq (l : Layout) :
    ∃ before, l.parts = before ++ [.lexeme .eof []] ∧ textOf before = l.text := by
  have hparts : ∃ before, l.parts = before ++ [.lexeme .eof []] := by
    induction l with
    | last run => exact ⟨run.parts, rfl⟩
    | cons run m rest ih =>
      obtain ⟨before, hrest⟩ := ih
      exact ⟨run.parts ++ (m.parts ++ before), by simp [Layout.parts, hrest]⟩
  obtain ⟨before, hbefore⟩ := hparts
  refine ⟨before, hbefore, ?_⟩
  rw [Layout.text, hbefore]
  simp [Part.text]

/-! ## Where data stands -/

theorem Markup.not_data {m : Markup} (h : m.Valid) (pos : Position) :
    ∀ t ∈ tokensOf (place pos m.parts), t.value.isData = false := by
  intro t ht
  cases m with
  | comment dash body => cases ht
  | tag kind dash words blanks closeDash =>
    rw [Markup.parts, tagParts, place_cons, place_append, tokensOf_append, tokensOf_append,
      List.mem_append, List.mem_append] at ht
    rcases ht with ht | ht | ht
    · obtain rfl := List.mem_singleton.mp ht
      cases kind <;> rfl
    · have hcontent := content_of_words h.filled.1 _ t ht
      revert hcontent
      cases t.value <;> simp [isContent, Token.isData]
    · obtain rfl := List.mem_singleton.mp ht
      cases kind <;> rfl

theorem tokensOf_run (r : Run) (pos : Position) :
    tokensOf (place pos r.parts) = if r.text.isEmpty then [] else [⟨.data (String.ofList r.text),
      ⟨pos.advanceOver r.lead, pos.advanceOver (r.lead ++ r.text)⟩⟩] := by
  unfold Run.parts
  split
  · rfl
  · rw [Position.advanceOver_append]
    rfl

theorem eq_of_mem_run {r : Run} {pos : Position} {t : Located Token}
    (h : t ∈ tokensOf (place pos r.parts)) :
    t = ⟨.data (String.ofList r.text),
      ⟨pos.advanceOver r.lead, pos.advanceOver (r.lead ++ r.text)⟩⟩ := by
  rw [tokensOf_run] at h
  split at h
  · cases h
  · exact List.mem_singleton.mp h

/-- Whether a text begins with an opener that carries a `-`. -/
def opensWithDash (cs : List Char) : Bool :=
  (openerAt cs).any fun opened => beginsWithDash opened.2

theorem Markup.opensWithDash_text {m : Markup} (h : m.Valid) (rest : List Char) :
    opensWithDash (textOf m.parts ++ rest) = m.trimsBefore := by
  rw [opensWithDash, m.openerAt_text, Option.any_some, ← Markup.trimsBefore_eq h]

/-- How a data token stands in a text that begins at `pos`. Before it, `front` is empty or
ends with a tag or a comment, and behind it, `back` is empty or begins with an opener. Between
the two is one run without an opener, of which the token has everything but the blanks on the
side of a `-`. -/
def DataStands (pos : Position) (after : Bool) (text : List Char) (markups : List Markup)
    (t : Located Token) : Prop :=
  ∃ (front : List Char) (run : Run) (back : List Char) (left : Bool),
    text = front ++ (run.all ++ back) ∧
    t = ⟨.data (String.ofList run.text), ⟨pos.advanceOver (front ++ run.lead),
      pos.advanceOver (front ++ (run.lead ++ run.text))⟩⟩ ∧
    run.Valid left (opensWithDash back) ∧ Layout.IsData run.all back ∧
    (back = [] ∨ (openerAt back).isSome) ∧
    (front = [] ∧ left = after ∨ ∃ before, ∃ m ∈ markups, front = before ++ textOf m.parts ∧
      left = (m.inside.getLast? == some '-'))

theorem Layout.dataStands {after : Bool} {l : Layout} (h : l.Valid after) {pos : Position}
    {t : Located Token} (ht : t ∈ tokensOf (place pos l.parts)) (hdata : t.value.isData = true) :
    DataStands pos after l.text l.markups t := by
  induction l generalizing after pos with
  | last run =>
    rw [Layout.parts, place_append, tokensOf_append, List.mem_append] at ht
    rcases ht with ht | ht
    · refine ⟨[], run, [], after, ?_, eq_of_mem_run ht, h.1, h.2, .inl rfl, .inl ⟨rfl, rfl⟩⟩
      simp [Layout.text, Layout.parts, Run.textOf_parts, Part.text]
    · obtain rfl := List.mem_singleton.mp ht
      cases hdata
  | cons run m rest ih =>
    obtain ⟨hrun, hopen, hm, hrest⟩ := h
    have htext : (Layout.cons run m rest).text = run.all ++ (textOf m.parts ++ rest.text) := by
      simp [Layout.text, Layout.parts, Run.textOf_parts]
    rw [Layout.parts, place_append, place_append, tokensOf_append, tokensOf_append,
      List.mem_append, List.mem_append] at ht
    rcases ht with ht | ht | ht
    · refine ⟨[], run, textOf m.parts ++ rest.text, after, htext, eq_of_mem_run ht, ?_, hopen,
        ?_, .inl ⟨rfl, rfl⟩⟩
      · rwa [Markup.opensWithDash_text hm]
      · rw [m.openerAt_text]
        exact .inr rfl
    · rw [Markup.not_data hm _ t ht] at hdata
      cases hdata
    · obtain ⟨front, run', back, left, hback, rfl, hvalid, hrun', hahead, hbehind⟩ :=
        ih hrest ht
      refine ⟨run.all ++ (textOf m.parts ++ front), run', back, left, ?_, ?_, hvalid, hrun',
        hahead, .inr ?_⟩
      · rw [htext, hback]
        simp
      · simp only [Run.textOf_parts, Position.advanceOver_append]
      · rcases hbehind with ⟨rfl, rfl⟩ | ⟨before, m', hm', rfl, hleft⟩
        · exact ⟨run.all, m, List.mem_cons_self, by simp, Markup.trimsAfter_eq hm⟩
        · exact ⟨run.all ++ (textOf m.parts ++ before), m', List.mem_cons_of_mem _ hm',
            by simp, hleft⟩

/-! ## The tokens and the source -/

/-- The relation of a text to its tokens. -/
structure Lossless (source : List Char) (tokens : List (Located Token)) (layout : Layout) :
    Prop where
  valid : layout.Valid false
  text_eq : layout.text = source
  tokens_eq : layout.tokens = tokens
  /-- Spans stand in source order and do not overlap. -/
  ordered : tokens.Pairwise fun a b => a.span.stop.offset ≤ b.span.start.offset
  forward : ∀ t ∈ tokens, t.span.start.offset ≤ t.span.stop.offset
  /-- The end marker is the last token and stands at the end of the source. -/
  ends : tokens.getLast? = some ⟨.eof, .point (Position.start.advanceOver source)⟩
  positions : ∀ t ∈ tokens, t.span.start.InText source ∧ t.span.stop.InText source
  /-- The source under a span spells the token. -/
  slices : ∀ t ∈ tokens, ∃ before lexeme after, source = before ++ (lexeme ++ after) ∧
    t.span = ⟨Position.start.advanceOver before,
      Position.start.advanceOver (before ++ lexeme)⟩ ∧ Spells t.value lexeme
  /-- What counts as a `-` beside a run is one in the text. -/
  dashes : ∀ m ∈ layout.markups, m.Dashed
  /-- A `-` beside a run removes all blanks on its side; nothing else is removed. -/
  runs : ∀ after run before, (after, run, before) ∈ layout.runs false →
    run.Valid after before
  /-- Data is all that stands between two tags or comments, without the blanks on the side of
  a `-`. -/
  data : ∀ t ∈ tokens, t.value.isData = true →
    DataStands .start false source layout.markups t
  /-- A character under no span is a blank of a tag, is part of a comment, or
  is a blank of a run on the side of a `-`. -/
  dropped : ∀ before c after, source = before ++ c :: after →
    (∀ t ∈ tokens, ¬ t.span.Covers (Position.start.advanceOver before).offset) →
    ∃ ps part qs as bs, layout.parts = ps ++ part :: qs ∧ part.text = as ++ c :: bs ∧
      before = textOf ps ++ as ∧ Dropped (layout.runs false) layout.markups c part

/-- The data that a text begins with ends without a blank if a `-` stands in the opener behind
it, whatever the layout. -/
theorem Lossless.last_not_blank {source : List Char} {tokens : List (Located Token)}
    {layout : Layout} (h : Lossless source tokens layout) {run inside : List Char} {kind : Opener}
    (hcut : Text.breakAt (fun cs => (openerAt cs).isSome) source
      = (run, '\x7b' :: kind.mark :: '-' :: inside)) {c : Char} (hc : c ∈ run)
    (hblank : Text.isBlank c = false) :
    ∃ text span rest, tokens = ⟨.data (String.ofList text), span⟩ :: rest ∧
      ∀ d ∈ text.getLast?, Text.isBlank d = false := by
  rw [← h.text_eq] at hcut
  obtain ⟨r, m, rest, rfl, rfl, hr⟩ := Layout.exists_first_run h.valid hcut
  have htext : r.text ≠ [] := by
    intro hnil
    have hall : c ∈ r.lead ++ r.trail := by simpa [Run.all, hnil] using hc
    rcases List.mem_append.mp hall with hc | hc
    · exact absurd (hr.lead_blank c hc) (by simp [hblank])
    · exact absurd (hr.trail_blank c hc) (by simp [hblank])
  rw [← h.tokens_eq, Layout.tokens, Layout.parts, place_append, tokensOf_append, tokensOf_run,
    if_neg (by simpa using htext)]
  exact ⟨r.text, _, _, rfl, hr.last_not_blank rfl⟩

/-- Lexing loses nothing: the tokens of a text, with the spans they have, are
those of a layout of the whole text. -/
theorem tokenize_lossless {source : String} {lexed : Lexed}
    (h : tokenize source = .ok lexed) :
    ∃ layout, Lossless source.toList lexed.tokens.toList layout := by
  obtain ⟨l, hvalid, htext, htokens⟩ := exists_layout h
  obtain ⟨before, hparts, hbefore⟩ := l.parts_eq
  rw [htokens, ← htext]
  refine ⟨l, hvalid, rfl, rfl, pairwise_tokensOf_place .start l.parts,
    fun t ht => (offset_le_of_mem ht).2, ?_, ?_, ?_,
    fun _ hm => Markup.dashed (Layout.valid_of_mem_markups hvalid hm),
    fun _ _ _ => Layout.valid_of_mem_runs hvalid, fun _ => Layout.dataStands hvalid, ?_⟩
  · rw [Layout.tokens, hparts, place_append, tokensOf_append, hbefore]
    simp [Part.recognised, tokensOf, Span.point]
  · intro t ht
    obtain ⟨as, token, text, bs, heq, rfl⟩ := mem_tokensOf_place.mp ht
    rw [Layout.text, heq]
    simp only [textOf_append, textOf_cons, Part.text]
    refine ⟨inText_advanceOver _ _, ?_⟩
    rw [← List.append_assoc]
    exact inText_advanceOver _ _
  · intro t ht
    obtain ⟨as, token, text, bs, heq, rfl⟩ := mem_tokensOf_place.mp ht
    refine ⟨textOf as, text, textOf bs, ?_, rfl, ?_⟩
    · rw [Layout.text, heq]
      simp [Part.text]
    · exact Layout.explained hvalid (by simp [heq] : .lexeme token text ∈ l.parts)
  · intro before c after hsource huncovered
    obtain ⟨ps, part, qs, as, bs, heq, htext, rfl, hlexeme⟩ :=
      exists_dropped_part hsource huncovered
    refine ⟨ps, part, qs, as, bs, heq, htext, rfl, ?_⟩
    have hc : c ∈ part.text := by simp [htext]
    have hexplained := Layout.explained hvalid (by simp [heq] : part ∈ l.parts)
    cases part with
    | lexeme token text => exact absurd rfl (hlexeme token text)
    | tagBlanks text => exact hexplained c hc
    | comment text => exact hexplained c hc
    | trimmed text => exact hexplained c hc

/-- Both blanks beside the tag are dropped and both dashes are part of its lexemes. No layout
of the text has tokens that keep the blank in front of the tag. -/
theorem tokenize_lossless_between_dashes :
    ∃ lexed, tokenize "a \x7b\x7b- b -\x7d\x7d c" = .ok lexed ∧
      lexed.tokens.toList =
        [⟨.data "a", ⟨⟨0, 1, 1⟩, ⟨1, 1, 2⟩⟩⟩,
         ⟨.variableBegin, ⟨⟨2, 1, 3⟩, ⟨5, 1, 6⟩⟩⟩,
         ⟨.name "b", ⟨⟨6, 1, 7⟩, ⟨7, 1, 8⟩⟩⟩,
         ⟨.variableEnd, ⟨⟨8, 1, 9⟩, ⟨11, 1, 12⟩⟩⟩,
         ⟨.data "c", ⟨⟨12, 1, 13⟩, ⟨13, 1, 14⟩⟩⟩,
         ⟨.eof, ⟨⟨13, 1, 14⟩, ⟨13, 1, 14⟩⟩⟩] ∧
      (∃ layout, Lossless "a \x7b\x7b- b -\x7d\x7d c".toList lexed.tokens.toList layout) ∧
      ∀ span rest layout,
        ¬ Lossless "a \x7b\x7b- b -\x7d\x7d c".toList (⟨.data "a ", span⟩ :: rest) layout := by
  have h : tokenize "a \x7b\x7b- b -\x7d\x7d c" = .ok
      { tokens := #[⟨.data "a", ⟨⟨0, 1, 1⟩, ⟨1, 1, 2⟩⟩⟩,
          ⟨.variableBegin, ⟨⟨2, 1, 3⟩, ⟨5, 1, 6⟩⟩⟩,
          ⟨.name "b", ⟨⟨6, 1, 7⟩, ⟨7, 1, 8⟩⟩⟩,
          ⟨.variableEnd, ⟨⟨8, 1, 9⟩, ⟨11, 1, 12⟩⟩⟩,
          ⟨.data "c", ⟨⟨12, 1, 13⟩, ⟨13, 1, 14⟩⟩⟩,
          ⟨.eof, ⟨⟨13, 1, 14⟩, ⟨13, 1, 14⟩⟩⟩] } := by cbv
  refine ⟨_, h, rfl, tokenize_lossless h, ?_⟩
  intro span rest layout huntrimmed
  have hcut : Text.breakAt (fun cs => (openerAt cs).isSome) "a \x7b\x7b- b -\x7d\x7d c".toList
      = (['a', ' '], '\x7b' :: (Opener.tag .expression).mark :: '-' ::
        [' ', 'b', ' ', '-', '\x7d', '\x7d', ' ', 'c']) := by decide
  obtain ⟨text, _, _, htokens, hlast⟩ :=
    huntrimmed.last_not_blank hcut (c := 'a') (by simp) (by decide)
  have hdata : "a " = String.ofList text := by
    injection htokens with hfirst
    injection hfirst with hvalue
    injection hvalue
  have htext : text = ['a', ' '] := by
    rw [← String.toList_ofList (l := text), ← hdata]
    decide
  rw [htext] at hlast
  exact absurd (hlast ' ' rfl) (by decide)

end Lexer

end QueryMachine
