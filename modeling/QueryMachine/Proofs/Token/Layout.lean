import QueryMachine.Token.Lexer
import Mathlib.Data.Nat.Digits.Defs

/-!
# How a text is laid out in tokens

The lexer drops comments, the blanks inside tags and the blanks that a `-`
removes, so its tokens alone do not say what the text was. A layout does: it
is the text cut into runs of data with a tag or a comment between any two of
them, down to the blanks before each lexeme of a tag. Every character of the
text stands in exactly one part of its layout, and each part knows whether it
is under a token or, if not, why it was dropped. Whether an opener or a closer
carries a `-` is not for the layout to choose: the character next to it decides
(`Markup.trimsBefore_eq`, `Markup.trimsAfter_eq`).

`exists_layout` is what the other files use: a text on which the lexer
succeeds has a layout, and the tokens are those of the layout with the spans
that the layout gives them. The proof follows the machine. A successful run is
the list of its steps (`Runs`), each mode of the machine has its own share of a
layout still to come (`Remains`), and each step adds one piece to it.
-/

namespace QueryMachine

/-! ## Sizes in bytes -/

theorem utf8ByteSize_eq_sum (s : String) :
    s.utf8ByteSize = (s.toList.map Char.utf8Size).sum := by
  conv => lhs; rw [← String.ofList_toList (s := s)]
  induction s.toList with
  | nil => rfl
  | cons c cs ih =>
    rw [String.ofList_cons, String.utf8ByteSize_append, String.utf8ByteSize_singleton, ih,
      List.map_cons, List.sum_cons]

theorem sum_utf8Size_pos {cs : List Char} (h : cs ≠ []) : 0 < (cs.map Char.utf8Size).sum := by
  cases cs with
  | nil => exact absurd rfl h
  | cons c cs =>
    have := c.utf8Size_pos
    rw [List.map_cons, List.sum_cons]
    omega

/-- Of two beginnings of a text, the one with fewer bytes is a beginning of the other. -/
theorem exists_eq_append_of_le {as bs as' bs' : List Char} (h : as ++ bs = as' ++ bs')
    (hle : (as.map Char.utf8Size).sum ≤ (as'.map Char.utf8Size).sum) :
    ∃ between, as' = as ++ between ∧ bs = between ++ bs' := by
  rcases List.append_eq_append_iff.mp h with ⟨between, rfl, rfl⟩ | ⟨between, rfl, rfl⟩
  · exact ⟨between, rfl, rfl⟩
  · have hnil : between = [] := by
      by_contra hne
      have hpos := sum_utf8Size_pos hne
      rw [List.map_append, List.sum_append] at hle
      omega
    subst hnil
    exact ⟨[], by simp, by simp⟩

/-- A place moves on by the bytes of what it passes. -/
theorem Position.offset_advanceOver (p : Position) (cs : List Char) :
    (p.advanceOver cs).offset = p.offset + (cs.map Char.utf8Size).sum := by
  induction cs generalizing p with
  | nil => simp
  | cons c cs ih =>
    have hc : (p.advance c).offset = p.offset + c.utf8Size := by
      unfold Position.advance
      split
      · next h => subst h; rfl
      · rfl
    rw [Position.advanceOver_cons, ih, hc, List.map_cons, List.sum_cons]
    omega

namespace Lexer

/-! ## What tokens look like in a text -/

/-- The characters of a string literal between its quotes, and the value they
stand for. A quote ends the literal unless an escape takes it. -/
inductive Unescapes (quote : Char) : List Char → List Char → Prop where
  | nil : Unescapes quote [] []
  | plain {c : Char} {cs value : List Char} : c ≠ quote → c ≠ '\\' →
      Unescapes quote cs value → Unescapes quote (c :: cs) (c :: value)
  | escape {e : Char} {cs value : List Char} :
      Unescapes quote cs value → Unescapes quote ('\\' :: e :: cs) (unescape e :: value)

def dashText (dash : Bool) : List Char := if dash then ['-'] else []

/-- The number that a word of digits denotes. -/
def decimal (digits : List Char) : Nat :=
  Nat.ofDigits 10 (digits.reverse.map digitValue)

/-- The texts that a token may have in a template. -/
inductive Spells : Token → List Char → Prop where
  | data (text : List Char) : Spells (.data (String.ofList text)) text
  | name {c : Char} {cs : List Char} : isNameStart c = true → (∀ d ∈ cs, isWordChar d = true) →
      Spells (.name (String.ofList (c :: cs))) (c :: cs)
  | integer {digits : List Char} : digits ≠ [] → (∀ c ∈ digits, c.isDigit) →
      Spells (.integer (decimal digits)) digits
  | string {quote : Char} {body value : List Char} : quote = '"' ∨ quote = '\'' →
      Unescapes quote body value →
      Spells (.string (String.ofList value)) (quote :: body ++ [quote])
  | leftParen : Spells .leftParen ['(']
  | rightParen : Spells .rightParen [')']
  | comma : Spells .comma [',']
  | assign : Spells .assign ['=']
  | minus : Spells .minus ['-']
  | variableBegin (dash : Bool) : Spells .variableBegin (['\x7b', '\x7b'] ++ dashText dash)
  | blockBegin (dash : Bool) : Spells .blockBegin (['\x7b', '%'] ++ dashText dash)
  | variableEnd (dash : Bool) : Spells .variableEnd (dashText dash ++ ['\x7d', '\x7d'])
  | blockEnd (dash : Bool) : Spells .blockEnd (dashText dash ++ ['%', '\x7d'])
  | eof : Spells .eof []

/-- The tokens that stand inside a tag, between its delimiters. -/
def isContent : Token → Bool
  | .name _ | .string _ | .integer _ | .leftParen | .rightParen | .comma | .assign
  | .minus => true
  | _ => false

/-! ## Layouts -/

/-- Data between two tags or comments: the blanks removed at its start, the
text that is kept, and the blanks removed at its end. -/
structure Run where
  lead : List Char
  text : List Char
  trail : List Char

/-- A lexeme of a tag, with the blanks before it. -/
structure Word where
  blanks : List Char
  lexeme : List Char
  token : Token

/-- A comment, or a tag. `dash` is the `-` of its opener; that of a comment's
closer is the last character of its body. -/
inductive Markup where
  | comment (dash : Bool) (body : List Char)
  | tag (kind : TagKind) (dash : Bool) (words : List Word) (blanks : List Char)
      (closeDash : Bool)

/-- A text cut into runs, with a tag or a comment between any two of them. -/
inductive Layout where
  | last (run : Run)
  | cons (run : Run) (markup : Markup) (rest : Layout)

/-- A part of a text: the lexeme of a token, or something dropped. -/
inductive Part where
  | lexeme (token : Token) (text : List Char)
  /-- Blanks inside a tag. -/
  | tagBlanks (text : List Char)
  /-- A whole comment. -/
  | comment (text : List Char)
  /-- Blanks of a run that the `-` beside it removes. -/
  | trimmed (text : List Char)

namespace Part

def text : Part → List Char
  | lexeme _ text | tagBlanks text | comment text | trimmed text => text

/-- What the lexer recognises in a part that begins at `pos`. -/
def recognised (pos : Position) : Part → List Lexeme
  | lexeme token text => [.token ⟨token, ⟨pos, pos.advanceOver text⟩⟩]
  | comment _ => [.comment]
  | tagBlanks _ | trimmed _ => []

end Part

def textOf (parts : List Part) : List Char := parts.flatMap Part.text

/-- What the lexer recognises in parts that begin at `pos`. -/
def place (pos : Position) : List Part → List Lexeme
  | [] => []
  | part :: rest => part.recognised pos ++ place (pos.advanceOver part.text) rest

def tokensOf (lexemes : List Lexeme) : List (Located Token) :=
  lexemes.filterMap fun
    | .token token => some token
    | .comment => none

theorem tokensOf_append (as bs : List Lexeme) :
    tokensOf (as ++ bs) = tokensOf as ++ tokensOf bs := by
  simp [tokensOf]

@[simp] theorem textOf_nil : textOf [] = [] := rfl

@[simp] theorem textOf_cons (part : Part) (parts : List Part) :
    textOf (part :: parts) = part.text ++ textOf parts := rfl

@[simp] theorem textOf_append (as bs : List Part) :
    textOf (as ++ bs) = textOf as ++ textOf bs := by
  simp [textOf]

@[simp] theorem place_nil (pos : Position) : place pos [] = [] := rfl

@[simp] theorem place_cons (pos : Position) (part : Part) (parts : List Part) :
    place pos (part :: parts)
      = part.recognised pos ++ place (pos.advanceOver part.text) parts := rfl

theorem place_append (pos : Position) (as bs : List Part) :
    place pos (as ++ bs) = place pos as ++ place (pos.advanceOver (textOf as)) bs := by
  induction as generalizing pos with
  | nil => rfl
  | cons part as ih =>
    rw [List.cons_append, place_cons, ih, place_cons, textOf_cons,
      Position.advanceOver_append, List.append_assoc]

namespace Run

/-- The whole run, removed blanks included. -/
def all (r : Run) : List Char := r.lead ++ (r.text ++ r.trail)

/-- The parts of a run; a text that is empty has no token. -/
def parts (r : Run) : List Part :=
  .trimmed r.lead ::
    ((if r.text.isEmpty then [] else [.lexeme (.data (String.ofList r.text)) r.text]) ++
      [.trimmed r.trail])

/-- What a run looks like between its neighbours: `after` says whether the
closer before it carries a `-`, `before` whether the opener after it does. -/
structure Valid (after before : Bool) (r : Run) : Prop where
  lead_blank : ∀ c ∈ r.lead, Text.isBlank c = true
  trail_blank : ∀ c ∈ r.trail, Text.isBlank c = true
  /-- Nothing is removed without a `-`. -/
  lead_eq_nil : after = false → r.lead = []
  trail_eq_nil : before = false → r.trail = []
  /-- A `-` removes all blanks on its side. -/
  head_not_blank : after = true → ∀ c ∈ r.text.head?, Text.isBlank c = false
  last_not_blank : before = true → ∀ c ∈ r.text.getLast?, Text.isBlank c = false

end Run

namespace Word

def parts (w : Word) : List Part := [.tagBlanks w.blanks, .lexeme w.token w.lexeme]

structure Valid (w : Word) : Prop where
  blanks_blank : ∀ c ∈ w.blanks, Text.isBlank c = true
  spells : Spells w.token w.lexeme
  content : isContent w.token = true

end Word

def tagParts (kind : TagKind) (words : List Word) (blanks : List Char) (closeDash : Bool) :
    List Part :=
  words.flatMap Word.parts ++
    [.tagBlanks blanks,
     .lexeme kind.endToken (dashText closeDash ++ [kind.closeMark, '\x7d'])]

/-- The text of a tag between its opener and the last two characters of its closer. -/
def tagInside (words : List Word) (blanks : List Char) (closeDash : Bool) : List Char :=
  textOf (words.flatMap Word.parts) ++ (blanks ++ dashText closeDash)

theorem textOf_tagParts (kind : TagKind) (words : List Word) (blanks : List Char)
    (closeDash : Bool) :
    textOf (tagParts kind words blanks closeDash)
      = tagInside words blanks closeDash ++ [kind.closeMark, '\x7d'] := by
  simp [tagParts, tagInside, Part.text]

namespace Markup

def opener : Markup → Opener
  | comment .. => .comment
  | tag kind .. => .tag kind

/-- Whether the opener removes the blanks before it. -/
def trimsBefore : Markup → Bool
  | comment dash _ | tag _ dash .. => dash

/-- Whether the closer removes the blanks after it. -/
def trimsAfter : Markup → Bool
  | comment _ body => body.getLast? == some '-'
  | tag _ _ _ _ closeDash => closeDash

def openText (m : Markup) : List Char :=
  '\x7b' :: m.opener.mark :: dashText m.trimsBefore

/-- What stands behind the opener and its `-`, up to the last two characters. -/
def inside : Markup → List Char
  | comment _ body => body
  | tag _ _ words blanks closeDash => tagInside words blanks closeDash

def closeText : Markup → List Char
  | comment .. => ['#', '\x7d']
  | tag kind .. => [kind.closeMark, '\x7d']

def parts (m : Markup) : List Part :=
  match m with
  | comment _ body => [.comment (m.openText ++ (body ++ ['#', '\x7d']))]
  | tag kind _ words blanks closeDash =>
    .lexeme kind.beginToken m.openText :: tagParts kind words blanks closeDash

/-- A comment ends at the first `#}`; a tag holds lexemes and blanks. -/
def Filled : Markup → Prop
  | comment _ body =>
    ∀ suffix, suffix <:+ body → suffix ≠ [] → closesComment (suffix ++ ['#', '\x7d']) = false
  | tag _ _ words blanks _ =>
    (∀ w ∈ words, w.Valid) ∧ ∀ c ∈ blanks, Text.isBlank c = true

theorem textOf_parts (m : Markup) :
    textOf m.parts = m.openText ++ (m.inside ++ m.closeText) := by
  cases m with
  | comment => simp [parts, inside, closeText, Part.text]
  | tag =>
    rw [parts, textOf_cons, textOf_tagParts]
    rfl

/-- What a tag or a comment looks like. No `-` stands next to an opener or a closer
without being its own; where there is one `-` for both, the opener has it. -/
structure Valid (m : Markup) : Prop where
  filled : m.Filled
  head_ne_dash : m.trimsBefore = false → m.inside.head? ≠ some '-'
  last_ne_dash : m.trimsAfter = false → m.inside.getLast? ≠ some '-'

end Markup

namespace Layout

/-- The parts of a text, the end marker included. -/
def parts : Layout → List Part
  | last run => run.parts ++ [.lexeme .eof []]
  | cons run markup rest => run.parts ++ (markup.parts ++ rest.parts)

def text (l : Layout) : List Char := textOf l.parts

/-- The tokens with the spans that the layout gives them. -/
def tokens (l : Layout) : List (Located Token) :=
  tokensOf (place .start l.parts)

/-- No tag or comment begins inside a run that is followed by `rest`. -/
def IsData (run rest : List Char) : Prop :=
  ∀ suffix, suffix <:+ run → suffix ≠ [] → openerAt (suffix ++ rest) = none

/-- What a layout looks like after a closer that carries a `-` or not. -/
def Valid (after : Bool) : Layout → Prop
  | last run => run.Valid after false ∧ IsData run.all []
  | cons run markup rest =>
    run.Valid after markup.trimsBefore ∧
      IsData run.all (textOf markup.parts ++ rest.text) ∧
      markup.Valid ∧ rest.Valid markup.trimsAfter

end Layout

/-! ## Successful runs -/

/-- A run of the machine to the end of the text, with what it recognises. -/
inductive Runs : State → List Lexeme → Prop where
  | more {s next : State} {lexeme : Option Lexeme} {lexemes : List Lexeme} :
      step s = .more lexeme next → Runs next lexemes → Runs s (lexeme.toList ++ lexemes)
  | finished {s : State} {marker : Located Token} :
      step s = .finished marker → Runs s [.token marker]

theorem runs_of_runFrom {s : State} {before : Array Lexeme}
    (h : (runFrom s before).failure = none) :
    ∃ lexemes, (runFrom s before).lexemes.toList = before.toList ++ lexemes ∧
      Runs s lexemes := by
  fun_induction runFrom s before with
  | case1 s before lexeme next hstep ih =>
    obtain ⟨lexemes, heq, hruns⟩ := ih h
    exact ⟨lexeme :: lexemes, by simp [heq], .more hstep hruns⟩
  | case2 s before next hstep ih =>
    obtain ⟨lexemes, heq, hruns⟩ := ih h
    exact ⟨lexemes, heq, .more hstep hruns⟩
  | case3 s before marker hstep => exact ⟨[.token marker], by simp, .finished hstep⟩
  | case4 => simp at h

theorem tokens_of_countFrom {seen result : Lexed} {lexemes : List Lexeme}
    (h : countFrom seen lexemes = .ok result) :
    result.tokens.toList = seen.tokens.toList ++ tokensOf lexemes := by
  induction lexemes generalizing seen with
  | nil =>
    cases h
    simp [tokensOf]
  | cons lexeme lexemes ih =>
    rw [countFrom] at h
    split at h
    · next seen' hcount =>
      rw [ih h]
      cases lexeme with
      | comment =>
        cases hcount
        rfl
      | token token =>
        simp only [count] at hcount
        split at hcount
        · cases hcount
          simp [tokensOf]
        · cases hcount
    · cases h

theorem runs_of_tokenize {source : String} {lexed : Lexed}
    (h : tokenize source = .ok lexed) :
    ∃ lexemes, Runs ⟨.data false, .start, source.toList⟩ lexemes ∧
      lexed.tokens.toList = tokensOf lexemes := by
  unfold tokenize Trace.result at h
  split at h
  · cases h
  · cases h
  · next seen hcount hfailure =>
    cases h
    obtain ⟨lexemes, heq, hruns⟩ := runs_of_runFrom hfailure
    refine ⟨lexemes, hruns, ?_⟩
    have htokens := tokens_of_countFrom hcount
    rw [scan, heq] at htokens
    simpa using htokens

/-! ## Runs of data -/

/-- The run that whitespace control makes of some data. -/
def Run.cut (trimFirst trimLast : Bool) (run : List Char) : Run :=
  let lead := if trimFirst then run.takeWhile Text.isBlank else []
  let text := if trimFirst then Text.trimStart run else run
  { lead
    text := if trimLast then Text.trimEnd text else text
    trail := if trimLast then (text.reverse.takeWhile Text.isBlank).reverse else [] }

theorem trimEnd_append_trail (cs : List Char) :
    Text.trimEnd cs ++ (cs.reverse.takeWhile Text.isBlank).reverse = cs := by
  rw [Text.trimEnd, ← List.reverse_append, List.takeWhile_append_dropWhile,
    List.reverse_reverse]

theorem Run.all_cut (trimFirst trimLast : Bool) (run : List Char) :
    (Run.cut trimFirst trimLast run).all = run := by
  cases trimFirst <;> cases trimLast <;>
    simp [Run.cut, Run.all, Text.trimStart, trimEnd_append_trail,
      List.takeWhile_append_dropWhile]

theorem isBlank_of_mem_takeWhile {c : Char} {cs : List Char}
    (h : c ∈ cs.takeWhile Text.isBlank) : Text.isBlank c = true := by
  have := List.all_takeWhile (p := Text.isBlank) (l := cs)
  exact List.all_eq_true.mp this c h

theorem head?_trimEnd {c : Char} {cs : List Char} (h : c ∈ (Text.trimEnd cs).head?) :
    c ∈ cs.head? := by
  have happ := trimEnd_append_trail cs
  cases htrim : Text.trimEnd cs with
  | nil => rw [htrim] at h; cases h
  | cons d ds =>
    rw [htrim] at h happ
    rw [← happ]
    exact h

theorem Run.valid_cut (trimFirst trimLast : Bool) (run : List Char) :
    (Run.cut trimFirst trimLast run).Valid trimFirst trimLast where
  lead_blank := by
    intro c hc
    cases trimFirst
    · cases hc
    · exact isBlank_of_mem_takeWhile hc
  trail_blank := by
    intro c hc
    cases trimLast
    · cases hc
    · exact isBlank_of_mem_takeWhile (List.mem_reverse.mp hc)
  lead_eq_nil := by
    rintro rfl
    rfl
  trail_eq_nil := by
    rintro rfl
    rfl
  head_not_blank := by
    rintro rfl c hc
    have hdrop : c ∈ (run.dropWhile Text.isBlank).head? := by
      cases trimLast
      · exact hc
      · exact head?_trimEnd hc
    have := List.head?_dropWhile_not Text.isBlank run
    rw [Option.mem_def.mp hdrop] at this
    simpa using this
  last_not_blank := by
    rintro rfl c hc
    have hdrop : c ∈ ((if trimFirst then Text.trimStart run else run).reverse.dropWhile
        Text.isBlank).head? := by
      simpa [Run.cut, Text.trimEnd] using hc
    have := List.head?_dropWhile_not Text.isBlank
      (if trimFirst then Text.trimStart run else run).reverse
    rw [Option.mem_def.mp hdrop] at this
    simpa using this

theorem Run.place_parts_cut (trimFirst trimLast : Bool) (pos : Position) (run : List Char) :
    place pos (Run.cut trimFirst trimLast run).parts
      = ((dataToken trimFirst trimLast pos run).map Lexeme.token).toList := by
  cases trimFirst <;> cases trimLast <;>
    simp only [Run.parts, Run.cut, dataToken, Bool.false_eq_true, if_false, if_true] <;>
    split <;> simp [Part.recognised, Part.text]

theorem Run.textOf_parts (r : Run) : textOf r.parts = r.all := by
  unfold Run.parts Run.all
  cases r.text <;> simp [Part.text]

/-! ## The dashes of a text -/

theorem beginsWithDash_eq (cs : List Char) : beginsWithDash cs = (cs.head? == some '-') := by
  match cs with
  | [] => rfl
  | c :: cs =>
    rw [beginsWithDash.eq_def, List.head?_cons]
    split
    · next heq =>
      cases heq
      rfl
    · next hne =>
      have hc : c ≠ '-' := fun hc => hne cs (by rw [hc])
      simpa using hc

theorem head_ne_dash_of_append {inside rest : List Char}
    (h : beginsWithDash (inside ++ rest) = false) : inside.head? ≠ some '-' := by
  intro hhead
  rw [beginsWithDash_eq, List.head?_append, hhead] at h
  cases h

theorem beginsWithDash_append_eq_false {inside rest : List Char} (hinside : inside.head? ≠ some '-')
    (hrest : rest.head? ≠ some '-') : beginsWithDash (inside ++ rest) = false := by
  rw [beginsWithDash_eq, List.head?_append]
  cases hhead : inside.head? with
  | none => simpa using hrest
  | some c =>
    rw [hhead] at hinside
    simpa using hinside

/-- The `-` of an opener is told by the character behind its first two. -/
theorem Markup.trimsBefore_eq {m : Markup} (h : m.Valid) (rest : List Char) :
    m.trimsBefore
      = beginsWithDash (dashText m.trimsBefore ++ (m.inside ++ (m.closeText ++ rest))) := by
  cases htrims : m.trimsBefore with
  | true => rfl
  | false =>
    have hclose : (m.closeText ++ rest).head? ≠ some '-' := by
      rcases m with _ | ⟨_ | _⟩ <;> simp [Markup.closeText, TagKind.closeMark]
    rw [dashText, if_neg (by simp), List.nil_append]
    exact (beginsWithDash_append_eq_false (h.head_ne_dash htrims) hclose).symm

/-- The `-` of a closer is told by the character before its last two, if the opener leaves
one there. -/
theorem Markup.trimsAfter_eq {m : Markup} (h : m.Valid) :
    m.trimsAfter = (m.inside.getLast? == some '-') := by
  cases htrims : m.trimsAfter with
  | false => simpa using h.last_ne_dash htrims
  | true =>
    cases m with
    | comment dash body => exact htrims.symm
    | tag kind dash words blanks closeDash =>
      have hclose : closeDash = true := htrims
      simp [Markup.inside, tagInside, hclose, dashText]

/-! ## The first run of a text -/

/-- A cut is made where it can be made first. -/
theorem breakAt_append_eq {stop : List Char → Bool} {cs rest : List Char}
    (hcs : ∀ suffix, suffix <:+ cs → suffix ≠ [] → stop (suffix ++ rest) = false)
    (hrest : rest = [] ∨ stop rest = true) : Text.breakAt stop (cs ++ rest) = (cs, rest) := by
  induction cs with
  | nil =>
    rw [List.nil_append]
    cases rest with
    | nil => rfl
    | cons c rest =>
      have hstop : stop (c :: rest) = true := hrest.resolve_left (by simp)
      rw [Text.breakAt_cons, if_pos hstop]
  | cons c cs ih =>
    have hc := hcs (c :: cs) (List.suffix_refl _) (by simp)
    have ih := ih fun suffix hsuffix =>
      hcs suffix (hsuffix.trans (List.suffix_cons c cs))
    rw [List.cons_append, Text.breakAt_cons, if_neg (by simpa using hc), ih]

theorem openerAt_mark (kind : Opener) (inside : List Char) :
    openerAt ('\x7b' :: kind.mark :: inside) = some (kind, inside) := by
  match kind with
  | .tag .expression | .tag .block | .comment => rfl

theorem Markup.openerAt_text (m : Markup) (rest : List Char) :
    openerAt (textOf m.parts ++ rest)
      = some (m.opener, dashText m.trimsBefore ++ (m.inside ++ (m.closeText ++ rest))) := by
  rw [m.textOf_parts, openText, List.append_assoc, List.append_assoc]
  exact openerAt_mark m.opener _

/-- The first run of a layout, and the text behind it. -/
def Layout.split : Layout → List Char × List Char
  | last run => (run.all, [])
  | cons run m rest => (run.all, textOf m.parts ++ rest.text)

/-- The first run of a layout ends at the first opener of the text. -/
theorem Layout.breakAt_text {after : Bool} {l : Layout} (h : l.Valid after) :
    Text.breakAt (fun cs => (openerAt cs).isSome) l.text = l.split := by
  cases l with
  | last run =>
    have htext : (Layout.last run).text = run.all ++ [] := by
      simp [Layout.text, Layout.parts, Run.textOf_parts, Part.text]
    rw [htext]
    refine breakAt_append_eq ?_ (.inl rfl)
    intro suffix hsuffix hne
    rw [h.2 suffix hsuffix hne]
    rfl
  | cons run m rest =>
    rw [Layout.text, Layout.parts, textOf_append, textOf_append, Run.textOf_parts, ← Layout.text]
    refine breakAt_append_eq ?_ (.inr ?_)
    · intro suffix hsuffix hne
      rw [h.2.1 suffix hsuffix hne]
      rfl
    · rw [Markup.openerAt_text]
      rfl

/-- The first run of a layout loses the blanks at its end if a `-` stands behind the two
characters of the first opener. -/
theorem Layout.exists_first_run {after : Bool} {l : Layout} (h : l.Valid after)
    {run inside : List Char} {kind : Opener}
    (hcut : Text.breakAt (fun cs => (openerAt cs).isSome) l.text
      = (run, '\x7b' :: kind.mark :: inside)) :
    ∃ r m rest, l = .cons r m rest ∧ r.all = run ∧ r.Valid after (beginsWithDash inside) := by
  rw [Layout.breakAt_text h] at hcut
  cases l with
  | last r => cases hcut
  | cons r m rest =>
    obtain ⟨hr, -, hm, -⟩ := h
    obtain ⟨hall, hmarkup⟩ := Prod.mk.inj hcut
    rw [Markup.textOf_parts, Markup.openText, List.append_assoc, List.append_assoc] at hmarkup
    have hinside : dashText m.trimsBefore ++ (m.inside ++ (m.closeText ++ rest.text)) = inside :=
      (List.cons.inj (List.cons.inj hmarkup).2).2
    rw [← hinside, ← Markup.trimsBefore_eq hm]
    exact ⟨r, m, rest, rfl, hall, hr⟩

/-! ## What the machine has still to read

Each mode stands at a different place of a layout: before a run, inside an
opener whose first two characters are passed, or between two lexemes of a
tag. -/

/-- The rest of a text has a layout, and `lexemes` is what is recognised in it. -/
def Remains (s : State) (lexemes : List Lexeme) : Prop :=
  match s.mode with
  | .data trim =>
    ∃ l : Layout, l.Valid trim ∧ l.text = s.rest ∧ place s.pos l.parts = lexemes
  | .opener kind =>
    ∃ (m : Markup) (l : Layout), m.opener = kind ∧ m.trimsBefore = beginsWithDash s.rest ∧
      m.Valid ∧ l.Valid m.trimsAfter ∧
      textOf (m.parts ++ l.parts) = '\x7b' :: kind.mark :: s.rest ∧
      place s.pos (m.parts ++ l.parts) = lexemes
  | .tag kind _ =>
    ∃ (words : List Word) (blanks : List Char) (closeDash : Bool) (l : Layout),
      (∀ w ∈ words, w.Valid) ∧ (∀ c ∈ blanks, Text.isBlank c = true) ∧
      (closeDash = false → (tagInside words blanks closeDash).getLast? ≠ some '-') ∧
      l.Valid closeDash ∧
      textOf (tagParts kind words blanks closeDash ++ l.parts) = s.rest ∧
      place s.pos (tagParts kind words blanks closeDash ++ l.parts) = lexemes

theorem eq_of_openerAt {cs inside : List Char} {kind : Opener}
    (h : openerAt cs = some (kind, inside)) : cs = '\x7b' :: kind.mark :: inside := by
  unfold openerAt at h
  split at h <;> cases h <;> rfl

/-- No opener begins inside the data that a cut at openers passes. -/
theorem isData_breakAt (cs : List Char) :
    Layout.IsData (Text.breakAt (fun cs => (openerAt cs).isSome) cs).1
      (Text.breakAt (fun cs => (openerAt cs).isSome) cs).2 := by
  intro suffix hsuffix hne
  simpa using Text.stop_eq_false_of_suffix hsuffix hne

theorem Markup.textOf_parts_ne_nil (m : Markup) : textOf m.parts ≠ [] := by
  cases m <;> simp [Markup.parts, Markup.openText, Part.text]

/-- Only the end marker stands in a text of no characters. -/
theorem eq_last_of_text_eq_nil {l : Layout} (h : l.text = []) : l = .last ⟨[], [], []⟩ := by
  cases l with
  | last run =>
    simp only [Layout.text, Layout.parts, textOf_append, Run.textOf_parts, Run.all,
      List.append_eq_nil_iff] at h
    obtain ⟨⟨hlead, htext, htrail⟩, -⟩ := h
    cases run
    simp only at hlead htext htrail
    rw [hlead, htext, htrail]
  | cons run m rest =>
    simp only [Layout.text, Layout.parts, textOf_append, List.append_eq_nil_iff] at h
    exact absurd h.2.1 m.textOf_parts_ne_nil

theorem remains_of_stepData {trim : Bool} {pos : Position} {cs : List Char}
    {lexeme : Option Lexeme} {next : State} {lexemes : List Lexeme}
    (h : stepData trim pos cs = .more lexeme next) (hrest : Remains next lexemes) :
    Remains ⟨.data trim, pos, cs⟩ (lexeme.toList ++ lexemes) := by
  have happ := Text.breakAt_append (fun cs => (openerAt cs).isSome) cs
  have hdata := isData_breakAt cs
  have hstop := Text.breakAt_snd (fun cs => (openerAt cs).isSome) cs
  unfold stepData at h
  split at h
  · cases h
  · generalize Text.breakAt (fun cs => (openerAt cs).isSome) (_ :: _) = run at *
    obtain ⟨run, after⟩ := run
    simp only at h happ hdata hstop
    split at h
    · next kind inside hopen =>
      cases h
      obtain ⟨m, l, -, hdash, hm, hl, htext, hplace⟩ := hrest
      rw [← eq_of_openerAt hopen] at htext
      refine ⟨.cons (Run.cut trim (beginsWithDash inside) run) m l, ?_, ?_, ?_⟩
      · refine ⟨?_, ?_, hm, hl⟩
        · rw [hdash]
          exact Run.valid_cut ..
        · rw [Run.all_cut, Layout.text, ← textOf_append, htext]
          exact hdata
      · rw [Layout.text, Layout.parts, textOf_append, htext, Run.textOf_parts, Run.all_cut,
          happ]
      · rw [Layout.parts, place_append, Run.place_parts_cut, Run.textOf_parts, Run.all_cut,
          hplace]
    · next hnone =>
      cases h
      -- Without an opener the run reaches the end of the text, so what follows
      -- it is a layout of nothing: the end marker.
      have hafter : after = [] := by
        rcases hstop with hnil | hsome
        · exact hnil
        · rw [hnone] at hsome
          cases hsome
      subst hafter
      rw [List.append_nil] at happ
      obtain ⟨l, -, htext, hplace⟩ := hrest
      rw [eq_last_of_text_eq_nil htext] at hplace
      refine ⟨.last (Run.cut trim false run), ⟨Run.valid_cut .., ?_⟩, ?_, ?_⟩
      · rw [Run.all_cut]
        exact hdata
      · rw [Layout.text, Layout.parts, textOf_append, Run.textOf_parts, Run.all_cut, happ]
        simp [Part.text]
      · rw [Layout.parts, place_append, Run.place_parts_cut, Run.textOf_parts, Run.all_cut,
          ← hplace]
        rfl

theorem remains_of_finished {trim : Bool} {pos : Position} {cs : List Char}
    {marker : Located Token} (h : stepData trim pos cs = .finished marker) :
    Remains ⟨.data trim, pos, cs⟩ [.token marker] := by
  unfold stepData at h
  split at h
  · cases h
    refine ⟨.last ⟨[], [], []⟩, ⟨⟨?_, ?_, ?_, ?_, ?_, ?_⟩, ?_⟩, rfl, rfl⟩
    all_goals simp [Layout.IsData, Run.all]
  · simp only at h
    split at h <;> cases h

theorem skipDash_eq (pos : Position) (cs : List Char) :
    dashText (beginsWithDash cs) ++ (skipDash pos cs).2 = cs ∧
      (skipDash pos cs).1 = pos.advanceOver (dashText (beginsWithDash cs)) := by
  unfold skipDash beginsWithDash
  split <;> exact ⟨rfl, rfl⟩

theorem eq_of_closesComment {cs : List Char} (h : closesComment cs = true) :
    cs = '#' :: '\x7d' :: cs.drop 2 := by
  unfold closesComment at h
  split at h
  · rfl
  · cases h

theorem closesComment_append {as : List Char} (hne : as ≠ []) (bs cs : List Char) :
    closesComment (as ++ ('#' :: bs)) = closesComment (as ++ ('#' :: cs)) := by
  match as with
  | [] => exact absurd rfl hne
  | [a] => by_cases ha : a = '#' <;> simp [closesComment, ha]
  | a :: b :: as =>
    by_cases h : a = '#' ∧ b = '\x7d'
    · obtain ⟨rfl, rfl⟩ := h
      rfl
    · simp only [List.cons_append, closesComment]
      split <;> split <;> simp_all

/-- A step over a comment passes its body, which ends at the first closer. -/
theorem exists_body_of_stepComment {opened : Span} {pos : Position} {cs : List Char}
    {lexeme : Option Lexeme} {next : State}
    (h : stepComment opened pos cs = .more lexeme next) :
    ∃ body rest, (∀ dash, (Markup.comment dash body).Filled) ∧
      cs = body ++ '#' :: '\x7d' :: rest ∧ lexeme = some .comment ∧
      next = ⟨.data (body.getLast? == some '-'),
        (pos.advanceOver body).advanceOver ['#', '\x7d'], rest⟩ := by
  have happ := Text.breakAt_append closesComment cs
  have hstop := Text.breakAt_snd closesComment cs
  have hbody : ∀ suffix, suffix <:+ (Text.breakAt closesComment cs).1 → suffix ≠ [] →
      closesComment (suffix ++ (Text.breakAt closesComment cs).2) = false :=
    fun _ => Text.stop_eq_false_of_suffix
  unfold stepComment at h
  generalize Text.breakAt closesComment cs = cut at *
  obtain ⟨body, after⟩ := cut
  simp only at h happ hstop hbody
  split at h
  · cases h
  · next hne =>
    cases h
    have hclose : after = '#' :: '\x7d' :: after.drop 2 := by
      rcases hstop with hnil | hstop
      · exact absurd hnil hne
      · exact eq_of_closesComment hstop
    refine ⟨body, after.drop 2, ?_, by rw [← hclose, happ], rfl, rfl⟩
    intro dash suffix hsuffix hsne
    have := hbody suffix hsuffix hsne
    rw [hclose] at this
    rw [← this]
    exact closesComment_append hsne _ _

theorem remains_of_stepComment {dash : Bool} {pos start : Position} {opened : Span}
    {cs : List Char} {lexeme : Option Lexeme} {next : State} {lexemes : List Lexeme}
    (hpos : pos = start.advanceOver ('\x7b' :: '#' :: dashText dash))
    (hdash : dash = false → beginsWithDash cs = false)
    (h : stepComment opened pos cs = .more lexeme next) (hrest : Remains next lexemes) :
    ∃ (m : Markup) (l : Layout), m.opener = .comment ∧ m.trimsBefore = dash ∧ m.Valid ∧
      l.Valid m.trimsAfter ∧
      textOf (m.parts ++ l.parts) = '\x7b' :: '#' :: (dashText dash ++ cs) ∧
      place start (m.parts ++ l.parts) = lexeme.toList ++ lexemes := by
  obtain ⟨body, rest, hbody, rfl, rfl, rfl⟩ := exists_body_of_stepComment h
  obtain ⟨l, hl, htext, hplace⟩ := hrest
  have hvalid : (Markup.comment dash body).Valid := by
    refine ⟨hbody dash, fun hopen => head_ne_dash_of_append (hdash hopen), ?_⟩
    intro htrim hlast
    rw [Markup.trimsAfter, show body.getLast? = some '-' from hlast] at htrim
    cases htrim
  refine ⟨.comment dash body, l, rfl, rfl, hvalid, hl, ?_, ?_⟩
  · rw [textOf_append, ← Layout.text, htext]
    simp [Markup.parts, Markup.openText, Markup.opener, Markup.trimsBefore, Opener.mark,
      Part.text]
  · rw [place_append, ← hplace, hpos]
    simp [Markup.parts, Markup.openText, Markup.opener, Markup.trimsBefore, Opener.mark,
      Part.text, Part.recognised, Position.advanceOver_append]

theorem remains_of_stepOpener {kind : Opener} {pos : Position} {cs : List Char}
    {lexeme : Option Lexeme} {next : State} {lexemes : List Lexeme}
    (h : stepOpener kind pos cs = .more lexeme next) (hrest : Remains next lexemes) :
    Remains ⟨.opener kind, pos, cs⟩ (lexeme.toList ++ lexemes) := by
  obtain ⟨hcs, hpos⟩ := skipDash_eq (pos.advanceOver ['\x7b', kind.mark]) cs
  rw [← Position.advanceOver_append] at hpos
  unfold stepOpener at h
  generalize skipDash (pos.advanceOver ['\x7b', kind.mark]) cs = inside at *
  obtain ⟨inner, after⟩ := inside
  simp only at h hcs hpos
  -- Where the opener takes no `-`, what follows it does not begin with one.
  have hdash : beginsWithDash cs = false → beginsWithDash after = false := by
    intro hno
    rw [hno] at hcs
    rwa [show after = cs from hcs]
  cases kind with
  | tag kind =>
    cases h
    obtain ⟨words, blanks, closeDash, l, hwords, hblanks, hlast, hl, htext, hplace⟩ := hrest
    have hhead : beginsWithDash cs = false →
        (tagInside words blanks closeDash).head? ≠ some '-' := by
      intro hno
      have hafter := hdash hno
      rw [← show _ = after from htext, textOf_append, textOf_tagParts,
        List.append_assoc] at hafter
      exact head_ne_dash_of_append hafter
    refine ⟨.tag kind (beginsWithDash cs) words blanks closeDash, l, rfl, rfl,
      ⟨⟨hwords, hblanks⟩, hhead, hlast⟩, hl, ?_, ?_⟩
    · simp only [Markup.parts, List.cons_append, textOf_cons, htext, Part.text,
        Markup.openText, Markup.opener, Markup.trimsBefore]
      rw [hcs]
    · simp only [Markup.parts, List.cons_append, place_cons, Part.recognised, Part.text,
        Markup.openText, Markup.opener, Markup.trimsBefore]
      simp only [List.cons_append, List.nil_append] at hpos
      rw [← hpos, hplace]
      rfl
  | comment =>
    obtain ⟨m, l, hopener, hopens, hm, hl, htext, hplace⟩ :=
      remains_of_stepComment hpos hdash h hrest
    refine ⟨m, l, hopener, hopens, hm, hl, ?_, hplace⟩
    rw [htext, hcs]
    rfl

/-! ## Inside a tag -/

theorem eq_of_closerAt {kind : TagKind} {cs : List Char} {closer : Closer}
    (h : closerAt kind cs = some closer) :
    closer.lexeme ++ closer.after = cs ∧
      closer.lexeme = dashText closer.trims ++ [kind.closeMark, '\x7d'] := by
  unfold closerAt at h
  split at h
  · split at h
    · next hmark =>
      obtain ⟨rfl, rfl⟩ := hmark
      cases h
      exact ⟨rfl, rfl⟩
    · split at h
      · next hmark =>
        obtain ⟨rfl, rfl⟩ := hmark
        split at h
        · cases h
          exact ⟨rfl, rfl⟩
        · cases h
      · cases h
  · cases h

/-- Reading digits after the number `value` appends them to it. -/
theorem integerFrom_eq_some {value n : Nat} {cs : List Char}
    (h : integerFrom value cs = some n) :
    (∀ c ∈ cs, c.isDigit) ∧ n = value * 10 ^ cs.length + decimal cs := by
  induction cs generalizing value with
  | nil =>
    cases h
    simp [decimal]
  | cons c cs ih =>
    rw [integerFrom] at h
    split at h
    · next hc =>
      obtain ⟨hdigits, rfl⟩ := ih h
      refine ⟨?_, ?_⟩
      · intro d hd
        rcases List.mem_cons.mp hd with rfl | hd
        · exact hc.1
        · exact hdigits d hd
      · simp only [decimal, List.reverse_cons, List.map_append, List.map_cons, List.map_nil,
          Nat.ofDigits_append, Nat.ofDigits_singleton, List.length_map, List.length_reverse,
          List.length_cons]
        ring
    · cases h

/-- A string literal that is closed: its body and the value it was read as. -/
theorem unescapes_of_readString {quote : Char} {before cs value after : List Char}
    {size : Nat} {pos stop : Position}
    (h : readString quote before size pos cs = .closed value stop after) :
    ∃ body added, cs = body ++ quote :: after ∧ stop = pos.advanceOver (body ++ [quote]) ∧
      value = before.reverse ++ added ∧ Unescapes quote body added := by
  fun_induction readString quote before size pos cs with
  | case1 => cases h
  | case2 before size pos cs =>
    cases h
    exact ⟨[], [], rfl, rfl, by simp, .nil⟩
  | case3 => cases h
  | case4 => cases h
  | case5 before size pos e cs size' hsize hne stop' ih =>
    obtain ⟨body, added, rfl, rfl, rfl, hbody⟩ := ih h
    exact ⟨'\\' :: e :: body, unescape e :: added, rfl, rfl, by simp, .escape hbody⟩
  | case6 => cases h
  | case7 before size pos c cs hne hslash stop' size' hsize ih =>
    obtain ⟨body, added, rfl, rfl, rfl, hbody⟩ := ih h
    exact ⟨c :: body, c :: added, rfl, rfl, by simp, .plain hne hslash hbody⟩

theorem spells_of_punctuation {c : Char} {token : Token} (h : punctuation? c = some token) :
    Spells token [c] ∧ isContent token = true := by
  unfold punctuation? at h
  split at h <;> cases h
  · exact ⟨.leftParen, rfl⟩
  · exact ⟨.rightParen, rfl⟩
  · exact ⟨.comma, rfl⟩
  · exact ⟨.assign, rfl⟩
  · exact ⟨.minus, rfl⟩

theorem exists_of_map_eq_ok {ε α β : Type} {f : α → β} {x : Except ε α} {b : β}
    (h : x.map f = .ok b) : ∃ a, x = .ok a ∧ f a = b := by
  cases x with
  | error e => cases h
  | ok a =>
    cases h
    exact ⟨a, rfl, rfl⟩

theorem spells_of_nameToken {start stop : Position} {c : Char} {cs : List Char} {token : Token}
    (hc : isNameStart c = true) (hcs : ∀ d ∈ cs, isWordChar d = true)
    (h : nameToken start (c :: cs) stop = .ok token) :
    Spells token (c :: cs) ∧ isContent token = true := by
  unfold nameToken at h
  split at h
  · cases h
  · cases h
    exact ⟨.name hc hcs, rfl⟩

theorem spells_of_integerToken {start stop : Position} {word : List Char} {token : Token}
    (hne : word ≠ []) (h : integerToken start word stop = .ok token) :
    Spells token word ∧ isContent token = true := by
  unfold integerToken at h
  split at h
  · next value hvalue =>
    cases h
    obtain ⟨hdigits, rfl⟩ := integerFrom_eq_some hvalue
    rw [Nat.zero_mul, Nat.zero_add]
    exact ⟨.integer hne hdigits, rfl⟩
  · cases h

/-- A token of a tag spells the characters up to where it stops. -/
theorem spells_of_readToken {start stop : Position} {c : Char} {cs after : List Char}
    {token : Token} (h : readToken start c cs = .ok (token, stop, after)) :
    ∃ lexeme, c :: cs = lexeme ++ after ∧ stop = start.advanceOver lexeme ∧
      Spells token lexeme ∧ isContent token = true := by
  have hword : c :: cs = (c :: cs.takeWhile isWordChar) ++ cs.dropWhile isWordChar := by
    rw [List.cons_append, List.takeWhile_append_dropWhile]
  unfold readToken at h
  split at h
  · next hstart =>
    obtain ⟨name, hname, heq⟩ := exists_of_map_eq_ok h
    cases heq
    have hall := List.all_eq_true.mp (List.all_takeWhile (p := isWordChar) (l := cs))
    exact ⟨_, hword, rfl, spells_of_nameToken hstart hall hname⟩
  · split at h
    · obtain ⟨integer, hinteger, heq⟩ := exists_of_map_eq_ok h
      cases heq
      exact ⟨_, hword, rfl, spells_of_integerToken (by simp) hinteger⟩
    · split at h
      · next hquote =>
        split at h
        · next value stop' after' hread =>
          cases h
          obtain ⟨body, added, rfl, rfl, rfl, hbody⟩ := unescapes_of_readString hread
          refine ⟨c :: body ++ [c], by simp, rfl, ?_, rfl⟩
          exact .string hquote hbody
        · cases h
        · cases h
      · split at h
        · next token' hpunct =>
          cases h
          exact ⟨[c], rfl, rfl, spells_of_punctuation hpunct⟩
        · cases h

/-- Of the tokens in a tag only a minus ends with a `-`. -/
theorem eq_dash_of_spells {token : Token} {lexeme : List Char} (h : Spells token lexeme)
    (hcontent : isContent token = true) (hlast : lexeme.getLast? = some '-') :
    lexeme = ['-'] := by
  have hmem := List.mem_of_getLast? hlast
  cases h with
  | name hc hcs =>
    rcases List.mem_cons.mp hmem with rfl | hmem
    · exact absurd hc (by decide)
    · exact absurd (hcs _ hmem) (by decide)
  | integer _ hdigits => exact absurd (hdigits _ hmem) (by decide)
  | string hquote =>
    rw [List.getLast?_concat] at hlast
    cases hlast
    exact absurd hquote (by decide)
  | minus => rfl
  | leftParen | rightParen | comma | assign => cases hlast
  | data | variableBegin | blockBegin | variableEnd | blockEnd | eof => cases hcontent

theorem not_mem_blanks {blanks : List Char} (h : ∀ c ∈ blanks, Text.isBlank c = true) :
    '-' ∉ blanks := by
  intro hmem
  exact absurd (h _ hmem) (by decide)

theorem closerAt_dash (kind : TagKind) (rest : List Char) :
    closerAt kind ('-' :: kind.closeMark :: '\x7d' :: rest)
      = some ⟨['-', kind.closeMark, '\x7d'], true, rest⟩ := by
  cases kind <;> rfl

/-- A `-` that is a token of its own has something between it and the closer, for it would
be the closer's otherwise. -/
theorem last_ne_dash_cons {kind : TagKind} {w : Word} {words : List Word}
    {blanks rest : List Char} {closeDash : Bool} (hw : w.Valid)
    (hopen : closerAt kind (w.lexeme ++ (tagInside words blanks closeDash ++
      kind.closeMark :: '\x7d' :: rest)) = none)
    (hinside : (tagInside words blanks closeDash).getLast? ≠ some '-') :
    (tagInside (w :: words) blanks closeDash).getLast? ≠ some '-' := by
  have hcons : tagInside (w :: words) blanks closeDash
      = w.blanks ++ (w.lexeme ++ tagInside words blanks closeDash) := by
    simp [tagInside, Word.parts, Part.text]
  intro hlast
  rw [hcons, List.getLast?_append, List.getLast?_append] at hlast
  cases hinner : (tagInside words blanks closeDash).getLast? with
  | some c =>
    rw [hinner] at hlast hinside
    exact hinside hlast
  | none =>
    rw [hinner] at hlast
    rw [List.getLast?_eq_none_iff.mp hinner] at hopen
    cases hlexeme : w.lexeme.getLast? with
    | some c =>
      rw [hlexeme] at hlast
      cases hlast
      rw [eq_dash_of_spells hw.spells hw.content hlexeme, List.singleton_append,
        List.nil_append, closerAt_dash] at hopen
      cases hopen
    | none =>
      rw [hlexeme] at hlast
      exact not_mem_blanks hw.blanks_blank (List.mem_of_getLast? hlast)

theorem remains_of_stepTag {kind : TagKind} {opened : Span} {pos : Position}
    {cs : List Char} {lexeme : Option Lexeme} {next : State} {lexemes : List Lexeme}
    (h : stepTag kind opened pos cs = .more lexeme next) (hrest : Remains next lexemes) :
    Remains ⟨.tag kind opened, pos, cs⟩ (lexeme.toList ++ lexemes) := by
  have happ := List.takeWhile_append_dropWhile (p := Text.isBlank) (l := cs)
  have hblank : ∀ c ∈ cs.takeWhile Text.isBlank, Text.isBlank c = true :=
    fun _ => isBlank_of_mem_takeWhile
  unfold stepTag at h
  simp only [Text.trimStart] at h
  split at h
  · cases h
  · next c rest hcs =>
    rw [hcs] at happ
    split at h
    · next closer hclose =>
      obtain ⟨hafter, hlexeme⟩ := eq_of_closerAt hclose
      cases h
      obtain ⟨l, hl, htext, hplace⟩ := hrest
      refine ⟨[], cs.takeWhile Text.isBlank, closer.trims, l, by simp, hblank, ?_, hl, ?_, ?_⟩
      · intro htrims hlast
        rw [htrims] at hlast
        exact not_mem_blanks hblank (List.mem_of_getLast? (by simpa [tagInside, dashText] using hlast))
      · rw [textOf_append, ← Layout.text, htext]
        simp only [tagParts, List.flatMap_nil, List.nil_append, textOf_cons, textOf_nil,
          Part.text, List.append_nil]
        rw [← hlexeme, List.append_assoc, hafter, happ]
      · rw [place_append, ← hplace]
        simp only [tagParts, List.flatMap_nil, List.nil_append, textOf_cons, textOf_nil,
          Part.text, Part.recognised, place_cons, place_nil, List.append_nil]
        rw [← hlexeme, Position.advanceOver_append]
        rfl
    · next hopen =>
      split at h
      · next token stop after hread =>
        obtain ⟨text, heq, rfl, hspells, hcontent⟩ := spells_of_readToken hread
        cases h
        obtain ⟨words, blanks, closeDash, l, hwords, hblanks, hlast, hl, htext, hplace⟩ := hrest
        have hword : (Word.mk (cs.takeWhile Text.isBlank) text token).Valid :=
          ⟨hblank, hspells, hcontent⟩
        refine ⟨⟨cs.takeWhile Text.isBlank, text, token⟩ :: words, blanks, closeDash, l,
          List.forall_mem_cons.mpr ⟨hword, hwords⟩, hblanks, ?_, hl, ?_, ?_⟩
        · intro hno
          rw [heq, ← show _ = after from htext, textOf_append, textOf_tagParts,
            List.append_assoc] at hopen
          exact last_ne_dash_cons hword hopen (hlast hno)
        · rw [tagParts, List.flatMap_cons, List.append_assoc, List.append_assoc, textOf_append,
            ← List.append_assoc, ← tagParts, htext]
          simp only [Word.parts, textOf_cons, textOf_nil, Part.text, List.append_nil]
          rw [List.append_assoc, ← heq, happ]
        · rw [tagParts, List.flatMap_cons, List.append_assoc, List.append_assoc, place_append,
            ← List.append_assoc, ← tagParts, ← hplace]
          simp only [Word.parts, textOf_cons, textOf_nil, Part.text, Part.recognised, place_cons,
            place_nil, List.append_nil, List.nil_append]
          rw [Position.advanceOver_append]
          rfl
      · cases h

/-- Only data comes to an end. -/
theorem exists_data_of_finished {s : State} {marker : Located Token}
    (h : step s = .finished marker) : ∃ trim, s.mode = .data trim := by
  unfold step at h
  split at h
  · next trim hmode => exact ⟨trim, hmode⟩
  · next kind _ =>
    cases kind with
    | tag => cases h
    | comment =>
      simp only [stepOpener, stepComment] at h
      split at h <;> cases h
  · simp only [stepTag] at h
    split at h
    · cases h
    · split at h
      · cases h
      · split at h <;> cases h

theorem remains_of_runs {s : State} {lexemes : List Lexeme} (h : Runs s lexemes) :
    Remains s lexemes := by
  induction h with
  | @more s next lexeme lexemes hstep _ ih =>
    obtain ⟨mode, pos, rest⟩ := s
    cases mode with
    | data trim => exact remains_of_stepData hstep ih
    | opener kind => exact remains_of_stepOpener hstep ih
    | tag kind opened => exact remains_of_stepTag hstep ih
  | @finished s marker hstep =>
    obtain ⟨trim, hmode⟩ := exists_data_of_finished hstep
    obtain ⟨mode, pos, rest⟩ := s
    subst hmode
    exact remains_of_finished hstep

/-- A text that is cut into tokens has a layout, and its tokens are those of the
layout. -/
theorem exists_layout {source : String} {lexed : Lexed} (h : tokenize source = .ok lexed) :
    ∃ l : Layout, l.Valid false ∧ l.text = source.toList ∧
      lexed.tokens.toList = l.tokens := by
  obtain ⟨lexemes, hruns, htokens⟩ := runs_of_tokenize h
  obtain ⟨l, hl, htext, hplace⟩ := remains_of_runs hruns
  refine ⟨l, hl, htext, ?_⟩
  rw [htokens, Layout.tokens, ← hplace]

end Lexer

end QueryMachine
