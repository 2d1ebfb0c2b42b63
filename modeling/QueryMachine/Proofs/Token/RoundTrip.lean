import QueryMachine.Proofs.Token.Layout
import Mathlib

/-!
# Lexing undoes printing

A template can be printed from what it is made of: data, comments, and tags
whose tokens stand in their source form with single blanks between them. This
file says what the lexer makes of the printed text.

Printing and lexing agree on everything but one thing. The source form of a
string literal writes a character without a shape by its code point, and the
lexer has no such escape: it drops the backslash and keeps the rest. So each
token is read back as `rereadToken` says, and the whole text as the tokens read
back one by one (`tokensFrom_print`); a string that grows beyond the limit on
its way makes the lexer fail. The equivalence at the end asks when nothing of
this happens.

The machine is used through `tokensFrom`, the tokens that a state goes on to
give. A step moves at most one token out of it, so the text is read from left to
right by rewriting, with one lemma for each thing that can be printed.
-/

namespace QueryMachine

namespace Text

/-- A character that a quoted string shows by its code point. -/
def IsCoded (c : Char) : Prop :=
  quoteChar c = ['\\', '0'] ∨
    ∃ digits, quoteChar c = ['\\', 'u', '\x7b'] ++ digits ++ ['\x7d']

/-- A quoted string shows a character as it is, by an escape of its own, or by
its code point. -/
theorem quoteChar_cases (c : Char) :
    (quoteChar c = [c] ∧ c ≠ '"' ∧ c ≠ '\\') ∨
    (∃ e, quoteChar c = ['\\', e] ∧ e ≠ '0' ∧ Lexer.unescape e = c) ∨
    (quoteChar c = ['\\', '0'] ∧ c = '\x00') ∨
    quoteChar c = ['\\', 'u', '\x7b'] ++ hex c.toNat ++ ['\x7d'] := by
  unfold quoteChar
  split
  · next h => subst h; exact .inr (.inl ⟨'"', rfl, by decide, rfl⟩)
  · split
    · next h => subst h; exact .inr (.inl ⟨'\\', rfl, by decide, rfl⟩)
    · split
      · next h => exact .inr (.inr (.inl ⟨rfl, h⟩))
      · split
        · next h => subst h; exact .inr (.inl ⟨'t', rfl, by decide, rfl⟩)
        · split
          · next h => subst h; exact .inr (.inl ⟨'r', rfl, by decide, rfl⟩)
          · split
            · next h => subst h; exact .inr (.inl ⟨'n', rfl, by decide, rfl⟩)
            · split
              · exact .inr (.inr (.inr rfl))
              · next hquote hslash _ _ _ _ _ => exact .inl ⟨rfl, hquote, hslash⟩

theorem exists_digitChar_of_mem_hex {n : Nat} {c : Char} (h : c ∈ hex n) :
    ∃ d : Nat, c = d.digitChar := by
  induction n using Nat.strongRecOn with
  | ind n ih =>
    rw [hex, Nat.toDigits_eq_if (by decide)] at h
    split at h
    · exact ⟨n, List.mem_singleton.mp h⟩
    · next hle =>
      rcases List.mem_append.mp h with h | h
      · exact ih (n / 16) (by omega) h
      · exact ⟨n % 16, List.mem_singleton.mp h⟩

end Text

namespace Lexer

open Text (IsCoded quoteChar)

/-! ## Strings -/

/-- What the lexer reads where a quoted string shows a character. -/
def rereadChar (c : Char) : List Char :=
  match quoteChar c with
  | '\\' :: e :: rest => unescape e :: rest
  | written => written

theorem rereadChar_eq_self_iff (c : Char) : rereadChar c = [c] ↔ ¬ IsCoded c := by
  unfold rereadChar IsCoded
  rcases Text.quoteChar_cases c with ⟨hq, -, -⟩ | ⟨e, hq, he, rfl⟩ | ⟨hq, rfl⟩ | hq
  · rw [hq]
    simp
  · rw [hq]
    simp [he]
  · rw [hq]
    simp [unescape]
  · rw [hq]
    simp

theorem length_rereadChar_pos (c : Char) : 0 < (rereadChar c).length := by
  unfold rereadChar
  rcases Text.quoteChar_cases c with ⟨hq, -, -⟩ | ⟨e, hq, -, -⟩ | ⟨hq, -⟩ | hq <;>
    rw [hq] <;> simp

theorem length_le_flatMap_rereadChar (cs : List Char) :
    cs.length ≤ (cs.flatMap rereadChar).length := by
  induction cs with
  | nil => simp
  | cons c cs ih =>
    have := length_rereadChar_pos c
    rw [List.flatMap_cons, List.length_append, List.length_cons]
    omega

/-- A string is read back as it was exactly if no character of it is shown by its
code point. Such a character may be read back as a single one, so lengths alone
do not tell. -/
theorem flatMap_rereadChar_eq_self_iff (cs : List Char) :
    cs.flatMap rereadChar = cs ↔ ∀ c ∈ cs, ¬ IsCoded c := by
  induction cs with
  | nil => simp
  | cons c cs ih =>
    rw [List.flatMap_cons, List.forall_mem_cons, ← ih, ← rereadChar_eq_self_iff]
    constructor
    · intro h
      have happend : rereadChar c ++ cs.flatMap rereadChar = [c] ++ cs := h
      have hlen := length_le_flatMap_rereadChar cs
      have hpos := length_rereadChar_pos c
      have hone : (rereadChar c).length = [c].length := by
        have := congrArg List.length h
        rw [List.length_append, List.length_cons] at this
        rw [List.length_singleton]
        omega
      exact List.append_inj happend hone
    · rintro ⟨hc, hcs⟩
      rw [hc, hcs]
      rfl

theorem Unescapes.append {quote : Char} {as bs xs ys : List Char} (ha : Unescapes quote as xs)
    (hb : Unescapes quote bs ys) : Unescapes quote (as ++ bs) (xs ++ ys) := by
  induction ha with
  | nil => exact hb
  | plain hquote hslash _ ih => exact .plain hquote hslash ih
  | escape _ ih => exact .escape ih

theorem unescapes_plain {quote : Char} {cs : List Char}
    (h : ∀ c ∈ cs, c ≠ quote ∧ c ≠ '\\') : Unescapes quote cs cs := by
  induction cs with
  | nil => exact .nil
  | cons c cs ih =>
    rw [List.forall_mem_cons] at h
    exact .plain h.1.1 h.1.2 (ih h.2)

theorem unescapes_quoteChar (c : Char) : Unescapes '"' (quoteChar c) (rereadChar c) := by
  unfold rereadChar
  rcases Text.quoteChar_cases c with ⟨hq, hquote, hslash⟩ | ⟨e, hq, -, -⟩ | ⟨hq, -⟩ | hq
  · have hplain : Unescapes '"' [c] [c] := .plain hquote hslash .nil
    rw [hq]
    split
    · next heq => simp at heq
    · exact hplain
  · rw [hq]
    exact .escape .nil
  · rw [hq]
    exact .escape .nil
  · rw [hq]
    refine .escape (unescapes_plain ?_)
    intro d hd
    rcases List.mem_append.mp hd with hd | hd
    · rcases List.mem_cons.mp hd with rfl | hd
      · decide
      · obtain ⟨n, rfl⟩ := Text.exists_digitChar_of_mem_hex hd
        constructor <;> simp
    · rw [List.mem_singleton.mp hd]
      decide

theorem unescapes_quoted (cs : List Char) :
    Unescapes '"' (cs.flatMap quoteChar) (cs.flatMap rereadChar) := by
  induction cs with
  | nil => exact .nil
  | cons c cs ih =>
    rw [List.flatMap_cons, List.flatMap_cons]
    exact (unescapes_quoteChar c).append ih

section Reading

variable {quote c : Char} {before cs : List Char} {size : Nat} {pos : Position}

theorem readString_plain (hquote : c ≠ quote) (hslash : c ≠ '\\') :
    readString quote before size pos (c :: cs)
      = if size + c.utf8Size > Limits.maxStringSize then
          .tooLarge (size + c.utf8Size) (pos.advance c)
        else readString quote (c :: before) (size + c.utf8Size) (pos.advance c) cs := by
  rw [readString.eq_def]
  simp only [hquote, hslash, if_false]

theorem readString_escape (hquote : quote ≠ '\\') :
    readString quote before size pos ('\\' :: c :: cs)
      = if size + (unescape c).utf8Size > Limits.maxStringSize then
          .tooLarge (size + (unescape c).utf8Size) ((pos.advance '\\').advance c)
        else readString quote (unescape c :: before) (size + (unescape c).utf8Size)
          ((pos.advance '\\').advance c) cs := by
  rw [readString.eq_def]
  simp only [hquote.symm, if_false, if_true]

end Reading

/-- How a literal is read that unescapes to `added`: to its end, unless it grows
beyond the limit on the way. -/
theorem readString_of_unescapes {quote : Char} {body added : List Char} (hquote : quote ≠ '\\')
    (h : Unescapes quote body added) (before : List Char) (size : Nat) (pos : Position)
    (after : List Char) (hsize : size ≤ Limits.maxStringSize) :
    (size + (added.map Char.utf8Size).sum ≤ Limits.maxStringSize ∧
      ∃ stop, readString quote before size pos (body ++ quote :: after)
        = .closed (before.reverse ++ added) stop after) ∨
    (Limits.maxStringSize < size + (added.map Char.utf8Size).sum ∧
      ∃ n stop, readString quote before size pos (body ++ quote :: after)
        = .tooLarge n stop) := by
  induction h generalizing before size pos with
  | nil =>
    refine .inl ⟨hsize, pos.advance quote, ?_⟩
    rw [List.nil_append, readString.eq_def]
    simp
  | @plain c cs value hc hslash _ ih =>
    rw [List.cons_append, readString_plain hc hslash, List.map_cons, List.sum_cons,
      ← Nat.add_assoc]
    split
    · next hlarge => exact .inr ⟨by omega, _, _, rfl⟩
    · next hnext =>
      have := ih (c :: before) (size + c.utf8Size) (pos.advance c) (by omega)
      simpa using this
  | @escape e cs value _ ih =>
    rw [List.cons_append, List.cons_append, readString_escape hquote, List.map_cons,
      List.sum_cons, ← Nat.add_assoc]
    split
    · next hlarge => exact .inr ⟨by omega, _, _, rfl⟩
    · next hnext =>
      have := ih (unescape e :: before) (size + (unescape e).utf8Size)
        ((pos.advance '\\').advance e) (by omega)
      simpa using this

/-! ## The tokens a state goes on to give -/

section Machine

variable {s next : State} {before : Array Lexeme}

theorem runFrom_more {lexeme : Option Lexeme} (h : step s = .more lexeme next) :
    runFrom s before = runFrom next (before ++ lexeme.toArray) := by
  rw [runFrom]
  split <;> next h' => rw [h] at h'; cases h'; try simp

theorem runFrom_finished {marker : Located Token} (h : step s = .finished marker) :
    runFrom s before = ⟨before.push (.token marker), none⟩ := by
  rw [runFrom]
  split <;> next h' => rw [h] at h'; cases h'; try rfl

theorem runFrom_failed {error : LexError} (h : step s = .failed error) :
    runFrom s before = ⟨before, some error⟩ := by
  rw [runFrom]
  split <;> next h' => rw [h] at h'; cases h'; try rfl

/-- What was recognised before plays no part in a run. -/
theorem exists_runFrom_eq (s : State) :
    ∃ lexemes failure, ∀ before, runFrom s before = ⟨before ++ lexemes, failure⟩ := by
  induction hw : s.weight using Nat.strongRecOn generalizing s with
  | ind w ih =>
    cases hstep : step s with
    | more lexeme next =>
      obtain ⟨lexemes, failure, hrun⟩ := ih next.weight (hw ▸ weight_lt_of_step hstep) next rfl
      refine ⟨lexeme.toArray ++ lexemes, failure, fun before => ?_⟩
      rw [runFrom_more hstep, hrun, Array.append_assoc]
    | finished marker =>
      refine ⟨#[.token marker], none, fun before => ?_⟩
      rw [runFrom_finished hstep, Array.push_eq_append]
    | failed error =>
      refine ⟨#[], some error, fun before => ?_⟩
      rw [runFrom_failed hstep, Array.append_empty]

/-- The tokens that the machine goes on to recognise, without their spans; none
if it fails. -/
def tokensFrom (s : State) : Option (List Token) :=
  match (runFrom s #[]).failure with
  | none => some ((tokensOf (runFrom s #[]).lexemes.toList).map Located.value)
  | some _ => none

theorem tokensFrom_more {lexeme : Option Lexeme} (h : step s = .more lexeme next) :
    tokensFrom s
      = (tokensFrom next).map ((tokensOf lexeme.toList).map Located.value ++ ·) := by
  obtain ⟨lexemes, failure, hrun⟩ := exists_runFrom_eq next
  unfold tokensFrom
  rw [runFrom_more h, hrun, hrun]
  cases failure with
  | none =>
    simp only [Array.empty_append, Array.toList_append, Option.toList_toArray, tokensOf_append,
      List.map_append, Option.map_some]
  | some error => rfl

theorem tokensFrom_token {token : Located Token}
    (h : step s = .more (some (.token token)) next) :
    tokensFrom s = (tokensFrom next).map (token.value :: ·) :=
  tokensFrom_more h

/-- A step that recognises no token gives the tokens that come after it. -/
theorem tokensFrom_silent {lexeme : Option Lexeme} (h : step s = .more lexeme next)
    (hsilent : tokensOf lexeme.toList = []) : tokensFrom s = tokensFrom next := by
  rw [tokensFrom_more h, hsilent]
  simp

theorem tokensFrom_finished {marker : Located Token} (h : step s = .finished marker) :
    tokensFrom s = some [marker.value] := by
  unfold tokensFrom
  rw [runFrom_finished h]
  rfl

theorem tokensFrom_failed {error : LexError} (h : step s = .failed error) :
    tokensFrom s = none := by
  unfold tokensFrom
  rw [runFrom_failed h]

end Machine

/-- Counting refuses a token only beyond the limit. -/
theorem exists_of_countFrom {seen : Lexed} {lexemes : List Lexeme}
    (h : seen.tokens.size + (tokensOf lexemes).length ≤ Limits.maxTokenCount) :
    ∃ lexed, countFrom seen lexemes = .ok lexed := by
  induction lexemes generalizing seen with
  | nil => exact ⟨seen, rfl⟩
  | cons lexeme lexemes ih =>
    cases lexeme with
    | comment => exact ih h
    | token token =>
      have hsize : seen.tokens.size + ((tokensOf lexemes).length + 1)
          ≤ Limits.maxTokenCount := h
      have hlt : seen.tokens.size < Limits.maxTokenCount := by omega
      simp only [countFrom, count, hlt, if_true]
      refine ih ?_
      rw [Array.size_push]
      omega

theorem size_of_countFrom {seen lexed : Lexed} {lexemes : List Lexeme}
    (hseen : seen.tokens.size ≤ Limits.maxTokenCount) (h : countFrom seen lexemes = .ok lexed) :
    lexed.tokens.size ≤ Limits.maxTokenCount := by
  induction lexemes generalizing seen with
  | nil =>
    cases h
    exact hseen
  | cons lexeme lexemes ih =>
    cases lexeme with
    | comment =>
      have hnext : { seen with comments := seen.comments + 1 }.tokens.size
          ≤ Limits.maxTokenCount := hseen
      exact ih hnext h
    | token token =>
      simp only [countFrom, count] at h
      split at h
      · next hcount =>
        split at hcount
        · next hlt =>
          cases hcount
          refine ih ?_ h
          rw [Array.size_push]
          omega
        · cases hcount
      · cases h

/-- A text is cut into tokens exactly if the machine gives them and they are not
too many. -/
theorem tokenize_eq_ok_iff {source : String} {tokens : List Token} :
    (∃ lexed, tokenize source = .ok lexed ∧ lexed.tokens.toList.map Located.value = tokens) ↔
      tokensFrom ⟨.data false, .start, source.toList⟩ = some tokens ∧
        tokens.length ≤ Limits.maxTokenCount := by
  unfold tokenize tokensFrom Trace.result scan
  generalize runFrom ⟨.data false, .start, source.toList⟩ #[] = trace
  obtain ⟨lexemes, failure⟩ := trace
  cases failure with
  | some error =>
    simp only [reduceCtorEq, false_and, iff_false]
    rintro ⟨lexed, hresult, -⟩
    cases hcount : countFrom {} lexemes.toList <;> simp [hcount] at hresult
  | none =>
    constructor
    · rintro ⟨lexed, hresult, rfl⟩
      cases hcount : countFrom {} lexemes.toList with
      | error failure => simp [hcount] at hresult
      | ok seen =>
        rw [hcount] at hresult
        cases hresult
        have htokens := tokens_of_countFrom hcount
        have hsize := size_of_countFrom (Nat.zero_le _) hcount
        refine ⟨by rw [htokens]; rfl, ?_⟩
        rw [List.length_map, Array.length_toList]
        exact hsize
    · rintro ⟨hsome, hlength⟩
      cases hsome
      have hroom : ({} : Lexed).tokens.size + (tokensOf lexemes.toList).length
          ≤ Limits.maxTokenCount := by
        simpa using hlength
      obtain ⟨lexed, hcount⟩ := exists_of_countFrom hroom
      refine ⟨lexed, by rw [hcount], ?_⟩
      rw [tokens_of_countFrom hcount]
      rfl

/-! ## Printed templates -/

/-- What a template is made of, as it is printed. -/
inductive Element where
  | data (text : String)
  | comment (body : String)
  | tag (kind : TagKind) (content : List Token)

namespace Element

def tokens : Element → List Token
  | data text => [.data text]
  | comment _ => []
  | tag kind content => kind.beginToken :: content ++ [kind.endToken]

/-- The text of an element. The tokens of a tag have a blank between any two. -/
def print : Element → String
  | data text => text
  | comment body => "\x7b#" ++ body ++ "#\x7d"
  | tag kind content => " ".intercalate ((tag kind content).tokens.map Token.sourceForm)

def isData : Element → Bool
  | data _ => true
  | _ => false

end Element

def print (elements : List Element) : String := String.join (elements.map Element.print)

/-- The tokens that can stand in a printed tag, each within the limits on its
kind. An integer is a signed word of 64 bits. -/
def IsPrintable : Token → Prop
  | .name text =>
    text.toList ≠ [] ∧ text.toList.length ≤ Limits.maxNameLength ∧
      (∀ c ∈ text.toList, isWordChar c = true) ∧ ∀ c ∈ text.toList.head?, c.isDigit = false
  | .string value => value.utf8ByteSize ≤ Limits.maxStringSize
  | .integer value => 0 ≤ value ∧ value ≤ maxInteger
  | .leftParen | .rightParen | .comma | .assign | .minus => True
  | _ => False

/-- The elements whose text does not run into that of their neighbours. -/
def Element.IsPrintable : Element → Prop
  | data text =>
    text.toList ≠ [] ∧ (∀ kind : Opener, ¬ ['\x7b', kind.mark] <:+: text.toList) ∧
      text.toList.getLast? ≠ some '\x7b'
  | comment body =>
    ¬ ['#', '\x7d'] <:+: body.toList ∧ body.toList.head? ≠ some '-' ∧
      body.toList.getLast? ≠ some '-'
  | tag _ content => ∀ t ∈ content, Lexer.IsPrintable t

/-- What the lexer makes of the source form of a token. -/
def rereadToken : Token → Option Token
  | .string value =>
    if ((value.toList.flatMap rereadChar).map Char.utf8Size).sum ≤ Limits.maxStringSize then
      some (.string (String.ofList (value.toList.flatMap rereadChar)))
    else none
  | token => some token

/-! ### Data and comments -/

/-- What may follow data: nothing, or an opener that leaves the data as it is. -/
def EndsData (rest : List Char) : Prop :=
  rest = [] ∨ ∃ (kind : Opener) (inside : List Char), rest = '\x7b' :: kind.mark :: inside ∧
    beginsWithDash inside = false

theorem stepData_opener {trim : Bool} {pos : Position} {cs run rest inside : List Char}
    {kind : Opener} (hne : cs ≠ [])
    (hcut : Text.breakAt (fun cs => (openerAt cs).isSome) cs = (run, rest))
    (hopen : openerAt rest = some (kind, inside)) :
    stepData trim pos cs
      = .more ((dataToken trim (beginsWithDash inside) pos run).map .token)
          ⟨.opener kind, pos.advanceOver run, inside⟩ := by
  cases cs with
  | nil => exact absurd rfl hne
  | cons c cs => simp only [stepData, hcut, hopen]

theorem stepData_last {trim : Bool} {pos : Position} {cs : List Char} (hne : cs ≠ [])
    (hcut : Text.breakAt (fun cs => (openerAt cs).isSome) cs = (cs, [])) :
    stepData trim pos cs
      = .more ((dataToken trim false pos cs).map .token)
          ⟨.data false, pos.advanceOver cs, []⟩ := by
  cases cs with
  | nil => exact absurd rfl hne
  | cons c cs =>
    simp only [stepData, hcut]
    rfl

/-- An opener that leaves no data before it and removes no blanks is passed in silence. -/
theorem step_opener {pos : Position} {kind : Opener} {inside : List Char}
    (hdash : beginsWithDash inside = false) :
    step ⟨.data false, pos, '\x7b' :: kind.mark :: inside⟩
      = .more none ⟨.opener kind, pos, inside⟩ := by
  have hopen := openerAt_mark kind inside
  have hcut : Text.breakAt (fun cs => (openerAt cs).isSome) ('\x7b' :: kind.mark :: inside)
      = ([], '\x7b' :: kind.mark :: inside) := by
    rw [Text.breakAt_cons, if_pos (by rw [hopen]; rfl)]
  have hstep : step ⟨.data false, pos, '\x7b' :: kind.mark :: inside⟩
      = .more ((dataToken false (beginsWithDash inside) pos []).map .token)
          ⟨.opener kind, pos, inside⟩ := stepData_opener (by simp) hcut hopen
  rw [hdash] at hstep
  exact hstep

theorem tokensFrom_opener {pos : Position} {kind : Opener} {inside : List Char}
    (hdash : beginsWithDash inside = false) :
    tokensFrom ⟨.data false, pos, '\x7b' :: kind.mark :: inside⟩
      = tokensFrom ⟨.opener kind, pos, inside⟩ :=
  tokensFrom_silent (step_opener hdash) rfl

theorem tokensFrom_end (pos : Position) : tokensFrom ⟨.data false, pos, []⟩ = some [.eof] := by
  have hstep : step ⟨.data false, pos, []⟩ = .finished ⟨.eof, .point pos⟩ := rfl
  exact tokensFrom_finished hstep

/-- Data is one token, and what follows it is read as if it stood alone. -/
theorem tokensFrom_data {pos : Position} {text rest : List Char} (hne : text ≠ [])
    (hdata : Layout.IsData text rest) (hrest : EndsData rest) :
    tokensFrom ⟨.data false, pos, text ++ rest⟩
      = (tokensFrom ⟨.data false, pos.advanceOver text, rest⟩).map
          (.data (String.ofList text) :: ·) := by
  have hcut : Text.breakAt (fun cs => (openerAt cs).isSome) (text ++ rest) = (text, rest) := by
    refine breakAt_append_eq ?_ ?_
    · intro suffix hsuffix hsne
      simp [hdata suffix hsuffix hsne]
    · rcases hrest with rfl | ⟨kind, inside, rfl, -⟩
      · exact .inl rfl
      · exact .inr (by simp [openerAt_mark])
  have htoken : dataToken false false pos text
      = some ⟨.data (String.ofList text), ⟨pos, pos.advanceOver text⟩⟩ := by
    simp [dataToken, hne]
  rcases hrest with rfl | ⟨kind, inside, rfl, hdash⟩
  · rw [List.append_nil] at hcut ⊢
    have hstep : step ⟨.data false, pos, text⟩ = _ := stepData_last hne hcut
    rw [htoken] at hstep
    exact tokensFrom_token hstep
  · have hstep : step ⟨.data false, pos, text ++ '\x7b' :: kind.mark :: inside⟩ = _ :=
      stepData_opener (by simp) hcut (openerAt_mark kind inside)
    rw [hdash, htoken] at hstep
    rw [tokensFrom_opener hdash]
    exact tokensFrom_token hstep

theorem isData_of_printable {text rest : List Char}
    (hopen : ∀ kind : Opener, ¬ ['\x7b', kind.mark] <:+: text)
    (hlast : text.getLast? ≠ some '\x7b') : Layout.IsData text rest := by
  intro suffix hsuffix hne
  match h : openerAt (suffix ++ rest) with
  | none => rfl
  | some (kind, inside) =>
    have heq := eq_of_openerAt h
    match suffix with
    | [] => exact absurd rfl hne
    | [a] =>
      rw [List.singleton_append, List.cons.injEq] at heq
      obtain ⟨before, rfl⟩ := hsuffix
      rw [heq.1] at hlast
      simp at hlast
    | a :: b :: suffix =>
      rw [List.cons_append, List.cons_append, List.cons.injEq, List.cons.injEq] at heq
      obtain ⟨before, rfl⟩ := hsuffix
      obtain ⟨rfl, rfl, -⟩ := heq
      exact absurd ⟨before, suffix, by simp⟩ (hopen kind)

theorem closesComment_eq_false {body rest : List Char} (hclose : ¬ ['#', '\x7d'] <:+: body)
    {suffix : List Char} (hsuffix : suffix <:+ body) (hne : suffix ≠ []) :
    closesComment (suffix ++ '#' :: '\x7d' :: rest) = false := by
  cases h : closesComment (suffix ++ '#' :: '\x7d' :: rest) with
  | false => rfl
  | true =>
    have heq := eq_of_closesComment h
    match suffix with
    | [] => exact absurd rfl hne
    | [a] => simp at heq
    | a :: b :: suffix =>
      rw [List.cons_append, List.cons_append, List.cons.injEq, List.cons.injEq] at heq
      obtain ⟨before, rfl⟩ := hsuffix
      obtain ⟨rfl, rfl, -⟩ := heq
      exact absurd ⟨before, suffix, by simp⟩ hclose

theorem beginsWithDash_comment {body : List Char} (h : body.head? ≠ some '-')
    (rest : List Char) : beginsWithDash (body ++ '#' :: rest) = false :=
  beginsWithDash_append_eq_false h (by simp)

theorem skipDash_eq_self {cs : List Char} (h : beginsWithDash cs = false) (pos : Position) :
    skipDash pos cs = (pos, cs) := by
  simp [skipDash, h]

theorem tokensFrom_comment (pos : Position) {body : List Char} (rest : List Char)
    (hclose : ¬ ['#', '\x7d'] <:+: body) (hfirst : body.head? ≠ some '-')
    (hlast : body.getLast? ≠ some '-') :
    ∃ stop, tokensFrom ⟨.opener .comment, pos, body ++ '#' :: '\x7d' :: rest⟩
      = tokensFrom ⟨.data false, stop, rest⟩ := by
  have hcut : Text.breakAt closesComment (body ++ '#' :: '\x7d' :: rest)
      = (body, '#' :: '\x7d' :: rest) :=
    breakAt_append_eq (fun _ => closesComment_eq_false hclose) (.inr rfl)
  have hdash := beginsWithDash_comment hfirst ('\x7d' :: rest)
  have htrim : (body.getLast? == some '-') = false := by simpa using hlast
  have hstep : step ⟨.opener .comment, pos, body ++ '#' :: '\x7d' :: rest⟩
      = .more (some .comment) ⟨.data false, ((pos.advanceOver ['\x7b', '#']).advanceOver
          body).advanceOver ['#', '\x7d'], rest⟩ := by
    simp only [step, stepOpener, skipDash_eq_self hdash, stepComment, hcut, htrim]
    rfl
  exact ⟨_, tokensFrom_silent hstep rfl⟩

/-! ### Tags -/

theorem step_begin (kind : TagKind) (pos : Position) {inside : List Char}
    (hdash : beginsWithDash inside = false) :
    step ⟨.opener (.tag kind), pos, inside⟩
      = .more (some (.token ⟨kind.beginToken,
            ⟨pos, pos.advanceOver ['\x7b', (Opener.tag kind).mark]⟩⟩))
          ⟨.tag kind ⟨pos, pos.advanceOver ['\x7b', (Opener.tag kind).mark]⟩,
            pos.advanceOver ['\x7b', (Opener.tag kind).mark], inside⟩ := by
  simp only [step, stepOpener, skipDash_eq_self hdash]

theorem tokensFrom_begin (kind : TagKind) (pos : Position) {inside : List Char}
    (hdash : beginsWithDash inside = false) :
    ∃ opened stop, tokensFrom ⟨.opener (.tag kind), pos, inside⟩
      = (tokensFrom ⟨.tag kind opened, stop, inside⟩).map (kind.beginToken :: ·) :=
  ⟨_, _, tokensFrom_token (step_begin kind pos hdash)⟩

theorem isBlank_of_isWordChar {c : Char} (h : isWordChar c = true) : Text.isBlank c = false := by
  have hc : (48 ≤ c.toNat ∧ c.toNat ≤ 57) ∨ (65 ≤ c.toNat ∧ c.toNat ≤ 90) ∨
      (97 ≤ c.toNat ∧ c.toNat ≤ 122) ∨ c.toNat = 95 := by
    simp only [isWordChar, Char.isAlphanum, Char.isAlpha, Char.isUpper, Char.isLower,
      Char.isDigit, Bool.or_eq_true, Bool.and_eq_true, decide_eq_true_eq, beq_iff_eq] at h
    rcases h with ((⟨h, h'⟩ | ⟨h, h'⟩) | ⟨h, h'⟩) | rfl
    · exact .inr (.inl ⟨h, h'⟩)
    · exact .inr (.inr (.inl ⟨h, h'⟩))
    · exact .inl ⟨h, h'⟩
    · exact .inr (.inr (.inr rfl))
  simp only [Text.isBlank, Text.blankRanges, List.any_cons, List.any_nil, Bool.or_false,
    Bool.or_eq_false_iff, Bool.and_eq_false_iff, decide_eq_false_iff_not]
  omega

/-- A lexeme of a tag that begins with `c` is read to the blank behind it: the
blank before it is skipped, and it is not mistaken for the closer. -/
structure Begins (c : Char) (cs : List Char) : Prop where
  not_blank : Text.isBlank c = false
  not_closer : ∀ kind : TagKind, c ≠ kind.closeMark
  not_dashed : c = '-' → cs = []

theorem Begins.closerAt_eq_none {c : Char} {cs : List Char} (h : Begins c cs) (kind : TagKind)
    (rest : List Char) : closerAt kind (c :: (cs ++ ' ' :: rest)) = none := by
  have hmark := h.not_closer kind
  have hspace : ' ' ≠ kind.closeMark := by cases kind <;> decide
  cases cs with
  | nil => simp [closerAt, hmark, hspace]
  | cons d cs =>
    have hdash : c ≠ '-' := fun hc => by cases h.not_dashed hc
    simp [closerAt, hmark, hdash]

theorem begins_word {c : Char} (h : isWordChar c = true) (cs : List Char) : Begins c cs where
  not_blank := isBlank_of_isWordChar h
  not_closer := by
    rintro kind rfl
    cases kind <;> cases h
  not_dashed := by
    rintro rfl
    cases h

section Tag

variable (kind : TagKind) (opened : Span) (pos : Position)

/-- The blanks of a tag are passed before what comes next in it. -/
theorem stepTag_blanks {blanks : List Char} (hblanks : ∀ b ∈ blanks, Text.isBlank b = true)
    {c : Char} (h : Text.isBlank c = false) (cs : List Char) :
    stepTag kind opened pos (blanks ++ c :: cs)
      = match closerAt kind (c :: cs) with
        | some closer =>
          .more (some (.token ⟨kind.endToken,
              ⟨pos.advanceOver blanks, (pos.advanceOver blanks).advanceOver closer.lexeme⟩⟩))
            ⟨.data closer.trims, (pos.advanceOver blanks).advanceOver closer.lexeme,
              closer.after⟩
        | none =>
          match readToken (pos.advanceOver blanks) c cs with
          | .ok (token, stop, after) =>
            .more (some (.token ⟨token, ⟨pos.advanceOver blanks, stop⟩⟩))
              ⟨.tag kind opened, stop, after⟩
          | .error error => .failed error := by
  have hdrop : Text.trimStart (blanks ++ c :: cs) = c :: cs := by
    rw [Text.trimStart, List.dropWhile_append_of_pos hblanks,
      List.dropWhile_cons_of_neg (by simp [h])]
  have htake : (blanks ++ c :: cs).takeWhile Text.isBlank = blanks := by
    rw [List.takeWhile_append_of_pos hblanks, List.takeWhile_cons_of_neg (by simp [h]),
      List.append_nil]
  cases hclose : closerAt kind (c :: cs) with
  | some closer => simp only [stepTag, hdrop, htake, hclose]
  | none =>
    cases hread : readToken (pos.advanceOver blanks) c cs with
    | ok found => simp only [stepTag, hdrop, htake, hclose, hread]
    | error error => simp only [stepTag, hdrop, htake, hclose, hread]

theorem isBlank_space : ∀ b ∈ [' '], Text.isBlank b = true :=
  List.forall_mem_singleton.mpr (by decide)

theorem stepTag_cons {c : Char} (h : Text.isBlank c = false) (cs : List Char) :
    stepTag kind opened pos (' ' :: c :: cs)
      = match closerAt kind (c :: cs) with
        | some closer =>
          .more (some (.token ⟨kind.endToken,
              ⟨pos.advance ' ', (pos.advance ' ').advanceOver closer.lexeme⟩⟩))
            ⟨.data closer.trims, (pos.advance ' ').advanceOver closer.lexeme, closer.after⟩
        | none =>
          match readToken (pos.advance ' ') c cs with
          | .ok (token, stop, after) =>
            .more (some (.token ⟨token, ⟨pos.advance ' ', stop⟩⟩))
              ⟨.tag kind opened, stop, after⟩
          | .error error => .failed error :=
  stepTag_blanks kind opened pos isBlank_space h cs

theorem step_close (rest : List Char) :
    step ⟨.tag kind opened, pos, ' ' :: kind.closeMark :: '\x7d' :: rest⟩
      = .more (some (.token ⟨kind.endToken, ⟨pos.advance ' ',
            (pos.advance ' ').advanceOver [kind.closeMark, '\x7d']⟩⟩))
          ⟨.data false, (pos.advance ' ').advanceOver [kind.closeMark, '\x7d'], rest⟩ := by
  have hclose : closerAt kind (kind.closeMark :: '\x7d' :: rest)
      = some ⟨[kind.closeMark, '\x7d'], false, rest⟩ := by
    simp [closerAt]
  have hblank : Text.isBlank kind.closeMark = false := by cases kind <;> decide
  have hstep : step ⟨.tag kind opened, pos, ' ' :: kind.closeMark :: '\x7d' :: rest⟩ = _ :=
    stepTag_cons kind opened pos hblank ('\x7d' :: rest)
  rw [hclose] at hstep
  exact hstep

theorem tokensFrom_close (rest : List Char) :
    ∃ stop, tokensFrom ⟨.tag kind opened, pos, ' ' :: kind.closeMark :: '\x7d' :: rest⟩
      = (tokensFrom ⟨.data false, stop, rest⟩).map (kind.endToken :: ·) :=
  ⟨_, tokensFrom_token (step_close kind opened pos rest)⟩

/-- How the source form of a token is read, up to the blank behind it. -/
def Rereads (t : Token) : Prop :=
  ∃ c cs, t.sourceForm.toList = c :: cs ∧ Begins c cs ∧ ∀ start rest,
    match rereadToken t with
    | some t' => ∃ stop, readToken start c (cs ++ ' ' :: rest) = .ok (t', stop, ' ' :: rest)
    | none => ∃ error, readToken start c (cs ++ ' ' :: rest) = .error error

theorem tokensFrom_word {t : Token} (h : Rereads t) (rest : List Char) :
    ∃ stop, tokensFrom ⟨.tag kind opened, pos, ' ' :: (t.sourceForm.toList ++ ' ' :: rest)⟩
      = (rereadToken t).bind fun t' =>
          (tokensFrom ⟨.tag kind opened, stop, ' ' :: rest⟩).map (t' :: ·) := by
  obtain ⟨c, cs, hform, hbegins, hread⟩ := h
  rw [hform, List.cons_append]
  have hstep : step ⟨.tag kind opened, pos, ' ' :: c :: (cs ++ ' ' :: rest)⟩ = _ :=
    stepTag_cons kind opened pos hbegins.not_blank (cs ++ ' ' :: rest)
  rw [hbegins.closerAt_eq_none] at hstep
  specialize hread (pos.advance ' ') rest
  cases hreread : rereadToken t with
  | some t' =>
    rw [hreread] at hread
    obtain ⟨stop, hread⟩ := hread
    rw [hread] at hstep
    exact ⟨stop, tokensFrom_token hstep⟩
  | none =>
    rw [hreread] at hread
    obtain ⟨error, hread⟩ := hread
    rw [hread] at hstep
    exact ⟨pos, tokensFrom_failed hstep⟩

end Tag

/-! ### The source forms of tokens -/

theorem readWord_eq {start : Position} {c : Char} {cs rest : List Char}
    (h : ∀ d ∈ cs, isWordChar d = true) :
    readWord start c (cs ++ ' ' :: rest)
      = (c :: cs, start.advanceOver (c :: cs), ' ' :: rest) := by
  have hspace : isWordChar ' ' = false := by decide
  have htake : (cs ++ ' ' :: rest).takeWhile isWordChar = cs := by
    rw [List.takeWhile_append_of_pos h, List.takeWhile_cons_of_neg (by simp [hspace]),
      List.append_nil]
  have hdrop : (cs ++ ' ' :: rest).dropWhile isWordChar = ' ' :: rest := by
    rw [List.dropWhile_append_of_pos h, List.dropWhile_cons_of_neg (by simp [hspace])]
  rw [readWord, htake, hdrop]

theorem rereads_name {text : String} (h : IsPrintable (.name text)) : Rereads (.name text) := by
  obtain ⟨hne, hlength, hword, hdigit⟩ := h
  obtain ⟨c, cs, hcs⟩ := List.exists_cons_of_ne_nil hne
  rw [hcs] at hlength hword hdigit
  rw [List.forall_mem_cons] at hword
  have hstart : isNameStart c = true := by
    have hc := hword.1
    have hd := hdigit c rfl
    simp only [isWordChar, Char.isAlphanum, hd, Bool.or_false] at hc
    exact hc
  refine ⟨c, cs, hcs, begins_word hword.1 cs, ?_⟩
  intro start rest
  refine ⟨start.advanceOver (c :: cs), ?_⟩
  have hname : String.ofList (c :: cs) = text := by rw [← hcs, String.ofList_toList]
  have hlong : ¬ (c :: cs).length > Limits.maxNameLength := by omega
  simp only [readToken, hstart, if_true, readWord_eq hword.2, nameToken, hlong, if_false, hname]
  rfl

/-- Reading digits that stay within the limit gives the number they denote. -/
theorem integerFrom_eq {cs : List Char} (hdigits : ∀ c ∈ cs, c.isDigit = true) {value : Nat}
    (h : Nat.ofDigitChars 10 cs value ≤ maxInteger) :
    integerFrom value cs = some (Nat.ofDigitChars 10 cs value) := by
  induction cs generalizing value with
  | nil => rfl
  | cons c cs ih =>
    rw [List.forall_mem_cons] at hdigits
    rw [Nat.ofDigitChars_cons, Nat.mul_comm] at h ⊢
    -- The number read so far is at most the whole number.
    have hle : value * 10 + digitValue c ≤ maxInteger := by
      refine Nat.le_trans ?_ h
      rw [Nat.ofDigitChars_eq_ofDigitChars_zero]
      have := Nat.le_mul_of_pos_left (value * 10 + digitValue c)
        (Nat.pow_pos (n := cs.length) (show 0 < 10 by decide))
      exact Nat.le_trans this (Nat.le_add_right _ _)
    rw [integerFrom, if_pos ⟨hdigits.1, hle⟩]
    exact ih hdigits.2 h

theorem isWordChar_of_isDigit {c : Char} (h : c.isDigit = true) : isWordChar c = true := by
  simp [isWordChar, Char.isAlphanum, h]

theorem isNameStart_of_isDigit {c : Char} (h : c.isDigit = true) : isNameStart c = false := by
  have hc : 48 ≤ c.toNat ∧ c.toNat ≤ 57 := by
    simp only [Char.isDigit, Bool.and_eq_true, decide_eq_true_eq] at h
    exact h
  rw [← Bool.not_eq_true]
  intro hstart
  simp only [isNameStart, Char.isAlpha, Char.isUpper, Char.isLower, Bool.or_eq_true,
    Bool.and_eq_true, decide_eq_true_eq, beq_iff_eq] at hstart
  rcases hstart with (⟨hle, -⟩ | ⟨hle, -⟩) | rfl
  · have : 65 ≤ c.toNat := hle
    omega
  · have : 97 ≤ c.toNat := hle
    omega
  · revert hc
    decide

theorem rereads_integer {value : Int} (h : IsPrintable (.integer value)) :
    Rereads (.integer value) := by
  obtain ⟨hnonneg, hle⟩ := h
  obtain ⟨n, rfl⟩ := Int.eq_ofNat_of_zero_le hnonneg
  have hform : (Token.integer n).sourceForm.toList = Nat.toDigits 10 n := by
    rw [Token.sourceForm, Int.toString_eq_repr, Int.repr_eq_if, if_pos hnonneg, Nat.toList_repr]
    rfl
  obtain ⟨c, cs, hcs⟩ := List.exists_cons_of_ne_nil (Nat.toDigits_ne_nil (n := n) (b := 10))
  have hdigits : ∀ d ∈ c :: cs, d.isDigit = true := by
    intro d hd
    rw [← hcs] at hd
    exact Nat.isDigit_of_mem_toDigits (by decide) (by decide) hd
  have hvalue : integerFrom 0 (c :: cs) = some n := by
    have hnumber : Nat.ofDigitChars 10 (c :: cs) 0 = n := by
      rw [← hcs, Nat.ofDigitChars_ten_toDigits]
    rw [integerFrom_eq hdigits (by omega), hnumber]
  rw [List.forall_mem_cons] at hdigits
  have hword : ∀ d ∈ cs, isWordChar d = true := fun d hd =>
    isWordChar_of_isDigit (hdigits.2 d hd)
  refine ⟨c, cs, hform.trans hcs, begins_word (isWordChar_of_isDigit hdigits.1) cs, ?_⟩
  intro start rest
  refine ⟨start.advanceOver (c :: cs), ?_⟩
  simp only [readToken, isNameStart_of_isDigit hdigits.1, hdigits.1, if_true, readWord_eq hword,
    integerToken, hvalue, Bool.false_eq_true, if_false]
  rfl

theorem rereads_string (value : String) : Rereads (.string value) := by
  have hform : (Token.string value).sourceForm.toList
      = '"' :: (value.toList.flatMap quoteChar ++ ['"']) := by
    simp [Token.sourceForm, Text.quoted]
  refine ⟨'"', _, hform, ⟨by decide, ?_, by simp⟩, ?_⟩
  · rintro kind
    cases kind <;> decide
  · intro start rest
    have hread := readString_of_unescapes (by decide) (unescapes_quoted value.toList) [] 0
      (start.advance '"') (' ' :: rest) (Nat.zero_le _)
    rw [Nat.zero_add] at hread
    have hstart : isNameStart '"' = false := by decide
    have hdigit : '"'.isDigit = false := by decide
    rcases hread with ⟨hsize, stop, hread⟩ | ⟨hsize, n, stop, hread⟩
    · simp only [rereadToken, if_pos hsize]
      refine ⟨stop, ?_⟩
      simp [readToken, hstart, hdigit, hread]
    · simp only [rereadToken, if_neg (Nat.not_le_of_lt hsize)]
      refine ⟨.stringTooLarge n ⟨start, stop⟩, ?_⟩
      simp [readToken, hstart, hdigit, hread]

theorem rereads_of_printable {t : Token} (h : IsPrintable t) : Rereads t := by
  cases t with
  | name text => exact rereads_name h
  | integer value => exact rereads_integer h
  | string value => exact rereads_string value
  | leftParen | rightParen | comma | assign | minus =>
    refine ⟨_, [], rfl, ⟨by decide, ?_, by simp⟩, fun start rest => ⟨_, rfl⟩⟩
    rintro (_ | _) <;> decide
  | data | blockBegin | blockEnd | variableBegin | variableEnd | eof => exact h.elim

/-! ### Templates -/

theorem intercalate_cons_eq {α : Type} (sep x : List α) (xs : List (List α)) :
    sep.intercalate (x :: xs) = x ++ xs.flatMap (sep ++ ·) := by
  induction xs generalizing x with
  | nil => simp
  | cons y ys ih => rw [List.intercalate_cons_cons, ih, List.flatMap_cons]; simp

/-- The content of a tag, with a blank before each token. -/
def spaced (content : List Token) : List Char :=
  content.flatMap fun t => ' ' :: t.sourceForm.toList

theorem toList_print_tag (kind : TagKind) (content : List Token) :
    (Element.tag kind content).print.toList
      = '\x7b' :: (Opener.tag kind).mark ::
          (spaced content ++ [' ', kind.closeMark, '\x7d']) := by
  have hopen : kind.beginToken.sourceForm.toList = ['\x7b', (Opener.tag kind).mark] := by
    cases kind <;> rfl
  have hclose : kind.endToken.sourceForm.toList = [kind.closeMark, '\x7d'] := by
    cases kind <;> rfl
  rw [Element.print, String.toList_intercalate, Element.tokens, List.cons_append, List.map_cons,
    List.map_cons, intercalate_cons_eq, hopen]
  simp [hclose, spaced, List.flatMap_map]

theorem tokensFrom_content {kind : TagKind} {opened : Span} {content : List Token}
    (h : ∀ t ∈ content, IsPrintable t) {rest : List Char} {result : Option (List Token)}
    (hrest : ∀ pos, tokensFrom ⟨.data false, pos, rest⟩ = result) (pos : Position) :
    tokensFrom ⟨.tag kind opened, pos,
        spaced content ++ ' ' :: kind.closeMark :: '\x7d' :: rest⟩
      = (content.mapM rereadToken).bind fun ts =>
          result.map fun us => ts ++ kind.endToken :: us := by
  induction content generalizing pos with
  | nil =>
    obtain ⟨stop, hclose⟩ := tokensFrom_close kind opened pos rest
    rw [hrest] at hclose
    exact hclose
  | cons t content ih =>
    rw [List.forall_mem_cons] at h
    -- Whatever follows the token, it begins with a blank.
    obtain ⟨after, hafter⟩ : ∃ after,
        spaced content ++ ' ' :: kind.closeMark :: '\x7d' :: rest = ' ' :: after := by
      cases content <;> exact ⟨_, rfl⟩
    obtain ⟨stop, hword⟩ := tokensFrom_word kind opened pos
      (rereads_of_printable h.1) after
    have htext : spaced (t :: content) ++ ' ' :: kind.closeMark :: '\x7d' :: rest
        = ' ' :: (t.sourceForm.toList ++ ' ' :: after) := by
      rw [← hafter]
      simp [spaced]
    rw [htext, hword, ← hafter, ih h.2 stop, List.mapM_cons]
    cases rereadToken t with
    | none => rfl
    | some t' =>
      cases content.mapM rereadToken with
      | none => rfl
      | some ts => cases result <;> rfl

theorem print_cons (e : Element) (es : List Element) :
    (print (e :: es)).toList = e.print.toList ++ (print es).toList := by
  simp [print]

theorem endsData_print {es : List Element} (hes : ∀ e ∈ es, e.IsPrintable)
    (h : ∀ e ∈ es.head?, e.isData = false) : EndsData (print es).toList := by
  cases es with
  | nil => exact .inl rfl
  | cons e es =>
    rw [List.forall_mem_cons] at hes
    right
    cases e with
    | data text => cases h _ rfl
    | comment body =>
      refine ⟨.comment, body.toList ++ '#' :: '\x7d' :: (print es).toList, ?_, ?_⟩
      · rw [print_cons]
        simp [Element.print, Opener.mark]
      · exact beginsWithDash_comment hes.1.2.1 _
    | tag kind content =>
      refine ⟨.tag kind, spaced content ++ ' ' :: kind.closeMark :: '\x7d' :: (print es).toList,
        ?_, ?_⟩
      · rw [print_cons, toList_print_tag]
        simp
      · cases content <;> rfl

/-- A printed template is read back token by token. -/
theorem tokensFrom_print {es : List Element} (hes : ∀ e ∈ es, e.IsPrintable)
    (happart : es.IsChain fun a b => ¬ (a.isData = true ∧ b.isData = true)) (pos : Position) :
    tokensFrom ⟨.data false, pos, (print es).toList⟩
      = ((es.flatMap Element.tokens).mapM rereadToken).map (· ++ [.eof]) := by
  induction es generalizing pos with
  | nil => exact tokensFrom_end pos
  | cons e es ih =>
    rw [List.forall_mem_cons] at hes
    rw [List.isChain_cons] at happart
    have ih := ih hes.2 happart.2
    rw [print_cons, List.flatMap_cons, List.mapM_append]
    cases e with
    | data text =>
      obtain ⟨hne, hopen, hlast⟩ := hes.1
      have hnext : ∀ e ∈ es.head?, e.isData = false := by
        intro e he
        have := happart.1 e he
        simpa [Element.isData] using this
      rw [Element.print, tokensFrom_data hne (isData_of_printable hopen hlast)
        (endsData_print hes.2 hnext), ih, String.ofList_toList]
      cases (es.flatMap Element.tokens).mapM rereadToken <;> rfl
    | comment body =>
      obtain ⟨hclose, hfirst, hlast⟩ := hes.1
      have htext : (Element.comment body).print.toList ++ (print es).toList
          = '\x7b' :: Opener.comment.mark :: (body.toList ++ '#' :: '\x7d' ::
              (print es).toList) := by
        simp [Element.print, Opener.mark]
      obtain ⟨stop, hcomment⟩ := tokensFrom_comment pos (print es).toList hclose hfirst hlast
      rw [htext, tokensFrom_opener (beginsWithDash_comment hfirst _), hcomment, ih]
      cases (es.flatMap Element.tokens).mapM rereadToken <;> rfl
    | tag kind content =>
      have htext : (Element.tag kind content).print.toList ++ (print es).toList
          = '\x7b' :: (Opener.tag kind).mark ::
              (spaced content ++ ' ' :: kind.closeMark :: '\x7d' :: (print es).toList) := by
        rw [toList_print_tag]
        simp
      have hdash : beginsWithDash
          (spaced content ++ ' ' :: kind.closeMark :: '\x7d' :: (print es).toList) = false := by
        cases content <;> rfl
      obtain ⟨opened, stop, hbegin⟩ := tokensFrom_begin kind pos hdash
      have hfirst : rereadToken kind.beginToken = some kind.beginToken := by cases kind <;> rfl
      have hfinal : rereadToken kind.endToken = some kind.endToken := by cases kind <;> rfl
      rw [htext, tokensFrom_opener hdash, hbegin, tokensFrom_content hes.1 ih, Element.tokens,
        List.mapM_append, List.mapM_cons, List.mapM_cons, List.mapM_nil, hfirst, hfinal]
      cases content.mapM rereadToken with
      | none => rfl
      | some ts => cases (es.flatMap Element.tokens).mapM rereadToken <;> simp

theorem mapM_eq_self_iff {α : Type} {f : α → Option α} {xs : List α} :
    xs.mapM f = some xs ↔ ∀ x ∈ xs, f x = some x := by
  induction xs with
  | nil => simp
  | cons x xs ih =>
    rw [List.mapM_cons, List.forall_mem_cons, ← ih]
    cases f x with
    | none => simp
    | some y => cases xs.mapM f <;> simp

theorem rereadToken_eq_self_iff {t : Token}
    (hsize : ∀ value, t = .string value → value.utf8ByteSize ≤ Limits.maxStringSize) :
    rereadToken t = some t ↔
      ∀ value, t = .string value → ∀ c ∈ value.toList, ¬ IsCoded c := by
  cases t with
  | string value =>
    have hsize := hsize value rfl
    rw [utf8ByteSize_eq_sum] at hsize
    simp only [Token.string.injEq, forall_eq', rereadToken]
    rw [← flatMap_rereadChar_eq_self_iff]
    constructor
    · intro h
      split at h
      · have hvalue : String.ofList (value.toList.flatMap rereadChar) = value := by
          simpa using h
        simpa using congrArg String.toList hvalue
      · cases h
    · intro h
      rw [h, if_pos hsize, String.ofList_toList]
  | _ => simp [rereadToken]

theorem size_of_mem_tokens {e : Element} (he : e.IsPrintable) {value : String}
    (h : .string value ∈ e.tokens) : value.utf8ByteSize ≤ Limits.maxStringSize := by
  cases e with
  | data text => simp [Element.tokens] at h
  | comment body => cases h
  | tag kind content =>
    have hcontent : .string value ∈ content := by
      cases kind <;> simpa [Element.tokens, TagKind.beginToken, TagKind.endToken] using h
    exact he _ hcontent

/-- Lexing undoes printing exactly if the tokens are not too many and no string
holds a character that is shown by its code point. -/
theorem tokenize_print_iff {elements : List Element} (hprintable : ∀ e ∈ elements, e.IsPrintable)
    (happart : elements.IsChain fun a b => ¬ (a.isData = true ∧ b.isData = true)) :
    (∃ lexed, tokenize (print elements) = .ok lexed ∧
      lexed.tokens.toList.map Located.value
        = elements.flatMap Element.tokens ++ [.eof]) ↔
    (elements.flatMap Element.tokens ++ [Token.eof]).length ≤ Limits.maxTokenCount ∧
      ∀ value, .string value ∈ elements.flatMap Element.tokens →
        ∀ c ∈ value.toList, ¬ IsCoded c := by
  rw [tokenize_eq_ok_iff, tokensFrom_print hprintable happart, and_comm]
  refine and_congr_right fun _ => ?_
  have hself : ((elements.flatMap Element.tokens).mapM rereadToken).map (· ++ [Token.eof])
        = some (elements.flatMap Element.tokens ++ [Token.eof]) ↔
      (elements.flatMap Element.tokens).mapM rereadToken
        = some (elements.flatMap Element.tokens) := by
    simp
  rw [hself, mapM_eq_self_iff]
  have hsize : ∀ t ∈ elements.flatMap Element.tokens, ∀ value, t = .string value →
      value.utf8ByteSize ≤ Limits.maxStringSize := by
    rintro t ht value rfl
    obtain ⟨e, he, hvalue⟩ := List.mem_flatMap.mp ht
    exact size_of_mem_tokens (hprintable e he) hvalue
  constructor
  · intro h value hvalue
    exact (rereadToken_eq_self_iff (hsize _ hvalue)).mp (h _ hvalue) value rfl
  · intro h t ht
    rw [rereadToken_eq_self_iff (hsize t ht)]
    rintro value rfl
    exact h value ht

/-- Data with a lone brace, a string that holds a quote and a closer, and a comment
that ends like its closer begins. -/
theorem tokenize_print_iff_quoted :
    ∃ lexed, tokenize (print [.data "\x7ba",
        .tag .expression [.string "\"\x7d\x7d\n", .minus], .comment "#"]) = .ok lexed ∧
      lexed.tokens.toList.map Located.value
        = [.data "\x7ba", .variableBegin, .string "\"\x7d\x7d\n", .minus, .variableEnd,
            .eof] := by
  refine (@tokenize_print_iff [.data "\x7ba",
    .tag .expression [.string "\"\x7d\x7d\n", .minus], .comment "#"] ?_ ?_).mpr
      ⟨by decide, ?_⟩
  · simp only [List.forall_mem_cons, Element.IsPrintable, IsPrintable]
    refine ⟨⟨by decide, ?_, by decide⟩, ⟨by decide, trivial, by simp⟩, ⟨by decide, by decide⟩,
      by simp⟩
    rintro (⟨_ | _⟩ | _) <;> decide
  · simp [Element.isData]
  · simp [Element.tokens, TagKind.beginToken, TagKind.endToken, ← rereadChar_eq_self_iff]
    decide

end Lexer

end QueryMachine
