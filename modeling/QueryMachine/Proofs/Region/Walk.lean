import QueryMachine.Proofs.Template.Grammar
import QueryMachine.Proofs.Token.Shape

/-!
# One walk over the tokens

The instrumenter reads its tokens once, with one token of lookahead, and carries
a record of where it stands. `Emits` is what every statement about it is made
of: reading `w` from `p` puts out `e` and leaves the walk at `q`, whatever was
put out before and whatever follows. Readings compose (`Emits.append`), so a
statement about a whole template is put together from one lemma per piece.

The lemmas of the first part say what is put out for each kind of piece, those
of the second on which pieces the walk ends with an error. Together they cover
every branch of `visit`, and the later files do not open it again.
-/

namespace QueryMachine.Text

/-- Cutting a text at its newlines is the library's split. -/
theorem lines_eq_splitOn (cs : List Char) : lines cs = cs.splitOn '\n' := by
  induction cs with
  | nil => rfl
  | cons c cs ih =>
    rw [List.splitOn, List.splitOnP_cons_eq_if_modifyHead]
    split
    · next h =>
      obtain rfl : c = '\n' := by simpa using h
      rw [lines_newline, ih]
      rfl
    · next h =>
      have hne : c ≠ '\n' := by simpa using h
      rw [lines_cons hne, ih]
      rfl

end QueryMachine.Text

namespace QueryMachine.Region

open Grammar

variable {hooks : Hooks} {p q r : Progress}

/-- Reading `w` from `p` puts out `e` and leaves the walk at `q`. -/
def Emits (hooks : Hooks) (p : Progress) (w e : List (Located Token)) (q : Progress) : Prop :=
  ∀ out rest, runFrom hooks p out (w ++ rest) = runFrom hooks q (out ++ e.toArray) rest

theorem Emits.nil : Emits hooks p [] [] p := by
  intro out rest
  simp

theorem Emits.append {w w' e e' : List (Located Token)} (h : Emits hooks p w e q)
    (h' : Emits hooks q w' e' r) : Emits hooks p (w ++ w') (e ++ e') r := by
  intro out rest
  rw [List.append_assoc, h, h', Array.append_assoc, ← List.append_toArray]

theorem runFrom_of_visit {t : Located Token} {rest rest' : List (Located Token)}
    {out more : Array (Located Token)} (h : visit hooks p t rest = ⟨q, rest', .ok more⟩) :
    runFrom hooks p out (t :: rest) = runFrom hooks q (out ++ more) rest' := by
  rw [runFrom]
  simp only [h]

theorem runFrom_of_fail {t : Located Token} {rest : List (Located Token)}
    {out : Array (Located Token)} {error : RegionError}
    (h : (visit hooks p t rest).result = .error error) :
    runFrom hooks p out (t :: rest) = .error error := by
  rw [runFrom]
  simp only [h]

/-! ## What is put out -/

/-- The tokens that the walk hands on wherever it stands. -/
def isQuiet : Token → Bool
  | .data _ | .blockBegin | .variableBegin | .eof => false
  | _ => true

theorem isQuiet_of_isContent {t : Token} (h : Lexer.isContent t = true) : isQuiet t = true := by
  revert h
  cases t <;> simp [Lexer.isContent, isQuiet]

theorem isQuiet_endToken (kind : Lexer.TagKind) : isQuiet kind.endToken = true := by
  cases kind <;> rfl

theorem emits_quiet_one {t : Located Token} (h : isQuiet t.value = true) :
    Emits hooks p [t] [t] p := by
  intro out rest
  refine runFrom_of_visit ?_
  obtain ⟨value, span⟩ := t
  cases value <;> first | rfl | cases h

theorem emits_quiet {w : List (Located Token)} (h : ∀ t ∈ w, isQuiet t.value = true) :
    Emits hooks p w w p := by
  induction w with
  | nil => exact .nil
  | cons t w ih =>
    rw [List.forall_mem_cons] at h
    exact (emits_quiet_one h.1).append (ih h.2)

def Progress.sawOutput (p : Progress) : Progress :=
  if p.inRegion then p.markDue else p

@[simp] theorem Progress.opened_sawOutput (p : Progress) :
    p.sawOutput.opened = p.opened := by
  unfold sawOutput
  split <;> rfl

theorem Progress.inRegion_sawOutput (p : Progress) : p.sawOutput.inRegion = p.inRegion :=
  inRegion_congr p.opened_sawOutput

theorem Progress.due_sawOutput (h : p.inRegion = true) : p.sawOutput.due = true := by
  simp [sawOutput, h, markDue]

theorem emits_variableBegin (span : Span) :
    Emits hooks p [⟨.variableBegin, span⟩] [⟨.variableBegin, span⟩] p.sawOutput := by
  intro out rest
  exact runFrom_of_visit rfl

/-- A block tag that neither opens nor closes a region is handed on. -/
theorem emits_blockBegin {first : Span} {name : Located Token}
    (hquiet : isQuiet name.value = true) (hopen : name.value.isName openName = false)
    (hclose : name.value.isName closeName = false) :
    Emits hooks p [⟨.blockBegin, first⟩, name] [⟨.blockBegin, first⟩, name] p := by
  intro out rest
  have hstep : visit hooks p ⟨.blockBegin, first⟩ (name :: rest)
      = pass p ⟨.blockBegin, first⟩ (name :: rest) := by
    simp [visit, hopen, hclose]
  have hbegin : runFrom hooks p out (⟨.blockBegin, first⟩ :: name :: rest)
      = runFrom hooks p (out ++ #[⟨.blockBegin, first⟩]) (name :: rest) :=
    runFrom_of_visit hstep
  refine hbegin.trans ?_
  have hname : Emits hooks p [name] [name] p := emits_quiet_one hquiet
  refine (hname _ rest).trans ?_
  rw [Array.append_assoc]
  rfl

theorem emits_data_outside (h : p.opened = none) (text : String) (span : Span) :
    Emits hooks p [⟨.data text, span⟩] [⟨.data text, span⟩] p := by
  intro out rest
  refine runFrom_of_visit ?_
  simp [visit, Progress.inRegion_eq_false_iff.mpr h, pass]

/-- The tokens of the lines of a data token, from `pos` on. -/
def lineTokens (hooks : Hooks) (due : Bool) (pos : Position) :
    List (List Char) → List (Located Token)
  | [] => []
  | [last] => [dataAt pos last]
  | line :: next :: rest =>
    let stop := pos.advanceOver line
    let blank := Text.isAllBlank line
    (if blank then [] else [dataAt pos line]) ++
      (if due || !blank then (call hooks.statement stop).toList else []) ++
        lineTokens hooks false (stop.advance '\n') (next :: rest)

/-- Whether a statement is due after the lines of a data token: a newline leaves
none due, and what stands after the last newline changes nothing. -/
def dueAfter (due : Bool) : List (List Char) → Bool
  | [] | [_] => due
  | _ => false

theorem dueAfter_false (lines : List (List Char)) : dueAfter false lines = false := by
  unfold dueAfter
  split <;> rfl

theorem splitData_spec (out : Array (Located Token)) (pos : Position)
    (lines : List (List Char)) :
    (splitData hooks p out pos lines).1 = out ++ (lineTokens hooks p.due pos lines).toArray ∧
      (splitData hooks p out pos lines).2.opened = p.opened ∧
      (splitData hooks p out pos lines).2.due = dueAfter p.due lines := by
  fun_induction splitData hooks p out pos lines with
  | case1 p out pos => simp [lineTokens, dueAfter]
  | case2 p out pos last => simp [lineTokens, dueAfter]
  | case3 p out pos line next rest stop blank out' p' hdue ih =>
    have hsite : (p.due || !Text.isAllBlank line) = true := by
      cases hblank : Text.isAllBlank line
      · simp
      · simpa [p', blank, hblank] using hdue
    obtain ⟨hout, hopened, hd⟩ := ih
    refine ⟨?_, ?_, ?_⟩
    · rw [hout, lineTokens]
      simp only [hsite, if_true, out', blank, stop]
      by_cases hblank : Text.isAllBlank line = true <;>
        simp [Progress.countStatement, hblank, ← Array.toList_inj]
    · rw [hopened]
      simp only [p', Progress.countStatement, Progress.countCall, Progress.markDue]
      split <;> rfl
    · rw [hd]
      exact dueAfter_false _
  | case4 p out pos line next rest stop blank out' p' hdue ih =>
    have hblank : Text.isAllBlank line = true := by
      cases hblank : Text.isAllBlank line
      · simp [p', blank, hblank, Progress.markDue] at hdue
      · rfl
    have hp : p' = p := by simp [p', blank, hblank]
    rw [hp] at ih hdue
    obtain ⟨hout, hopened, hd⟩ := ih
    have hdue : p.due = false := by simpa using hdue
    refine ⟨?_, ?_, ?_⟩
    · rw [hp, hout, lineTokens]
      simp [out', blank, stop, hblank, hdue]
    · rw [hp, hopened]
    · rw [hp, hd, hdue, dueAfter_false, dueAfter_false]

def Progress.sawData (hooks : Hooks) (p : Progress) (text : String) (start : Position) :
    Progress :=
  (splitData hooks p #[] start (Text.lines text.toList)).2

theorem Progress.opened_sawData (p : Progress) (text : String) (start : Position) :
    (p.sawData hooks text start).opened = p.opened :=
  (splitData_spec #[] start _).2.1

theorem Progress.inRegion_sawData (p : Progress) (text : String) (start : Position) :
    (p.sawData hooks text start).inRegion = p.inRegion :=
  inRegion_congr (p.opened_sawData text start)

theorem Progress.due_sawData (p : Progress) (text : String) (start : Position) :
    (p.sawData hooks text start).due = dueAfter p.due (text.toList.splitOn '\n') := by
  rw [← Text.lines_eq_splitOn]
  exact (splitData_spec #[] start _).2.2

theorem emits_data_inside (h : p.inRegion = true) (text : String) (span : Span) :
    Emits hooks p [⟨.data text, span⟩]
      (lineTokens hooks p.due span.start (text.toList.splitOn '\n'))
      (p.sawData hooks text span.start) := by
  intro out rest
  refine runFrom_of_visit ?_
  obtain ⟨hout, -⟩ := @splitData_spec hooks p #[] span.start (Text.lines text.toList)
  rw [Array.empty_append, Text.lines_eq_splitOn] at hout
  simp only [visit, h, if_true, Text.lines_eq_splitOn, hout, Progress.sawData]
  rfl

/-- An opening tag is handed on with the prologue behind it. -/
theorem emits_open (h : p.opened = none) (first tag last : Span) :
    Emits hooks p (nameTag openName first tag last)
      (nameTag openName first tag last ++ (call hooks.prologue last.stop).toList)
      (p.enter (first.cover last)).countCall := by
  intro out rest
  refine runFrom_of_visit ?_
  simp [visit, visitOpen, nameTag, Token.isName, Progress.inRegion_eq_false_iff.mpr h]

/-- A closing tag is handed on with the epilogue before it. -/
theorem emits_close (h : p.inRegion = true) (first tag : Span) :
    Emits hooks p [⟨.blockBegin, first⟩, ⟨.name closeName, tag⟩]
      ((call hooks.epilogue first.start).toList ++
        [⟨.blockBegin, first⟩, ⟨.name closeName, tag⟩])
      p.leave.countCall := by
  intro out rest
  have hstep : visit hooks p ⟨.blockBegin, first⟩ (⟨.name closeName, tag⟩ :: rest)
      = ⟨p.leave.countCall, ⟨.name closeName, tag⟩ :: rest,
          .ok ((call hooks.epilogue first.start).push ⟨.blockBegin, first⟩)⟩ := by
    simp [visit, visitClose, Token.isName, h, closeName, openName]
  have hbegin : runFrom hooks p out (⟨.blockBegin, first⟩ :: ⟨.name closeName, tag⟩ :: rest)
      = runFrom hooks p.leave.countCall
          (out ++ (call hooks.epilogue first.start).push ⟨.blockBegin, first⟩)
          (⟨.name closeName, tag⟩ :: rest) := runFrom_of_visit hstep
  refine hbegin.trans ?_
  have hname : Emits hooks p.leave.countCall [⟨.name closeName, tag⟩]
      [⟨.name closeName, tag⟩] p.leave.countCall := emits_quiet_one rfl
  refine (hname _ rest).trans ?_
  congr 1
  rw [Array.append_assoc]
  congr 1
  simp [← Array.toList_inj]

/-! ### Tags

A tag of the lexer is walked over as a whole: behind its first token, or behind
its name, there are only tokens that are handed on. -/

theorem isQuiet_of_tag {w : List (Located Token)}
    (hw : ∀ t ∈ w, Lexer.isContent t.value = true) (kind : Lexer.TagKind) (last : Span) :
    ∀ t ∈ w ++ [⟨kind.endToken, last⟩], isQuiet t.value = true := by
  intro t ht
  rcases List.mem_append.mp ht with ht | ht
  · exact isQuiet_of_isContent (hw t ht)
  · rw [List.mem_singleton.mp ht]
    exact isQuiet_endToken kind

theorem emits_variableTag {w : List (Located Token)}
    (hw : ∀ t ∈ w, Lexer.isContent t.value = true) (first last : Span) :
    Emits hooks p (⟨.variableBegin, first⟩ :: (w ++ [⟨.variableEnd, last⟩]))
      (⟨.variableBegin, first⟩ :: (w ++ [⟨.variableEnd, last⟩])) p.sawOutput :=
  (emits_variableBegin first).append (emits_quiet (isQuiet_of_tag hw .expression last))

/-- Whether tokens begin with an opening or a closing tag. -/
def beginsMark : List (Located Token) → Bool
  | begin :: name :: _ =>
    begin.value == .blockBegin &&
      (name.value.isName openName || name.value.isName closeName)
  | _ => false

theorem emits_blockTag {w : List (Located Token)}
    (hw : ∀ t ∈ w, Lexer.isContent t.value = true) (first last : Span)
    (hmark : beginsMark (⟨.blockBegin, first⟩ :: (w ++ [⟨.blockEnd, last⟩])) = false) :
    Emits hooks p (⟨.blockBegin, first⟩ :: (w ++ [⟨.blockEnd, last⟩]))
      (⟨.blockBegin, first⟩ :: (w ++ [⟨.blockEnd, last⟩])) p := by
  have hquiet := isQuiet_of_tag hw .block last
  obtain ⟨name, rest, heq⟩ : ∃ name rest,
      w ++ [(⟨.blockEnd, last⟩ : Located Token)] = name :: rest :=
    List.exists_cons_of_ne_nil (by simp)
  rw [show w ++ [⟨Lexer.TagKind.block.endToken, last⟩] = name :: rest from heq,
    List.forall_mem_cons] at hquiet
  rw [heq] at hmark ⊢
  simp only [beginsMark, beq_self_eq_true, Bool.true_and, Bool.or_eq_false_iff] at hmark
  exact (emits_blockBegin hquiet.1 hmark.1 hmark.2).append (emits_quiet hquiet.2)

theorem emits_closeTag (h : p.inRegion = true) {w : List (Located Token)}
    (hw : ∀ t ∈ w, Lexer.isContent t.value = true) (first tag last : Span) :
    Emits hooks p
      (⟨.blockBegin, first⟩ :: ⟨.name closeName, tag⟩ :: (w ++ [⟨.blockEnd, last⟩]))
      ((call hooks.epilogue first.start).toList ++
        ⟨.blockBegin, first⟩ :: ⟨.name closeName, tag⟩ :: (w ++ [⟨.blockEnd, last⟩]))
      p.leave.countCall := by
  have hrest : Emits hooks p.leave.countCall _ _ p.leave.countCall :=
    emits_quiet (isQuiet_of_tag hw .block last)
  have h := (emits_close h first tag).append hrest
  rw [List.append_assoc] at h
  exact h

/-- Outside of regions every piece is handed on, region tags apart. -/
theorem emits_piece_outside {w : List (Located Token)} (h : Lexer.IsPiece w)
    (hmark : beginsMark w = false) (hp : p.opened = none) : Emits hooks p w w p := by
  cases h with
  | data text span => exact emits_data_outside hp text span
  | tag kind first last hw =>
    cases kind with
    | block => exact emits_blockTag hw first last hmark
    | expression =>
      have hsaw : p.sawOutput = p := by
        simp [Progress.sawOutput, Progress.inRegion_eq_false_iff.mpr hp]
      have h := @emits_variableTag hooks p _ hw first last
      rw [hsaw] at h
      exact h

/-- A piece that begins like a region tag is one: the rest of it is content. -/
theorem exists_of_beginsMark {w : List (Located Token)} (hw : Lexer.IsPiece w)
    (h : beginsMark w = true) :
    ∃ name first tag last more, (name = openName ∨ name = closeName) ∧
      (∀ t ∈ more, Lexer.isContent t.value = true) ∧
      w = ⟨.blockBegin, first⟩ :: ⟨.name name, tag⟩ :: (more ++ [⟨.blockEnd, last⟩]) := by
  cases hw with
  | data => cases h
  | @tag kind first last content hcontent =>
    cases content with
    | nil => cases kind <;> cases h
    | cons t more =>
      rw [List.forall_mem_cons] at hcontent
      obtain ⟨value, tag⟩ := t
      cases kind <;> cases value <;>
        simp [beginsMark, Lexer.TagKind.beginToken, Token.isName] at h
      exact ⟨_, first, tag, last, more, h, hcontent.2, rfl⟩

/-! ### The tokens of items -/

theorem isContent_of_set {name : String} {tag target equals : Span}
    {w : List (Located Token)} {e : Expr} (h : ExprTokens w e) :
    ∀ t ∈ (⟨.name "set", tag⟩ : Located Token) :: ⟨.name name, target⟩ ::
      ⟨.assign, equals⟩ :: w, Lexer.isContent t.value = true := by
  simp only [List.forall_mem_cons]
  exact ⟨rfl, rfl, rfl, isContent_of_exprTokens h⟩

theorem isPiece_of_itemTokens {w : List (Located Token)} {i : Item} (h : ItemTokens w i) :
    Lexer.IsPiece w := by
  cases h with
  | data text span => exact .data text span
  | output first last he => exact .tag .expression first last (isContent_of_exprTokens he)
  | set name first tag target equals last he =>
    exact .tag .block first last (isContent_of_set he)

theorem isPiece_nameTag (name : String) (first tag last : Span) :
    Lexer.IsPiece (nameTag name first tag last) :=
  .tag (w := [⟨.name name, tag⟩]) .block first last (by simp [Lexer.isContent])

theorem beginsMark_of_itemTokens {w : List (Located Token)} {i : Item}
    (h : ItemTokens w i) : beginsMark w = false := by
  cases h with
  | data text span => rfl
  | output first last he => cases he <;> rfl
  | set name first tag target equals last he => rfl

theorem runFrom_eof (h : p.opened = none) (out : Array (Located Token)) (span : Span)
    (rest : List (Located Token)) :
    runFrom hooks p out (⟨.eof, span⟩ :: rest) = .ok (out.push ⟨.eof, span⟩, p) := by
  have hstep : visit hooks p ⟨.eof, span⟩ rest = pass p ⟨.eof, span⟩ [] := by
    simp [visit, Progress.inRegion_eq_false_iff.mpr h]
  rw [runFrom_of_visit hstep, runFrom]
  simp

/-! ## Where the walk ends -/

theorem runFrom_nested {opened : Span} (h : p.opened = some opened) {name : Located Token}
    (hname : name.value.isName openName = true) (out : Array (Located Token)) (first : Span)
    (rest : List (Located Token)) :
    runFrom hooks p out (⟨.blockBegin, first⟩ :: name :: rest)
      = .error (.nested ((rest.head?.map fun third => first.cover third.span).getD first)
          opened) := by
  refine runFrom_of_fail ?_
  simp [visit, visitOpen, hname, h, Progress.inRegion_of_opened h, fail]

theorem runFrom_unmatched (h : p.opened = none) {name : Located Token}
    (hname : name.value.isName closeName = true) (out : Array (Located Token)) (first : Span)
    (rest : List (Located Token)) :
    runFrom hooks p out (⟨.blockBegin, first⟩ :: name :: rest)
      = .error (.unmatchedClose first) := by
  have hopen : name.value.isName openName = false := by
    obtain ⟨value, span⟩ := name
    cases value <;> simp_all [Token.isName, openName, closeName]
  refine runFrom_of_fail ?_
  simp [visit, visitClose, hopen, hname, Progress.inRegion_eq_false_iff.mpr h, fail]

/-- An opening tag holds a name only. -/
theorem runFrom_malformed (h : p.opened = none) {name third : Located Token}
    (hname : name.value.isName openName = true) (hthird : third.value ≠ .blockEnd)
    (out : Array (Located Token)) (first : Span) (rest : List (Located Token)) :
    runFrom hooks p out (⟨.blockBegin, first⟩ :: name :: third :: rest)
      = .error (.malformed Token.blockEnd.describe third.value.describe third.span) := by
  refine runFrom_of_fail ?_
  simp [visit, visitOpen, hname, Progress.inRegion_eq_false_iff.mpr h, hthird, fail]

/-- What can become of a piece outside of regions. -/
theorem piece_outside_cases {w : List (Located Token)} (hw : Lexer.IsPiece w)
    (hp : p.opened = none) :
    (beginsMark w = false ∧ Emits hooks p w w p) ∨
    (∃ first tag last, w = nameTag openName first tag last ∧
      Emits hooks p w (w ++ (call hooks.prologue last.stop).toList)
        (p.enter (first.cover last)).countCall) ∨
    ∀ out rest, ∃ error, runFrom hooks p out (w ++ rest) = .error error := by
  cases hmark : beginsMark w with
  | false => exact .inl ⟨rfl, emits_piece_outside hw hmark hp⟩
  | true =>
    obtain ⟨name, first, tag, last, more, hname, hmore, rfl⟩ := exists_of_beginsMark hw hmark
    rcases hname with rfl | rfl
    · cases more with
      | nil => exact .inr (.inl ⟨first, tag, last, rfl, emits_open hp first tag last⟩)
      | cons third more =>
        rw [List.forall_mem_cons] at hmore
        have hthird : third.value ≠ .blockEnd := by
          intro h
          rw [h] at hmore
          cases hmore.1
        exact .inr (.inr fun out rest => ⟨_, runFrom_malformed hp rfl hthird out first _⟩)
    · exact .inr (.inr fun out rest => ⟨_, runFrom_unmatched hp rfl out first _⟩)

/-- What can become of a piece inside of a region. -/
theorem piece_inside_cases {w : List (Located Token)} (hw : Lexer.IsPiece w)
    (hp : p.inRegion = true) :
    beginsMark w = false ∨
    (∃ first tag more, w = ⟨.blockBegin, first⟩ :: ⟨.name closeName, tag⟩ :: more ∧
      Emits hooks p w ((call hooks.epilogue first.start).toList ++ w) p.leave.countCall) ∨
    ∀ out rest, ∃ error, runFrom hooks p out (w ++ rest) = .error error := by
  cases hmark : beginsMark w with
  | false => exact .inl rfl
  | true =>
    obtain ⟨name, first, tag, last, more, hname, hmore, rfl⟩ := exists_of_beginsMark hw hmark
    rcases hname with rfl | rfl
    · obtain ⟨opened, hopened⟩ := Progress.exists_opened hp
      exact .inr (.inr fun out rest => ⟨_, runFrom_nested hopened rfl out first _⟩)
    · exact .inr (.inl ⟨first, tag, _, rfl, emits_closeTag hp hmore first tag last⟩)

theorem runFrom_unclosed {opened : Span} (h : p.opened = some opened)
    (out : Array (Located Token)) (span : Span) (rest : List (Located Token)) :
    runFrom hooks p out (⟨.eof, span⟩ :: rest) = .error (.unclosed opened) := by
  refine runFrom_of_fail ?_
  simp [visit, h, Progress.inRegion_of_opened h, fail]

theorem eof_mem_closed (tokens : List (Located Token)) :
    ∃ t ∈ Cursor.closed tokens, t.value.isEof = true := by
  unfold Cursor.closed
  split
  · next last hlast =>
    split
    · next heof => exact ⟨last, List.mem_of_getLast? hlast, heof⟩
    · exact ⟨_, List.mem_append_right _ (List.mem_singleton_self _), rfl⟩
  · exact ⟨_, List.mem_singleton_self _, rfl⟩

/-- The lexer closes its sequences itself. -/
theorem closed_of_tokenize {source : String} {lexed : Lexed}
    (h : Lexer.tokenize source = .ok lexed) :
    Cursor.closed lexed.tokens.toList = lexed.tokens.toList := by
  obtain ⟨w, span, htokens, -⟩ := Lexer.shaped_of_tokenize h
  rw [htokens]
  simp [Cursor.closed, Token.isEof]

/-! ## Any tokens

The pieces above are what the lexer gives. The walk takes any tokens, and then a
tag may stand inside of another or lack its end. What a single visit can do is
all there is to say. -/

/-- The span of an opening tag, from its `{%` to the token behind its name. -/
def tagSpan (begin : Located Token) (following : List (Located Token)) : Span :=
  (following.head?.map fun third => begin.span.cover third.span).getD begin.span

/-- What a visit of a token can be, with the tokens after it. -/
inductive Visits (hooks : Hooks) (p : Progress) :
    Located Token → List (Located Token) → Visit → Prop where
  | handOn {token : Located Token} {rest : List (Located Token)} {q : Progress} :
      q.opened = p.opened → q.summary = p.summary → token.value ≠ .eof →
      beginsMark (token :: rest) = false → (p.inRegion = true → token.value.isData = false) →
      Visits hooks p token rest (pass q token rest)
  | openTag {token name third : Located Token} {rest : List (Located Token)} :
      token.value = .blockBegin → name.value.isName openName = true →
      third.value = .blockEnd → p.opened = none →
      Visits hooks p token (name :: third :: rest)
        ⟨(p.enter (token.span.cover third.span)).countCall, rest,
          .ok (#[token, name, third] ++ call hooks.prologue third.span.stop)⟩
  | closeTag {token name : Located Token} {rest : List (Located Token)} :
      token.value = .blockBegin → name.value.isName closeName = true → p.inRegion = true →
      Visits hooks p token (name :: rest)
        ⟨p.leave.countCall, name :: rest,
          .ok ((call hooks.epilogue token.span.start).push token)⟩
  | data {text : String} {span : Span} {rest : List (Located Token)} : p.inRegion = true →
      Visits hooks p ⟨.data text, span⟩ rest
        ⟨p.sawData hooks text span.start, rest,
          .ok (lineTokens hooks p.due span.start (text.toList.splitOn '\n')).toArray⟩
  | finish {token : Located Token} {rest : List (Located Token)} :
      token.value = .eof → p.opened = none → Visits hooks p token rest (pass p token [])
  | nested {token name : Located Token} {following : List (Located Token)} {opened : Span} :
      token.value = .blockBegin → name.value.isName openName = true →
      p.opened = some opened →
      Visits hooks p token (name :: following) (fail p (.nested (tagSpan token following) opened))
  | malformed {token name third : Located Token} {rest : List (Located Token)} :
      token.value = .blockBegin → name.value.isName openName = true → p.opened = none →
      third.value ≠ .blockEnd →
      Visits hooks p token (name :: third :: rest)
        (fail (p.enter (tagSpan token (third :: rest)))
          (.malformed Token.blockEnd.describe third.value.describe third.span))
  | unfinished {token name : Located Token} :
      token.value = .blockBegin → name.value.isName openName = true → p.opened = none →
      Visits hooks p token [name]
        (fail (p.enter (tagSpan token []))
          (.malformed Token.blockEnd.describe Token.eof.describe name.span))
  | unmatched {token name : Located Token} {rest : List (Located Token)} :
      token.value = .blockBegin → name.value.isName closeName = true → p.opened = none →
      Visits hooks p token (name :: rest) (fail p (.unmatchedClose token.span))
  | unclosed {token : Located Token} {rest : List (Located Token)} {opened : Span} :
      token.value = .eof → p.opened = some opened →
      Visits hooks p token rest (fail p (.unclosed opened))

theorem visits_open {token name : Located Token} (htoken : token.value = .blockBegin)
    (hname : name.value.isName openName = true) (following : List (Located Token)) :
    Visits hooks p token (name :: following) (visitOpen hooks p token name following) := by
  unfold visitOpen
  split
  · next hregion =>
    obtain ⟨opened, hopened⟩ := Progress.exists_opened hregion
    rw [hopened]
    exact .nested htoken hname hopened
  · next hregion =>
    have hopened := Progress.inRegion_eq_false_iff.mp (Bool.eq_false_iff.mpr hregion)
    cases following with
    | nil => exact .unfinished htoken hname hopened
    | cons third rest =>
      simp only
      split
      · next hthird => exact .openTag htoken hname hthird hopened
      · next hthird => exact .malformed htoken hname hopened hthird

theorem visits_close {token name : Located Token} (htoken : token.value = .blockBegin)
    (hname : name.value.isName closeName = true) (rest : List (Located Token)) :
    Visits hooks p token (name :: rest) (visitClose hooks p token (name :: rest)) := by
  unfold visitClose
  split
  · next hregion => exact .closeTag htoken hname hregion
  · next hregion =>
    have hopened := Progress.inRegion_eq_false_iff.mp (Bool.eq_false_iff.mpr hregion)
    exact .unmatched htoken hname hopened

theorem visits_visit (hooks : Hooks) (p : Progress) (token : Located Token)
    (rest : List (Located Token)) : Visits hooks p token rest (visit hooks p token rest) := by
  obtain ⟨value, span⟩ := token
  cases value with
  | blockBegin =>
    cases rest with
    | nil => exact .handOn rfl rfl (by simp) rfl (fun _ => rfl)
    | cons name following =>
      simp only [visit]
      split
      · next hopen => exact visits_open rfl hopen following
      · next hopen =>
        split
        · next hclose => exact visits_close rfl hclose following
        · next hclose =>
          exact .handOn rfl rfl (by simp) (by simp [beginsMark, hopen, hclose]) (fun _ => rfl)
  | data text =>
    simp only [visit]
    split
    · next hregion =>
      have hvisit := @Visits.data hooks p text span rest hregion
      obtain ⟨hout, -⟩ := @splitData_spec hooks p #[] span.start (Text.lines text.toList)
      rw [Array.empty_append, Text.lines_eq_splitOn] at hout
      rw [← hout, Progress.sawData, Text.lines_eq_splitOn] at hvisit
      rw [Text.lines_eq_splitOn]
      exact hvisit
    · next hregion =>
      exact .handOn rfl rfl (by simp) (by cases rest <;> rfl) (fun h => absurd h hregion)
  | variableBegin =>
    refine .handOn ?_ ?_ (by simp) (by cases rest <;> rfl) (fun _ => rfl)
    · split <;> rfl
    · split <;> rfl
  | eof =>
    simp only [visit]
    split
    · next hregion =>
      obtain ⟨opened, hopened⟩ := Progress.exists_opened hregion
      rw [hopened]
      exact .unclosed rfl hopened
    · next hregion =>
      exact .finish rfl (Progress.inRegion_eq_false_iff.mp (Bool.eq_false_iff.mpr hregion))
  | _ => exact .handOn rfl rfl (by simp) (by cases rest <;> rfl) (fun _ => rfl)

/-! ## How far a visit looks ahead -/

/-- The same tokens up to the first end marker, if there is one. -/
inductive EndsAlike : List (Located Token) → List (Located Token) → Prop where
  | nil : EndsAlike [] []
  | eof {t : Located Token} (rest rest' : List (Located Token)) : t.value = .eof →
      EndsAlike (t :: rest) (t :: rest')
  | cons (t : Located Token) {ts ts' : List (Located Token)} : EndsAlike ts ts' →
      EndsAlike (t :: ts) (t :: ts')

theorem EndsAlike.exists_eq_cons {t : Located Token} {ts ts' : List (Located Token)}
    (h : EndsAlike (t :: ts) ts') : ∃ rest, ts' = t :: rest := by
  cases h <;> exact ⟨_, rfl⟩

/-- Visits that differ in what stands behind an end marker still to visit, if at all. -/
structure Visit.Alike (v v' : Visit) : Prop where
  progress : v.progress = v'.progress
  result : v.result = v'.result
  rest : EndsAlike v.rest v'.rest

section Alike

variable {token name : Located Token} {rest rest' following following' : List (Located Token)}

theorem Visit.alike_fail (p : Progress) (error : RegionError) :
    Visit.Alike (fail p error) (fail p error) := ⟨rfl, rfl, .nil⟩

theorem alike_visitOpen (h : EndsAlike following following') :
    Visit.Alike (visitOpen hooks p token name following)
      (visitOpen hooks p token name following') := by
  have hhead : following.head? = following'.head? := by cases h <;> rfl
  unfold visitOpen
  rw [hhead]
  split
  · exact Visit.alike_fail ..
  cases h with
  | nil => exact Visit.alike_fail ..
  | eof rest rest' heof =>
    have hne : ¬ Token.eof = .blockEnd := by simp
    simp only [heof, hne, if_false]
    exact Visit.alike_fail ..
  | cons third h =>
    simp only
    split
    · exact ⟨rfl, rfl, h⟩
    · exact Visit.alike_fail ..

/-- A visit looks ahead as far as the first end marker and no further. -/
theorem alike_visit (hooks : Hooks) (p : Progress)
    (h : EndsAlike (token :: rest) (token :: rest')) :
    Visit.Alike (visit hooks p token rest) (visit hooks p token rest') := by
  cases h with
  | eof _ _ heof =>
    simp only [visit, heof]
    split
    · exact Visit.alike_fail ..
    · exact ⟨rfl, rfl, .nil⟩
  | cons _ h =>
  have hpass : ∀ q, Visit.Alike (pass q token rest) (pass q token rest') := fun q => ⟨rfl, rfl, h⟩
  unfold visit
  split
  · cases h with
    | nil => exact hpass p
    | @eof name rest rest' heof => simpa [heof, Token.isName] using hpass p
    | cons name h =>
      simp only
      split
      · exact alike_visitOpen h
      · split
        · unfold visitClose
          split
          · exact ⟨rfl, rfl, .cons name h⟩
          · exact Visit.alike_fail ..
        · exact hpass p
  · split
    · exact ⟨rfl, rfl, h⟩
    · exact hpass p
  · exact hpass _
  · split
    · exact Visit.alike_fail ..
    · exact ⟨rfl, rfl, .nil⟩
  · exact hpass p

end Alike

theorem runFrom_endsAlike {tokens : List (Located Token)} {out : Array (Located Token)} :
    ∀ tokens', EndsAlike tokens tokens' →
      runFrom hooks p out tokens = runFrom hooks p out tokens' := by
  fun_induction runFrom hooks p out tokens with
  | case1 p out =>
    intro tokens' h
    cases h
    rw [runFrom]
  | case2 p out token rest v error hresult =>
    intro tokens' h
    obtain ⟨rest', rfl⟩ := h.exists_eq_cons
    have halike := alike_visit hooks p h
    rw [runFrom_of_fail (halike.result.symm.trans hresult)]
  | case3 p out token rest v more hresult ih =>
    intro tokens' h
    obtain ⟨rest', rfl⟩ := h.exists_eq_cons
    have halike := alike_visit hooks p h
    rw [ih _ halike.rest, runFrom, ← halike.result, hresult]
    rw [← halike.progress]

end QueryMachine.Region
