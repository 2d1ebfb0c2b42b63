import QueryMachine.Listing
import QueryMachine.Proofs.Token.Positions

/-!
# A report underlines what it names

A report finds its line and its underline in two ways that know nothing of each
other. The line is looked up by number among the lines of the listing; the underline
is counted off from columns, which were counted when the text was read. That both
speak of the same characters is what makes a report right.

The bridge is the text before a place. Its newlines are the number of the line the
place is on (`line_advanceOver`, `getElem?_lines`), and what stands behind the last of
them is the part of that line that the place leaves to its left (`column_start`). A
span is two such places, the second behind the first, so the text is cut in three and
everything in a report can be read off the pieces.
-/

namespace QueryMachine

/-! ## The line around a place -/

namespace Text

/-- The end of a text behind its last newline; all of it if there is none. -/
def lastLine (cs : List Char) : List Char := (cs.reverse.takeWhile (· ≠ '\n')).reverse

/-- The beginning of a text before its first newline; all of it if there is none. -/
def firstLine (cs : List Char) : List Char := cs.takeWhile (· ≠ '\n')

theorem ne_of_mem_reverse {cs : List Char} (h : '\n' ∉ cs) :
    ∀ c ∈ cs.reverse, decide (c ≠ '\n') = true := by
  intro c hc
  rw [decide_eq_true_eq]
  rintro rfl
  exact h (List.mem_reverse.mp hc)

theorem lastLine_eq_self {cs : List Char} (h : '\n' ∉ cs) : lastLine cs = cs := by
  rw [lastLine, List.takeWhile_eq_self_iff.mpr (ne_of_mem_reverse h), List.reverse_reverse]

theorem lastLine_append {bs : List Char} (h : '\n' ∈ bs) (as : List Char) :
    lastLine (as ++ bs) = lastLine bs := by
  have hstop : ¬ ∀ c ∈ bs.reverse, decide (c ≠ '\n') = true := by
    intro hall
    simpa using hall '\n' (List.mem_reverse.mpr h)
  rw [lastLine, List.reverse_append, List.takeWhile_append, if_neg]
  · rfl
  · intro hlength
    exact hstop (List.takeWhile_eq_self_iff.mp
      ((List.takeWhile_prefix _).eq_of_length hlength))

theorem lastLine_newline (cs : List Char) : lastLine ('\n' :: cs) = lastLine cs := by
  by_cases h : '\n' ∈ cs
  · exact lastLine_append h ['\n']
  · rw [lastLine_eq_self h, lastLine, List.reverse_cons,
      List.takeWhile_append_of_pos (ne_of_mem_reverse h), List.takeWhile_cons_of_neg (by simp),
      List.append_nil, List.reverse_reverse]

theorem head?_lines (cs : List Char) : (lines cs)[0]? = some (firstLine cs) := by
  induction cs with
  | nil => rfl
  | cons c cs ih =>
    by_cases h : c = '\n'
    · subst h
      rw [lines_newline, firstLine, List.takeWhile_cons_of_neg (by simp)]
      rfl
    · rw [lines_cons h, firstLine, List.takeWhile_cons_of_pos (by simpa using h)]
      cases hlines : lines cs with
      | nil => rw [hlines] at ih; cases ih
      | cons line rest =>
        rw [hlines] at ih
        cases ih
        rfl

theorem getElem?_modifyHead_succ {α : Type} (f : α → α) (xs : List α) (n : Nat) :
    (xs.modifyHead f)[n + 1]? = xs[n + 1]? := by
  cases xs <;> rfl

/-- The line of a place: as many lines are before it as there are newlines, and it
reaches from the last of these to the next one. -/
theorem getElem?_lines (before after : List Char) :
    (lines (before ++ after))[before.count '\n']?
      = some (lastLine before ++ firstLine after) := by
  induction before with
  | nil => exact head?_lines after
  | cons c before ih =>
    by_cases h : c = '\n'
    · subst h
      rw [List.cons_append, lines_newline, List.count_cons_self, lastLine_newline]
      exact ih
    · rw [List.cons_append, lines_cons h, List.count_cons_of_ne h]
      cases hcount : before.count '\n' with
      | succ n =>
        -- The character is on an earlier line than the place.
        have hmem : '\n' ∈ before := List.count_pos_iff.mp (by omega)
        rw [getElem?_modifyHead_succ, ← hcount, ih]
        exact congrArg (fun line => some (line ++ firstLine after))
          (lastLine_append hmem [c]).symm
      | zero =>
        have hmem : '\n' ∉ before := List.count_eq_zero.mp hcount
        have hcons : '\n' ∉ c :: before := by simp [hmem, Ne.symm h]
        rw [hcount, lastLine_eq_self hmem] at ih
        rw [lastLine_eq_self hcons]
        cases hlines : lines (before ++ after) with
        | nil => rw [hlines] at ih; cases ih
        | cons line rest =>
          rw [hlines] at ih
          cases ih
          rfl

end Text

/-! ## Lines and columns of places -/

namespace Position

open Text (lastLine)

theorem line_advanceOver (p : Position) (cs : List Char) :
    (p.advanceOver cs).line = p.line + cs.count '\n' := by
  induction cs generalizing p with
  | nil => rfl
  | cons c cs ih =>
    rw [advanceOver_cons, ih]
    by_cases h : c = '\n'
    · simp [advance, h]; omega
    · simp [advance, h]

theorem column_advanceOver (p : Position) {cs : List Char} (h : '\n' ∉ cs) :
    (p.advanceOver cs).column = p.column + cs.length := by
  induction cs generalizing p with
  | nil => rfl
  | cons c cs ih =>
    rw [List.mem_cons, not_or] at h
    rw [advanceOver_cons, ih _ h.2, advance, if_neg (Ne.symm h.1), List.length_cons,
      Nat.add_right_comm, Nat.add_assoc]

/-- A column counts the characters behind the last newline, and one more. -/
theorem column_start (cs : List Char) :
    (start.advanceOver cs).column = (lastLine cs).length + 1 := by
  induction cs using List.reverseRecOn with
  | nil => rfl
  | append_singleton cs c ih =>
    rw [advanceOver_append, advanceOver_cons, advanceOver_nil]
    by_cases h : c = '\n'
    · subst h
      rw [Text.lastLine_append (List.mem_singleton_self _)]
      rfl
    · have hline : lastLine (cs ++ [c]) = lastLine cs ++ [c] := by
        rw [lastLine, List.reverse_append, List.reverse_singleton, List.singleton_append,
          List.takeWhile_cons_of_pos (by simpa using h), List.reverse_cons]
        rfl
      rw [advance, if_neg h, ih, hline, List.length_append, List.length_singleton]

end Position

namespace Listing

open Text (lastLine firstLine)

/-! ## The parts of a report -/

/-- What is shown of a line: all but the carriage returns at its end. -/
def Shows (line shown : List Char) : Prop :=
  ∃ returns, line = shown ++ returns ∧ (∀ c ∈ returns, c = '\r') ∧ shown.getLast? ≠ some '\r'

theorem shows_dropReturns (line : List Char) : Shows line (dropReturns line) := by
  refine ⟨(line.reverse.takeWhile (· = '\r')).reverse, ?_, ?_, ?_⟩
  · rw [dropReturns, ← List.reverse_append, List.takeWhile_append_dropWhile,
      List.reverse_reverse]
  · intro c hc
    rw [List.mem_reverse] at hc
    simpa using List.mem_takeWhile_imp hc
  · rw [dropReturns, List.getLast?_reverse]
    intro hhead
    have hnot := List.head?_dropWhile_not (· = '\r') line.reverse
    rw [hhead] at hnot
    simp at hnot

/-- A text cut at the two ends of a span, which are given in bytes. -/
structure Cut (text : List Char) (span : Span) where
  before : List Char
  between : List Char
  after : List Char
  whole : text = before ++ (between ++ after)
  start : (before.map Char.utf8Size).sum = span.start.offset
  stop : ((before ++ between).map Char.utf8Size).sum = span.stop.offset

namespace Cut

variable {text : List Char} {span : Span} (cut : Cut text span)

/-- The whole line that the span begins on. -/
def line : List Char := lastLine cut.before ++ firstLine (cut.between ++ cut.after)

/-- The characters of that line before the span. -/
def indent : Nat := (lastLine cut.before).length

/-- The characters below which carets belong: those of the span, or the rest of what is
shown if the span goes on to another line. One caret is always there. -/
def carets (shown : List Char) : Nat :=
  max 1 (if '\n' ∈ cut.between then shown.length - cut.indent else cut.between.length)

end Cut

/-- A report that shows a line under its number, and below it an underline. -/
def underlined (listing : Listing) (span : Span) (message : String) (shown : List Char)
    (indent carets : Nat) : String :=
  let number := toString span.start.line
  let margin := run number.length ' '
  "error: " ++ message ++ "\n" ++
  "  --> " ++ listing.name ++ ":" ++ number ++ ":" ++ toString span.start.column ++ "\n" ++
  margin ++ " |\n" ++
  number ++ " | " ++ String.ofList shown ++ "\n" ++
  margin ++ " | " ++ run indent ' ' ++ run carets '^' ++ "\n"

/-! ## Spans of the text -/

/-- A span of a text cuts it, and its ends are where the pieces lead to. -/
theorem exists_cut {source : String} {span : Span} (h : span.InText source) :
    ∃ cut : Cut source.toList span,
      span.start = Position.start.advanceOver cut.before ∧
      span.stop = span.start.advanceOver cut.between := by
  obtain ⟨before, rest, htext, hbytes, hstart⟩ := h.start
  obtain ⟨before', after, htext', hbytes', hstop⟩ := h.stop
  have hordered := h.ordered
  rw [← hbytes, ← hbytes'] at hordered
  obtain ⟨between, rfl, rfl⟩ := exists_eq_append_of_le (htext.symm.trans htext') hordered
  refine ⟨⟨before, between, after, htext, hbytes, hbytes'⟩, hstart.symm, ?_⟩
  rw [← hstop, ← hstart, Position.advanceOver_append]

variable (listing : Listing) {span : Span}

theorem lineChars?_cut (cut : Cut listing.source.toList span)
    (hstart : span.start = Position.start.advanceOver cut.before) :
    listing.lineChars? span.start.line = some (dropReturns cut.line) := by
  have hline : span.start.line = cut.before.count '\n' + 1 := by
    rw [hstart, Position.line_advanceOver, Nat.add_comm]
    rfl
  have hlines : (Text.lines listing.source.toList)[cut.before.count '\n']? = some cut.line :=
    (congrArg (fun text => (Text.lines text)[cut.before.count '\n']?) cut.whole).trans
      (Text.getElem?_lines cut.before (cut.between ++ cut.after))
  rw [hline, lineChars?, hlines]
  rfl

/-- A span has its ends on one line if it holds no newline, and then it is as wide as
its columns say. -/
theorem caretCount_cut {text : List Char} (cut : Cut text span)
    (hstart : span.start = Position.start.advanceOver cut.before)
    (hstop : span.stop = span.start.advanceOver cut.between) (shown : List Char) :
    caretCount span shown.length = cut.carets shown := by
  have hcolumn : span.start.column - 1 = cut.indent := by
    rw [hstart, Position.column_start]
    rfl
  have hline : span.stop.line = span.start.line + cut.between.count '\n' := by
    rw [hstop, Position.line_advanceOver]
  rw [caretCount, Cut.carets, Nat.max_comm]
  by_cases hmem : '\n' ∈ cut.between
  · have hpos : 0 < cut.between.count '\n' := List.count_pos_iff.mpr hmem
    rw [if_neg (by omega), if_pos hmem, hcolumn]
  · have hcount : cut.between.count '\n' = 0 := List.count_eq_zero.mpr hmem
    have hwidth : span.stop.column = span.start.column + cut.between.length := by
      rw [hstop, Position.column_advanceOver _ hmem]
    rw [if_pos (by omega), if_neg hmem, hwidth, Nat.add_sub_cancel_left]

/-- Three lines with carriage returns, and characters of two bytes before the span. -/
def threeLines : Listing := ⟨"t.sql", "é\r\nñab\r\nc"⟩

example : threeLines.report ⟨⟨6, 2, 2⟩, ⟨11, 3, 2⟩⟩ "m"
    = "error: m\n  --> t.sql:2:2\n  |\n2 | ñab\n  |  ^^\n" := by decide +kernel

end Listing

end QueryMachine
