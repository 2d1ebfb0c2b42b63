/-!
# Cutting texts

Every scanner of this library cuts its text in the same way: it takes
characters until the rest of the text begins with something it is looking for.
`breakAt` is that cut, and `lines` cuts a text at its newlines.

Both run with an accumulator, because templates can be megabytes long; the
lemmas beside them give the recursion they stand for.
-/

namespace QueryMachine.Text

/-- Cuts `cs` before the first non-empty rest on which `stop` holds, with the
reversed characters already passed in `passed`. -/
def breakAtFrom (stop : List Char → Bool) (passed : List Char) :
    List Char → List Char × List Char
  | [] => (passed.reverse, [])
  | c :: cs =>
    if stop (c :: cs) then (passed.reverse, c :: cs)
    else breakAtFrom stop (c :: passed) cs

/-- Cuts a text before the first non-empty rest on which `stop` holds; all of
it is passed when there is none. -/
def breakAt (stop : List Char → Bool) (cs : List Char) : List Char × List Char :=
  breakAtFrom stop [] cs

theorem breakAtFrom_eq (stop : List Char → Bool) (passed cs : List Char) :
    breakAtFrom stop passed cs
      = (passed.reverse ++ (breakAt stop cs).1, (breakAt stop cs).2) := by
  induction cs generalizing passed with
  | nil => simp [breakAtFrom, breakAt]
  | cons c cs ih =>
    rw [breakAt, breakAtFrom, breakAtFrom]
    by_cases h : stop (c :: cs)
    · simp [h]
    · simp only [h, Bool.false_eq_true, if_false]
      rw [ih (c :: passed), ih [c]]
      simp

theorem breakAt_nil (stop : List Char → Bool) : breakAt stop [] = ([], []) := rfl

theorem breakAt_cons (stop : List Char → Bool) (c : Char) (cs : List Char) :
    breakAt stop (c :: cs)
      = if stop (c :: cs) then ([], c :: cs)
        else (c :: (breakAt stop cs).1, (breakAt stop cs).2) := by
  rw [breakAt, breakAtFrom]
  split
  · rfl
  · rw [breakAtFrom_eq]; simp

/-- Nothing is lost by a cut. -/
theorem breakAt_append (stop : List Char → Bool) (cs : List Char) :
    (breakAt stop cs).1 ++ (breakAt stop cs).2 = cs := by
  induction cs with
  | nil => rfl
  | cons c cs ih =>
    rw [breakAt_cons]
    split
    · rfl
    · simp [ih]

/-- A cut is made at the first place it can be made. -/
theorem stop_eq_false_of_suffix {stop : List Char → Bool} {cs suffix : List Char}
    (h : suffix <:+ (breakAt stop cs).1) (hne : suffix ≠ []) :
    stop (suffix ++ (breakAt stop cs).2) = false := by
  induction cs with
  | nil =>
    rw [breakAt_nil, List.suffix_nil] at h
    exact absurd h hne
  | cons c cs ih =>
    rw [breakAt_cons] at h ⊢
    split at h
    · exact absurd (List.suffix_nil.mp h) hne
    · next hstop =>
      rw [if_neg hstop]
      rcases List.suffix_cons_iff.mp h with rfl | h
      · rw [List.cons_append, breakAt_append]
        simpa using hstop
      · exact ih h

/-- Either nothing is left after a cut, or the rest is what was looked for. -/
theorem breakAt_snd (stop : List Char → Bool) (cs : List Char) :
    (breakAt stop cs).2 = [] ∨ stop (breakAt stop cs).2 = true := by
  induction cs with
  | nil => exact .inl rfl
  | cons c cs ih =>
    rw [breakAt_cons]
    split
    · next h => exact .inr h
    · exact ih

/-- The rest after a cut is no longer than the text. -/
theorem length_breakAt_snd_le (stop : List Char → Bool) (cs : List Char) :
    (breakAt stop cs).2.length ≤ cs.length := by
  have h := congrArg List.length (breakAt_append stop cs)
  simp only [List.length_append] at h
  omega

/-- Splits `cs` at its newlines, with the reversed characters of the current
line in `line` and the reversed lines before it in `done`. -/
def linesFrom (done : List (List Char)) (line : List Char) : List Char → List (List Char)
  | [] => (line.reverse :: done).reverse
  | c :: cs =>
    if c = '\n' then linesFrom (line.reverse :: done) [] cs
    else linesFrom done (c :: line) cs

/-- The pieces of a text between its newlines: one more than it has newlines. -/
def lines (cs : List Char) : List (List Char) :=
  linesFrom [] [] cs

theorem linesFrom_eq (done : List (List Char)) (line cs : List Char) :
    linesFrom done line cs
      = done.reverse ++ (lines cs).modifyHead (line.reverse ++ ·) := by
  induction cs generalizing done line with
  | nil => simp [linesFrom, lines]
  | cons c cs ih =>
    rw [lines, linesFrom, linesFrom]
    by_cases h : c = '\n'
    · rw [if_pos h, if_pos h, ih (line.reverse :: done) [], ih [[].reverse] []]
      simp
    · rw [if_neg h, if_neg h, ih done (c :: line), ih [] [c]]
      cases lines cs <;> simp

theorem lines_nil : lines [] = [[]] := rfl

/-- A newline ends a line. -/
theorem lines_newline (cs : List Char) : lines ('\n' :: cs) = [] :: lines cs := by
  rw [lines, linesFrom, if_pos rfl, linesFrom_eq]
  cases lines cs <;> simp

/-- Every other character belongs to the line it stands on. -/
theorem lines_cons {c : Char} (h : c ≠ '\n') (cs : List Char) :
    lines (c :: cs) = (lines cs).modifyHead (c :: ·) := by
  rw [lines, linesFrom, if_neg h, linesFrom_eq]
  rfl

end QueryMachine.Text
