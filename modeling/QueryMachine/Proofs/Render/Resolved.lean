import QueryMachine.Render.Resolve

/-!
# Rendered text as a text

The rendered output keeps its text in segments, merges adjacent ones and leaves
empty ones out. None of that is visible in the text: once every placeholder has a
code, the output is the concatenation of all that was pushed, in the order in
which it was pushed, and resolving gives just that text.
-/

namespace QueryMachine

namespace Segment

/-- The text of a segment, given the codes of the placeholders. -/
def textWith (code : Thunk → String) : Segment → String
  | text s => s
  | thunk t _ => code t

def thunk? : Segment → Option Thunk
  | text _ => none
  | thunk t _ => some t

end Segment

namespace Rendered

/-- The text of what was rendered, given the codes of the placeholders. -/
def textWith (code : Thunk → String) (r : Rendered) : String :=
  String.join (r.segments.toList.map (Segment.textWith code))

/-- The placeholders in order. -/
def thunks (r : Rendered) : List Thunk :=
  r.segments.toList.filterMap Segment.thunk?

variable (code : Thunk → String) (r : Rendered)

theorem join_textSegments (s : String) :
    String.join ((textSegments s).toList.map (Segment.textWith code)) = s := by
  unfold textSegments
  split
  · next h =>
    have : s = "" := by simpa using h
    rw [this]
    rfl
  · simp [Segment.textWith]

theorem thunks_textSegments (s : String) :
    (textSegments s).toList.filterMap Segment.thunk? = [] := by
  unfold textSegments
  split <;> rfl

theorem textWith_eq :
    r.textWith code = String.join (r.closed.toList.map (Segment.textWith code)) ++ r.tail := by
  rw [textWith, segments, Array.toList_append, List.map_append, String.join_append,
    join_textSegments]

theorem thunks_eq : r.thunks = r.closed.toList.filterMap Segment.thunk? := by
  rw [thunks, segments, Array.toList_append, List.filterMap_append, thunks_textSegments,
    List.append_nil]

@[simp] theorem textWith_empty : ({} : Rendered).textWith code = "" := rfl

@[simp] theorem thunks_empty : ({} : Rendered).thunks = [] := rfl

theorem textWith_pushText (s : String) :
    (r.pushText s).textWith code = r.textWith code ++ s := by
  rw [textWith_eq, textWith_eq, pushText, String.append_assoc]

theorem thunks_pushText (s : String) : (r.pushText s).thunks = r.thunks := by
  rw [thunks_eq, thunks_eq, pushText]

theorem textWith_pushThunk (t : Thunk) (span : Span) :
    (r.pushThunk t span).textWith code = r.textWith code ++ code t := by
  have hpushed : (r.pushThunk t span).closed.toList
      = r.segments.toList ++ [.thunk t span] := by
    simp [pushThunk, segments]
  rw [textWith_eq, hpushed, List.map_append, String.join_append, textWith]
  simp [Segment.textWith, pushThunk]

theorem thunks_pushThunk (t : Thunk) (span : Span) :
    (r.pushThunk t span).thunks = r.thunks ++ [t] := by
  have hpushed : (r.pushThunk t span).closed.toList
      = r.segments.toList ++ [.thunk t span] := by
    simp [pushThunk, segments]
  rw [thunks_eq, hpushed, List.filterMap_append, ← thunks]
  rfl

end Rendered

namespace Resolution

variable {d : Dialect} {policy : LabelPolicy} {m : Machine} {code : Thunk → String}

/-- Where the dialect has a code for every placeholder, resolving puts the codes
in place; and if labels must be defined, they are. -/
theorem text_of_resolveFrom (hcode : ∀ t, d.resolve m t = .ok (code t))
    {r r' : Resolution} {notices notices' : Array Notice} {segments : List Segment}
    (h : resolveFrom d policy m r notices segments = (.ok r', notices')) :
    r'.text = r.text ++ String.join (segments.map (Segment.textWith code)) ∧
      (policy = .strict →
        ∀ t ∈ segments.filterMap Segment.thunk?, missingLabel? m t = none) := by
  induction segments generalizing r notices with
  | nil =>
    cases h
    exact ⟨by simp, by simp⟩
  | cons segment rest ih =>
    cases segment with
    | text s =>
      rw [resolveFrom] at h
      obtain ⟨htext, hlabels⟩ := ih h
      refine ⟨?_, hlabels⟩
      rw [htext, List.map_cons, String.join_cons, ← String.append_assoc]
      rfl
    | thunk t span =>
      rw [resolveFrom.eq_def] at h
      simp only [hcode] at h
      split at h
      · cases h
      · next hdefined =>
        obtain ⟨htext, hlabels⟩ := ih h
        refine ⟨?_, ?_⟩
        · rw [htext, List.map_cons, String.join_cons, ← String.append_assoc]
          rfl
        · intro hstrict t' ht'
          rw [show (Segment.thunk t span :: rest).filterMap Segment.thunk?
            = t :: rest.filterMap Segment.thunk? from rfl, List.mem_cons] at ht'
          rcases ht' with rfl | ht'
          · cases hmissing : missingLabel? m t' with
            | none => rfl
            | some name => exact absurd hmissing (hdefined name hstrict)
          · exact hlabels hstrict t' ht'

theorem text_of_ofRendered (hcode : ∀ t, d.resolve m t = .ok (code t)) {rendered : Rendered}
    {r : Resolution} {notices : Array Notice}
    (h : ofRendered d policy m rendered = (.ok r, notices)) :
    r.text = rendered.textWith code ∧
      (policy = .strict → ∀ t ∈ rendered.thunks, missingLabel? m t = none) := by
  obtain ⟨htext, hlabels⟩ := text_of_resolveFrom hcode h
  refine ⟨?_, hlabels⟩
  rw [htext]
  exact String.empty_append

end Resolution

end QueryMachine
