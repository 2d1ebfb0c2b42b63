import Mathlib.Data.List.Chain
import Mathlib.Data.List.Forall2
import Mathlib.Data.List.Induction
import QueryMachine.Proofs.Render.Resolved

/-!
# Resolving what was pushed

Rendered output merges what is pushed into it: adjacent texts become one segment and
empty texts none. Whoever pushes need not know. The text with its placeholders shown is
that of the pushes, and resolving the output is resolving the pushes one by one, in the
order in which they came, because two lists that differ in how their texts are cut have
the same effect wherever they stand (`resolveFrom_pushed`).

What resolving comes to can then be said of the pushes alone. Each of them has a code,
or there is a first placeholder that is refused: by the policy, if it goes to a label
that the machine lacks, or else by the dialect. Nothing is asked of the dialect here; it
may refuse any placeholder it likes.
-/

namespace QueryMachine

theorem Segment.shown_eq_textWith : Segment.shown = Segment.textWith Thunk.marker := by
  funext segment
  cases segment <;> rfl

namespace Rendered

/-- Adds a text or a placeholder. -/
def push (r : Rendered) : Segment → Rendered
  | .text s => r.pushText s
  | .thunk t span => r.pushThunk t span

/-- The output after these have been pushed into empty output. -/
def ofPushed (pushed : List Segment) : Rendered :=
  pushed.foldl push {}

theorem ofPushed_concat (pushed : List Segment) (segment : Segment) :
    ofPushed (pushed ++ [segment]) = (ofPushed pushed).push segment := by
  rw [ofPushed, List.foldl_concat, ofPushed]

/-! ## How pushes are kept -/

/-- Segments as they are kept: no text is empty, and no two texts are adjacent. -/
structure Merged (segments : List Segment) : Prop where
  nonempty : .text "" ∉ segments
  apart : segments.IsChain fun a b => a.isThunk = true ∨ b.isThunk = true

/-- What is closed is merged, and no text can be merged into it any more. -/
structure Sealed (r : Rendered) : Prop where
  merged : Merged r.closed.toList
  last : ∀ segment ∈ r.closed.toList.getLast?, segment.isThunk = true

theorem textSegments_empty : textSegments "" = #[] := rfl

theorem textSegments_of_ne {s : String} (h : s ≠ "") : textSegments s = #[.text s] := by
  rw [textSegments, if_neg (by simpa using h)]

theorem segments_pushThunk (r : Rendered) (t : Thunk) (span : Span) :
    (r.pushThunk t span).segments = r.segments.push (.thunk t span) := by
  rw [segments, pushThunk, textSegments_empty, Array.append_empty, segments]

theorem toList_segments (r : Rendered) :
    r.segments.toList = r.closed.toList ++ (textSegments r.tail).toList := by
  rw [segments, Array.toList_append]

theorem Sealed.merged_segments {r : Rendered} (h : r.Sealed) : Merged r.segments.toList := by
  rw [toList_segments]
  by_cases htail : r.tail = ""
  · rw [htail, textSegments_empty]
    simpa using h.merged
  · rw [textSegments_of_ne htail]
    refine ⟨?_, ?_⟩
    · rw [List.mem_append, not_or]
      refine ⟨h.merged.nonempty, ?_⟩
      simpa using Ne.symm htail
    · refine List.isChain_append.mpr ⟨h.merged.apart, List.isChain_singleton _, ?_⟩
      intro segment hsegment _ _
      exact .inl (h.last segment hsegment)

theorem Sealed.push {r : Rendered} (h : r.Sealed) (segment : Segment) :
    (r.push segment).Sealed := by
  cases segment with
  | text s => exact ⟨h.merged, h.last⟩
  | thunk t span =>
    have hmerged := h.merged_segments
    have hclosed : (r.pushThunk t span).closed.toList = r.segments.toList ++ [.thunk t span] := by
      rw [pushThunk, Array.toList_push, segments]
    refine ⟨⟨?_, ?_⟩, ?_⟩
    · show _ ∉ (r.pushThunk t span).closed.toList
      rw [hclosed, List.mem_append, not_or]
      exact ⟨hmerged.nonempty, by simp⟩
    · show List.IsChain _ (r.pushThunk t span).closed.toList
      rw [hclosed]
      refine List.isChain_append.mpr ⟨hmerged.apart, List.isChain_singleton _, ?_⟩
      rintro _ _ _ ⟨⟩
      exact .inr rfl
    · show ∀ segment ∈ (r.pushThunk t span).closed.toList.getLast?, _
      rw [hclosed, List.getLast?_concat]
      rintro _ ⟨⟩
      rfl

theorem sealed_ofPushed (pushed : List Segment) : (ofPushed pushed).Sealed := by
  induction pushed using List.reverseRecOn with
  | nil => exact ⟨⟨by simp [ofPushed], .nil⟩, by simp [ofPushed]⟩
  | append_singleton pushed segment ih =>
    rw [ofPushed_concat]
    exact ih.push segment

theorem filter_textSegments (s : String) :
    (textSegments s).toList.filter Segment.isThunk = [] := by
  by_cases h : s = ""
  · rw [h]
    rfl
  · rw [textSegments_of_ne h]
    rfl

theorem filter_push (r : Rendered) (segment : Segment) :
    (r.push segment).segments.toList.filter Segment.isThunk
      = r.segments.toList.filter Segment.isThunk ++ [segment].filter Segment.isThunk := by
  cases segment with
  | text s =>
    rw [push, toList_segments, toList_segments, pushText, List.filter_append,
      List.filter_append, filter_textSegments, filter_textSegments]
    exact (List.append_nil _).symm
  | thunk t span => rw [push, segments_pushThunk, Array.toList_push, List.filter_append]

/-- The placeholders are kept in order and with their places. -/
theorem filter_ofPushed (pushed : List Segment) :
    (ofPushed pushed).segments.toList.filter Segment.isThunk
      = pushed.filter Segment.isThunk := by
  induction pushed using List.reverseRecOn with
  | nil => rfl
  | append_singleton pushed segment ih =>
    rw [ofPushed_concat, filter_push, ih, List.filter_append]

theorem textWith_push (code : Thunk → String) (r : Rendered) (segment : Segment) :
    (r.push segment).textWith code = r.textWith code ++ segment.textWith code := by
  cases segment with
  | text s => rw [push, textWith_pushText, Segment.textWith]
  | thunk t span => rw [push, textWith_pushThunk, Segment.textWith]

theorem textWith_ofPushed (code : Thunk → String) (pushed : List Segment) :
    (ofPushed pushed).textWith code = String.join (pushed.map (Segment.textWith code)) := by
  induction pushed using List.reverseRecOn with
  | nil => exact textWith_empty code
  | append_singleton pushed segment ih =>
    rw [ofPushed_concat, textWith_push, ih, List.map_append, String.join_append]
    simp

theorem intermediateText_eq (r : Rendered) : r.intermediateText = r.textWith Thunk.marker := by
  rw [intermediateText, textWith, ← Segment.shown_eq_textWith, String.join,
    ← Array.foldl_toList, List.foldl_map]

end Rendered

namespace Resolution

variable {d : Dialect} {policy : LabelPolicy} {m : Machine}

/-! ## How pushes are cut does not matter -/

theorem resolveFrom_append (r : Resolution) (notices : Array Notice) (as bs : List Segment) :
    resolveFrom d policy m r notices (as ++ bs)
      = match resolveFrom d policy m r notices as with
        | (.ok r, notices) => resolveFrom d policy m r notices bs
        | (.error error, notices) => (.error error, notices) := by
  induction as generalizing r notices with
  | nil => rfl
  | cons segment as ih =>
    cases segment with
    | text s => exact ih _ notices
    | thunk t span =>
      rw [List.cons_append, resolveFrom.eq_def, resolveFrom.eq_def d policy m r notices (_ :: as)]
      simp only
      split
      · rfl
      · cases d.resolve m t with
        | error error => rfl
        | ok code => exact ih _ _

theorem resolveFrom_textSegments (r : Resolution) (notices : Array Notice) (s : String)
    (rest : List Segment) :
    resolveFrom d policy m r notices ((Rendered.textSegments s).toList ++ rest)
      = resolveFrom d policy m { r with text := r.text ++ s } notices rest := by
  by_cases h : s = ""
  · rw [h, Rendered.textSegments_empty, String.append_empty]
    rfl
  · rw [Rendered.textSegments_of_ne h]
    rfl

/-- A segment that is pushed is resolved after what is there. -/
theorem resolveFrom_push (r : Resolution) (notices : Array Notice) (out : Rendered)
    (segment : Segment) :
    resolveFrom d policy m r notices (out.push segment).segments.toList
      = resolveFrom d policy m r notices (out.segments.toList ++ [segment]) := by
  cases segment with
  | text s =>
    -- The text goes on the one before it, in the segments and in the result alike.
    have hmerged : ∀ (r : Resolution) (notices : Array Notice),
        resolveFrom d policy m r notices (Rendered.textSegments (out.tail ++ s)).toList
          = resolveFrom d policy m r notices
              ((Rendered.textSegments out.tail).toList ++ [.text s]) := by
      intro r notices
      rw [resolveFrom_textSegments, ← List.append_nil (Rendered.textSegments _).toList,
        resolveFrom_textSegments, ← String.append_assoc]
      rfl
    rw [Rendered.push, Rendered.toList_segments, Rendered.toList_segments, List.append_assoc,
      Rendered.pushText, resolveFrom_append, resolveFrom_append _ _ out.closed.toList]
    simp only [hmerged]
  | thunk t span => rw [Rendered.push, Rendered.segments_pushThunk, Array.toList_push]

/-- What is kept resolves like what was pushed. -/
theorem resolveFrom_pushed (r : Resolution) (notices : Array Notice) (pushed : List Segment) :
    resolveFrom d policy m r notices (Rendered.ofPushed pushed).segments.toList
      = resolveFrom d policy m r notices pushed := by
  induction pushed using List.reverseRecOn with
  | nil => rfl
  | append_singleton pushed segment ih =>
    rw [Rendered.ofPushed_concat, resolveFrom_push, resolveFrom_append, ih, ← resolveFrom_append]

/-! ## What resolving comes to -/

/-- The label that a pushed placeholder goes to and that the machine lacks. -/
def fallback? (m : Machine) : Segment → Option String
  | .thunk (.jumpTo label) _ => if m.address? label = none then some label else none
  | .thunk .exit _ => none
  | .text _ => none

/-- A segment is put into the text: a text as it is, and a placeholder as the dialect
codes it, unless it goes to a missing label and the policy forbids that. -/
inductive Coded (d : Dialect) (policy : LabelPolicy) (m : Machine) : Segment → String → Prop where
  | text (s : String) : Coded d policy m (.text s) s
  | thunk {t : Thunk} {span : Span} {code : String} :
      (policy = .strict → fallback? m (.thunk t span) = none) → d.resolve m t = .ok code →
      Coded d policy m (.thunk t span) code

/-- A placeholder is refused. The label is looked up before the dialect is asked. -/
inductive Refused (d : Dialect) (policy : LabelPolicy) (m : Machine) :
    Segment → ResolveError → Prop where
  | undefinedLabel {label : String} {span : Span} :
      policy = .strict → m.address? label = none →
      Refused d policy m (.thunk (.jumpTo label) span) (.undefinedLabel label span)
  | dialect {t : Thunk} {span : Span} {error : DialectError} :
      (policy = .strict → fallback? m (.thunk t span) = none) → d.resolve m t = .error error →
      Refused d policy m (.thunk t span) (.dialect error span)

/-- All that was pushed is coded, and this is the result. -/
structure Resolves (d : Dialect) (policy : LabelPolicy) (m : Machine) (pushed : List Segment)
    (r : Resolution) : Prop where
  text : ∃ codes, List.Forall₂ (Coded d policy m) pushed codes ∧ r.text = String.join codes
  thunksResolved : r.thunksResolved = pushed.countP Segment.isThunk
  fallbacks : r.fallbacks.toList = pushed.filterMap (fallback? m)
  /-- Labels that must be defined are. -/
  strict : policy = .strict → r.fallbacks = #[]

/-- All is coded up to a placeholder that is refused. -/
def Refuses (d : Dialect) (policy : LabelPolicy) (m : Machine) (pushed : List Segment)
    (error : ResolveError) : Prop :=
  ∃ before refused after, pushed = before ++ refused :: after ∧
    (∀ segment ∈ before, ∃ code, Coded d policy m segment code) ∧
    Refused d policy m refused error

theorem missingLabel?_eq (t : Thunk) (span : Span) :
    missingLabel? m t = fallback? m (.thunk t span) := by
  cases t with
  | jumpTo label => simp only [missingLabel?, fallback?, Option.isNone_iff_eq_none]
  | exit => rfl

theorem coded_or_refused (d : Dialect) (policy : LabelPolicy) (m : Machine) (segment : Segment) :
    (∃ code, Coded d policy m segment code) ∨ ∃ error, Refused d policy m segment error := by
  cases segment with
  | text s => exact .inl ⟨s, .text s⟩
  | thunk t span =>
    by_cases hallowed : policy = .strict → fallback? m (.thunk t span) = none
    · cases hresolve : d.resolve m t with
      | ok code => exact .inl ⟨code, .thunk hallowed hresolve⟩
      | error error => exact .inr ⟨_, .dialect hallowed hresolve⟩
    · rw [Classical.not_imp] at hallowed
      obtain ⟨hstrict, hmissing⟩ := hallowed
      cases t with
      | exit => exact absurd rfl hmissing
      | jumpTo label =>
        have hlabel : m.address? label = none := by
          by_contra hdefined
          exact hmissing (if_neg hdefined)
        exact .inr ⟨_, .undefinedLabel hstrict hlabel⟩

/-- Pushes are coded to their end or up to the first that is refused. -/
theorem resolves_or_refuses (d : Dialect) (policy : LabelPolicy) (m : Machine)
    (pushed : List Segment) :
    (∃ codes, List.Forall₂ (Coded d policy m) pushed codes) ∨
      ∃ error, Refuses d policy m pushed error := by
  induction pushed with
  | nil => exact .inl ⟨[], .nil⟩
  | cons segment rest ih =>
    rcases coded_or_refused d policy m segment with ⟨code, hcode⟩ | ⟨error, herror⟩
    · rcases ih with ⟨codes, hcodes⟩ | ⟨error, before, refused, after, rfl, hbefore, herror⟩
      · exact .inl ⟨code :: codes, .cons hcode hcodes⟩
      · refine .inr ⟨error, segment :: before, refused, after, rfl, ?_, herror⟩
        exact List.forall_mem_cons.mpr ⟨⟨code, hcode⟩, hbefore⟩
    · exact .inr ⟨error, [], segment, rest, rfl, by simp, herror⟩

theorem fallback_eq_none_of_coded (hstrict : policy = .strict) {segment : Segment} {code : String}
    (h : Coded d policy m segment code) : fallback? m segment = none := by
  cases h with
  | text s => rfl
  | thunk hdefined _ => exact hdefined hstrict

theorem fallbacks_eq_nil (hstrict : policy = .strict) {segments : List Segment}
    {codes : List String} (h : List.Forall₂ (Coded d policy m) segments codes) :
    segments.filterMap (fallback? m) = [] := by
  induction h with
  | nil => rfl
  | cons hcode _ ih => rw [List.filterMap_cons_none (fallback_eq_none_of_coded hstrict hcode), ih]

theorem resolveFrom_coded {t : Thunk} {span : Span} {code : String}
    (h : Coded d policy m (.thunk t span) code) (r : Resolution) (notices : Array Notice)
    (rest : List Segment) :
    ∃ more, resolveFrom d policy m r notices (.thunk t span :: rest)
      = resolveFrom d policy m (r.addCode code (fallback? m (.thunk t span))) more rest := by
  cases h with
  | thunk hdefined hcode =>
    rw [resolveFrom.eq_def]
    simp only [missingLabel?_eq t span, hcode]
    split
    · next hmissing => rw [hdefined rfl] at hmissing; cases hmissing
    · exact ⟨_, rfl⟩

/-- Segments that are coded are resolved, after whatever was resolved before them. -/
theorem resolveFrom_of_coded {segments : List Segment} {codes : List String}
    (h : List.Forall₂ (Coded d policy m) segments codes) (r : Resolution)
    (notices : Array Notice) :
    ∃ more, resolveFrom d policy m r notices segments
      = (.ok { text := r.text ++ String.join codes
               thunksResolved := r.thunksResolved + segments.countP Segment.isThunk
               fallbacks := r.fallbacks ++ (segments.filterMap (fallback? m)).toArray }, more) := by
  induction h generalizing r notices with
  | nil => exact ⟨notices, by simp [resolveFrom]⟩
  | @cons segment code segments codes hcode _ ih =>
    cases segment with
    | text s =>
      cases hcode
      obtain ⟨more, hmore⟩ := ih { r with text := r.text ++ code } notices
      refine ⟨more, ?_⟩
      rw [resolveFrom, hmore, String.join_cons, ← String.append_assoc]
      rfl
    | thunk t span =>
      obtain ⟨notices', hstep⟩ := resolveFrom_coded hcode r notices segments
      obtain ⟨more, hmore⟩ := ih (r.addCode code (fallback? m (.thunk t span))) notices'
      refine ⟨more, ?_⟩
      rw [hstep, hmore, List.countP_cons_of_pos rfl, String.join_cons, ← String.append_assoc]
      simp only [addCode, Prod.mk.injEq, Except.ok.injEq, Resolution.mk.injEq, and_true, true_and]
      refine ⟨by omega, ?_⟩
      cases hfallback : fallback? m (.thunk t span) <;>
        simp [hfallback]

theorem resolveFrom_of_refused {segment : Segment} {error : ResolveError}
    (h : Refused d policy m segment error) (r : Resolution) (notices : Array Notice)
    (rest : List Segment) :
    (resolveFrom d policy m r notices (segment :: rest)).1 = .error error := by
  cases h with
  | undefinedLabel hstrict hmissing =>
    simp [resolveFrom, missingLabel?, hstrict, hmissing]
  | @dialect t span error hdefined herror =>
    rw [resolveFrom.eq_def]
    simp only [missingLabel?_eq t span, herror]
    split
    · next hmissing => rw [hdefined rfl] at hmissing; cases hmissing
    · rfl

theorem exists_codes {segments : List Segment}
    (h : ∀ segment ∈ segments, ∃ code, Coded d policy m segment code) :
    ∃ codes, List.Forall₂ (Coded d policy m) segments codes := by
  induction segments with
  | nil => exact ⟨[], .nil⟩
  | cons segment rest ih =>
    rw [List.forall_mem_cons] at h
    obtain ⟨⟨code, hcode⟩, hrest⟩ := h
    obtain ⟨codes, hcodes⟩ := ih hrest
    exact ⟨code :: codes, .cons hcode hcodes⟩

theorem resolveFrom_of_refuses {segments : List Segment} {error : ResolveError}
    (h : Refuses d policy m segments error) (r : Resolution) (notices : Array Notice) :
    (resolveFrom d policy m r notices segments).1 = .error error := by
  obtain ⟨before, refused, after, rfl, hbefore, hrefused⟩ := h
  obtain ⟨codes, hcodes⟩ := exists_codes hbefore
  obtain ⟨more, hmore⟩ := resolveFrom_of_coded hcodes r notices
  rw [resolveFrom_append, hmore]
  exact resolveFrom_of_refused hrefused _ more after

/-- Resolving fails exactly where a placeholder is refused, whatever came before. -/
theorem resolveFrom_eq_error_iff {r : Resolution} {notices : Array Notice}
    {segments : List Segment} {error : ResolveError} :
    (resolveFrom d policy m r notices segments).1 = .error error ↔
      Refuses d policy m segments error := by
  constructor
  · intro hfails
    rcases resolves_or_refuses d policy m segments with ⟨codes, hcodes⟩ | ⟨error', herror'⟩
    · obtain ⟨more, hmore⟩ := resolveFrom_of_coded hcodes r notices
      rw [hmore] at hfails
      cases hfails
    · rw [resolveFrom_of_refuses herror'] at hfails
      cases hfails
      exact herror'
  · intro hrefuses
    exact resolveFrom_of_refuses hrefuses r notices

/-! ## What is rendered and resolved -/

theorem ofRendered_pushed (d : Dialect) (policy : LabelPolicy) (m : Machine)
    (pushed : List Segment) :
    ofRendered d policy m (.ofPushed pushed) = resolveFrom d policy m {} #[] pushed :=
  resolveFrom_pushed {} #[] pushed

theorem ofRendered_eq_ok_iff (pushed : List Segment) (r : Resolution) :
    (ofRendered d policy m (.ofPushed pushed)).1 = .ok r ↔ Resolves d policy m pushed r := by
  rw [ofRendered_pushed]
  constructor
  · intro hok
    rcases resolves_or_refuses d policy m pushed with ⟨codes, hcodes⟩ | ⟨error, herror⟩
    · obtain ⟨more, hmore⟩ := resolveFrom_of_coded hcodes {} #[]
      rw [hmore] at hok
      cases hok
      refine ⟨⟨codes, hcodes, String.empty_append⟩, Nat.zero_add _, ?_, ?_⟩
      · simp
      · intro hstrict
        rw [fallbacks_eq_nil hstrict hcodes]
        rfl
    · rw [resolveFrom_of_refuses herror] at hok
      cases hok
  · rintro ⟨⟨codes, hcodes, htext⟩, hcount, hfallbacks, -⟩
    obtain ⟨more, hmore⟩ := resolveFrom_of_coded hcodes {} #[]
    rw [hmore]
    obtain ⟨text, thunksResolved, fallbacks⟩ := r
    simp only [String.empty_append, Nat.zero_add, Array.empty_append, Except.ok.injEq,
      Resolution.mk.injEq]
    exact ⟨htext.symm, hcount.symm, by rw [← hfallbacks]⟩

end Resolution

end QueryMachine
