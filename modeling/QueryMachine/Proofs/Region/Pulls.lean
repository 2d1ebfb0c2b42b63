import QueryMachine.Proofs.Region.Counts
import QueryMachine.Proofs.Region.Violations

/-!
# The instrumentation, one call after the other

`Instrumenter.next` hands out the same tokens as `instrument`, but its caller sees the state
between any two of them: a visit may have queued any number of tokens, or none, and an error
throws away what it queued.

What makes this tractable is that the state says at any time what all later calls will
answer (`toCome`). A call takes the first of these answers and leaves the others
(`next_spec`), so the calls are the elements of one finite list. Which list it is follows from
the walk that `instrument` makes.

The count of the summary is another matter, since it is kept by visits and not by calls. It is
off by the epilogue of the open region, and after a malformed opening tag also by the
prologue: the region is entered before its tag is looked at. So the count is right as long as
no error was handed out.
-/

namespace QueryMachine.Region

variable {hooks : Hooks} {p q : Progress}

/-! ## What is still to come -/

/-- The answers of a walk from a place on: what its visits put out, and the error that ends
it, if one does. -/
def answersFrom (hooks : Hooks) (p : Progress) :
    List (Located Token) → List (Except RegionError (Located Token))
  | [] => []
  | token :: rest =>
    let v := visit hooks p token rest
    match v.result with
    | .error error => [.error error]
    | .ok more => more.toList.map .ok ++ answersFrom hooks v.progress v.rest
termination_by tokens => tokens.length
decreasing_by
  have := length_visit_rest_le hooks p token rest
  simp only [List.length_cons]
  omega

section Answers

variable {token : Located Token} {rest : List (Located Token)}

theorem answersFrom_of_ok {more : Array (Located Token)}
    (h : (visit hooks p token rest).result = .ok more) :
    answersFrom hooks p (token :: rest) = more.toList.map .ok ++
      answersFrom hooks (visit hooks p token rest).progress (visit hooks p token rest).rest := by
  rw [answersFrom]
  simp only [h]

theorem answersFrom_of_error {error : RegionError}
    (h : (visit hooks p token rest).result = .error error) :
    answersFrom hooks p (token :: rest) = [.error error] := by
  rw [answersFrom]
  simp only [h]

theorem Walks.answersFrom_eq {ts produced : List (Located Token)}
    (h : Walks hooks p ts produced q rest) :
    answersFrom hooks p ts = produced.map .ok ++ answersFrom hooks q rest := by
  induction h with
  | refl => rfl
  | step hresult _ ih => rw [answersFrom_of_ok hresult, ih, List.map_append, List.append_assoc]

/-- What stands behind an end marker has no part in the answers. -/
theorem answersFrom_endsAlike {ts : List (Located Token)} : ∀ ts', EndsAlike ts ts' →
    answersFrom hooks p ts = answersFrom hooks p ts' := by
  fun_induction answersFrom hooks p ts with
  | case1 p =>
    intro ts' h
    cases h
    rw [answersFrom]
  | case2 p token rest v error hresult =>
    intro ts' h
    obtain ⟨rest', rfl⟩ := h.exists_eq_cons
    have halike := alike_visit hooks p h
    rw [answersFrom_of_error (halike.result.symm.trans hresult)]
  | case3 p token rest v more hresult ih =>
    intro ts' h
    obtain ⟨rest', rfl⟩ := h.exists_eq_cons
    have halike := alike_visit hooks p h
    rw [answersFrom_of_ok (halike.result.symm.trans hresult), ih _ halike.rest, halike.progress]

end Answers

namespace Instrumenter

/-- All answers still to come. -/
def toCome (i : Instrumenter) : List (Except RegionError (Located Token)) :=
  i.queue.map .ok ++ answersFrom i.hooks i.progress i.rest

/-- The instrumenter after some calls of `next`. -/
def after (i : Instrumenter) : Nat → Instrumenter
  | 0 => i
  | n + 1 => i.next.2.after n

/-- What `next` answers after some calls of it. -/
def answer (i : Instrumenter) (n : Nat) : Option (Except RegionError (Located Token)) :=
  (i.after n).next.1

/-- A call answers with the first of the answers to come and leaves the others. -/
theorem next_spec (i : Instrumenter) :
    i.next.1 = i.toCome.head? ∧ i.next.2.toCome = i.toCome.tail := by
  fun_induction Instrumenter.next i with
  | case1 i token queue hqueue => simp [toCome, hqueue]
  | case2 i hqueue hrest => simp [toCome, hqueue, hrest, answersFrom]
  | case3 i token rest hrest hqueue v error hresult =>
    have hthis : i.toCome = [.error error] := by
      rw [toCome, hqueue, hrest, answersFrom_of_error hresult]
      rfl
    rw [hthis]
    simp [toCome, hqueue, answersFrom]
  | case4 i token rest hrest hqueue v more hresult ih =>
    -- The visit puts out what was to come, and the call goes on from there.
    have hthis : i.toCome = more.toList.map .ok ++ answersFrom i.hooks v.progress v.rest := by
      rw [toCome, hqueue, hrest, answersFrom_of_ok hresult]
      rfl
    rw [hthis]
    exact ih

theorem answer_eq (i : Instrumenter) (n : Nat) : i.answer n = i.toCome[n]? := by
  induction n generalizing i with
  | zero =>
    rw [← List.head?_eq_getElem?]
    exact i.next_spec.1
  | succ n ih =>
    have hnext : i.answer (n + 1) = i.next.2.answer n := rfl
    rw [hnext, ih, i.next_spec.2, List.getElem?_tail]

theorem toCome_ofTokens (hooks : Hooks) (tokens : List (Located Token)) :
    (ofTokens hooks tokens).toCome = answersFrom hooks {} (cut tokens) :=
  answersFrom_endsAlike _ (endsAlike_cut tokens)

end Instrumenter

/-- The walk over some tokens ends with an error at the first violation, and `produced` is what
it puts out for the tokens before that place. -/
def EndsWith (hooks : Hooks) (ts produced : List (Located Token)) (error : RegionError) : Prop :=
  ∃ before token rest q, ts = before ++ token :: rest ∧
    Walks hooks {} ts produced q (token :: rest) ∧
    (visit hooks q token rest).result = .error error ∧ FirstViolation ts before.length error

theorem toCome_of_ok {tokens : List (Located Token)} {out : Instrumented}
    (h : instrument hooks tokens = .ok out) :
    (Instrumenter.ofTokens hooks tokens).toCome = out.tokens.toList.map .ok := by
  rw [instrument_eq_cut] at h
  obtain ⟨⟨final, q⟩, hrun, rfl⟩ := Lexer.exists_of_map_eq_ok h
  obtain ⟨produced, hfinal, hwalks⟩ := walks_of_runFrom hrun
  have hproduced : final.toList = produced := hfinal
  rw [Instrumenter.toCome_ofTokens, hwalks.answersFrom_eq, answersFrom, List.append_nil,
    hproduced]

theorem toCome_of_error {tokens : List (Located Token)} {error : RegionError}
    (h : instrument hooks tokens = .error error) :
    ∃ produced, EndsWith hooks (cut tokens) produced error ∧
      (Instrumenter.ofTokens hooks tokens).toCome = produced.map .ok ++ [.error error] := by
  rw [instrument_eq_cut] at h
  have hrun := Lexer.eq_of_map_eq_error h
  obtain ⟨produced, q, token, rest, hwalks, herror⟩ := walks_of_runFrom_error hrun
  obtain ⟨before, hbefore, hfirst⟩ := hwalks.firstViolation (endsOnce_cut tokens) herror
  refine ⟨produced, ⟨before, token, rest, q, hbefore, hwalks, herror, hfirst⟩, ?_⟩
  rw [Instrumenter.toCome_ofTokens, hwalks.answersFrom_eq, answersFrom_of_error herror]

/-- Tokens come first, and then at most one error. -/
theorem exists_toCome_eq (hooks : Hooks) (tokens : List (Located Token)) :
    ∃ (produced : List (Located Token)) (error : Option RegionError),
      (Instrumenter.ofTokens hooks tokens).toCome
        = produced.map .ok ++ error.toList.map .error := by
  cases h : instrument hooks tokens with
  | ok out => exact ⟨out.tokens.toList, none, by rw [toCome_of_ok h]; simp⟩
  | error error =>
    obtain ⟨produced, -, hcome⟩ := toCome_of_error h
    exact ⟨produced, some error, hcome⟩

/-! ## What is counted -/

/-- The tokens that were put in are those of the statements and of two calls for every region,
less the epilogue of the region that is open. -/
def Progress.Balanced (p : Progress) : Prop :=
  (p.summary.injectedTokens : Int)
    = 5 * (p.summary.statementSites + 2 * p.summary.regions - if p.inRegion then 1 else 0)

theorem Visits.balanced {token : Located Token} {rest : List (Located Token)} {v : Visit}
    {more : Array (Located Token)} (hv : Visits hooks p token rest v) (h : p.Balanced)
    (hresult : v.result = .ok more) : v.progress.Balanced := by
  unfold Progress.Balanced at h ⊢
  cases hv with
  | @handOn _ _ q hopened hsummary =>
    simp only [pass, hsummary, Progress.inRegion_congr hopened]
    exact h
  | openTag _ _ _ hp =>
    rw [Progress.inRegion_eq_false_iff.mpr hp] at h
    simp only [Progress.countCall, Progress.enter, if_true]
    simp only [Bool.false_eq_true, if_false] at h
    push_cast
    omega
  | closeTag _ _ hp =>
    rw [hp] at h
    simp only [Progress.countCall, Progress.leave, Bool.false_eq_true, if_false]
    simp only [if_true] at h
    push_cast
    omega
  | @data text span _ hp =>
    simp only [Progress.summary_sawData, Progress.inRegion_sawData, Summary.plus]
    push_cast
    omega
  | finish => exact h
  | nested | malformed | unfinished | unmatched | unclosed => cases hresult

namespace Instrumenter

theorem balanced_next (i : Instrumenter) (h : i.progress.Balanced)
    (hanswer : ∀ error, i.next.1 ≠ some (.error error)) : i.next.2.progress.Balanced := by
  fun_induction Instrumenter.next i with
  | case1 => exact h
  | case2 => exact h
  | case3 i token rest hrest hqueue v error hresult => exact absurd rfl (hanswer error)
  | case4 i token rest hrest hqueue v more hresult ih =>
    exact ih ((visits_visit i.hooks i.progress token rest).balanced h hresult) hanswer

theorem balanced_after (i : Instrumenter) (n : Nat) (h : i.progress.Balanced)
    (hanswers : ∀ m < n, ∀ error, i.answer m ≠ some (.error error)) :
    (i.after n).progress.Balanced := by
  induction n generalizing i with
  | zero => exact h
  | succ n ih =>
    refine ih i.next.2 (i.balanced_next h (hanswers 0 n.succ_pos)) ?_
    intro m hm
    exact hanswers (m + 1) (Nat.succ_lt_succ hm)

end Instrumenter

/-! ## Any number of calls -/

/-- What a caller sees of an instrumentation, whatever the tokens and however often it calls. -/
theorem instrumenter_calls (hooks : Hooks) (tokens : List (Located Token)) :
    let i := Instrumenter.ofTokens hooks tokens
    (∀ n, (i.after n).progress.inRegion = true ↔ (i.after n).progress.opened.isSome = true) ∧
    (∀ n, (∀ m < n, ∀ error, i.answer m ≠ some (.error error)) →
      (i.after n).progress.Balanced) ∧
    (∀ out, instrument hooks tokens = .ok out →
      ∀ n, i.answer n = (out.tokens.toList.map Except.ok)[n]?) ∧
    (∀ error, instrument hooks tokens = .error error →
      ∃ produced, EndsWith hooks (cut tokens) produced error ∧
        ∀ n, i.answer n = (produced.map Except.ok ++ [.error error])[n]?) ∧
    (∀ n, (i.answer n = none ∨ ∃ error, i.answer n = some (.error error)) →
      ∀ m > n, i.answer m = none) ∧
    ∃ n, i.answer n = none := by
  intro i
  refine ⟨?_, ?_, ?_, ?_, ?_, ?_⟩
  · intro n
    rw [(i.after n).progress.inRegion_eq]
  · intro n hanswers
    exact i.balanced_after n rfl hanswers
  · intro out hout n
    rw [i.answer_eq, toCome_of_ok hout]
  · intro error herror
    obtain ⟨produced, hends, hcome⟩ := toCome_of_error herror
    exact ⟨produced, hends, fun n => by rw [i.answer_eq, hcome]⟩
  · intro n hn m hm
    obtain ⟨produced, error, hcome⟩ := exists_toCome_eq hooks tokens
    -- An answer that is no token is at the end of the list or behind it.
    have hle : produced.length ≤ n := by
      by_contra hlt
      have hanswer : i.answer n = some (.ok produced[n]) := by
        rw [i.answer_eq, hcome, List.getElem?_append_left (by simpa using hlt)]
        simp
      rw [hanswer] at hn
      rcases hn with hn | ⟨error, hn⟩ <;> cases hn
    have hlast : error.toList.length ≤ 1 := by cases error <;> simp
    rw [i.answer_eq, hcome, List.getElem?_eq_none_iff]
    simp only [List.length_append, List.length_map]
    omega
  · exact ⟨i.toCome.length, by rw [i.answer_eq, List.getElem?_length]⟩

end QueryMachine.Region
