import QueryMachine.Proofs.Region.Boundaries
import QueryMachine.Proofs.Region.Tree

/-!
# The first violation of region structure

The instrumenter takes any tokens, in or out of order, and either puts its calls in or
names what is wrong. This file says which of the two it is and what is named, without
reference to a walk: by the places of the tokens.

An opening is `{%` with the name of regions right behind it, a closing the same with the
other name. A region is open at a place if the last of these before it is an opening.
From that follow the four ways to be wrong (`Violation`), each at a place of its own, and
the error of the instrumenter is that of the first place where something is wrong. A
template is accepted if openings and closings take turns and every opening tag holds
its name only (`Paired`).

The walk is compared with the places by an invariant (`StandsAt`): where the walk has come
to place `k`, nothing before `k` is wrong, and its record of the open region is the region
that is open at `k`. One visit moves the place by one token, or by the three of an opening
tag. The other half, what is accepted, needs no spans and goes by the values of the
tokens alone.
-/

namespace QueryMachine.Region

open Grammar

variable {hooks : Hooks} {p : Progress} {out : Array (Located Token)}

/-! ## The tokens that are read -/

/-- The tokens up to the first end marker, which is put behind the last token when there
is none. -/
def cut (tokens : List (Located Token)) : List (Located Token) :=
  beforeEnd tokens ++ ((Cursor.closed tokens).find? fun t => t.value.isEof).toList

theorem not_eof_of_mem_beforeEnd {tokens : List (Located Token)} {t : Located Token}
    (h : t ∈ beforeEnd tokens) : t.value ≠ .eof := by
  have hnot := List.all_eq_true.mp List.all_takeWhile t h
  intro heof
  rw [heof] at hnot
  cases hnot

/-- The end marker is the last of the tokens that are read, and the only one. -/
theorem exists_cut_eq (tokens : List (Located Token)) :
    ∃ span rest, cut tokens = beforeEnd tokens ++ [⟨.eof, span⟩] ∧
      Cursor.closed tokens = beforeEnd tokens ++ ⟨.eof, span⟩ :: rest := by
  obtain ⟨span, rest, hclosed⟩ := exists_closed_eq tokens
  refine ⟨span, rest, ?_, hclosed⟩
  have hnone : (beforeEnd tokens).find? (fun t => t.value.isEof) = none := by
    rw [List.find?_eq_none]
    intro t ht heof
    exact not_eof_of_mem_beforeEnd ht (Token.isEof_iff.mp heof)
  rw [cut, hclosed, List.find?_append, hnone]
  rfl

theorem eq_of_isName {t : Located Token} {name : String} (h : t.value.isName name = true) :
    ∃ span, t = ⟨.name name, span⟩ := by
  obtain ⟨value, span⟩ := t
  cases value with
  | name text =>
    obtain rfl : text = name := by simpa [Token.isName] using h
    exact ⟨span, rfl⟩
  | _ => cases h

theorem endsAlike_cut (tokens : List (Located Token)) :
    EndsAlike (Cursor.closed tokens) (cut tokens) := by
  obtain ⟨span, rest, hcut, hclosed⟩ := exists_cut_eq tokens
  rw [hcut, hclosed]
  generalize beforeEnd tokens = w
  induction w with
  | nil => exact .eof _ _ rfl
  | cons t w ih => exact .cons t ih

theorem instrument_eq_cut (hooks : Hooks) (tokens : List (Located Token)) :
    instrument hooks tokens
      = (runFrom hooks {} #[] (cut tokens)).map fun (out, p) => ⟨out, p.summary⟩ := by
  rw [instrument, runFrom_endsAlike _ (endsAlike_cut tokens)]

/-! ## Violations by their places -/

section Places

variable {ts : List (Located Token)} {name : String} {i j k : Nat}

/-- The token at place `k` begins a block tag of that name: it is `{%`, and the name stands
right behind it. -/
def TagAt (name : String) (ts : List (Located Token)) (k : Nat) : Prop :=
  ts[k]?.map Located.value = some .blockBegin ∧
    ts[k + 1]?.map Located.value = some (.name name)

/-- The region that opens at `j` is open at `k`: no region opens or closes between the two. -/
structure OpenAt (ts : List (Located Token)) (j k : Nat) : Prop where
  opening : TagAt openName ts j
  lt : j < k
  between : ∀ i, j < i → i < k → ¬ TagAt openName ts i ∧ ¬ TagAt closeName ts i

/-- The span of the tag that begins at `k`, from its first token to its third. -/
def TagSpan (ts : List (Located Token)) (k : Nat) (span : Span) : Prop :=
  ∃ begin third, ts[k]? = some begin ∧ ts[k + 2]? = some third ∧
    span = begin.span.cover third.span

/-- What is wrong at place `k`, and the error that says so. -/
inductive Violation (ts : List (Located Token)) : Nat → RegionError → Prop where
  /-- A region opens while another is open. -/
  | nested {j k : Nat} {tag opened : Span} : TagAt openName ts k → OpenAt ts j k →
      TagSpan ts k tag → TagSpan ts j opened → Violation ts k (.nested tag opened)
  /-- A region opens where none is open, with a tag that holds more than its name. -/
  | malformed {k : Nat} {third : Located Token} : TagAt openName ts k →
      (∀ j, ¬ OpenAt ts j k) → ts[k + 2]? = some third → third.value ≠ .blockEnd →
      Violation ts k (.malformed Token.blockEnd.describe third.value.describe third.span)
  /-- A region closes where none is open. -/
  | unmatched {k : Nat} {begin : Located Token} : TagAt closeName ts k →
      (∀ j, ¬ OpenAt ts j k) → ts[k]? = some begin →
      Violation ts k (.unmatchedClose begin.span)
  /-- The tokens end while a region is open. -/
  | unclosed {j k : Nat} {opened : Span} : ts[k]?.map Located.value = some .eof →
      OpenAt ts j k → TagSpan ts j opened → Violation ts k (.unclosed opened)

/-- The first place where something is wrong is that of this error. -/
def FirstViolation (ts : List (Located Token)) (k : Nat) (error : RegionError) : Prop :=
  Violation ts k error ∧ ∀ i < k, ∀ other, ¬ Violation ts i other

theorem Violation.lt_length {error : RegionError} (h : Violation ts k error) :
    k < ts.length := by
  have hvalue : ∃ value, ts[k]?.map Located.value = some value := by
    cases h with
    | nested htag => exact ⟨_, htag.1⟩
    | malformed htag => exact ⟨_, htag.1⟩
    | unmatched htag => exact ⟨_, htag.1⟩
    | unclosed heof => exact ⟨_, heof⟩
  obtain ⟨value, hvalue⟩ := hvalue
  obtain ⟨t, ht, -⟩ := Option.map_eq_some_iff.mp hvalue
  exact (List.getElem?_eq_some_iff.mp ht).1

theorem TagAt.name_eq {name' : String} (h : TagAt name ts k) (h' : TagAt name' ts k) :
    name = name' := by
  have := h.2.symm.trans h'.2
  simpa using this

theorem TagSpan.eq {a b : Span} (h : TagSpan ts k a) (h' : TagSpan ts k b) : a = b := by
  obtain ⟨begin, third, hbegin, hthird, rfl⟩ := h
  obtain ⟨begin', third', hbegin', hthird', rfl⟩ := h'
  cases hbegin.symm.trans hbegin'
  cases hthird.symm.trans hthird'
  rfl

/-- At most one region is open at a place. -/
theorem OpenAt.eq (h : OpenAt ts i k) (h' : OpenAt ts j k) : i = j := by
  rcases Nat.lt_trichotomy i j with hlt | heq | hlt
  · exact absurd h'.opening (h.between j hlt h'.lt).1
  · exact heq
  · exact absurd h.opening (h'.between i hlt h.lt).1

/-- At most one thing is wrong at a place. -/
theorem Violation.eq {a b : RegionError} (h : Violation ts k a) (h' : Violation ts k b) :
    a = b := by
  have hmarks : ¬ (TagAt openName ts k ∧ TagAt closeName ts k) := by
    rintro ⟨hopen, hclose⟩
    exact absurd (hopen.name_eq hclose) (by decide)
  have hend : ∀ name, TagAt name ts k → ts[k]?.map Located.value ≠ some .eof := by
    intro name htag heof
    cases htag.1.symm.trans heof
  cases h with
  | nested htag hopen hspan hopened =>
    cases h' with
    | nested _ hopen' hspan' hopened' =>
      obtain rfl := hopen.eq hopen'
      rw [hspan.eq hspan', hopened.eq hopened']
    | malformed _ hnone => exact absurd hopen (hnone _)
    | unmatched htag' => exact absurd ⟨htag, htag'⟩ hmarks
    | unclosed heof => exact absurd heof (hend _ htag)
  | malformed htag hnone hthird =>
    cases h' with
    | nested _ hopen => exact absurd hopen (hnone _)
    | malformed _ _ hthird' =>
      cases hthird.symm.trans hthird'
      rfl
    | unmatched htag' => exact absurd ⟨htag, htag'⟩ hmarks
    | unclosed heof => exact absurd heof (hend _ htag)
  | unmatched htag hnone hbegin =>
    cases h' with
    | nested htag' => exact absurd ⟨htag', htag⟩ hmarks
    | malformed htag' => exact absurd ⟨htag', htag⟩ hmarks
    | unmatched _ _ hbegin' =>
      cases hbegin.symm.trans hbegin'
      rfl
    | unclosed heof => exact absurd heof (hend _ htag)
  | unclosed heof hopen hopened =>
    cases h' with
    | nested htag => exact absurd heof (hend _ htag)
    | malformed htag => exact absurd heof (hend _ htag)
    | unmatched htag => exact absurd heof (hend _ htag)
    | unclosed _ hopen' hopened' =>
      obtain rfl := hopen.eq hopen'
      rw [hopened.eq hopened']

theorem FirstViolation.eq {a b : RegionError} (h : FirstViolation ts i a)
    (h' : FirstViolation ts j b) : i = j ∧ a = b := by
  rcases Nat.lt_trichotomy i j with hlt | rfl | hlt
  · exact absurd h.1 (h'.2 i hlt a)
  · exact ⟨rfl, h.1.eq h'.1⟩
  · exact absurd h'.1 (h.2 j hlt b)

/-! ### The open region, from one place to the next -/

theorem openAt_succ (hopen : ¬ TagAt openName ts k) (hclose : ¬ TagAt closeName ts k) :
    OpenAt ts j (k + 1) ↔ OpenAt ts j k := by
  constructor
  · intro h
    have hlt : j < k := by
      rcases Nat.lt_succ_iff_lt_or_eq.mp h.lt with hlt | rfl
      · exact hlt
      · exact absurd h.opening hopen
    exact ⟨h.opening, hlt, fun i hji hik => h.between i hji (Nat.lt_succ_of_lt hik)⟩
  · intro h
    refine ⟨h.opening, Nat.lt_succ_of_lt h.lt, ?_⟩
    intro i hji hik
    rcases Nat.lt_succ_iff_lt_or_eq.mp hik with hik | rfl
    · exact h.between i hji hik
    · exact ⟨hopen, hclose⟩

theorem openAt_succ_of_opening (h : TagAt openName ts k) : OpenAt ts k (k + 1) :=
  ⟨h, Nat.lt_succ_self k, fun i hji hik => absurd hik (by omega)⟩

theorem not_openAt_succ_of_closing (h : TagAt closeName ts k) : ¬ OpenAt ts j (k + 1) := by
  intro hopen
  rcases Nat.lt_succ_iff_lt_or_eq.mp hopen.lt with hlt | rfl
  · exact (hopen.between k hlt (Nat.lt_succ_self k)).2 h
  · exact absurd (hopen.opening.name_eq h) (by decide)

end Places

/-! ## The walk from place to place -/

/-- The end marker is the last token, and no other token is one. -/
def EndsOnce (ts : List (Located Token)) : Prop :=
  ∃ w span, ts = w ++ [⟨.eof, span⟩] ∧ ∀ t ∈ w, t.value ≠ .eof

theorem endsOnce_cut (tokens : List (Located Token)) : EndsOnce (cut tokens) := by
  obtain ⟨span, _, hcut, -⟩ := exists_cut_eq tokens
  exact ⟨beforeEnd tokens, span, hcut, fun t ht => not_eof_of_mem_beforeEnd ht⟩

/-- The walk has come to place `k`: nothing before it is wrong, and the walk knows the region
that is open. -/
structure Progress.StandsAt (p : Progress) (ts : List (Located Token)) (k : Nat) : Prop where
  clean : ∀ i < k, ∀ error, ¬ Violation ts i error
  inside : ∀ tag, p.opened = some tag → ∃ j, OpenAt ts j k ∧ TagSpan ts j tag
  outside : p.opened = none → ∀ j, ¬ OpenAt ts j k

section Walk

variable {ts before rest : List (Located Token)} {token name : Located Token}

theorem getElem?_place (hts : ts = before ++ rest) (n : Nat) :
    ts[before.length + n]? = rest[n]? := by
  rw [hts, List.getElem?_append_right (Nat.le_add_right _ _), Nat.add_sub_cancel_left]

theorem EndsOnce.eq_nil (h : EndsOnce ts) (hts : ts = before ++ token :: rest)
    (heof : token.value = .eof) : rest = [] := by
  obtain ⟨w, span, rfl, hw⟩ := h
  rcases List.eq_nil_or_concat rest with rfl | ⟨more, last, rfl⟩
  · rfl
  · have hmem : token ∈ w := by
      rw [List.concat_eq_append, ← List.cons_append, ← List.append_assoc] at hts
      rw [(List.append_inj' hts rfl).1]
      simp
    exact absurd heof (hw token hmem)

theorem EndsOnce.rest_ne_nil (h : EndsOnce ts) (hts : ts = before ++ token :: rest)
    (hne : token.value ≠ .eof) : rest ≠ [] := by
  rintro rfl
  obtain ⟨w, span, rfl, -⟩ := h
  have hlast := (List.append_inj' hts rfl).2
  cases hlast
  exact hne rfl

theorem value_place (hts : ts = before ++ token :: rest) :
    ts[before.length]?.map Located.value = some token.value := by
  have := getElem?_place hts 0
  rw [Nat.add_zero] at this
  rw [this]
  rfl

/-- Whether a region tag begins at a place is seen from the tokens there. -/
theorem tagAt_iff {text : String} (hts : ts = before ++ token :: rest) :
    TagAt text ts before.length ↔
      token.value = .blockBegin ∧ rest.head?.map Located.value = some (.name text) := by
  have hnext := getElem?_place hts 1
  rw [List.getElem?_cons_succ, ← List.head?_eq_getElem?] at hnext
  rw [TagAt, value_place hts, hnext, Option.some.injEq]

theorem tagAt_of_isName {text : String} (hts : ts = before ++ token :: name :: rest)
    (htoken : token.value = .blockBegin) (hname : name.value.isName text = true) :
    TagAt text ts before.length := by
  obtain ⟨span, rfl⟩ := eq_of_isName hname
  exact (tagAt_iff hts).mpr ⟨htoken, rfl⟩

theorem not_tagAt_of_not_mark (hts : ts = before ++ token :: rest)
    (hmark : beginsMark (token :: rest) = false) :
    ¬ TagAt openName ts before.length ∧ ¬ TagAt closeName ts before.length := by
  rw [tagAt_iff hts, tagAt_iff hts]
  cases rest with
  | nil => simp
  | cons name rest =>
    obtain ⟨value, span⟩ := name
    constructor <;> rintro ⟨htoken, hname⟩ <;> cases hname <;>
      simp [beginsMark, htoken, Token.isName] at hmark

/-- Nothing is wrong at a token that neither begins a region tag nor ends the tokens. -/
theorem not_violation {k : Nat} {error : RegionError} (hopen : ¬ TagAt openName ts k)
    (hclose : ¬ TagAt closeName ts k) (heof : ts[k]?.map Located.value ≠ some .eof) :
    ¬ Violation ts k error := by
  intro h
  cases h with
  | nested htag => exact hopen htag
  | malformed htag => exact hopen htag
  | unmatched htag => exact hclose htag
  | unclosed hend => exact heof hend

theorem Progress.StandsAt.clean_succ {k : Nat} (h : p.StandsAt ts k)
    (hhere : ∀ error, ¬ Violation ts k error) :
    ∀ i < k + 1, ∀ error, ¬ Violation ts i error := by
  intro i hi error
  rcases Nat.lt_succ_iff_lt_or_eq.mp hi with hi | rfl
  · exact h.clean i hi error
  · exact hhere error

/-- The walk goes on to the next place past a token that plays no part in regions. -/
theorem Progress.StandsAt.next {q : Progress} (h : p.StandsAt ts before.length)
    (hq : q.opened = p.opened) (hts : ts = before ++ token :: rest)
    (hmark : beginsMark (token :: rest) = false) (heof : token.value ≠ .eof) :
    q.StandsAt ts (before ++ [token]).length := by
  obtain ⟨hopen, hclose⟩ := not_tagAt_of_not_mark hts hmark
  have hend : ts[before.length]?.map Located.value ≠ some .eof := by
    rw [value_place hts]
    exact fun h => heof (Option.some.inj h)
  rw [List.length_append, List.length_singleton]
  refine ⟨h.clean_succ fun _ => not_violation hopen hclose hend, ?_, ?_⟩
  · intro tag htag
    obtain ⟨j, hj, hspan⟩ := h.inside tag (hq ▸ htag)
    exact ⟨j, (openAt_succ hopen hclose).mpr hj, hspan⟩
  · intro hnone j hj
    exact h.outside (hq ▸ hnone) j ((openAt_succ hopen hclose).mp hj)

/-- The walk passes an opening tag. -/
theorem Progress.StandsAt.enter {third : Located Token} (h : p.StandsAt ts before.length)
    (hts : ts = before ++ token :: name :: third :: rest) (htoken : token.value = .blockBegin)
    (hname : name.value.isName openName = true) (hthird : third.value = .blockEnd)
    (hp : p.opened = none) :
    (p.enter (token.span.cover third.span)).countCall.StandsAt ts
      (before ++ [token, name, third]).length := by
  have htag := tagAt_of_isName hts htoken hname
  have hthird' : ts[before.length + 2]? = some third := getElem?_place hts 2
  have hopen : (p.enter (token.span.cover third.span)).countCall.StandsAt ts
      (before ++ [token]).length := by
    rw [List.length_append, List.length_singleton]
    refine ⟨h.clean_succ ?_, ?_, fun hnone => by cases hnone⟩
    · intro error hviolation
      cases hviolation with
      | nested _ hopen => exact h.outside hp _ hopen
      | malformed _ _ hother hne =>
        cases hthird'.symm.trans hother
        exact hne hthird
      | unmatched hclose => exact absurd (htag.name_eq hclose) (by decide)
      | unclosed hend => cases htag.1.symm.trans hend
    · intro tag heq
      cases heq
      exact ⟨before.length, openAt_succ_of_opening htag, token, third, getElem?_place hts 0,
        hthird', rfl⟩
  -- The name and the end of the tag are passed like any other token.
  obtain ⟨span, rfl⟩ := eq_of_isName hname
  have hts₁ : ts = before ++ [token] ++ ⟨.name openName, span⟩ :: third :: rest := by
    simp [hts]
  have hts₂ : ts = before ++ [token] ++ [⟨.name openName, span⟩] ++ third :: rest := by
    simp [hts]
  have hpassed := hopen.next rfl hts₁ rfl (by simp)
  have hended := hpassed.next rfl hts₂ (by cases rest <;> simp [beginsMark, hthird])
    (by simp [hthird])
  simpa using hended

/-- The walk passes the first token of a closing tag. -/
theorem Progress.StandsAt.leave (h : p.StandsAt ts before.length)
    (hts : ts = before ++ token :: name :: rest) (htoken : token.value = .blockBegin)
    (hname : name.value.isName closeName = true) (hp : p.inRegion = true) :
    p.leave.countCall.StandsAt ts (before ++ [token]).length := by
  have htag := tagAt_of_isName hts htoken hname
  obtain ⟨tag, hopened⟩ := Progress.exists_opened hp
  obtain ⟨j, hopen, -⟩ := h.inside tag hopened
  rw [List.length_append, List.length_singleton]
  refine ⟨h.clean_succ ?_, ?_, fun _ i => not_openAt_succ_of_closing htag⟩
  · intro error hviolation
    cases hviolation with
    | nested htag' => exact absurd (htag.name_eq htag') (by decide)
    | malformed htag' => exact absurd (htag.name_eq htag') (by decide)
    | unmatched _ hnone => exact hnone j hopen
    | unclosed hend => cases htag.1.symm.trans hend
  · intro tag hnone
    cases hnone

/-- The walk passes the end marker. -/
theorem Progress.StandsAt.finish (h : p.StandsAt ts before.length)
    (hts : ts = before ++ token :: rest) (heof : token.value = .eof) (hp : p.opened = none) :
    p.StandsAt ts (before ++ [token]).length := by
  have hvalue := value_place hts
  rw [heof] at hvalue
  have htag : ∀ text, ¬ TagAt text ts before.length := by
    intro text htag
    cases hvalue.symm.trans htag.1
  have hsucc : ∀ j, OpenAt ts j (before.length + 1) ↔ OpenAt ts j before.length :=
    fun j => openAt_succ (htag _) (htag _)
  rw [List.length_append, List.length_singleton]
  refine ⟨h.clean_succ ?_, ?_, fun _ j hj => h.outside hp j ((hsucc j).mp hj)⟩
  · intro error hviolation
    cases hviolation with
    | nested hopen => exact htag _ hopen
    | malformed hopen => exact htag _ hopen
    | unmatched hclose => exact htag _ hclose
    | unclosed _ hopen => exact h.outside hp _ hopen
  · intro tag hopened
    rw [hp] at hopened
    cases hopened

/-- A visit at the place behind `before` leads to a later place, or something is wrong at
this one and at none before it. -/
def Visit.Leads (ts before : List (Located Token)) (v : Visit) : Prop :=
  match v.result with
  | .ok _ => ∃ read, ts = before ++ read ++ v.rest ∧ v.progress.StandsAt ts (before ++ read).length
  | .error error => FirstViolation ts before.length error

theorem tagSpan_place (hends : EndsOnce ts) (hts : ts = before ++ token :: name :: rest)
    (hname : name.value.isName openName = true) :
    TagSpan ts before.length (tagSpan token rest) := by
  obtain ⟨span, rfl⟩ := eq_of_isName hname
  cases rest with
  | nil =>
    have hlast : ts = before ++ [token] ++ [⟨.name openName, span⟩] := by simp [hts]
    exact absurd rfl (hends.rest_ne_nil hlast (by simp))
  | cons third rest => exact ⟨token, third, getElem?_place hts 0, getElem?_place hts 2, rfl⟩

theorem Visits.leads {v : Visit} (hv : Visits hooks p token rest v) (hends : EndsOnce ts)
    (h : p.StandsAt ts before.length) (hts : ts = before ++ token :: rest) :
    v.Leads ts before := by
  have hfirst : ∀ {error}, Violation ts before.length error →
      FirstViolation ts before.length error := fun hv => ⟨hv, h.clean⟩
  cases hv with
  | handOn hopened _ heof hmark _ =>
    exact ⟨[token], by simp [hts, pass], h.next hopened hts hmark heof⟩
  | openTag htoken hname hthird hp =>
    exact ⟨[token, _, _], by simp [hts], h.enter hts htoken hname hthird hp⟩
  | closeTag htoken hname hp =>
    exact ⟨[token], by simp [hts], h.leave hts htoken hname hp⟩
  | @data text span rest hp =>
    exact ⟨[⟨.data text, span⟩], by simp [hts],
      h.next (p.opened_sawData text span.start) hts (by cases rest <;> rfl) (by simp)⟩
  | finish heof hp =>
    obtain rfl := hends.eq_nil hts heof
    exact ⟨[token], by simp [hts, pass], h.finish hts heof hp⟩
  | nested htoken hname hp =>
    obtain ⟨j, hopen, hopened⟩ := h.inside _ hp
    exact hfirst (.nested (tagAt_of_isName hts htoken hname) hopen
      (tagSpan_place hends hts hname) hopened)
  | malformed htoken hname hp hthird =>
    exact hfirst (.malformed (tagAt_of_isName hts htoken hname) (h.outside hp)
      (getElem?_place hts 2) hthird)
  | unfinished htoken hname hp =>
    -- There is a token behind the name, the end marker if nothing else.
    obtain ⟨_, third, -, hthird, -⟩ := tagSpan_place hends hts hname
    rw [getElem?_place hts 2] at hthird
    cases hthird
  | unmatched htoken hname hp =>
    exact hfirst (.unmatched (tagAt_of_isName hts htoken hname) (h.outside hp)
      (getElem?_place hts 0))
  | unclosed heof hp =>
    obtain ⟨j, hopen, hopened⟩ := h.inside _ hp
    refine hfirst (.unclosed ?_ hopen hopened)
    rw [value_place hts, heof]

end Walk

/-! ### Visits one after the other -/

/-- Visits from `p` on put out some tokens and come to `q`, with the rest of the tokens still
to visit. -/
inductive Walks (hooks : Hooks) : Progress → List (Located Token) → List (Located Token) →
    Progress → List (Located Token) → Prop where
  | refl (p : Progress) (ts : List (Located Token)) : Walks hooks p ts [] p ts
  | step {p q : Progress} {token : Located Token} {rest produced rest' : List (Located Token)}
      {more : Array (Located Token)} : (visit hooks p token rest).result = .ok more →
      Walks hooks (visit hooks p token rest).progress (visit hooks p token rest).rest
        produced q rest' →
      Walks hooks p (token :: rest) (more.toList ++ produced) q rest'

theorem walks_of_runFrom {tokens : List (Located Token)} {final : Array (Located Token)}
    {q : Progress} (h : runFrom hooks p out tokens = .ok (final, q)) :
    ∃ produced, final.toList = out.toList ++ produced ∧ Walks hooks p tokens produced q [] := by
  fun_induction runFrom hooks p out tokens with
  | case1 p out =>
    cases h
    exact ⟨[], (List.append_nil _).symm, .refl ..⟩
  | case2 => cases h
  | case3 p out token rest v more hresult ih =>
    obtain ⟨produced, hfinal, hwalks⟩ := ih h
    refine ⟨more.toList ++ produced, ?_, .step hresult hwalks⟩
    rw [hfinal, Array.toList_append, List.append_assoc]

theorem walks_of_runFrom_error {tokens : List (Located Token)} {error : RegionError}
    (h : runFrom hooks p out tokens = .error error) :
    ∃ produced q token rest, Walks hooks p tokens produced q (token :: rest) ∧
      (visit hooks q token rest).result = .error error := by
  fun_induction runFrom hooks p out tokens with
  | case1 => cases h
  | case2 p out token rest v error' hresult =>
    cases h
    exact ⟨[], p, token, rest, .refl .., hresult⟩
  | case3 p out token rest v more hresult ih =>
    obtain ⟨produced, q, token', rest', hwalks, herror⟩ := ih h
    exact ⟨_, q, token', rest', .step hresult hwalks, herror⟩

section Run

variable {ts produced rest : List (Located Token)} {q : Progress}

theorem Walks.standsAt {tokens : List (Located Token)}
    (h : Walks hooks p tokens produced q rest) (hends : EndsOnce ts) :
    ∀ before, p.StandsAt ts before.length → ts = before ++ tokens →
      ∃ read, ts = read ++ rest ∧ q.StandsAt ts read.length := by
  induction h with
  | refl p tokens => exact fun before hstands hts => ⟨before, hts, hstands⟩
  | @step p q token rest produced rest' more hresult _ ih =>
    intro before hstands hts
    have hleads := (visits_visit hooks p token rest).leads hends hstands hts
    unfold Visit.Leads at hleads
    rw [hresult] at hleads
    obtain ⟨read, hread, hstands⟩ := hleads
    exact ih (before ++ read) hstands hread

theorem standsAt_start (ts : List (Located Token)) : Progress.StandsAt {} ts 0 where
  clean i hi := absurd hi (Nat.not_lt_zero i)
  inside tag htag := by cases htag
  outside _ j hj := absurd hj.lt (Nat.not_lt_zero j)

/-- Where the walk comes to its end, nothing is wrong anywhere. -/
theorem Walks.not_violation (h : Walks hooks {} ts produced q []) (hends : EndsOnce ts)
    (k : Nat) (error : RegionError) : ¬ Violation ts k error := by
  obtain ⟨read, hread, hstands⟩ := h.standsAt hends [] (standsAt_start ts) rfl
  rw [List.append_nil] at hread
  intro hviolation
  have hlt := hviolation.lt_length
  rw [hread] at hlt
  exact hstands.clean k hlt error hviolation

/-- What the walk ends with is the first thing that is wrong, at the token it has come to. -/
theorem Walks.firstViolation {token : Located Token} {error : RegionError}
    (h : Walks hooks {} ts produced q (token :: rest)) (hends : EndsOnce ts)
    (herror : (visit hooks q token rest).result = .error error) :
    ∃ before, ts = before ++ token :: rest ∧ FirstViolation ts before.length error := by
  obtain ⟨before, hbefore, hstands⟩ := h.standsAt hends [] (standsAt_start ts) rfl
  have hleads := (visits_visit hooks q token rest).leads hends hstands hbefore
  unfold Visit.Leads at hleads
  rw [herror] at hleads
  exact ⟨before, hbefore, hleads⟩

end Run

/-! ## What is accepted -/

/-- The openings and the closings among some tokens, in order: `true` for an opening. -/
def marks : List Token → List Bool
  | .blockBegin :: .name name :: rest =>
    if name = openName then true :: marks rest
    else if name = closeName then false :: marks rest
    else marks rest
  | _ :: rest => marks rest
  | [] => []

/-- Some openings, each with a closing right behind it. -/
def TakeTurns (l : List Bool) : Prop :=
  ∃ n, l = (List.replicate n [true, false]).flatten

/-- Openings and closings take turns, first an opening and last a closing, and behind the
name of every opening stands the end of its tag. -/
structure Paired (ts : List (Located Token)) : Prop where
  turns : TakeTurns (marks (ts.map Located.value))
  tags : ∀ k, TagAt openName ts k → ts[k + 2]?.map Located.value = some .blockEnd

section TakeTurns

variable {l : List Bool}

theorem takeTurns_nil : TakeTurns [] := ⟨0, rfl⟩

theorem takeTurns_pair : TakeTurns (true :: false :: l) ↔ TakeTurns l := by
  constructor
  · rintro ⟨n, h⟩
    cases n with
    | zero => cases h
    | succ n =>
      rw [List.replicate_succ, List.flatten_cons] at h
      exact ⟨n, by simpa using h⟩
  · rintro ⟨n, rfl⟩
    exact ⟨n + 1, by rw [List.replicate_succ, List.flatten_cons]; rfl⟩

theorem TakeTurns.cases (h : TakeTurns l) : l = [] ∨ ∃ l', l = true :: false :: l' := by
  obtain ⟨n, rfl⟩ := h
  cases n with
  | zero => exact .inl rfl
  | succ n => exact .inr ⟨_, by rw [List.replicate_succ, List.flatten_cons]; rfl⟩

theorem not_takeTurns_one : ¬ TakeTurns [true] := by
  intro h
  rcases h.cases with h | ⟨l', h⟩ <;> cases h

theorem not_takeTurns_closing : ¬ TakeTurns (false :: l) := by
  intro h
  rcases h.cases with h | ⟨l', h⟩ <;> cases h

theorem not_takeTurns_nested : ¬ TakeTurns (true :: true :: l) := by
  intro h
  rcases h.cases with h | ⟨l', h⟩ <;> cases h

end TakeTurns

/-- The condition on opening tags, by the values of the tokens. -/
def TagsEnd (values : List Token) : Prop :=
  ∀ k : Nat, values[k]? = some .blockBegin → values[k + 1]? = some (.name openName) →
    values[k + 2]? = some .blockEnd

theorem tagsEnd_cons {t : Token} {rest : List Token} :
    TagsEnd (t :: rest) ↔
      (t = .blockBegin → rest.head? = some (.name openName) → rest[1]? = some .blockEnd) ∧
      TagsEnd rest := by
  constructor
  · intro h
    refine ⟨?_, fun k => h (k + 1)⟩
    intro ht hname
    refine h 0 (by rw [ht]; rfl) ?_
    rw [List.getElem?_cons_succ, ← List.head?_eq_getElem?]
    exact hname
  · rintro ⟨hfirst, hrest⟩ k hbegin hname
    cases k with
    | zero =>
      rw [List.getElem?_cons_succ, ← List.head?_eq_getElem?] at hname
      exact hfirst (Option.some.inj hbegin) hname
    | succ k => exact hrest k hbegin hname

theorem tagsEnd_cons_of_ne {t : Token} {rest : List Token} (h : t ≠ .blockBegin) :
    TagsEnd (t :: rest) ↔ TagsEnd rest := by
  rw [tagsEnd_cons]
  exact and_iff_right fun ht => absurd ht h

theorem paired_iff {ts : List (Located Token)} :
    Paired ts ↔ TakeTurns (marks (ts.map Located.value)) ∧ TagsEnd (ts.map Located.value) := by
  constructor
  · intro h
    refine ⟨h.turns, ?_⟩
    intro k hbegin hname
    rw [List.getElem?_map] at hbegin hname ⊢
    exact h.tags k ⟨hbegin, hname⟩
  · rintro ⟨hturns, htags⟩
    refine ⟨hturns, ?_⟩
    intro k htag
    have := htags k
    simp only [List.getElem?_map] at this
    exact this htag.1 htag.2

/-- The values of tokens that end once. -/
def ValuesEnd (values : List Token) : Prop :=
  ∃ w, values = w ++ [.eof] ∧ .eof ∉ w

theorem ValuesEnd.tail {t : Token} {rest : List Token} (h : ValuesEnd (t :: rest))
    (ht : t ≠ .eof) : ValuesEnd rest := by
  obtain ⟨w, heq, hw⟩ := h
  cases w with
  | nil =>
    cases heq
    exact absurd rfl ht
  | cons u w =>
    cases heq
    exact ⟨w, rfl, fun hmem => hw (List.mem_cons_of_mem _ hmem)⟩

theorem ValuesEnd.eq_nil {rest : List Token} (h : ValuesEnd (.eof :: rest)) : rest = [] := by
  obtain ⟨w, heq, hw⟩ := h
  cases w with
  | nil =>
    cases heq
    rfl
  | cons u w =>
    cases heq
    exact absurd List.mem_cons_self hw

/-- A walk over these values, from inside or outside of a region, is without fault exactly if
the openings and closings take turns, the open region's included, and the opening tags hold
no more than their names. -/
theorem fault?_eq_none_iff {inside : Bool} {values : List Token} (h : ValuesEnd values) :
    fault? inside values = none ↔
      TakeTurns ((if inside then [true] else []) ++ marks values) ∧ TagsEnd values := by
  fun_induction fault? inside values with
  | case1 inside =>
    obtain ⟨w, heq, -⟩ := h
    cases w <;> cases heq
  | case2 rest =>
    obtain rfl := h.eq_nil
    simp [marks, not_takeTurns_one]
  | case3 inside rest houtside =>
    obtain rfl := h.eq_nil
    have htags : TagsEnd [.eof] := (tagsEnd_cons_of_ne (by simp)).mpr (by simp [TagsEnd])
    simp [marks, houtside, takeTurns_nil, htags]
  | case4 rest => simp [marks, not_takeTurns_nested]
  | case5 inside houtside rest ih =>
    have hrest : ValuesEnd rest := ((h.tail (by simp)).tail (by simp)).tail (by simp)
    have hmarks : marks (.blockBegin :: .name openName :: .blockEnd :: rest)
        = true :: marks rest := by simp [marks]
    have htags : TagsEnd (.blockBegin :: .name openName :: .blockEnd :: rest) ↔ TagsEnd rest := by
      rw [tagsEnd_cons, tagsEnd_cons_of_ne (by simp), tagsEnd_cons_of_ne (by simp)]
      simp
    rw [ih hrest, hmarks, htags]
    simp [houtside]
  | case6 inside rest houtside hrest =>
    have hnot : ¬ TagsEnd (.blockBegin :: .name openName :: rest) := by
      intro htags
      have hend := htags 0 rfl rfl
      cases rest with
      | nil => cases hend
      | cons t rest =>
        cases hend
        exact hrest rest rfl
    simp [hnot]
  | case7 rest hne ih =>
    have hrest : ValuesEnd rest := (h.tail (by simp)).tail (by simp)
    have hmarks : marks (.blockBegin :: .name closeName :: rest) = false :: marks rest := by
      simp [marks, hne]
    have htags : TagsEnd (.blockBegin :: .name closeName :: rest) ↔ TagsEnd rest := by
      rw [tagsEnd_cons, tagsEnd_cons_of_ne (by simp)]
      simp [hne]
    rw [ih hrest, hmarks, htags]
    simp [takeTurns_pair]
  | case8 inside rest houtside hne => simp [marks, hne, houtside, not_takeTurns_closing]
  | case9 inside name rest hopen hclose ih =>
    have hrest : ValuesEnd rest := (h.tail (by simp)).tail (by simp)
    have htags : TagsEnd (.blockBegin :: .name name :: rest) ↔ TagsEnd rest := by
      rw [tagsEnd_cons, tagsEnd_cons_of_ne (by simp)]
      simp [hopen]
    rw [ih hrest, htags, marks, if_neg hopen, if_neg hclose]
  | case10 inside t rest heof hname ih =>
    have hmarks : marks (t :: rest) = marks rest := by
      rw [marks]
      exact hname
    have htags : TagsEnd (t :: rest) ↔ TagsEnd rest := by
      rw [tagsEnd_cons]
      refine and_iff_right ?_
      intro ht hhead
      cases rest with
      | nil => cases hhead
      | cons u rest =>
        cases hhead
        exact absurd rfl (hname openName rest ht)
    rw [ih (h.tail heof), hmarks, htags]

/-! ## Any tokens -/

/-- The instrumenter accepts exactly the tokens whose regions are in order. What it says of
any others is the first violation: the tokens after it, and what else is wrong with the tag
it stands at, play no part. -/
theorem instrument_region_structure (hooks : Hooks) (tokens : List (Located Token)) :
    ((∃ i, instrument hooks tokens = .ok i) ↔ Paired (cut tokens)) ∧
    ∀ error, instrument hooks tokens = .error error ↔
      ∃ k, FirstViolation (cut tokens) k error := by
  have hends := endsOnce_cut tokens
  have hfault : faultOf (runFrom hooks {} #[] (cut tokens)) = none ↔ Paired (cut tokens) := by
    have hvalues : ValuesEnd ((cut tokens).map Located.value) := by
      obtain ⟨w, span, hcut, hw⟩ := hends
      refine ⟨w.map Located.value, by simp [hcut], ?_⟩
      rintro hmem
      obtain ⟨t, ht, heof⟩ := List.mem_map.mp hmem
      exact hw t ht heof
    rw [faultOf_runFrom rfl rfl, fault?_eq_none_iff hvalues, paired_iff]
    rfl
  rw [instrument_eq_cut]
  cases hrun : runFrom hooks {} #[] (cut tokens) with
  | ok result =>
    rw [hrun] at hfault
    refine ⟨⟨fun _ => hfault.mp rfl, fun _ => ⟨_, rfl⟩⟩, ?_⟩
    intro error
    refine ⟨fun h => (by cases h), ?_⟩
    rintro ⟨k, hk, -⟩
    obtain ⟨produced, -, hwalks⟩ := walks_of_runFrom hrun
    exact absurd hk (hwalks.not_violation hends k error)
  | error error =>
    rw [hrun] at hfault
    obtain ⟨produced, q, token, rest, hwalks, herror⟩ := walks_of_runFrom_error hrun
    obtain ⟨before, -, hk⟩ := hwalks.firstViolation hends herror
    refine ⟨⟨?_, ?_⟩, ?_⟩
    · rintro ⟨i, hi⟩
      cases hi
    · intro hpaired
      cases hfault.mpr hpaired
    · intro other
      constructor
      · intro h
        cases h
        exact ⟨before.length, hk⟩
      · rintro ⟨j, hj⟩
        rw [(hj.eq hk).2]
        rfl

end QueryMachine.Region
