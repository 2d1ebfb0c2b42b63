import QueryMachine.Dialect.Registry
import QueryMachine.Proofs.Dialect.History
import Mathlib.Data.List.Induction

/-!
# What a registry holds

A registry is told by the dialects that were offered to it. Those that it took are
a list, in the order in which they came, and everything it answers is said by that
list (`Registry.Holds`): its names are theirs in order, and the dialect of a name
is the first of that name, because a second one is refused. One offer adds its
dialect to the list or leaves everything as it was, and what it answers depends on
the names so far and on the dialect's own extensions.

Extensions are kept in the order of their names, so the first that a search finds
is the least.
-/

namespace QueryMachine

/-! ## Extensions by name -/

/-- Of the extensions of one name the last is kept. -/
theorem Extensions.getElem?_ofList (list : List Extension) (name : String) :
    (Extensions.ofList list)[name]? = list.reverse.find? fun e => e.name == name := by
  unfold Extensions.ofList
  induction list using List.reverseRecOn with
  | nil => simp
  | append_singleton list e ih =>
    rw [List.foldl_append, List.reverse_append]
    simp only [List.foldl_cons, List.foldl_nil, Extensions.add, Std.TreeMap.getElem?_insert,
      List.reverse_singleton, List.singleton_append, Std.compare_eq_iff_eq]
    by_cases hname : e.name = name
    · rw [if_pos hname, List.find?_cons_of_pos (by simpa using hname)]
    · rw [if_neg hname, List.find?_cons_of_neg (by simpa using hname), ih]

theorem Extensions.mem_ofList {list : List Extension} {name : String} :
    name ∈ Extensions.ofList list ↔ ∃ e ∈ list, e.name = name := by
  rw [Std.TreeMap.mem_iff_isSome_getElem?, Extensions.getElem?_ofList]
  simp

namespace Registry

/-- The extension for which a dialect is refused: the least that has the name of an
operation. -/
structure Shadows (d : Dialect) (name : String) : Prop where
  mem : name ∈ d.extensions
  operation : ∃ op : Operation, op.name = name
  least : ∀ op : Operation, op.name ∈ d.extensions → name ≤ op.name

theorem isSome_ofName? {name : String} :
    (Operation.ofName? name).isSome = true ↔ ∃ op : Operation, op.name = name := by
  constructor
  · intro h
    obtain ⟨op, hop⟩ := Option.isSome_iff_exists.mp h
    exact ⟨op, (MySql.eq_of_ofName? hop).symm⟩
  · rintro ⟨op, rfl⟩
    rw [Operation.ofName?_name]
    rfl

theorem keys_pairwise_lt {β : Type} (t : Std.TreeMap String β) : t.keys.Pairwise (· < ·) := by
  have hordered : t.keys.Pairwise fun a b => compare a b = .lt := Std.TreeMap.ordered_keys
  exact hordered.imp fun h => compareOfLessAndEq_eq_lt.mp h

theorem shadowed?_eq_none_iff {d : Dialect} :
    shadowed? d = none ↔ ∀ op : Operation, op.name ∉ d.extensions := by
  rw [shadowed?, List.find?_eq_none]
  constructor
  · intro h op hop
    exact h op.name (Std.TreeMap.mem_keys.mpr hop) (isSome_ofName?.mpr ⟨op, rfl⟩)
  · intro h name hname hoperation
    obtain ⟨op, rfl⟩ := isSome_ofName?.mp hoperation
    exact h op (Std.TreeMap.mem_keys.mp hname)

theorem shadows_of_shadowed? {d : Dialect} {name : String} (h : shadowed? d = some name) :
    Shadows d name := by
  obtain ⟨hoperation, before, after, hkeys, hbefore⟩ := List.find?_eq_some_iff_append.mp h
  refine ⟨?_, isSome_ofName?.mp hoperation, ?_⟩
  · rw [← Std.TreeMap.mem_keys, hkeys]
    simp
  · intro op hop
    have hsorted := keys_pairwise_lt d.extensions
    rw [hkeys, List.pairwise_append, List.pairwise_cons] at hsorted
    rw [← Std.TreeMap.mem_keys, hkeys, List.mem_append, List.mem_cons] at hop
    rcases hop with hop | rfl | hop
    · have hnone := hbefore op.name hop
      rw [Operation.ofName?_name] at hnone
      cases hnone
    · exact String.lt_irrefl _
    · exact String.lt_asymm (hsorted.2.1.1 op.name hop)

theorem Shadows.eq {d : Dialect} {a b : String} (ha : Shadows d a) (hb : Shadows d b) :
    a = b := by
  obtain ⟨op, rfl⟩ := ha.operation
  obtain ⟨op', rfl⟩ := hb.operation
  exact String.le_antisymm (ha.least op' hb.mem) (hb.least op ha.mem)

/-! ## One offer -/

theorem contains_iff {r : Registry} {name : String} :
    r.contains name = true ↔ name ∈ r.names := by
  rw [names, Std.TreeMap.mem_keys]
  rfl

/-- What an offer can come to. -/
theorem offer_cases (r : Registry) (d : Dialect) :
    (d.name ∈ r.names ∧ r.offer d = (.error (.duplicateDialect d.name), r)) ∨
    (d.name ∉ r.names ∧ ∃ name, Shadows d name ∧
      r.offer d = (.error (.shadowedOperation d.name name), r)) ∨
    (d.name ∉ r.names ∧ (∀ op : Operation, op.name ∉ d.extensions) ∧
      r.offer d = (.ok (), ⟨r.dialects.insert d.name d⟩)) := by
  unfold offer register
  by_cases hname : d.name ∈ r.names
  · rw [if_pos (contains_iff.mpr hname)]
    exact .inl ⟨hname, rfl⟩
  · rw [if_neg (mt contains_iff.mp hname)]
    right
    cases hshadowed : shadowed? d with
    | some name => exact .inl ⟨hname, name, shadows_of_shadowed? hshadowed, rfl⟩
    | none => exact .inr ⟨hname, shadowed?_eq_none_iff.mp hshadowed, rfl⟩

/-- How a registry answers to the next offer. -/
structure Answers (r : Registry) (d : Dialect) : Prop where
  duplicate : ∀ name, (r.offer d).1 = .error (.duplicateDialect name) ↔
    d.name ∈ r.names ∧ name = d.name
  shadowed : ∀ dialect name, (r.offer d).1 = .error (.shadowedOperation dialect name) ↔
    d.name ∉ r.names ∧ dialect = d.name ∧ Shadows d name
  /-- If the name is new, an extension with an operation's name is the only reason. -/
  refused : d.name ∉ r.names →
    ((∃ dialect name, (r.offer d).1 = .error (.shadowedOperation dialect name)) ↔
      ∃ op : Operation, op.name ∈ d.extensions)
  accepted : (r.offer d).1 = .ok () ↔
    d.name ∉ r.names ∧ ∀ op : Operation, op.name ∉ d.extensions
  unchanged : ∀ error, (r.offer d).1 = .error error → (r.offer d).2 = r

theorem answers (r : Registry) (d : Dialect) : r.Answers d := by
  rcases r.offer_cases d with ⟨hname, heq⟩ | ⟨hname, name, hshadows, heq⟩ | ⟨hname, hclear, heq⟩
  · constructor <;> simp [heq, hname, eq_comm]
  · obtain ⟨op, hop⟩ := hshadows.operation
    have hmem : op.name ∈ d.extensions := hop ▸ hshadows.mem
    constructor
    · simp [heq, hname]
    · intro dialect name'
      simp only [heq, Except.error.injEq, DialectError.shadowedOperation.injEq]
      constructor
      · rintro ⟨rfl, rfl⟩
        exact ⟨hname, rfl, hshadows⟩
      · rintro ⟨-, rfl, hshadows'⟩
        exact ⟨rfl, hshadows.eq hshadows'⟩
    · intro _
      exact ⟨fun _ => ⟨op, hmem⟩, fun _ => ⟨d.name, name, by rw [heq]⟩⟩
    · rw [heq]
      exact ⟨nofun, fun h => absurd hmem (h.2 op)⟩
    · simp [heq]
  · have hnone (name : String) : ¬ Shadows d name := by
      intro hshadows
      obtain ⟨op, rfl⟩ := hshadows.operation
      exact hclear op hshadows.mem
    constructor <;> simp [heq, hname, hnone, hclear]

/-! ## Offers one after the other -/

/-- The registry after dialects were offered to it. -/
def offerAll (r : Registry) (ds : List Dialect) : Registry :=
  ds.foldl (fun r d => (r.offer d).2) r

/-- The dialect of an offer, if it is taken. -/
def added (r : Registry) (d : Dialect) : List Dialect :=
  match (r.offer d).1 with
  | .ok _ => [d]
  | .error _ => []

/-- Those of the dialects offered that were taken. -/
def taken (r : Registry) : List Dialect → List Dialect
  | [] => []
  | d :: ds => r.added d ++ taken (r.offer d).2 ds

/-- A registry has taken the dialects `ds`, in this order: under each name it has the
first of them. -/
structure Holds (r : Registry) (ds : List Dialect) : Prop where
  lookup : ∀ name, r.dialects[name]? = ds.find? fun d => d.name == name
  callable : ∀ d ∈ ds, ∀ op : Operation, op.name ∉ d.extensions

theorem holds_empty : ({} : Registry).Holds [] :=
  ⟨by simp, by simp⟩

theorem Holds.mem_names {r : Registry} {ds : List Dialect} (h : r.Holds ds) (name : String) :
    name ∈ r.names ↔ ∃ d ∈ ds, d.name = name := by
  rw [names, Std.TreeMap.mem_keys, Std.TreeMap.mem_iff_isSome_getElem?, h.lookup]
  simp

/-- An offer adds its dialect behind the others, or nothing. -/
theorem Holds.offer {r : Registry} {ds : List Dialect} (h : r.Holds ds) (d : Dialect) :
    (r.offer d).2.Holds (ds ++ r.added d) := by
  rcases r.offer_cases d with ⟨-, heq⟩ | ⟨-, name, -, heq⟩ | ⟨hname, hclear, heq⟩
  · simpa [heq, added] using h
  · simpa [heq, added] using h
  · have hadded : r.added d = [d] := by rw [added, heq]
    rw [hadded, heq]
    refine ⟨fun name => ?_, fun d' hd' => ?_⟩
    · simp only [Std.TreeMap.getElem?_insert, Std.compare_eq_iff_eq, List.find?_append,
        h.lookup]
      by_cases heq : d.name = name
      · subst heq
        -- Nothing of that name was taken before.
        have hnone : ds.find? (fun d' => d'.name == d.name) = none := by
          rw [h.mem_names] at hname
          simpa using hname
        simp [hnone]
      · simp [heq]
    · rcases List.mem_append.mp hd' with hd' | hd'
      · exact h.callable d' hd'
      · rw [List.mem_singleton.mp hd']
        exact hclear

theorem Holds.offerAll {r : Registry} {before : List Dialect} (h : r.Holds before)
    (ds : List Dialect) : (r.offerAll ds).Holds (before ++ r.taken ds) := by
  induction ds generalizing r before with
  | nil => simpa [Registry.offerAll, taken] using h
  | cons d ds ih =>
    have hrest := ih (h.offer d)
    rw [List.append_assoc] at hrest
    exact hrest

theorem taken_append (r : Registry) (ds more : List Dialect) :
    r.taken (ds ++ more) = r.taken ds ++ (r.offerAll ds).taken more := by
  induction ds generalizing r with
  | nil => rfl
  | cons d ds ih =>
    rw [List.cons_append, taken, ih, taken, List.append_assoc]
    rfl

/-- What a registry says that has taken the dialects `ds`, in this order. -/
structure Tells (r : Registry) (ds : List Dialect) : Prop where
  ordered : r.names.Pairwise (· < ·)
  mem_names : ∀ name, name ∈ r.names ↔ ∃ d ∈ ds, d.name = name
  /-- The dialect of a name is the first that was taken under it. -/
  get_eq_ok : ∀ name d, r.get name = .ok d ↔ ds.find? (fun d => d.name == name) = some d
  get_unknown : ∀ name, name ∉ r.names → r.get name = .error (.unknownDialect name r.names)
  /-- No operation hides an extension, -/
  callable : ∀ d ∈ ds, ∀ op : Operation, op.name ∉ d.extensions
  /-- not even one that another of its name has replaced. -/
  unhidden : ∀ d ∈ ds, ∀ list, d.extensions = Extensions.ofList list →
    ∀ e ∈ list, ∀ op : Operation, e.name ≠ op.name

theorem Holds.tells {r : Registry} {ds : List Dialect} (h : r.Holds ds) : r.Tells ds := by
  refine ⟨keys_pairwise_lt _, h.mem_names, ?_, ?_, h.callable, ?_⟩
  · intro name d
    rw [get, h.lookup]
    cases ds.find? (fun d => d.name == name) <;> simp
  · intro name hname
    have hnone : r.dialects[name]? = none := by
      rw [names, Std.TreeMap.mem_keys] at hname
      simpa using hname
    rw [get, hnone]
  · intro d hd list hlist e he op hop
    refine h.callable d hd op ?_
    rw [hlist, Extensions.mem_ofList]
    exact ⟨e, he, hop⟩

/-- A registry that began empty tells the dialects that it took, answers the next
offer by them, and never gives another dialect for a name. -/
theorem registry_follows_offers (ds : List Dialect) :
    (({} : Registry).offerAll ds).Tells (({} : Registry).taken ds) ∧
    (∀ d, (({} : Registry).offerAll ds).Answers d) ∧
    ∀ more name d, (({} : Registry).offerAll ds).get name = .ok d →
      (({} : Registry).offerAll (ds ++ more)).get name = .ok d := by
  have htells (ds : List Dialect) :
      (({} : Registry).offerAll ds).Tells (({} : Registry).taken ds) :=
    (holds_empty.offerAll ds).tells
  refine ⟨htells ds, answers _, ?_⟩
  intro more name d hget
  rw [(htells ds).get_eq_ok] at hget
  rw [(htells (ds ++ more)).get_eq_ok, taken_append, List.find?_append, hget]
  rfl

end Registry

end QueryMachine
