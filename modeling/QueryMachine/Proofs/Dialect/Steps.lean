import QueryMachine.Dialect.MySql.Steps
import QueryMachine.Proofs.Token.Numerals
import Mathlib.Data.List.Sublists
import Mathlib.Data.List.Sort

/-!
# The steps table has every step once

The table of a budget is written by one function, the offsets of its factors and the number
of its rows come from two others, and the three have to mean the same numbers. What the
offsets mean is told by their sub-collections: one more offset is larger than all sums
without it, so the sums with it come behind those and repeat none
(`map_sum_sublists_offsets`).

What the text means is told by reading it. A server sees words; `readTable` takes them for a
join of tables with their rows written out, and `Table.column` is the column of the sums over
all choices of a row from each. To choose from tables with the rows `0` and `2^i` is to choose
a sub-collection of the offsets, so the text has nothing to add to the arithmetic
(`map_total_choices`).
-/

namespace QueryMachine.MySql.Steps

/-! ## Words -/

/-- A character that is a word by itself. -/
def isMark (c : Char) : Bool := c == '(' || c == ')' || c == '+' || c == '.'

/-- A character at which a word ends. -/
def isBreak (c : Char) : Bool := c == ' ' || isMark c

/-- What a break adds to the words. -/
def ownWord (c : Char) : List String := if isMark c then [String.singleton c] else []

/-- A word that has come to its end; its characters are reversed. -/
def finished (word : List Char) : List String :=
  if word.isEmpty then [] else [String.ofList word.reverse]

/-- The words of a text that goes on with a word already begun. -/
def wordsFrom (word : List Char) : List Char → List String
  | [] => finished word
  | c :: cs =>
    if isBreak c then finished word ++ (ownWord c ++ wordsFrom [] cs) else wordsFrom (c :: word) cs

/-- The words of a query. -/
def words (text : String) : List String := wordsFrom [] text.toList

/-! ## Reading a table -/

/-- A table of numbers with a name. -/
structure Factor where
  name : String
  rows : List Nat
  deriving DecidableEq, Repr

/-- A table with a column `v`: with its rows written out, or with the sum of the columns of
some factors as its column, over the cross join of the factors and in the order of `v`. -/
inductive Table where
  | rows (values : List Nat)
  | joined (terms : List String) (factors : List Factor)
  deriving DecidableEq, Repr

/-- The number that a word of digits denotes. -/
def readNumber (word : String) : Option Nat :=
  if word.toList ≠ [] ∧ ∀ c ∈ word.toList, c.isDigit = true then some (Lexer.decimal word.toList)
  else none

/-- Reads rows that are written out; gives the words behind them too. -/
def readRows : List String → Option (List Nat × List String)
  | "SELECT" :: number :: "v" :: "UNION" :: "ALL" :: ws => do
    let value ← readNumber number
    let (values, rest) ← readRows ws
    some (value :: values, rest)
  | "SELECT" :: number :: "v" :: rest => do
    let value ← readNumber number
    some ([value], rest)
  | _ => none

/-- Reads a sum of columns; gives the names of their tables and the words behind it. -/
def readSum : List String → Option (List String × List String)
  | name :: "." :: "v" :: "+" :: ws => do
    let (names, rest) ← readSum ws
    some (name :: names, rest)
  | name :: "." :: "v" :: rest => some ([name], rest)
  | _ => none

theorem length_of_readRows {ws rest : List String} {values : List Nat}
    (h : readRows ws = some (values, rest)) : rest.length < ws.length := by
  fun_induction readRows ws generalizing values with
  | case1 number ws ih =>
    simp only [Option.bind_eq_bind, Option.bind_eq_some_iff] at h
    obtain ⟨value, -, ⟨values', rest'⟩, hread, heq⟩ := h
    cases heq
    have hlt : rest'.length < ws.length := ih hread
    simp only [List.length_cons]
    omega
  | case2 number ws =>
    simp only [Option.bind_eq_bind, Option.bind_eq_some_iff] at h
    obtain ⟨value, -, heq⟩ := h
    cases heq
    simp only [List.length_cons]
    omega
  | case3 => cases h

/-- Reads factors and the words behind them. -/
def readFactors (ws : List String) : Option (List Factor × List String) :=
  match ws with
  | "(" :: ws =>
    match _h : readRows ws with
    | some (rows, ")" :: name :: "CROSS" :: "JOIN" :: ws) => do
      let (factors, rest) ← readFactors ws
      some (⟨name, rows⟩ :: factors, rest)
    | some (rows, ")" :: name :: rest) => some ([⟨name, rows⟩], rest)
    | _ => none
  | _ => none
termination_by ws.length
decreasing_by
  have := length_of_readRows _h
  simp only [List.length_cons] at this ⊢
  omega

/-- Reads a table with a sum as its column, from behind the parenthesis of the sum. -/
def readJoined (ws : List String) : Option Table := do
  let (terms, rest) ← readSum ws
  match rest with
  | ")" :: "v" :: "FROM" :: ws =>
    let (factors, rest) ← readFactors ws
    if rest = ["ORDER", "BY", "v", ")", "s"] then some (.joined terms factors) else none
  | _ => none

/-- Reads a table that is called `s`. -/
def readTable (text : String) : Option Table :=
  match words text with
  | "(" :: "SELECT" :: "(" :: ws => readJoined ws
  | "(" :: ws => do
    let (values, rest) ← readRows ws
    if rest = [")", "s"] then some (.rows values) else none
  | _ => none

/-! ## The rows of a table -/

/-- The rows of a cross join: every choice of a row from each factor. -/
def choices : List Factor → List (List (String × Nat))
  | [] => [[]]
  | f :: fs => f.rows.flatMap fun value => (choices fs).map ((f.name, value) :: ·)

/-- The sum over the named factors in a row of their join, if there are factors of all names. -/
def sumIn (choice : List (String × Nat)) (terms : List String) : Option Nat :=
  (terms.mapM fun name => choice.lookup name).map List.sum

/-- The values in the column `v`, from the first row to the last. -/
def Table.column : Table → Option (List Nat)
  | rows values => some values
  | joined terms factors =>
    ((choices factors).mapM fun choice => sumIn choice terms).map fun values => values.mergeSort

/-! ## The words of the text -/

/-- A break ends the word before it, and behind it the words start afresh. -/
theorem wordsFrom_append_break {c : Char} (hc : isBreak c = true) (word as bs : List Char) :
    wordsFrom word (as ++ c :: bs) = wordsFrom word as ++ (ownWord c ++ wordsFrom [] bs) := by
  induction as generalizing word with
  | nil => simp only [List.nil_append, wordsFrom, if_pos hc]
  | cons a as ih =>
    rw [List.cons_append, wordsFrom, wordsFrom]
    split
    · simp only [ih, List.append_assoc]
    · exact ih (a :: word)

theorem head?_append_of_any {cs : List Char} (h : cs.head?.any isBreak = true) (ds : List Char) :
    (cs ++ ds).head? = cs.head? := by
  cases cs with
  | nil => cases h
  | cons c cs => rfl

theorem words_append_of_first {t : String} (h : t.toList.head?.any isBreak = true) (s : String) :
    words (s ++ t) = words s ++ words t := by
  obtain ⟨c, hc, hbreak⟩ := (Option.any_eq_true _ _).mp h
  obtain ⟨bs, hbs⟩ := List.head?_eq_some_iff.mp hc
  rw [words, String.toList_append, hbs, wordsFrom_append_break hbreak, words, words, hbs,
    ← List.nil_append (c :: bs), wordsFrom_append_break hbreak]
  rfl

theorem words_append_of_last {s : String} (h : s.toList.getLast?.any isBreak = true)
    (t : String) : words (s ++ t) = words s ++ words t := by
  obtain ⟨c, hc, hbreak⟩ := (Option.any_eq_true _ _).mp h
  obtain ⟨as, has⟩ := List.getLast?_eq_some_iff.mp hc
  rw [words, String.toList_append, has, List.append_assoc, List.singleton_append,
    wordsFrom_append_break hbreak, words, words, has, wordsFrom_append_break hbreak,
    List.append_assoc, List.append_assoc]
  rfl

/-- A text without breaks is a word. -/
theorem words_eq_singleton {s : String} (hne : s ≠ "")
    (hs : ∀ c ∈ s.toList, isBreak c = false) : words s = [s] := by
  have hword : ∀ (cs word : List Char), (∀ c ∈ cs, isBreak c = false) →
      wordsFrom word cs = finished (cs.reverse ++ word) := by
    intro cs
    induction cs with
    | nil => intro word _; rfl
    | cons c cs ih =>
      intro word hcs
      rw [List.forall_mem_cons] at hcs
      rw [wordsFrom, if_neg (by simp [hcs.1]), ih _ hcs.2]
      simp
  rw [words, hword _ _ hs, finished, if_neg]
  · simp
  · simpa using hne

/-- Two texts with fixed texts around them. -/
theorem words_frame {head middle : String} (hhead : head.toList.getLast?.any isBreak = true)
    (hfirst : middle.toList.head?.any isBreak = true)
    (hlast : middle.toList.getLast?.any isBreak = true) (s t : String) :
    words (head ++ s ++ middle ++ t)
      = words head ++ (words s ++ (words middle ++ words t)) := by
  have hbetween : (middle ++ t).toList.head?.any isBreak = true := by
    rw [String.toList_append, head?_append_of_any hfirst]
    exact hfirst
  rw [String.append_assoc, words_append_of_first hbetween, words_append_of_last hhead,
    words_append_of_last hlast, List.append_assoc]

/-- Texts in a row, with a fixed text between any two of them. -/
theorem words_intercalate {sep : String} (hfirst : sep.toList.head?.any isBreak = true)
    (hlast : sep.toList.getLast?.any isBreak = true) (text : String) (texts : List String) :
    words (sep.intercalate (text :: texts))
      = words text ++ texts.flatMap fun text => words sep ++ words text := by
  induction texts generalizing text with
  | nil => simp
  | cons next texts ih =>
    have hjoined : (sep ++ sep.intercalate (next :: texts)).toList.head?.any isBreak = true := by
      rw [String.toList_append, head?_append_of_any hfirst]
      exact hfirst
    rw [String.intercalate_cons_cons, String.append_assoc, words_append_of_first hjoined,
      words_append_of_last hlast, ih, List.flatMap_cons, List.append_assoc]

theorem isNumeral_toString (n : Nat) : Lexer.IsNumeral n (toString n).toList :=
  Lexer.isNumeral_iff.mpr Nat.toList_repr

theorem isBreak_of_isDigit {c : Char} (h : c.isDigit = true) : isBreak c = false := by
  simp only [isBreak, isMark, Bool.or_eq_false_iff, beq_eq_false_iff_ne, ne_eq]
  refine ⟨?_, ⟨⟨?_, ?_⟩, ?_⟩, ?_⟩ <;> rintro rfl <;> cases h

theorem words_toString (n : Nat) : words (toString n) = [toString n] := by
  have hn := isNumeral_toString n
  refine words_eq_singleton ?_ fun c hc => isBreak_of_isDigit (hn.all_digits c hc)
  intro heq
  exact hn.nonempty (by rw [heq]; rfl)

theorem words_factorName (i : Nat) : words (factorName i) = [factorName i] := by
  refine words_eq_singleton (by simp [factorName]) fun c hc => ?_
  rw [factorName, String.toList_append, List.mem_append] at hc
  rcases hc with hc | hc
  · obtain rfl : c = 'E' := by simpa using hc
    rfl
  · exact isBreak_of_isDigit ((isNumeral_toString i).all_digits c hc)

theorem words_factor (i offset : Nat) :
    words (factor i offset)
      = ["(", "SELECT", "0", "v", "UNION", "ALL", "SELECT", toString offset, "v", ")",
         factorName i] := by
  have hhead : words "(SELECT 0 v UNION ALL SELECT "
      = ["(", "SELECT", "0", "v", "UNION", "ALL", "SELECT"] := by cbv
  have hmiddle : words " v) " = ["v", ")"] := by cbv
  unfold factor
  refine (words_frame (by decide +kernel) (by decide +kernel) (by decide +kernel) _ _).trans ?_
  simp only [hhead, hmiddle, words_toString, words_factorName, List.cons_append, List.nil_append]

theorem words_term (i : Nat) : words (factorName i ++ ".v") = [factorName i, ".", "v"] := by
  have hcolumn : words ".v" = [".", "v"] := by cbv
  rw [words_append_of_first (by decide +kernel), words_factorName, hcolumn, List.singleton_append]

theorem words_table {bits : Nat} (h : bits ≠ 0) :
    words (table bits) = "(" :: "SELECT" :: "(" :: (words (sum bits) ++ (")" :: "v" :: "FROM" ::
      (words (factors bits) ++ ["ORDER", "BY", "v", ")", "s"]))) := by
  have hhead : words "(SELECT (" = ["(", "SELECT", "("] := by cbv
  have hmiddle : words ") v FROM " = [")", "v", "FROM"] := by cbv
  have hfoot : words " ORDER BY v) s" = ["ORDER", "BY", "v", ")", "s"] := by cbv
  rw [table, if_neg h, words_append_of_first (by decide +kernel),
    words_frame (by decide +kernel) (by decide +kernel) (by decide +kernel)]
  simp only [hhead, hmiddle, hfoot, List.cons_append, List.nil_append, List.append_assoc]

/-! ## What the text is read as -/

/-- The factor table of a binary digit. -/
def digit (i : Nat) : Factor := ⟨factorName i, [0, count i]⟩

theorem readNumber_toString (n : Nat) : readNumber (toString n) = some n := by
  have hn := isNumeral_toString n
  rw [readNumber, if_pos ⟨hn.nonempty, hn.all_digits⟩, hn.value]

theorem readRows_last {number : String} {value : Nat} (h : readNumber number = some value)
    {rest : List String} (hrest : rest.head? ≠ some "UNION") :
    readRows ("SELECT" :: number :: "v" :: rest) = some ([value], rest) := by
  rw [readRows, h]
  · rfl
  · rintro ws rfl
    exact hrest rfl

theorem readRows_digit (i : Nat) (rest : List String) :
    readRows ("SELECT" :: "0" :: "v" :: "UNION" :: "ALL" :: "SELECT" :: toString (count i) ::
      "v" :: ")" :: factorName i :: rest) = some ([0, count i], ")" :: factorName i :: rest) := by
  have hzero : readNumber "0" = some 0 := readNumber_toString 0
  rw [readRows, hzero, readRows_last (readNumber_toString (count i)) (by simp)]
  rfl

/-- Whether a factor is the last one is told by the words behind it. -/
theorem readFactors_digit (i : Nat) (rest : List String) :
    readFactors (words (factor i (count i)) ++ rest)
      = match rest with
        | "CROSS" :: "JOIN" :: ws => (readFactors ws).map fun (fs, rest) => (digit i :: fs, rest)
        | rest => some ([digit i], rest) := by
  rw [words_factor]
  simp only [List.cons_append, List.nil_append]
  rw [readFactors]
  split
  · next rows name ws hrows =>
    rw [readRows_digit] at hrows
    cases hrows
    change _ = (readFactors ws).map _
    cases readFactors ws <;> rfl
  · next rows name rest' hne hrows =>
    rw [readRows_digit] at hrows
    cases hrows
    split
    · next ws => exact absurd rfl (hne ws)
    · rfl
  · next hne => exact absurd (readRows_digit i rest) (hne _ _ _)

theorem readFactors_factors (i : Nat) (is : List Nat) {rest : List String}
    (hrest : rest.head? ≠ some "CROSS") :
    readFactors (words (" CROSS JOIN ".intercalate ((i :: is).map fun i => factor i (count i))) ++
      rest) = some ((i :: is).map digit, rest) := by
  have hcross : words " CROSS JOIN " = ["CROSS", "JOIN"] := by cbv
  rw [List.map_cons, words_intercalate (by decide +kernel) (by decide +kernel), hcross]
  simp only [List.cons_append, List.nil_append, List.append_assoc]
  induction is generalizing i with
  | nil =>
    rw [List.map_nil, List.flatMap_nil, List.nil_append, readFactors_digit]
    split
    · exact absurd rfl hrest
    · rfl
  | cons j is ih =>
    rw [readFactors_digit]
    simp only [List.map_cons, List.flatMap_cons, List.cons_append, List.append_assoc]
    rw [ih j]
    rfl

theorem readSum_terms (i : Nat) (is : List Nat) {rest : List String}
    (hrest : rest.head? ≠ some "+") :
    readSum (words ("+".intercalate ((i :: is).map fun i => factorName i ++ ".v")) ++ rest)
      = some ((i :: is).map factorName, rest) := by
  have hplus : words "+" = ["+"] := by cbv
  rw [List.map_cons, words_intercalate (by decide +kernel) (by decide +kernel), hplus]
  simp only [List.cons_append, List.nil_append, List.append_assoc]
  induction is generalizing i with
  | nil =>
    simp only [List.map_nil, List.flatMap_nil, words_term, List.cons_append, List.nil_append]
    rw [readSum]
    · rfl
    · rintro ws rfl
      exact hrest rfl
  | cons j is ih =>
    rw [words_term, List.map_cons, List.flatMap_cons]
    simp only [List.cons_append, List.nil_append, List.append_assoc]
    rw [readSum, ih j]
    rfl

theorem factors_eq (bits : Nat) :
    factors bits
      = " CROSS JOIN ".intercalate ((List.range bits).map fun i => factor i (count i)) := by
  rw [factors, offsets, List.zipWith_map_right, List.zipWith_self]

theorem readTable_of_pos {bits : Nat} (h : 0 < bits) :
    readTable (table bits)
      = some (.joined ((List.range bits).map factorName) ((List.range bits).map digit)) := by
  obtain ⟨i, is, hrange⟩ : ∃ i is, List.range bits = i :: is :=
    List.exists_cons_of_ne_nil (by simpa using h.ne')
  rw [readTable, words_table h.ne']
  simp only [readJoined]
  rw [sum, factors_eq, hrange, readSum_terms i is (by simp)]
  simp only [Option.bind_eq_bind, Option.bind_some]
  rw [readFactors_factors i is (by simp)]
  simp

theorem readTable_zero : readTable (table 0) = some (.rows [0]) := by
  have hwords : words (table 0) = ["(", "SELECT", "0", "v", ")", "s"] := by cbv
  have hread : readRows ["SELECT", "0", "v", ")", "s"] = some ([0], [")", "s"]) :=
    readRows_last (readNumber_toString 0) (by simp)
  rw [readTable, hwords]
  split
  · next ws heq => simp at heq
  · next ws hne heq =>
    cases heq
    rw [hread]
    rfl
  · next hne => exact absurd rfl (hne _)

/-! ## The sums of the offsets -/

theorem count_eq_two_pow (bits : Nat) : count bits = 2 ^ bits := by
  induction bits with
  | zero => rfl
  | succ bits ih => rw [count, ih, Nat.pow_succ, Nat.mul_comm]

theorem offsets_succ (bits : Nat) : offsets (bits + 1) = offsets bits ++ [count bits] := by
  rw [offsets, List.range_succ, List.map_append]
  rfl

theorem map_sum_sublists_offsets (bits : Nat) :
    (offsets bits).sublists.map List.sum = List.range (count bits) := by
  induction bits with
  | zero => rfl
  | succ bits ih =>
    -- The sums with the last offset are those without it, moved behind them.
    have hsum : List.sum ∘ (fun part => part ++ [count bits]) = (count bits + ·) ∘ List.sum := by
      funext part
      simp [Nat.add_comm]
    rw [offsets_succ, List.sublists_concat, List.map_append, ih, List.map_map, hsum,
      ← List.map_map, ih, ← List.range_add, count, Nat.two_mul]

theorem sum_lt_of_sublist {bits : Nat} {part : List Nat} (h : part.Sublist (offsets bits)) :
    part.sum < count bits := by
  rw [← List.mem_range, ← map_sum_sublists_offsets]
  exact List.mem_map_of_mem (List.mem_sublists.mpr h)

theorem exists_sublist_of_lt {bits n : Nat} (h : n < count bits) :
    ∃ part : List Nat, part.Sublist (offsets bits) ∧ part.sum = n := by
  rw [← List.mem_range, ← map_sum_sublists_offsets, List.mem_map] at h
  obtain ⟨part, hpart, hsum⟩ := h
  exact ⟨part, List.mem_sublists.mp hpart, hsum⟩

theorem eq_of_sum_eq {bits : Nat} {part part' : List Nat} (h : part.Sublist (offsets bits))
    (h' : part'.Sublist (offsets bits)) (hsum : part.sum = part'.sum) : part = part' := by
  have hnodup : ((offsets bits).sublists.map List.sum).Nodup := by
    rw [map_sum_sublists_offsets]
    exact List.nodup_range
  exact List.inj_on_of_nodup_map hnodup (List.mem_sublists.mpr h) (List.mem_sublists.mpr h') hsum

/-- A shift by less than 64 places loses nothing. -/
theorem toNat_shiftLeft_one {i : Nat} (h : i < 64) :
    ((1 : UInt64) <<< UInt64.ofNat i).toNat = count i := by
  have hi : (UInt64.ofNat i).toNat = i := UInt64.toNat_ofNat_of_lt (h.trans (by decide))
  have hlt : 2 ^ i < 2 ^ 64 := Nat.pow_lt_pow_right (by decide) h
  rw [UInt64.toNat_shiftLeft, hi, Nat.mod_eq_of_lt h, UInt64.toNat_one, Nat.shiftLeft_eq,
    Nat.one_mul, Nat.mod_eq_of_lt hlt, count_eq_two_pow]

/-! ## The sums of the table -/

theorem factorName_injective : Function.Injective factorName :=
  fun _ _ h => Nat.repr_injective ((String.append_right_inj "E").mp h)

theorem lookup_of_mem {choice : List (String × Nat)} (h : (choice.map Prod.fst).Nodup)
    {name : String} {value : Nat} (hmem : (name, value) ∈ choice) :
    choice.lookup name = some value := by
  induction choice with
  | nil => cases hmem
  | cons pair choice ih =>
    obtain ⟨first, v⟩ := pair
    rw [List.map_cons, List.nodup_cons] at h
    rcases List.mem_cons.mp hmem with heq | hlater
    · cases heq
      exact List.lookup_cons_self
    · have hne : (name == first) = false := by
        rw [beq_eq_false_iff_ne]
        rintro rfl
        exact h.1 (List.mem_map.mpr ⟨(name, value), hlater, rfl⟩)
      rw [List.lookup_cons, hne]
      exact ih h.2 hlater

theorem mapM_eq_some_map {α β : Type} {f : α → Option β} {g : α → β} {l : List α}
    (h : ∀ a ∈ l, f a = some (g a)) : l.mapM f = some (l.map g) := by
  induction l with
  | nil => rfl
  | cons a l ih =>
    rw [List.forall_mem_cons] at h
    rw [List.mapM_cons, h.1, ih h.2]
    rfl

/-- The sum of all that was chosen. -/
def total (choice : List (String × Nat)) : Nat := (choice.map Prod.snd).sum

/-- A sum that mentions every factor once adds up all that was chosen. -/
theorem sumIn_names {choice : List (String × Nat)} (h : (choice.map Prod.fst).Nodup) :
    sumIn choice (choice.map Prod.fst) = some (total choice) := by
  have hvalues : choice.mapM ((fun name => choice.lookup name) ∘ Prod.fst)
      = some (choice.map Prod.snd) := mapM_eq_some_map fun pair hpair => lookup_of_mem h hpair
  rw [sumIn, List.mapM_map, hvalues]
  rfl

theorem names_of_mem_choices {fs : List Factor} {choice : List (String × Nat)}
    (h : choice ∈ choices fs) : choice.map Prod.fst = fs.map Factor.name := by
  induction fs generalizing choice with
  | nil =>
    rw [choices, List.mem_singleton] at h
    rw [h]
    rfl
  | cons f fs ih =>
    simp only [choices, List.mem_flatMap, List.mem_map] at h
    obtain ⟨value, -, rest, hrest, rfl⟩ := h
    rw [List.map_cons, List.map_cons, ih hrest]

/-- To choose from the factors is to choose a sub-collection of their offsets. -/
theorem map_total_choices (is : List Nat) :
    (choices (is.map digit)).map total = (is.map count).sublists'.map List.sum := by
  induction is with
  | nil => rfl
  | cons i is ih =>
    have htotal : ∀ value, ((choices (is.map digit)).map ((factorName i, value) :: ·)).map total
        = ((choices (is.map digit)).map total).map (value + ·) := by
      intro value
      rw [List.map_map, List.map_map]
      rfl
    have hsum : ∀ parts : List (List Nat), (parts.map (count i :: ·)).map List.sum
        = (parts.map List.sum).map (count i + ·) := by
      intro parts
      rw [List.map_map, List.map_map]
      rfl
    rw [List.map_cons, choices, List.map_flatMap, List.map_cons, List.sublists'_cons,
      List.map_append, hsum, ← ih]
    simp only [digit, List.flatMap_cons, List.flatMap_nil, List.append_nil, htotal]
    simp

theorem mergeSort_eq_range {values : List Nat} {n : Nat} (h : values.Perm (List.range n)) :
    values.mergeSort = List.range n :=
  ((List.mergeSort_perm _ _).trans h).eq_of_pairwise' (List.pairwise_mergeSort' (· ≤ ·) values)
    List.pairwise_le_range

theorem column_joined (bits : Nat) :
    (Table.joined ((List.range bits).map factorName) ((List.range bits).map digit)).column
      = some (List.range (count bits)) := by
  have hsum : ∀ choice ∈ choices ((List.range bits).map digit),
      sumIn choice ((List.range bits).map factorName) = some (total choice) := by
    intro choice hchoice
    have hnames : choice.map Prod.fst = (List.range bits).map factorName := by
      rw [names_of_mem_choices hchoice, List.map_map]
      rfl
    rw [← hnames]
    refine sumIn_names ?_
    rw [hnames]
    exact List.nodup_range.map factorName_injective
  have hperm : ((choices ((List.range bits).map digit)).map total).Perm
      (List.range (count bits)) := by
    rw [map_total_choices, ← map_sum_sublists_offsets]
    exact ((offsets bits).sublists_perm_sublists'.map List.sum).symm
  rw [Table.column, mapM_eq_some_map hsum, Option.map_some, mergeSort_eq_range hperm]

/-! ## The table and the numbers -/

/-- The offsets, the number of steps and the text of the table of a budget mean the same
numbers. -/
structure Enumerates (bits : Nat) : Prop where
  /-- Offsets and number of steps are what shifts of words of 64 bits give. -/
  offsets_words : offsets bits
    = (List.range bits).map fun i => ((1 : UInt64) <<< UInt64.ofNat i).toNat
  count_word : count bits = ((1 : UInt64) <<< UInt64.ofNat bits).toNat
  /-- The sums of the sub-collections of the offsets are the numbers below `2 ^ bits`. -/
  sums : ∀ n, (∃ part : List Nat, part.Sublist (offsets bits) ∧ part.sum = n) ↔ n < 2 ^ bits
  /-- No two sub-collections have the same sum, whether or not they hold the same numbers. -/
  once : ((offsets bits).sublists.map List.sum).Nodup
  unique : ∀ n < 2 ^ bits, ∃! part : List Nat, part.Sublist (offsets bits) ∧ part.sum = n
  number : (offsets bits).sublists.length = count bits
  /-- No sum leaves the words of 64 bits. -/
  fits : ∀ part : List Nat, part.Sublist (offsets bits) → part.sum < 2 ^ 64
  /-- The text can be read, and its column holds the same numbers once each. -/
  column : (readTable (table bits)).bind Table.column = some (List.range (2 ^ bits))
  /-- The factors are those of the binary digits, and the sum mentions each of them once. -/
  joined : 1 ≤ bits → ∃ terms factors, readTable (table bits) = some (.joined terms factors) ∧
    factors = (List.range bits).map (fun i => ⟨"E" ++ toString i, [0, 2 ^ i]⟩) ∧
    ∀ f ∈ factors, terms.count f.name = 1
  single : bits = 0 → readTable (table bits) = some (.rows [0])

/-- A budget of fewer than 64 bits is enumerated by the sums of its offsets, by its number of
steps, and by the column of its table when the text of the table is read back. -/
theorem steps_enumerated {bits : Nat} (h : bits < 64) : Enumerates bits where
  offsets_words := by
    refine List.map_congr_left fun i hi => ?_
    exact (toNat_shiftLeft_one ((List.mem_range.mp hi).trans h)).symm
  count_word := (toNat_shiftLeft_one h).symm
  sums := by
    intro n
    rw [← count_eq_two_pow]
    refine ⟨?_, exists_sublist_of_lt⟩
    rintro ⟨part, hpart, rfl⟩
    exact sum_lt_of_sublist hpart
  once := by
    rw [map_sum_sublists_offsets]
    exact List.nodup_range
  unique := by
    intro n hn
    rw [← count_eq_two_pow] at hn
    obtain ⟨part, hpart, hsum⟩ := exists_sublist_of_lt hn
    refine ⟨part, ⟨hpart, hsum⟩, ?_⟩
    rintro part' ⟨hpart', hsum'⟩
    exact eq_of_sum_eq hpart' hpart (hsum'.trans hsum.symm)
  number := by
    have hlength := congrArg List.length (map_sum_sublists_offsets bits)
    rwa [List.length_map, List.length_range] at hlength
  fits := by
    intro part hpart
    calc part.sum < count bits := sum_lt_of_sublist hpart
      _ = 2 ^ bits := count_eq_two_pow bits
      _ < 2 ^ 64 := Nat.pow_lt_pow_right (by decide) h
  column := by
    rw [← count_eq_two_pow]
    rcases Nat.eq_zero_or_pos bits with rfl | hpos
    · rw [readTable_zero]
      rfl
    · rw [readTable_of_pos hpos]
      exact column_joined bits
  joined := by
    intro hpos
    refine ⟨_, _, readTable_of_pos hpos, ?_, ?_⟩
    · refine List.map_congr_left fun i _ => ?_
      rw [digit, count_eq_two_pow]
      rfl
    · intro f hf
      obtain ⟨i, hi, rfl⟩ := List.mem_map.mp hf
      exact List.count_eq_one_of_mem (List.nodup_range.map factorName_injective)
        (List.mem_map_of_mem hi)
  single := by
    rintro rfl
    exact readTable_zero

/-- Two bits: the offsets 1 and 2, and a table of two factors. -/
theorem steps_enumerated_two : 2 < 64 ∧ offsets 2 = [1, 2] ∧
    table 2 = "(SELECT (E0.v+E1.v) v FROM (SELECT 0 v UNION ALL SELECT 1 v) E0" ++
      " CROSS JOIN (SELECT 0 v UNION ALL SELECT 2 v) E1 ORDER BY v) s" ∧ Enumerates 2 :=
  ⟨by decide, by decide, by decide +kernel, steps_enumerated (by decide)⟩

end QueryMachine.MySql.Steps
