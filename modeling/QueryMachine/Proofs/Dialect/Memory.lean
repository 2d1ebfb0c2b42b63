import QueryMachine.Dialect.MySql
import QueryMachine.Proofs.Token.Numerals

/-!
# Generated memory code behaves like an array

The memory of a program is one text, and what is done to it is written in other texts.
A server takes both apart again: the code to see what is to be done, the memory to find
the cell that it is to be done to. `Emulator` is a reading of the three kinds of code that
does just this and nothing cleverer. An array (`Bank`) is what the memory is meant to be.

Everything rests on where texts are cut. In code the cuts are made at patterns with a
quote in them, and neither a number nor a name has one; in the memory they are made at
`</m>`, which begins with a character that it has nowhere else and so cannot overlap
itself. One step then does to the memory what it does to the array (`exec_of_step`),
whether its address is a number or a variable that holds one, and so does any number of
steps. What a cell holds is told by the array: the last text written to it.
-/

namespace QueryMachine.MySql.Memory

open Lexer (decimal)

/-! ## Cutting texts at patterns -/

/-- The parts of a text before and after the first place where a pattern stands. -/
def splitOnce (pattern text : List Char) : Option (List Char × List Char) :=
  match Text.breakAt pattern.isPrefixOf text with
  | (_, []) => none
  | (before, rest) => some (before, rest.drop pattern.length)

theorem length_of_splitOnce {c : Char} {pattern text before after : List Char}
    (h : splitOnce (c :: pattern) text = some (before, after)) : after.length < text.length := by
  have hle := Text.length_breakAt_snd_le (c :: pattern).isPrefixOf text
  unfold splitOnce at h
  split at h
  · cases h
  · next rest hne hcut =>
    cases h
    rw [hcut] at hle
    have hpos : 0 < rest.length := List.length_pos_iff.mpr hne
    simp only [List.length_drop, List.length_cons] at hle ⊢
    omega

/-- The parts of a text between the places where a pattern stands. -/
def pieces (c : Char) (pattern text : List Char) : List (List Char) :=
  match _h : splitOnce (c :: pattern) text with
  | none => [text]
  | some (before, after) => before :: pieces c pattern after
termination_by text.length
decreasing_by exact length_of_splitOnce _h

theorem pieces_of_splitOnce {c : Char} {pattern text before after : List Char}
    (h : splitOnce (c :: pattern) text = some (before, after)) :
    pieces c pattern text = before :: pieces c pattern after := by
  rw [pieces]
  split <;> next h' => rw [h] at h'; cases h'; try rfl

/-- A text is cut at a pattern if the pattern stands nowhere before. -/
theorem splitOnce_append {pattern u : List Char} (rest : List Char) (hne : pattern ≠ [])
    (hfirst : ∀ suffix, suffix <:+ u → suffix ≠ [] → ¬ pattern <+: suffix ++ (pattern ++ rest)) :
    splitOnce pattern (u ++ (pattern ++ rest)) = some (u, rest) := by
  have hcut : Text.breakAt pattern.isPrefixOf (u ++ (pattern ++ rest)) = (u, pattern ++ rest) := by
    refine Lexer.breakAt_append_eq ?_ (.inr ?_)
    · intro suffix hsuffix hsne
      rw [← Bool.not_eq_true, List.isPrefixOf_iff_prefix]
      exact hfirst suffix hsuffix hsne
    · rw [List.isPrefixOf_iff_prefix]
      exact List.prefix_append pattern rest
  obtain ⟨c, pattern, rfl⟩ := List.exists_cons_of_ne_nil hne
  rw [splitOnce, hcut]
  simp

/-- A text is told by what stands before its first quote. -/
theorem eq_of_quote {as bs xs ys : List Char} (ha : '\'' ∉ as) (hb : '\'' ∉ bs)
    (h : as ++ '\'' :: xs = bs ++ '\'' :: ys) : as = bs := by
  have htake : ∀ cs zs : List Char, '\'' ∉ cs →
      (cs ++ '\'' :: zs).takeWhile (· != '\'') = cs := by
    intro cs zs hcs
    rw [List.takeWhile_append_of_pos, List.takeWhile_cons_of_neg (by simp), List.append_nil]
    intro c hc
    simp only [bne_iff_ne, ne_eq]
    rintro rfl
    exact hcs hc
  rw [← htake as xs ha, h, htake bs ys hb]

/-- Texts that differ before their first quotes do not begin alike. -/
theorem isPrefixOf?_eq_none {as bs xs ys : List Char} (ha : '\'' ∉ as) (hb : '\'' ∉ bs)
    (hne : as ≠ bs) : (as ++ '\'' :: xs).isPrefixOf? (bs ++ '\'' :: ys) = none := by
  rw [Option.eq_none_iff_forall_ne_some]
  intro rest hrest
  have happend := List.append_eq_of_isPrefixOf?_eq_some hrest
  rw [List.append_assoc, List.cons_append] at happend
  exact hne (eq_of_quote ha hb happend)

/-- A pattern with a quote in it stands nowhere before a text without quotes ends. -/
theorem splitOnce_quoted {head tail u : List Char} (rest : List Char) (hhead : '\'' ∉ head)
    (hu : '\'' ∉ u) :
    splitOnce (head ++ '\'' :: tail) (u ++ (head ++ '\'' :: tail ++ rest)) = some (u, rest) := by
  refine splitOnce_append rest (by simp) ?_
  rintro suffix hsuffix hsne ⟨more, hmore⟩
  have hquote : '\'' ∉ suffix ++ head := by
    rw [List.mem_append, not_or]
    exact ⟨fun hmem => hu (hsuffix.subset hmem), hhead⟩
  have heq : head = suffix ++ head := by
    refine @eq_of_quote head (suffix ++ head) (tail ++ more) (tail ++ rest) hhead hquote ?_
    simpa using hmore
  exact hsne (List.append_left_eq_self.mp heq.symm)

/-- A pattern that has its first character nowhere else does not overlap itself. -/
theorem splitOnce_unbordered {c : Char} {pattern u : List Char} (rest : List Char)
    (hc : c ∉ pattern) (hu : ¬ (c :: pattern) <:+: u) :
    splitOnce (c :: pattern) (u ++ (c :: pattern ++ rest)) = some (u, rest) := by
  refine splitOnce_append rest (by simp) ?_
  rintro suffix hsuffix hsne ⟨more, hmore⟩
  rcases List.append_eq_append_iff.mp hmore with ⟨after, hafter, -⟩ | ⟨after, hpattern, hafter⟩
  · exact hu ((hafter ▸ List.prefix_append _ after).isInfix.trans hsuffix.isInfix)
  · cases after with
    | nil =>
      rw [List.append_nil] at hpattern
      exact hu (hpattern ▸ hsuffix.isInfix)
    | cons d after =>
      -- The pattern would begin once more inside of itself.
      obtain ⟨rfl, -⟩ := List.cons.inj hafter
      obtain ⟨e, suffix, rfl⟩ := List.exists_cons_of_ne_nil hsne
      refine hc ?_
      rw [(List.cons.inj hpattern).2]
      simp

/-! ## Reading memory code -/

/-- The text of a cell. -/
def cellText (content : String) : List Char :=
  ['<', 'm', '>'] ++ content.toList ++ ['<', '/', 'm', '>']

/-- The text of cells in a row. -/
def memoryText (cells : List String) : List Char := cells.flatMap cellText

/-- The number that a text denotes, if it is a word of 64 bits. -/
def readIndex (text : List Char) : Option Nat :=
  let digits := match text with
    | '+' :: digits => digits
    | _ => text
  if digits ≠ [] ∧ (∀ c ∈ digits, c.isDigit = true) ∧ decimal digits < 2 ^ 64 then
    some (decimal digits)
  else none

/-- A text without the quotes around it. -/
def unquoted (text : List Char) : List Char :=
  ((text.dropWhile (· == '\'')).reverse.dropWhile (· == '\'')).reverse

/-- A reversed text without the pairs of parentheses that it begins with. -/
def dropParens : List Char → List Char
  | ')' :: ')' :: cs => dropParens cs
  | cs => cs

/-- A server as far as memory goes: the text in `@mem`, and the variables. -/
structure Emulator where
  mem : String := ""
  vars : Std.TreeMap String String := ∅

namespace Emulator

/-- The contents of the cells. What does not begin like a cell is none. -/
def cells (e : Emulator) : List String :=
  (pieces '<' ['/', 'm', '>'] e.mem.toList).filterMap fun piece =>
    (['<', 'm', '>'].isPrefixOf? piece).map String.ofList

/-- The number that the address in a path denotes. -/
def index (e : Emulator) : List Char → Option Nat
  | '$' :: name => e.vars[String.ofList name]?.bind fun text => readIndex text.toList
  | address => readIndex address

/-- The code that appends cells, up to their number. -/
def allocHead : List Char := "@mem:=CONCAT(@mem,REPEAT('<m></m>',".toList

/-- The code that replaces a cell: up to the address, from there to the value, and the rest. -/
def storeHead : List Char := "@mem:=UpdateXML(@mem,'/m[".toList

@[inherit_doc storeHead]
def storeMiddle : List Char := "]',CONCAT('<m>',".toList

@[inherit_doc storeHead]
def storeFoot : List Char := ",'</m>'))".toList

/-- The code that reads a cell: from the variable to the address, and the rest. -/
def loadMiddle : List Char := ":=ExtractValue(@mem,'/m[".toList

@[inherit_doc loadMiddle]
def loadFoot : List Char := "]')".toList

/-! The quotes at which the code is told apart. -/

theorem allocHead_eq :
    allocHead = "@mem:=CONCAT(@mem,REPEAT(".toList ++ '\'' :: "<m></m>',".toList := by decide

theorem storeHead_eq : storeHead = "@mem:=UpdateXML(@mem,".toList ++ '\'' :: "/m[".toList := by
  decide

theorem storeMiddle_eq : storeMiddle = [']'] ++ '\'' :: ",CONCAT('<m>',".toList := by decide

theorem loadMiddle_eq : loadMiddle = ":=ExtractValue(@mem,".toList ++ '\'' :: "/m[".toList := by
  decide

/-- Appends cells, given the code behind the head. -/
def execAlloc (e : Emulator) (rest : List Char) : Option Emulator := do
  let count ← readIndex (dropParens rest.reverse).reverse
  some { e with mem := e.mem ++ String.ofList (List.replicate count "<m></m>".toList).flatten }

/-- Replaces a cell, given the code behind the head. -/
def execStore (e : Emulator) (rest : List Char) : Option Emulator := do
  let (address, rest) ← splitOnce storeMiddle rest
  let value ← storeFoot.isSuffixOf? rest
  let index ← e.index address
  let cells := e.cells
  let cells :=
    if 1 ≤ index ∧ index ≤ cells.length then
      cells.set (index - 1) (String.ofList (unquoted value))
    else cells
  some { e with mem := String.ofList (memoryText cells) }

/-- Reads a cell into a variable. No cell has the number that comes before 0. -/
def execLoad (e : Emulator) (expr : List Char) : Option Emulator := do
  let (target, rest) ← splitOnce loadMiddle expr
  let address ← loadFoot.isSuffixOf? rest
  let index ← e.index address
  let value := if index = 0 then "" else e.cells.getD (index - 1) ""
  some { e with vars := e.vars.insert (String.ofList target) value }

/-- Executes memory code; none if it is not understood. -/
def exec (e : Emulator) (expr : String) : Option Emulator :=
  match allocHead.isPrefixOf? expr.toList with
  | some rest => e.execAlloc rest
  | none =>
    match storeHead.isPrefixOf? expr.toList with
    | some rest => e.execStore rest
    | none => e.execLoad expr.toList

end Emulator

/-! ## Requests -/

/-- The address of a cell: a number, or a variable that holds one. -/
inductive Address where
  | direct (number : Nat)
  | indirect (name : String)
  deriving DecidableEq, Repr

def Address.value : Address → Value
  | direct number => .int number
  | indirect name => .str name

/-- What can be asked of a memory. A text is stored as a quoted literal. -/
inductive Request where
  | alloc (count : Nat)
  | store (content : String) (address : Address)
  | load (target : String) (address : Address)
  deriving DecidableEq, Repr

/-- The code that is generated for a request. -/
def Request.code : Request → Except DialectError String
  | alloc count => Memory.alloc (.int count)
  | store content address => Memory.store (.str ("'" ++ content ++ "'")) address.value
  | load target address => Memory.load (.str target) address.value

/-- The name of a variable: `@` and a text without quotes. -/
structure IsName (name : String) : Prop where
  sigil : name.toList.head? = some '@'
  noQuote : '\'' ∉ name.toList

/-- A text that can be stored. -/
structure IsContent (content : String) : Prop where
  noQuote : '\'' ∉ content.toList
  noClose : ¬ ['<', '/', 'm', '>'] <:+: content.toList

/-- A number in decimal. -/
structure IsDecimal (text : String) (number : Nat) : Prop where
  nonempty : text.toList ≠ []
  digits : ∀ c ∈ text.toList, c.isDigit = true
  value : decimal text.toList = number

/-- The number that an address denotes while the variables are these. Numbers are words of
64 bits. -/
inductive Names (vars : Std.TreeMap String String) : Address → Nat → Prop where
  | direct {number : Nat} : number < 2 ^ 64 → Names vars (.direct number) number
  | indirect {name text : String} {number : Nat} : IsName name → vars[name]? = some text →
      IsDecimal text number → number < 2 ^ 64 → Names vars (.indirect name) number

/-- An array whose cells are numbered from 1, and the variables. -/
structure Bank where
  cells : List String := []
  vars : Std.TreeMap String String := ∅

namespace Bank

/-- What a cell holds; nothing if there is no such cell. -/
def cell (b : Bank) (i : Nat) : String := if i = 0 then "" else b.cells.getD (i - 1) ""

/-- Replaces the content of a cell, if there is such a cell. -/
def write (b : Bank) (i : Nat) (content : String) : Bank :=
  if 1 ≤ i ∧ i ≤ b.cells.length then { b with cells := b.cells.set (i - 1) content } else b

theorem cells_write (b : Bank) (i : Nat) (content : String) :
    (b.write i content).cells
      = if 1 ≤ i ∧ i ≤ b.cells.length then b.cells.set (i - 1) content else b.cells := by
  unfold write
  split <;> rfl

theorem vars_write (b : Bank) (i : Nat) (content : String) :
    (b.write i content).vars = b.vars := by
  unfold write
  split <;> rfl

/-- Writing to a cell replaces this one and no other. -/
theorem cell_write (b : Bank) (i j : Nat) (content : String) :
    (b.write j content).cell i
      = if (1 ≤ j ∧ j ≤ b.cells.length) ∧ j = i then content else b.cell i := by
  by_cases hj : 1 ≤ j ∧ j ≤ b.cells.length
  · simp only [cell, cells_write, if_pos hj, List.getD_eq_getElem?_getD]
    by_cases hi : j = i
    · subst hi
      rw [if_neg (by omega), if_pos ⟨hj, rfl⟩, List.getElem?_set_self (by omega),
        Option.getD_some]
    · have hother : ¬ ((1 ≤ j ∧ j ≤ b.cells.length) ∧ j = i) := fun h => hi h.2
      rw [if_neg hother]
      split
      · rfl
      · rw [List.getElem?_set_ne (by omega)]
  · rw [if_neg (fun h => hj h.1), cell, cells_write, if_neg hj]
    rfl

/-- New cells are empty, as are those that do not exist. -/
theorem cell_append_replicate (b : Bank) (i count : Nat) :
    ({ b with cells := b.cells ++ List.replicate count "" } : Bank).cell i = b.cell i := by
  simp only [cell, List.getD_eq_getElem?_getD]
  split
  · rfl
  · by_cases hi : i - 1 < b.cells.length
    · rw [List.getElem?_append_left hi]
    · rw [List.getElem?_append_right (by omega), List.getElem?_eq_none (by omega : _ ≤ i - 1),
        List.getElem?_replicate]
      split <;> rfl

end Bank

/-- What a request does to an array, and what it writes to which cell. -/
inductive Step (b : Bank) : Request → Option (Nat × String) → Bank → Prop where
  | alloc {count : Nat} : count < 2 ^ 64 →
      Step b (.alloc count) none { b with cells := b.cells ++ List.replicate count "" }
  | store {content : String} {address : Address} {i : Nat} : IsContent content →
      Names b.vars address i → Step b (.store content address)
        (if 1 ≤ i ∧ i ≤ b.cells.length then some (i, content) else none) (b.write i content)
  | load {target : String} {address : Address} {i : Nat} : IsName target →
      Names b.vars address i →
      Step b (.load target address) none { b with vars := b.vars.insert target (b.cell i) }

/-- Requests one after the other. -/
inductive Runs : Bank → List Request → List (Nat × String) → Bank → Prop where
  | nil (b : Bank) : Runs b [] [] b
  | cons {b b' b'' : Bank} {request : Request} {requests : List Request}
      {write : Option (Nat × String)} {writes : List (Nat × String)} :
      Step b request write b' → Runs b' requests writes b'' →
      Runs b (request :: requests) (write.toList ++ writes) b''

/-! ## The memory is the array -/

/-- The text of a memory is that of an array, and the variables are the same. -/
structure Emulator.Shows (e : Emulator) (b : Bank) : Prop where
  mem : e.mem = String.ofList (memoryText b.cells)
  vars : e.vars = b.vars
  noClose : ∀ content ∈ b.cells, ¬ ['<', '/', 'm', '>'] <:+: content.toList

theorem pieces_memoryText {cells : List String}
    (h : ∀ content ∈ cells, ¬ ['<', '/', 'm', '>'] <:+: content.toList) :
    pieces '<' ['/', 'm', '>'] (memoryText cells)
      = cells.map (fun content => ['<', 'm', '>'] ++ content.toList) ++ [[]] := by
  induction cells with
  | nil =>
    rw [pieces]
    split <;> next h' => cases h'; try rfl
  | cons content cells ih =>
    rw [List.forall_mem_cons] at h
    have hcell : ¬ ['<', '/', 'm', '>'] <:+: ['<', 'm', '>'] ++ content.toList := by
      simpa [List.infix_cons_iff] using h.1
    have htext : memoryText (content :: cells)
        = ['<', 'm', '>'] ++ content.toList ++
            ('<' :: ['/', 'm', '>'] ++ memoryText cells) := by
      simp [memoryText, cellText]
    rw [htext, pieces_of_splitOnce (splitOnce_unbordered _ (by decide) hcell), ih h.2]
    rfl

theorem Emulator.Shows.cells {e : Emulator} {b : Bank} (h : e.Shows b) : e.cells = b.cells := by
  have hstrip : ∀ content : String, ['<', 'm', '>'].isPrefixOf? (['<', 'm', '>'] ++ content.toList)
      = some content.toList := by
    intro content
    exact List.isPrefixOf?_eq_some_iff_append_eq.mpr rfl
  rw [Emulator.cells, h.mem, String.toList_ofList, pieces_memoryText h.noClose,
    List.filterMap_append, List.filterMap_map]
  have hcells : b.cells.filterMap ((fun piece => (['<', 'm', '>'].isPrefixOf? piece).map
      String.ofList) ∘ fun content : String => ['<', 'm', '>'] ++ content.toList) = b.cells := by
    simp only [Function.comp_def, hstrip, Option.map_some, String.ofList_toList,
      List.filterMap_some]
  rw [hcells]
  exact List.append_nil _

/-! ### Numbers and addresses -/

theorem readIndex_of_digits {digits : List Char} (hne : digits ≠ [])
    (hdigits : ∀ c ∈ digits, c.isDigit = true) (hlt : decimal digits < 2 ^ 64) :
    readIndex digits = some (decimal digits) := by
  unfold readIndex
  split
  · exact absurd (hdigits '+' List.mem_cons_self) (by decide)
  · simp only [if_pos (And.intro hne (And.intro hdigits hlt))]

theorem IsDecimal.readIndex {text : String} {number : Nat} (h : IsDecimal text number)
    (hlt : number < 2 ^ 64) : readIndex text.toList = some number := by
  rw [readIndex_of_digits h.nonempty h.digits (by rw [h.value]; exact hlt), h.value]

theorem isDecimal_toString (n : Nat) : IsDecimal (toString (n : Int)) n := by
  have htext : (toString (n : Int)).toList = Nat.toDigits 10 n := by
    rw [Int.toString_eq_repr, Int.repr_eq_if, if_pos (Int.natCast_nonneg n), Nat.toList_repr]
    rfl
  have hnumeral : Lexer.IsNumeral n (Nat.toDigits 10 n) := Lexer.isNumeral_iff.mpr rfl
  rw [← htext] at hnumeral
  exact ⟨hnumeral.nonempty, hnumeral.all_digits, hnumeral.value⟩

theorem IsDecimal.notMem {text : String} {number : Nat} (h : IsDecimal text number) {c : Char}
    (hc : c.isDigit = false) : c ∉ text.toList := by
  intro hmem
  rw [h.digits c hmem] at hc
  cases hc

/-- The code of an address, which is read as the number that it denotes. -/
theorem exists_address {vars : Std.TreeMap String String} {address : Address} {i : Nat}
    (h : Names vars address i) (operation : String) :
    ∃ text, Memory.address operation address.value = .ok text ∧ '\'' ∉ text.toList ∧
      ∀ e : Emulator, e.vars = vars → e.index text.toList = some i := by
  cases h with
  | direct hlt =>
    have hdecimal := isDecimal_toString i
    refine ⟨toString (i : Int), rfl, hdecimal.notMem (by decide), fun e _ => ?_⟩
    unfold Emulator.index
    split
    · next name heq =>
      exact absurd (heq ▸ List.mem_cons_self) (hdecimal.notMem (by decide : '$'.isDigit = false))
    · exact hdecimal.readIndex hlt
  | @indirect name text _ hname hheld hdecimal hlt =>
    refine ⟨"$" ++ name, ?_, ?_, fun e hvars => ?_⟩
    · simp only [Address.value, Memory.address, hname.sigil, if_true]
    · simpa using hname.noQuote
    · have hlist : ("$" ++ name).toList = '$' :: name.toList := by simp
      rw [hlist, Emulator.index, String.ofList_toList, hvars, hheld]
      exact hdecimal.readIndex hlt

/-! ### Steps -/

theorem dropParens_digits {digits : List Char} (h : ')' ∉ digits) :
    (dropParens (digits ++ [')', ')']).reverse).reverse = digits := by
  have hreverse : (digits ++ [')', ')']).reverse = ')' :: ')' :: digits.reverse := by simp
  have hstop : dropParens digits.reverse = digits.reverse := by
    unfold dropParens
    split
    · next heq => exact absurd (List.mem_reverse.mp (heq ▸ List.mem_cons_self)) h
    · rfl
  rw [hreverse, dropParens, hstop, List.reverse_reverse]

theorem unquoted_quoted {content : List Char} (h : '\'' ∉ content) :
    unquoted ('\'' :: (content ++ ['\''])) = content := by
  have hdrop : ∀ cs : List Char, '\'' ∉ cs → cs.dropWhile (· == '\'') = cs := by
    intro cs hcs
    rw [List.dropWhile_eq_self_iff]
    intro hpos hquote
    exact hcs (beq_iff_eq.mp hquote ▸ List.getElem_mem hpos)
  have hfront : ('\'' :: (content ++ ['\''])).dropWhile (· == '\'') = content ++ ['\''] ∨
      content = [] := by
    cases content with
    | nil => exact .inr rfl
    | cons c cs =>
      left
      have hc : c ≠ '\'' := fun heq => h (heq ▸ List.mem_cons_self)
      rw [List.dropWhile_cons_of_pos (by simp), List.cons_append,
        List.dropWhile_cons_of_neg (by simpa using hc)]
  rcases hfront with hfront | rfl
  · have hback := hdrop content.reverse (fun hmem => h (List.mem_reverse.mp hmem))
    rw [unquoted, hfront, List.reverse_append, List.reverse_singleton, List.singleton_append,
      List.dropWhile_cons_of_pos (by simp), hback, List.reverse_reverse]
  · rfl

theorem memoryText_append (as bs : List String) :
    memoryText (as ++ bs) = memoryText as ++ memoryText bs :=
  List.flatMap_append

theorem memoryText_replicate (count : Nat) :
    memoryText (List.replicate count "") = (List.replicate count "<m></m>".toList).flatten := by
  rw [memoryText, List.flatMap, List.map_replicate]
  rfl

theorem exec_alloc {e : Emulator} {b : Bank} (h : e.Shows b) {count : Nat}
    (hlt : count < 2 ^ 64) :
    ∃ code e', Request.code (.alloc count) = .ok code ∧ e.exec code = some e' ∧
      e'.Shows { b with cells := b.cells ++ List.replicate count "" } := by
  have hdecimal := isDecimal_toString count
  refine ⟨"@mem:=CONCAT(@mem,REPEAT('<m></m>'," ++ toString (count : Int) ++ "))",
    { e with mem := e.mem ++ String.ofList (List.replicate count "<m></m>".toList).flatten },
    ?_, ?_, ?_⟩
  · have hnonneg : ¬ (count : Int) < 0 := by omega
    simp only [Request.code, Memory.alloc, if_neg hnonneg]
    rfl
  · have hhead : Emulator.allocHead.isPrefixOf?
        ("@mem:=CONCAT(@mem,REPEAT('<m></m>'," ++ toString (count : Int) ++ "))").toList
          = some ((toString (count : Int)).toList ++ [')', ')']) := by
      refine List.isPrefixOf?_eq_some_iff_append_eq.mpr ?_
      rw [String.toList_append, String.toList_append, List.append_assoc]
      rfl
    have hparens := dropParens_digits (hdecimal.notMem (by decide : ')'.isDigit = false))
    rw [Emulator.exec, hhead]
    simp only [Emulator.execAlloc, hparens, hdecimal.readIndex hlt]
    rfl
  · refine ⟨?_, h.vars, ?_⟩
    · rw [memoryText_append, memoryText_replicate, String.ofList_append, h.mem]
    · intro content hcontent
      rcases List.mem_append.mp hcontent with hcontent | hcontent
      · exact h.noClose content hcontent
      · rw [List.eq_of_mem_replicate hcontent]
        decide

/-- Code that replaces a cell is known by its head. -/
theorem exec_eq_execStore (e : Emulator) {expr : String} {rest : List Char}
    (h : expr.toList = Emulator.storeHead ++ rest) : e.exec expr = e.execStore rest := by
  have hnone : Emulator.allocHead.isPrefixOf? (Emulator.storeHead ++ rest) = none := by
    rw [Emulator.allocHead_eq, Emulator.storeHead_eq, List.append_assoc, List.cons_append]
    exact isPrefixOf?_eq_none (by decide) (by decide) (by decide)
  have hsome : Emulator.storeHead.isPrefixOf? (Emulator.storeHead ++ rest) = some rest :=
    List.isPrefixOf?_eq_some_iff_append_eq.mpr rfl
  rw [Emulator.exec, h, hnone, hsome]

/-- Code that reads a cell is known by not being any other. -/
theorem exec_eq_execLoad (e : Emulator) {expr : String} {target rest : List Char}
    (htarget : '\'' ∉ target) (h : expr.toList = target ++ (Emulator.loadMiddle ++ rest)) :
    e.exec expr = e.execLoad expr.toList := by
  have hlist : expr.toList
      = target ++ ":=ExtractValue(@mem,".toList ++ '\'' :: ("/m[".toList ++ rest) := by
    rw [h, Emulator.loadMiddle_eq, List.append_assoc, List.append_assoc, List.cons_append]
  have hquote : '\'' ∉ target ++ ":=ExtractValue(@mem,".toList := by
    rw [List.mem_append, not_or]
    exact ⟨htarget, by decide⟩
  have hother : ∀ head tail : List Char, '\'' ∉ head → ¬ ":=ExtractValue(@mem,".toList <:+ head →
      (head ++ '\'' :: tail).isPrefixOf? expr.toList = none := by
    intro head tail hhead hsuffix
    rw [hlist]
    refine isPrefixOf?_eq_none hhead hquote ?_
    rintro rfl
    exact hsuffix (List.suffix_append _ _)
  have halloc := hother _ "<m></m>',".toList (by decide)
    (by decide : ¬ _ <:+ "@mem:=CONCAT(@mem,REPEAT(".toList)
  have hstore := hother _ "/m[".toList (by decide)
    (by decide : ¬ _ <:+ "@mem:=UpdateXML(@mem,".toList)
  rw [Emulator.exec, Emulator.allocHead_eq, halloc, Emulator.storeHead_eq, hstore]

theorem exec_store {e : Emulator} {b : Bank} (h : e.Shows b) {content : String}
    {address : Address} {i : Nat} (hcontent : IsContent content)
    (haddress : Names b.vars address i) :
    ∃ code e', Request.code (.store content address) = .ok code ∧ e.exec code = some e' ∧
      e'.Shows (b.write i content) := by
  obtain ⟨text, htext, hquote, hindex⟩ := exists_address haddress "store"
  have hcode : Request.code (.store content address)
      = .ok ("@mem:=UpdateXML(@mem,'/m[" ++ text ++ "]',CONCAT('<m>'," ++
          ("'" ++ content ++ "'") ++ ",'</m>'))") := by
    rw [Request.code, Memory.store, htext]
    rfl
  have hlist : ("@mem:=UpdateXML(@mem,'/m[" ++ text ++ "]',CONCAT('<m>'," ++
      ("'" ++ content ++ "'") ++ ",'</m>'))").toList
        = Emulator.storeHead ++ (text.toList ++ (Emulator.storeMiddle ++
            ('\'' :: (content.toList ++ ['\'']) ++ Emulator.storeFoot))) := by
    simp only [String.toList_append, List.append_assoc, List.cons_append, List.nil_append]
    rfl
  have hsplit : splitOnce Emulator.storeMiddle (text.toList ++ (Emulator.storeMiddle ++
      ('\'' :: (content.toList ++ ['\'']) ++ Emulator.storeFoot)))
        = some (text.toList, '\'' :: (content.toList ++ ['\'']) ++ Emulator.storeFoot) := by
    rw [Emulator.storeMiddle_eq]
    exact splitOnce_quoted _ (by decide) hquote
  have hfoot : Emulator.storeFoot.isSuffixOf?
      ('\'' :: (content.toList ++ ['\'']) ++ Emulator.storeFoot)
        = some ('\'' :: (content.toList ++ ['\''])) :=
    List.isSuffixOf?_eq_some_iff_append_eq.mpr rfl
  refine ⟨_, { e with mem := String.ofList (memoryText (b.write i content).cells) }, hcode, ?_,
    ⟨rfl, ?_, ?_⟩⟩
  · rw [exec_eq_execStore e hlist, Emulator.execStore, hsplit]
    simp only [Option.bind_eq_bind, Option.bind_some, hfoot, hindex e h.vars, h.cells,
      unquoted_quoted hcontent.noQuote, String.ofList_toList, Bank.cells_write]
  · rw [Bank.vars_write]
    exact h.vars
  · rw [Bank.cells_write]
    split
    · intro held hheld
      rcases List.mem_or_eq_of_mem_set hheld with hheld | rfl
      · exact h.noClose held hheld
      · exact hcontent.noClose
    · exact h.noClose

theorem exec_load {e : Emulator} {b : Bank} (h : e.Shows b) {target : String}
    {address : Address} {i : Nat} (htarget : IsName target) (haddress : Names b.vars address i) :
    ∃ code, Request.code (.load target address) = .ok code ∧
      e.exec code = some { e with vars := e.vars.insert target (b.cell i) } := by
  obtain ⟨text, htext, -, hindex⟩ := exists_address haddress "load"
  have hcode : Request.code (.load target address)
      = .ok (target ++ ":=ExtractValue(@mem,'/m[" ++ text ++ "]')") := by
    rw [Request.code, Memory.load, htext]
    rfl
  have hlist : (target ++ ":=ExtractValue(@mem,'/m[" ++ text ++ "]')").toList
      = target.toList ++ (Emulator.loadMiddle ++ (text.toList ++ Emulator.loadFoot)) := by
    simp only [String.toList_append, List.append_assoc]
    rfl
  have hsplit : splitOnce Emulator.loadMiddle (target.toList ++ (Emulator.loadMiddle ++
      (text.toList ++ Emulator.loadFoot)))
        = some (target.toList, text.toList ++ Emulator.loadFoot) := by
    rw [Emulator.loadMiddle_eq]
    exact splitOnce_quoted _ (by decide) htarget.noQuote
  have hfoot : Emulator.loadFoot.isSuffixOf? (text.toList ++ Emulator.loadFoot)
      = some text.toList := List.isSuffixOf?_eq_some_iff_append_eq.mpr rfl
  refine ⟨_, hcode, ?_⟩
  rw [exec_eq_execLoad e htarget.noQuote hlist, hlist, Emulator.execLoad, hsplit]
  simp only [Option.bind_eq_bind, Option.bind_some, hfoot, hindex e h.vars, h.cells,
    String.ofList_toList, Bank.cell]

/-- One step does to the memory what it does to the array. -/
theorem exec_of_step {e : Emulator} {b b' : Bank} {request : Request}
    {write : Option (Nat × String)} (h : e.Shows b) (hstep : Step b request write b') :
    ∃ code e', request.code = .ok code ∧ e.exec code = some e' ∧ e'.Shows b' := by
  cases hstep with
  | alloc hlt => exact exec_alloc h hlt
  | store hcontent haddress => exact exec_store h hcontent haddress
  | load htarget haddress =>
    obtain ⟨code, hcode, hexec⟩ := exec_load h htarget haddress
    exact ⟨code, _, hcode, hexec, h.mem, by rw [h.vars], h.noClose⟩

theorem exec_of_runs {e : Emulator} {b b' : Bank} {requests : List Request}
    {writes : List (Nat × String)} (h : e.Shows b) (hruns : Runs b requests writes b') :
    ∃ codes e', requests.mapM Request.code = .ok codes ∧ codes.foldlM Emulator.exec e = some e' ∧
      e'.Shows b' := by
  induction hruns generalizing e with
  | nil => exact ⟨[], e, rfl, rfl, h⟩
  | cons hstep _ ih =>
    obtain ⟨code, e₁, hcode, hexec, hshows⟩ := exec_of_step h hstep
    obtain ⟨codes, e₂, hcodes, hexecs, hshows'⟩ := ih hshows
    refine ⟨code :: codes, e₂, ?_, ?_, hshows'⟩
    · rw [List.mapM_cons, hcode, hcodes]
      rfl
    · rw [List.foldlM_cons, hexec]
      exact hexecs

/-! ## What a cell holds -/

/-- The last text that was written to a cell, else what it held before. -/
def lastWritten (i : Nat) (writes : List (Nat × String)) (before : String) : String :=
  writes.foldl (fun held write => if write.1 = i then write.2 else held) before

theorem cell_of_step {b b' : Bank} {request : Request} {write : Option (Nat × String)}
    (h : Step b request write b') (i : Nat) :
    b'.cell i = lastWritten i write.toList (b.cell i) := by
  cases h with
  | alloc _ => exact b.cell_append_replicate i _
  | @store content _ j _ _ =>
    rw [Bank.cell_write]
    by_cases hj : 1 ≤ j ∧ j ≤ b.cells.length
    · simp [hj, lastWritten]
    · simp [hj, lastWritten]
  | load _ _ => rfl

theorem cell_of_runs {b b' : Bank} {requests : List Request} {writes : List (Nat × String)}
    (h : Runs b requests writes b') (i : Nat) :
    b'.cell i = lastWritten i writes (b.cell i) := by
  induction h with
  | nil => rfl
  | cons hstep _ ih =>
    rw [ih, cell_of_step hstep i, lastWritten, lastWritten, lastWritten, List.foldl_append]

/-- Generated memory code does to the memory what the requests do to an array. From any
memory that is the text of an array, code is generated for the requests and executed, and
the memory is the text of the array that they lead to. A cell of that array holds the last
text that was written to it, be the addresses numbers or variables, or else what it held at
first; and code that reads it puts this into the variable and changes nothing else. -/
theorem memory_is_array {e : Emulator} {b b' : Bank} {requests : List Request}
    {writes : List (Nat × String)} (h : e.Shows b) (hruns : Runs b requests writes b') :
    ∃ codes e', requests.mapM Request.code = .ok codes ∧ codes.foldlM Emulator.exec e = some e' ∧
      e'.Shows b' ∧
      (∀ i, b'.cell i = lastWritten i writes (b.cell i)) ∧
      ∀ target address i, IsName target → Names b'.vars address i →
        ∃ code, Request.code (.load target address) = .ok code ∧
          e'.exec code = some { e' with vars := e'.vars.insert target (b'.cell i) } := by
  obtain ⟨codes, e', hcodes, hexec, hshows⟩ := exec_of_runs h hruns
  refine ⟨codes, e', hcodes, hexec, hshows, cell_of_runs hruns, ?_⟩
  intro target address i htarget haddress
  exact exec_load hshows htarget haddress

/-- A cell is written through a variable and read by its number. -/
theorem memory_is_array_indirect :
    ∃ codes e',
      [Request.alloc 2, .store "x" (.indirect "@p"), .store "y" (.direct 1),
          .load "@d" (.direct 2)].mapM Request.code = .ok codes ∧
      codes.foldlM Emulator.exec { vars := (∅ : Std.TreeMap String String).insert "@p" "2" }
        = some e' ∧
      e'.mem = "<m>y</m><m>x</m>" ∧ e'.vars["@d"]? = some "x" := by
  have hp : IsName "@p" := ⟨by decide, by decide⟩
  have hd : IsName "@d" := ⟨by decide, by decide⟩
  have hx : IsContent "x" := ⟨by decide, by decide⟩
  have hy : IsContent "y" := ⟨by decide, by decide⟩
  have htwo : IsDecimal "2" 2 := ⟨by decide, List.forall_mem_singleton.mpr (by decide), by decide⟩
  have hheld : Names ((∅ : Std.TreeMap String String).insert "@p" "2") (.indirect "@p") 2 :=
    .indirect hp Std.TreeMap.getElem?_insert_self htwo (by decide)
  have hruns : Runs { vars := (∅ : Std.TreeMap String String).insert "@p" "2" }
      [.alloc 2, .store "x" (.indirect "@p"), .store "y" (.direct 1), .load "@d" (.direct 2)]
      _ _ :=
    .cons (.alloc (by decide)) (.cons (.store hx hheld) (.cons (.store hy (.direct (by decide)))
      (.cons (.load hd (.direct (by decide))) (.nil _))))
  obtain ⟨codes, e', hcodes, hexec, hshows, -⟩ :=
    @memory_is_array { vars := (∅ : Std.TreeMap String String).insert "@p" "2" } _ _ _ _
      ⟨rfl, rfl, by simp⟩ hruns
  refine ⟨codes, e', hcodes, hexec, ?_, ?_⟩
  · rw [hshows.mem]
    rfl
  · rw [hshows.vars]
    exact Std.TreeMap.getElem?_insert_self

end QueryMachine.MySql.Memory
