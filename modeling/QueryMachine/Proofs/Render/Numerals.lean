import QueryMachine.Proofs.Render.Program

/-!
# The numeral behind a jump

A jump is written as an assignment of a numeral to `@pc`, and nothing is written behind the
numeral to end it. What ends it is what the region adds next. If that is the call that begins
an instruction, it begins with a newline, and the numeral is the address. If it is the call
that ends the program, it begins with the digit of an instruction that does nothing, and the
numeral has one digit more than the address has.

So the address that the label table gives, or the final counter for an exit, is where the
program goes unless the placeholder is the last thing that its region adds to the text: a
jump on a last line that no newline ends goes elsewhere.
-/

namespace QueryMachine

namespace Render

variable {d : Dialect} {s s' : Session} {body : List Item} {values : List (Option Value)}
  {calls : List Call}

/-! ## An item and its value -/

theorem length_of_runs (h : Runs d s body values calls s') : values.length = body.length := by
  induction h with
  | nil => rfl
  | cons _ _ ih => rw [List.length_cons, List.length_cons, ih]

theorem itemRuns_of_mem_zip (h : Runs d s body values calls s') {i : Item}
    {value : Option Value} (hmem : (i, value) ∈ body.zip values) :
    ∃ s₁ calls' s₂, ItemRuns d s₁ i value calls' s₂ := by
  induction h with
  | nil => cases hmem
  | cons hi _ ih =>
    rcases List.mem_cons.mp hmem with heq | hmem
    · cases heq
      exact ⟨_, _, _, hi⟩
    · exact ih hmem

/-- The item that puts out the answer of a call without arguments. -/
def callOutput (name : String) (first last : Span) : Item := .output (.call name [] first) last

theorem call_of_itemRuns {name : String} {first last : Span} {value : Option Value}
    (h : ItemRuns d s (callOutput name first last) value calls s') :
    ∃ answer, value = some answer ∧ call d name [] first s = (.ok answer, s') := by
  cases h with
  | output _ hvalue =>
    cases hvalue with
    | call _ _ hargs hcall =>
      cases hargs
      exact ⟨_, rfl, hcall⟩

end Render

namespace MySql

open Render

/-! ## Numerals -/

/-- The numeral that a text begins with: a sign, if there is one, and all digits behind it. -/
def numeral : List Char → List Char
  | '-' :: cs => '-' :: cs.takeWhile Char.isDigit
  | cs => cs.takeWhile Char.isDigit

theorem numeral_of_digit {c : Char} (h : c.isDigit = true) (cs : List Char) :
    numeral (c :: cs) = (c :: cs).takeWhile Char.isDigit := by
  unfold numeral
  split
  · next heq =>
    cases heq
    cases h
  · rfl

/-- The numeral that begins with the digits of a number goes on with the digits behind them. -/
theorem numeral_toString_append (a : Int) (rest : List Char) :
    numeral ((toString a).toList ++ rest)
      = (toString a).toList ++ rest.takeWhile Char.isDigit := by
  have hdigit : ∀ n : Nat, ∀ c ∈ Nat.toDigits 10 n, c.isDigit = true := by
    intro n c hc
    exact Nat.isDigit_of_mem_toDigits (by decide) (by decide) hc
  rw [Int.toString_eq_repr, Int.repr_eq_if]
  split
  · rw [Nat.toList_repr, ← List.takeWhile_append_of_pos (hdigit _)]
    have hne : Nat.toDigits 10 a.toNat ≠ [] := Nat.toDigits_ne_nil
    have hall := hdigit a.toNat
    cases hcs : Nat.toDigits 10 a.toNat with
    | nil => exact absurd hcs hne
    | cons c cs =>
      rw [hcs] at hall
      exact numeral_of_digit (hall c List.mem_cons_self) _
  · rw [String.toList_append, Nat.toList_repr, List.append_assoc, List.append_assoc,
      ← List.takeWhile_append_of_pos (hdigit _)]
    rfl

/-! ## Where a placeholder goes -/

/-- The address that a placeholder stands for in a finished program. -/
def Target (r : RegionReport) : Thunk → Int → Prop
  | .jumpTo label, address => r.labels[label]? = some address
  | .exit, address => r.finalCounter = address

theorem placeholderCode_of_target {r : RegionReport} {thunk : Thunk} {address : Int}
    (h : Target r thunk address) : placeholderCode r thunk = "@pc:=" ++ toString address := by
  cases thunk with
  | jumpTo label =>
    have hlabel : r.labels[label]? = some address := h
    rw [placeholderCode, hlabel]
  | exit =>
    have hfinal : r.finalCounter = address := h
    rw [placeholderCode, hfinal]

/-- The calls that the instrumentation puts behind a line and at the end of a region. -/
def IsSite (op : Operation) : Prop := op = .statement ∨ op = .epilogue

/-- The digits that a site begins with. The epilogue begins with the code of an instruction
that does nothing, for a last line on which nothing stands. -/
def siteDigits (op : Operation) : List Char := if op = .epilogue then ['0'] else []

section Sites

variable {span : Span} {s s' : Session} {answer : Value}

theorem answer_of_statement
    (h : Render.call dialect Operation.statement.name [] span s = (.ok answer, s')) :
    answer = .str (branch (s.machine.counter + 1)) := by
  cases h
  rfl

theorem answer_of_epilogue
    (h : Render.call dialect Operation.epilogue.name [] span s = (.ok answer, s')) :
    answer = .str (foot s.machine.stepBits) := by
  cases h
  rfl

theorem exists_branch_eq (counter : Int) : ∃ more, (branch counter).toList = '\n' :: more := by
  have hfront : "\n        WHEN ".toList = '\n' :: "        WHEN ".toList := by decide
  unfold branch
  rw [String.toList_append, String.toList_append, hfront]
  exact ⟨_, rfl⟩

theorem exists_foot_eq (stepBits : Nat) :
    ∃ more, (foot stepBits).toList = '0' :: '\n' :: more := by
  have hfront : "0\n    ELSE @out END,\n    @pc:=@pc+1\n    FROM ".toList
      = '0' :: '\n' :: "    ELSE @out END,\n    @pc:=@pc+1\n    FROM ".toList := by decide
  unfold foot
  rw [String.toList_append, String.toList_append, hfront]
  exact ⟨_, rfl⟩

/-- Behind its digits, if it has any, a site begins a new line. -/
theorem text_of_site {op : Operation} (hop : IsSite op)
    (h : Render.call dialect op.name [] span s = (.ok answer, s')) :
    ∃ text more, answer = .str text ∧ text.toList = siteDigits op ++ '\n' :: more := by
  rcases hop with rfl | rfl
  · obtain ⟨more, hmore⟩ := exists_branch_eq (s.machine.counter + 1)
    exact ⟨_, more, answer_of_statement h, hmore⟩
  · obtain ⟨more, hmore⟩ := exists_foot_eq s.machine.stepBits
    exact ⟨_, more, answer_of_epilogue h, hmore⟩

end Sites

/-! ## What stands behind a placeholder -/

/-- The text that some items of a region add, once the placeholders in it have their code. -/
def textOf (r : RegionReport) (parts : List (Item × Option Value)) : String :=
  String.join (parts.map fun part => addedText (placeholderCode r) part.2)

theorem textOf_append (r : RegionReport) (as bs : List (Item × Option Value)) :
    textOf r (as ++ bs) = textOf r as ++ textOf r bs := by
  rw [textOf, List.map_append, String.join_append]
  rfl

theorem textOf_cons (r : RegionReport) (part : Item × Option Value)
    (parts : List (Item × Option Value)) :
    textOf r (part :: parts) = addedText (placeholderCode r) part.2 ++ textOf r parts := by
  rw [textOf, List.map_cons, String.join_cons]
  rfl

theorem textOf_eq_empty {r : RegionReport} {parts : List (Item × Option Value)}
    (h : ∀ part ∈ parts, addedText (placeholderCode r) part.2 = "") : textOf r parts = "" := by
  induction parts with
  | nil => rfl
  | cons part parts ih =>
    rw [List.forall_mem_cons] at h
    rw [textOf_cons, h.1, ih h.2]
    rfl

/-- The text of a region around a placeholder with a site next behind it. -/
theorem text_around_placeholder {r : RegionReport} {body : List Item}
    {values : List (Option Value)} {calls : List Call} {s s' : Session}
    (hruns : Runs dialect s body values calls s') {front gap back : List (Item × Option Value)}
    {jump : Item} {thunk : Thunk} {site : Operation} {first last : Span} {value : Option Value}
    (hparts : body.zip values = front ++ (jump, some (.deferred thunk)) ::
      (gap ++ (callOutput site.name first last, value) :: back))
    (hgap : ∀ part ∈ gap, addedText (placeholderCode r) part.2 = "") (hsite : IsSite site)
    {address : Int} (htarget : Target r thunk address) :
    ∃ more, (String.join (values.map (addedText (placeholderCode r)))).toList
      = (textOf r front).toList ++ "@pc:=".toList ++
        ((toString address).toList ++ (siteDigits site ++ '\n' :: more)) := by
  have hmem : (callOutput site.name first last, value) ∈ body.zip values := by
    rw [hparts]
    simp
  obtain ⟨s₁, calls', s₂, hitem⟩ := itemRuns_of_mem_zip hruns hmem
  obtain ⟨answer, rfl, hcall⟩ := call_of_itemRuns hitem
  obtain ⟨text, more, rfl, htext⟩ := text_of_site hsite hcall
  have hall : String.join (values.map (addedText (placeholderCode r)))
      = textOf r (body.zip values) := by
    have hvalues : (body.zip values).map Prod.snd = values :=
      List.map_snd_zip (Nat.le_of_eq (length_of_runs hruns))
    calc String.join (values.map (addedText (placeholderCode r)))
        = String.join (((body.zip values).map Prod.snd).map (addedText (placeholderCode r))) := by
          rw [hvalues]
      _ = textOf r (body.zip values) := by
          rw [List.map_map]
          rfl
  have hcode := placeholderCode_of_target htarget
  rw [hall, hparts, textOf_append, textOf_cons, textOf_append, textOf_cons,
    textOf_eq_empty hgap]
  refine ⟨more ++ (textOf r back).toList, ?_⟩
  simp only [addedText, hcode, String.toList_append, htext]
  simp

/-- The item that puts out a jump to a label. -/
def jumpOutput (label : String) (argument first last : Span) : Item :=
  .output (.call Operation.jump.name [.str label argument] first) last

theorem deferred_of_jumpOutput {label : String} {argument first last : Span}
    {value : Option Value} {calls : List Call} {s s' : Session}
    (h : ItemRuns dialect s (jumpOutput label argument first last) value calls s') :
    value = some (.deferred (.jumpTo label)) := by
  obtain _ | ⟨_, hvalue⟩ | _ := h
  obtain _ | _ | _ | ⟨_, _, hargs, hcall⟩ := hvalue
  obtain _ | ⟨hlabel, _, hnil⟩ := hargs
  cases hlabel
  cases hnil
  cases hcall
  rfl

/-- A jump that is written next to the last item of a region. -/
theorem exists_zip_of_jump {is : List Item} {label : String} {argument first last : Span}
    {final : Item} {values : List (Option Value)} {calls : List Call} {s s' : Session}
    (h : Runs dialect s (is ++ [jumpOutput label argument first last, final]) values calls s') :
    ∃ (front : List (Item × Option Value)) (value : Option Value),
      (is ++ [jumpOutput label argument first last, final]).zip values
      = front ++ (jumpOutput label argument first last,
          some (.deferred (.jumpTo label))) :: ([] ++ (final, value) :: []) := by
  induction is generalizing s values calls with
  | nil =>
    obtain _ | ⟨hjump, _ | ⟨_, _ | _⟩⟩ := h
    rw [deferred_of_jumpOutput hjump]
    exact ⟨[], _, rfl⟩
  | cons i is ih =>
    obtain _ | ⟨_, hruns⟩ := h
    obtain ⟨front, value, hzip⟩ := ih hruns
    exact ⟨_ :: front, value, congrArg (List.cons _) hzip⟩

end MySql

/-! ## Compiled regions -/

/-- A region of a compiled template is rendered in the session that the nodes before it leave,
and what it reports there is reported of the template. -/
theorem region_of_compile {preferences : CompilerPreferences} {name source : String}
    {compiled : Compiled} {notices : Array Notice}
    (h : compile MySql.dialect preferences name source = (.ok compiled, notices)) :
    ∃ lexed instrumented template,
      Lexer.tokenize source = .ok lexed ∧
      Region.instrument {} lexed.tokens.toList = .ok instrumented ∧
      Template.parse instrumented.tokens.toList = .ok template ∧
      ∀ before body span after, template.nodes = before ++ .region body span :: after →
        ∃ out s text s',
          Render.nodes MySql.dialect preferences.policy {} before {} = (.ok out, s) ∧
          Render.region MySql.dialect preferences.policy body span s = (.ok text, s') ∧
          ∀ r, s'.reports = s.reports.push r → preferences.collectReports = true →
            compiled.reports[before.countP Node.isRegion]? = some r := by
  obtain ⟨lexed, instrumented, template, output, s₀, hlexed, hinstrumented, hparsed, hrender,
    houtput, rfl⟩ := exists_of_compile h
  refine ⟨lexed, instrumented, template, hlexed, hinstrumented, hparsed, ?_⟩
  intro before body span after hnodes
  obtain ⟨out', s₁, hall, hfinal⟩ := exists_of_render hrender
  rw [hnodes] at hall
  obtain ⟨out, s, out₂, s₂, hbefore, hnode, hafter⟩ := MySql.exists_of_nodes hall
  rw [Render.node] at hnode
  split at hnode
  · next text s' hregion =>
    cases hnode
    refine ⟨out, s, text, _, hbefore, hregion, ?_⟩
    intro r hreports hcollect
    obtain ⟨earlier, hearlier, hlength⟩ := MySql.reports_of_nodes hbefore
    obtain ⟨later, hlater, -⟩ := MySql.reports_of_nodes hafter
    have hall : output.reports.toList = earlier ++ r :: later := by
      rw [houtput, hfinal, hlater, hreports, Array.toList_push, hearlier]
      simp
    simp only [Compile.result, hcollect, if_true]
    rw [← Array.getElem?_toList, hall, ← hlength]
    simp
  · cases hnode

/-- The numeral behind a jump or an exit, where a site is what its region adds next: the
address if the site begins an instruction, and the address with a digit more if it ends the
program. -/
theorem compiled_jump_numerals {preferences : CompilerPreferences} {name source : String}
    {compiled : Compiled} {notices : Array Notice}
    (h : compile MySql.dialect preferences name source = (.ok compiled, notices)) :
    ∃ lexed instrumented template,
      Lexer.tokenize source = .ok lexed ∧
      Region.instrument {} lexed.tokens.toList = .ok instrumented ∧
      Template.parse instrumented.tokens.toList = .ok template ∧
      ∀ before body span after, template.nodes = before ++ .region body span :: after →
        ∃ out s text s' r values calls end',
          Render.nodes MySql.dialect preferences.policy {} before {} = (.ok out, s) ∧
          Render.region MySql.dialect preferences.policy body span s = (.ok text, s') ∧
          s'.reports = s.reports.push r ∧
          (preferences.collectReports = true →
            compiled.reports[before.countP Node.isRegion]? = some r) ∧
          Render.Runs MySql.dialect (s.note (.regionStarted span)) body values calls end' ∧
          ∀ (front : List (Item × Option Value)) (jump : Item) (thunk : Thunk)
            (gap : List (Item × Option Value)) (site : Operation) (first last : Span)
            (value : Option Value) (back : List (Item × Option Value)) (address : Int),
            body.zip values = front ++ (jump, some (.deferred thunk)) ::
              (gap ++ (Render.callOutput site.name first last, value) :: back) →
            (∀ part ∈ gap, Render.addedText (MySql.placeholderCode r) part.2 = "") →
            MySql.IsSite site → MySql.Target r thunk address →
            ∃ right, text.toList = (MySql.textOf r front).toList ++ "@pc:=".toList ++
                ((toString address).toList ++ right) ∧
              (right.head?.any Char.isDigit = false ↔ site = .statement) ∧
              MySql.numeral ((toString address).toList ++ right)
                = (toString address).toList ++ MySql.siteDigits site := by
  obtain ⟨lexed, instrumented, template, hlexed, hinstrumented, hparsed, hregions⟩ :=
    region_of_compile h
  refine ⟨lexed, instrumented, template, hlexed, hinstrumented, hparsed, ?_⟩
  intro before body span after hnodes
  obtain ⟨out, s, text, s', hbefore, hregion, hreported⟩ :=
    hregions before body span after hnodes
  obtain ⟨r, values, calls, end', hruns, hreports, -, hcounter, hlabels, htext, -⟩ :=
    MySql.exists_of_region hregion
  rw [MySql.resolve_eq_placeholderCode hcounter hlabels] at htext
  refine ⟨out, s, text, s', r, values, calls, end', hbefore, hregion, hreports,
    hreported r hreports, hruns, ?_⟩
  intro front jump thunk gap site first last value back address hparts hgap hsite htarget
  obtain ⟨more, hmore⟩ := MySql.text_around_placeholder hruns hparts hgap hsite htarget
  refine ⟨MySql.siteDigits site ++ '\n' :: more, by rw [htext, hmore], ?_, ?_⟩
  · rcases hsite with rfl | rfl
    · exact iff_of_true rfl rfl
    · refine iff_of_false ?_ (by decide)
      intro hfront
      cases hfront
  · rw [MySql.numeral_toString_append]
    rcases hsite with rfl | rfl <;> rfl

/-- A program whose last line, which no newline ends, jumps back to the second one. -/
def jumpOnLastLine : String :=
  "\x7b% sqlvm %\x7d\nA\n\x7b\x7b label(\"l\") \x7d\x7d\nB\n" ++
    "\x7b\x7b jump(\"l\") \x7d\x7d\x7b% endsqlvm %\x7d"

/-- The program compiles, its label has the address 1, and the jump and the epilogue are the
last two items of its region. -/
theorem exists_jump_on_last_line :
    ∃ compiled notices lexed i, ∃ is : List Item,
      ∃ argument first last first' last' span,
      compile MySql.dialect {} "p" jumpOnLastLine = (.ok compiled, notices) ∧
      compiled.reports[0]?.map (fun r => r.labels["l"]?) = some (some 1) ∧
      Lexer.tokenize jumpOnLastLine = .ok lexed ∧
      Region.instrument {} lexed.tokens.toList = .ok i ∧
      Template.parse i.tokens.toList
        = .ok ⟨[.region (is ++ [MySql.jumpOutput "l" argument first last,
            Render.callOutput Operation.epilogue.name first' last']) span]⟩ := by
  have hresult : (compile MySql.dialect {} "p" jumpOnLastLine).1.toOption.map
      (fun c => c.reports[0]?.map fun r => r.labels["l"]?) = some (some (some 1)) := by
    decide +kernel
  cases hcompile : compile MySql.dialect {} "p" jumpOnLastLine with
  | mk result notices =>
    rw [hcompile] at hresult
    cases result with
    | error => cases hresult
    | ok compiled =>
      refine ⟨compiled, notices, _, _, [_, _, _, _, _, _, _, _, _, _], _, _, _, _, _, _, rfl,
        Option.some.inj hresult, by cbv, by cbv, by cbv⟩

/-- The numeral behind the jump of that program has a digit more than the address of the
label. -/
theorem compiled_jump_numerals_last_line :
    ∃ compiled notices body span, ∃ text : String, ∃ s', ∃ r : RegionReport,
      ∃ left right : List Char,
      compile MySql.dialect {} "p" jumpOnLastLine = (.ok compiled, notices) ∧
      Render.region MySql.dialect .lenient body span {} = (.ok text, s') ∧
      compiled.reports[0]? = some r ∧ r.labels["l"]? = some 1 ∧
      text.toList = left ++ "@pc:=".toList ++ right ∧
      MySql.numeral right = (toString (1 : Int)).toList ++ ['0'] := by
  obtain ⟨compiled, notices, lexed, i, is, argument, first, last, first', last', span, hcompile,
    hlabel, hlexed, hi, ht⟩ := exists_jump_on_last_line
  obtain ⟨lexed', i', t', hlexed', hi', ht', hregions⟩ := compiled_jump_numerals hcompile
  cases hlexed.symm.trans hlexed'
  cases hi.symm.trans hi'
  cases ht.symm.trans ht'
  obtain ⟨out, s, text, s', r, values, calls, end', hbefore, hregion, -, hreport, hruns,
    hjumps⟩ := hregions [] _ span [] rfl
  cases hbefore
  rw [show compiled.reports[0]? = some r from hreport rfl] at hlabel
  have hone : r.labels["l"]? = some 1 := Option.some.inj hlabel
  obtain ⟨front, value, hzip⟩ := MySql.exists_zip_of_jump hruns
  obtain ⟨right, htext, -, hnumeral⟩ := hjumps front _ (.jumpTo "l") [] .epilogue _ _ value [] 1
    hzip (by simp) (.inr rfl) hone
  exact ⟨compiled, notices, _, span, text, s', r, _, _, hcompile, hregion, hreport rfl, hone,
    htext, hnumeral⟩

/-- The label of that program stands at 1, and behind the 1 in the text of the jump stands
another digit: the epilogue is next to the jump. -/
theorem jump_before_epilogue_misses_label :
    ∃ compiled notices, ∃ body : List Item, ∃ span, ∃ text : String, ∃ s', ∃ r : RegionReport,
      ∃ values : List (Option Value), ∃ calls end', ∃ front : List (Item × Option Value),
      ∃ argument first last first' last', ∃ value : Option Value,
      compile MySql.dialect {} "p" jumpOnLastLine = (.ok compiled, notices) ∧
      Render.region MySql.dialect .lenient body span {} = (.ok text, s') ∧
      compiled.reports[0]? = some r ∧ r.labels["l"]? = some 1 ∧
      Render.Runs MySql.dialect (Session.note {} (.regionStarted span)) body values calls end' ∧
      body.zip values = front ++
        [(MySql.jumpOutput "l" argument first last, some (.deferred (.jumpTo "l"))),
          (Render.callOutput Operation.epilogue.name first' last', value)] ∧
      ∃ more, text.toList
        = (MySql.textOf r front).toList ++ "@pc:=".toList ++ "1".toList ++ '0' :: more := by
  obtain ⟨compiled, notices, lexed, i, is, argument, first, last, first', last', span, hcompile,
    hlabel, hlexed, hi, ht⟩ := exists_jump_on_last_line
  obtain ⟨lexed', i', t', hlexed', hi', ht', hregions⟩ := region_of_compile hcompile
  cases hlexed.symm.trans hlexed'
  cases hi.symm.trans hi'
  cases ht.symm.trans ht'
  obtain ⟨out, s, text, s', hbefore, hregion, hreported⟩ := hregions [] _ span [] rfl
  cases hbefore
  obtain ⟨r, values, calls, end', hruns, hreports, -, hfinal, hlabels, htext, -⟩ :=
    MySql.exists_of_region hregion
  rw [MySql.resolve_eq_placeholderCode hfinal hlabels] at htext
  have hreport : compiled.reports[0]? = some r := hreported r hreports rfl
  rw [hreport] at hlabel
  have hone : r.labels["l"]? = some 1 := Option.some.inj hlabel
  have htarget : MySql.Target r (.jumpTo "l") 1 := hone
  obtain ⟨front, value, hzip⟩ := MySql.exists_zip_of_jump hruns
  obtain ⟨more, hmore⟩ := MySql.text_around_placeholder hruns hzip (by simp) (.inr rfl) htarget
  refine ⟨compiled, notices, _, span, text, s', r, values, calls, end', front, argument, first,
    last, first', last', value, hcompile, hregion, hreport, hone, hruns, hzip, '\n' :: more, ?_⟩
  have hdigits : (toString (1 : Int)).toList = "1".toList := by decide
  rw [htext, hmore, hdigits, ← List.append_assoc]
  rfl

end QueryMachine
