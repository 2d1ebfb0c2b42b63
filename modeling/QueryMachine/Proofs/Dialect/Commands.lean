import Mathlib.Data.List.DropRight
import Mathlib.Data.List.Induction
import QueryMachine.Proofs.Dialect.History

/-!
# A machine is what was done to it

A machine can be driven from outside: by operations of the dialect with arguments of any
kind and number, by the extension, and by its own functions. `Command` lists these ways.
Few of them change anything. A command has at most one effect, and `run_of_effect?` says
that it does to the machine what its effect does: all of it, or nothing if the machine
refuses. This is where the dialect is opened, and the rest knows effects only.

The state after a run is then told by its log. The counter is one less than the number
of steps since the program was started, a label is bound to the counter at which it was
defined since then, and the step budget is the last one chosen, whenever that was. Each
of these is kept by one command (`Recorded.record`) and so by any number of them.
-/

namespace QueryMachine.MySql

/-- Something that is done to a machine. -/
inductive Command where
  | invoke (op : Operation) (args : List Value)
  /-- The extension is called, with any arguments. -/
  | setSteps (args : List Value)
  | restart
  | advance
  | defineLabel (name : String)
  | setStepBits (bits : Int)
  deriving DecidableEq, Repr

/-- What a command does to a machine that does not refuse it. -/
inductive Effect where
  | start
  | step
  | bind (name : String)
  | budget (bits : Int)
  deriving DecidableEq, Repr

namespace Effect

def apply : Effect → Machine → Except DialectError Machine
  | start, m => .ok m.restart
  | step, m => .ok m.advance
  | bind name, m => m.defineLabel name
  | budget bits, m => m.setStepBits bits

end Effect

namespace Command

/-- Runs an action for what it does to the machine. -/
def discard (action : Action Fragment) : Action Unit := fun m =>
  ((action m).1.map fun _ => (), (action m).2)

def run : Command → Action Unit
  | invoke op args => discard (op.invoke dialect args)
  | setSteps args => discard (MySql.setSteps args)
  | restart => Action.update fun m => .ok m.restart
  | advance => Action.update fun m => .ok m.advance
  | defineLabel name => Action.update (·.defineLabel name)
  | setStepBits bits => Action.update (·.setStepBits bits)

/-- The effect of a command, if it has one. -/
def effect? : Command → Option Effect
  | restart | invoke .prologue [] => some .start
  | advance | invoke .statement [] => some .step
  | defineLabel name | invoke .label [.str name] => some (.bind name)
  | setStepBits bits | setSteps [.int bits] => some (.budget bits)
  | _ => none

/-- A function of the machine whose answer is a fixed text. -/
theorem discard_update_text (f : Machine → Except DialectError Machine) (s : String) :
    discard (do Action.update f; Action.text s) = Action.update f := by
  funext m
  rw [discard, update_text, Action.update]
  cases f m <;> rfl

/-- A command does what its effect does. -/
theorem run_of_effect? {c : Command} {e : Effect} (h : c.effect? = some e) :
    c.run = Action.update e.apply := by
  unfold effect? at h
  split at h <;> cases h
  case h_1 | h_2 | h_3 | h_4 | h_5 | h_7 => rfl
  case h_6 name => exact discard_update_text (·.defineLabel name) "0"
  case h_8 bits => exact discard_update_text (·.setStepBits bits) ""

theorem invoke_of_arity_ne {op : Operation} {args : List Value} (h : args.length ≠ op.arity)
    (d : Dialect) (m : Machine) : (op.invoke d args m).2 = m := by
  unfold Operation.invoke
  split
  case h_11 => rfl
  all_goals exact absurd rfl h

/-- A command without an effect changes nothing, whether or not it fails. -/
theorem run_of_no_effect {c : Command} (h : c.effect? = none) (m : Machine) :
    (c.run m).2 = m := by
  cases c with
  | restart | advance | defineLabel | setStepBits => cases h
  | setSteps args =>
    match args with
    | [] | [.str _] | [.deferred _] => rfl
    | [.int bits] => cases h
    | first :: _ :: _ => cases first <;> rfl
  | invoke op args =>
    by_cases harity : args.length = op.arity
    · cases op with
      | prologue | statement =>
        obtain rfl := List.length_eq_zero_iff.mp harity
        cases h
      | epilogue | exit | nop =>
        obtain rfl := List.length_eq_zero_iff.mp harity
        rfl
      | label =>
        obtain ⟨value, rfl⟩ := List.length_eq_one_iff.mp harity
        cases value with
        | str name => cases h
        | int | deferred => rfl
      | jump =>
        obtain ⟨value, rfl⟩ := List.length_eq_one_iff.mp harity
        cases value <;> rfl
      | alloc =>
        obtain ⟨count, rfl⟩ := List.length_eq_one_iff.mp harity
        rfl
      | load | store =>
        match args, harity with
        | [_, _], _ => rfl
    · exact invoke_of_arity_ne harity dialect m

theorem run_of_apply {c : Command} {e : Effect} (he : c.effect? = some e) {m m' : Machine}
    (h : e.apply m = .ok m') : c.run m = (.ok (), m') := by
  rw [run_of_effect? he, Action.update, h]

theorem run_of_apply_error {c : Command} {e : Effect} (he : c.effect? = some e) {m : Machine}
    {error : DialectError} (h : e.apply m = .error error) : c.run m = (.error error, m) := by
  rw [run_of_effect? he, Action.update, h]

/-- A command that fails leaves the machine as it was. -/
theorem run_of_error {c : Command} {m : Machine} {error : DialectError}
    (h : (c.run m).1 = .error error) : (c.run m).2 = m := by
  cases he : c.effect? with
  | none => exact run_of_no_effect he m
  | some e =>
    cases hresult : e.apply m with
    | ok m' =>
      rw [run_of_apply he hresult] at h
      cases h
    | error error' => rw [run_of_apply_error he hresult]

end Command

/-! ## The log of a run -/

/-- A command that was run, with the machine it was run on and how it ended. -/
structure Entry where
  command : Command
  before : Machine
  outcome : Except DialectError Unit

namespace Entry

def ofRun (c : Command) (m : Machine) : Entry :=
  ⟨c, m, (c.run m).1⟩

/-- Whether a program is started. -/
def starts (e : Entry) : Bool := e.command.effect? == some .start

/-- Whether the counter goes on. -/
def advances (e : Entry) : Bool := e.command.effect? == some .step

/-- The label that was defined. -/
def defined? (e : Entry) : Option String :=
  match e.command.effect?, e.outcome with
  | some (.bind name), .ok () => some name
  | _, _ => none

/-- The step budget that was chosen. -/
def chosen? (e : Entry) : Option Int :=
  match e.command.effect?, e.outcome with
  | some (.budget bits), .ok () => some bits
  | _, _ => none

end Entry

/-- The log of some commands that are run one after the other. -/
def logFrom (m : Machine) : List Command → List Entry
  | [] => []
  | c :: cs => .ofRun c m :: logFrom (c.run m).2 cs

/-- The machine after some commands. -/
def runFrom (m : Machine) : List Command → Machine
  | [] => m
  | c :: cs => runFrom (c.run m).2 cs

/-- What was done since the last program was started. -/
def program (log : List Entry) : List Entry :=
  log.rtakeWhile fun e => !e.starts

/-- The machine is the one that its log tells of. -/
structure Recorded (log : List Entry) (m : Machine) : Prop where
  counter : m.counter + 1 = (program log).countP Entry.advances
  /-- A label is bound to the counter at which it was defined. -/
  labels : ∀ (name : String) (address : Int), m.labels[name]? = some address ↔
    ∃ e ∈ program log, e.defined? = some name ∧ e.before.counter = address
  addresses : ∀ (name : String) (address : Int), m.labels[name]? = some address →
    -1 ≤ address ∧ address ≤ m.counter
  size_le : m.labels.size ≤ 65536
  stepBits : (m.stepBits : Int) = (log.filterMap Entry.chosen?).getLast?.getD 8
  stepBits_le : m.stepBits ≤ 40

theorem logFrom_concat (m : Machine) (cs : List Command) (c : Command) :
    logFrom m (cs ++ [c]) = logFrom m cs ++ [.ofRun c (runFrom m cs)] := by
  induction cs generalizing m with
  | nil => rfl
  | cons c' cs ih => rw [List.cons_append, logFrom, ih, logFrom, runFrom, List.cons_append]

theorem runFrom_concat (m : Machine) (cs : List Command) (c : Command) :
    runFrom m (cs ++ [c]) = (c.run (runFrom m cs)).2 := by
  induction cs generalizing m with
  | nil => rfl
  | cons c' cs ih => rw [List.cons_append, runFrom, ih, runFrom]

theorem length_logFrom (m : Machine) (cs : List Command) :
    (logFrom m cs).length = cs.length := by
  induction cs generalizing m with
  | nil => rfl
  | cons c cs ih => rw [logFrom, List.length_cons, ih, List.length_cons]

theorem program_concat_of_starts (log : List Entry) {e : Entry} (h : e.starts = true) :
    program (log ++ [e]) = [] := by
  rw [program, List.rtakeWhile_concat, if_neg (by simp [h])]

theorem program_concat (log : List Entry) {e : Entry} (h : e.starts = false) :
    program (log ++ [e]) = program log ++ [e] := by
  rw [program, List.rtakeWhile_concat, if_pos (by simp [h]), program]

/-! ## What one command keeps -/

variable {log : List Entry} {m m' : Machine} {c : Command}

theorem Recorded.restart (h : Recorded log m) {e : Entry} (hstarts : e.starts = true)
    (hchosen : e.chosen? = none) : Recorded (log ++ [e]) m.restart := by
  have hprogram := program_concat_of_starts log hstarts
  have hempty : ∀ name : String, m.restart.labels[name]? = none := by
    intro name
    exact Std.TreeMap.getElem?_emptyc
  refine ⟨?_, ?_, ?_, Nat.zero_le _, ?_, h.stepBits_le⟩
  · rw [hprogram]
    rfl
  · intro name address
    rw [hempty, hprogram]
    simp
  · intro name address haddress
    rw [hempty] at haddress
    cases haddress
  · show (m.stepBits : Int) = _
    rw [h.stepBits, List.filterMap_append]
    simp [hchosen]

/-- Within a program a command adds to what was recorded. -/
theorem Recorded.extend (h : Recorded log m) (hstarts : (Entry.ofRun c m).starts = false)
    (hcounter : m'.counter = m.counter + if (Entry.ofRun c m).advances then 1 else 0)
    (hlabels : ∀ (name : String) (address : Int), m'.labels[name]? = some address ↔
      m.labels[name]? = some address ∨
        (Entry.ofRun c m).defined? = some name ∧ m.counter = address)
    (hsize : m'.labels.size ≤ 65536)
    (hbits : (m'.stepBits : Int) = (Entry.ofRun c m).chosen?.getD m.stepBits)
    (hbits_le : m'.stepBits ≤ 40) : Recorded (log ++ [.ofRun c m]) m' := by
  have hprogram := program_concat log hstarts
  have hstart : -1 ≤ m.counter := by
    have := h.counter
    omega
  have hgrows : m.counter ≤ m'.counter := by
    rw [hcounter]
    split <;> omega
  refine ⟨?_, ?_, ?_, hsize, ?_, hbits_le⟩
  · rw [hprogram, List.countP_append, List.countP_singleton, Int.natCast_add, ← h.counter,
      hcounter]
    split <;> omega
  · intro name address
    rw [hlabels, h.labels, hprogram]
    simp [or_and_right, exists_or, Entry.ofRun]
  · intro name address haddress
    rcases (hlabels name address).mp haddress with hold | ⟨-, rfl⟩
    · obtain ⟨hlow, hhigh⟩ := h.addresses name address hold
      exact ⟨hlow, Int.le_trans hhigh hgrows⟩
    · exact ⟨hstart, hgrows⟩
  · rw [List.filterMap_append, hbits, h.stepBits]
    cases hchosen : (Entry.ofRun c m).chosen? <;> simp [hchosen]

/-- A command that changes nothing, because it has no effect or is refused. -/
theorem Recorded.extend_quiet (h : Recorded log m) (hstarts : (Entry.ofRun c m).starts = false)
    (hadvances : (Entry.ofRun c m).advances = false) (hdefined : (Entry.ofRun c m).defined? = none)
    (hchosen : (Entry.ofRun c m).chosen? = none) : Recorded (log ++ [.ofRun c m]) m := by
  refine h.extend hstarts ?_ ?_ h.size_le ?_ h.stepBits_le
  · simp [hadvances]
  · simp [hdefined]
  · simp [hchosen]

/-- A command whose effect the machine refuses. -/
theorem Recorded.extend_refused (h : Recorded log m) {e : Effect} (he : c.effect? = some e)
    {error : DialectError} (hrefused : e.apply m = .error error) :
    Recorded (log ++ [.ofRun c m]) m := by
  have hrun := Command.run_of_apply_error he hrefused
  cases e with
  | start | step => cases hrefused
  | bind | budget =>
    apply h.extend_quiet <;>
      simp [Entry.starts, Entry.advances, Entry.defined?, Entry.chosen?, Entry.ofRun, he, hrun]

theorem Recorded.extend_bind (h : Recorded log m) {name : String}
    (he : c.effect? = some (.bind name)) (hdefine : m.defineLabel name = .ok m') :
    Recorded (log ++ [.ofRun c m]) m' := by
  have hrun := Command.run_of_apply he hdefine
  have hdefined : (Entry.ofRun c m).defined? = some name := by
    simp [Entry.defined?, Entry.ofRun, he, hrun]
  unfold Machine.defineLabel at hdefine
  split at hdefine
  · cases hdefine
  · next hfree =>
    split at hdefine
    · cases hdefine
    · next hroom =>
      cases hdefine
      refine h.extend ?_ ?_ ?_ ?_ ?_ h.stepBits_le
      · simp [Entry.starts, Entry.ofRun, he]
      · simp [Entry.advances, Entry.ofRun, he]
      · intro other address
        rw [hdefined, Option.some.injEq]
        exact getElem?_insert_iff hfree other address
      · have hsize := Std.TreeMap.size_insert_le (t := m.labels) (k := name) (v := m.counter)
        rw [Limits.maxLabels] at hroom
        show (m.labels.insert name m.counter).size ≤ 65536
        omega
      · simp [Entry.chosen?, Entry.ofRun, he]

theorem Recorded.extend_budget (h : Recorded log m) {bits : Int}
    (he : c.effect? = some (.budget bits)) (hset : m.setStepBits bits = .ok m') :
    Recorded (log ++ [.ofRun c m]) m' := by
  have hrun := Command.run_of_apply he hset
  have hchosen : (Entry.ofRun c m).chosen? = some bits := by
    simp [Entry.chosen?, Entry.ofRun, he, hrun]
  unfold Machine.setStepBits at hset
  split at hset
  · next hrange =>
    cases hset
    rw [Limits.maxStepBits] at hrange
    refine h.extend ?_ ?_ ?_ h.size_le ?_ ?_
    · simp [Entry.starts, Entry.ofRun, he]
    · simp [Entry.advances, Entry.ofRun, he]
    · simp [Entry.defined?, Entry.ofRun, he]
    · rw [hchosen]
      exact Int.toNat_of_nonneg hrange.1
    · show bits.toNat ≤ 40
      omega
  · cases hset

/-- What was recorded goes on being so with one more command. -/
theorem Recorded.record (h : Recorded log m) (c : Command) :
    Recorded (log ++ [.ofRun c m]) (c.run m).2 := by
  cases he : c.effect? with
  | none =>
    rw [Command.run_of_no_effect he]
    apply h.extend_quiet <;>
      simp [Entry.starts, Entry.advances, Entry.defined?, Entry.chosen?, Entry.ofRun, he]
  | some e =>
    cases hresult : e.apply m with
    | error error =>
      rw [Command.run_of_apply_error he hresult]
      exact h.extend_refused he hresult
    | ok m' =>
      rw [Command.run_of_apply he hresult]
      cases e with
      | start =>
        cases hresult
        apply h.restart <;> simp [Entry.starts, Entry.chosen?, Entry.ofRun, he]
      | step =>
        cases hresult
        refine h.extend ?_ ?_ ?_ h.size_le ?_ h.stepBits_le
        · simp [Entry.starts, Entry.ofRun, he]
        · simp [Entry.advances, Entry.ofRun, he, Machine.advance]
        · simp [Entry.defined?, Entry.ofRun, he, Machine.advance]
        · simp [Entry.chosen?, Entry.ofRun, he, Machine.advance]
      | bind name => exact h.extend_bind he hresult
      | budget bits => exact h.extend_budget he hresult

/-! ## Runs of any length -/

theorem recorded_start : Recorded [] {} := by
  refine ⟨rfl, ?_, ?_, Nat.zero_le _, rfl, by decide⟩
  · intro name address
    rw [show ({} : Machine).labels[name]? = none from Std.TreeMap.getElem?_emptyc]
    simp [program]
  · intro name address haddress
    rw [show ({} : Machine).labels[name]? = none from Std.TreeMap.getElem?_emptyc] at haddress
    cases haddress

theorem recorded_runFrom (cs : List Command) : Recorded (logFrom {} cs) (runFrom {} cs) := by
  induction cs using List.reverseRecOn with
  | nil => exact recorded_start
  | append_singleton cs c ih =>
    rw [logFrom_concat, runFrom_concat]
    exact ih.record c

/-! ## What is refused -/

/-- A label is refused if it is bound already or, if it is not, when no more can be. -/
theorem defineLabel_eq_error_iff {name : String} {error : DialectError}
    (hsize : m.labels.size ≤ 65536) : m.defineLabel name = .error error ↔
      (∃ address, m.labels[name]? = some address ∧ error = .duplicateLabel name address) ∨
      m.labels[name]? = none ∧ m.labels.size = 65536 ∧ error = .tooManyLabels := by
  simp only [Machine.defineLabel, Machine.address?]
  cases hbound : m.labels[name]? with
  | some address => simp [eq_comm]
  | none =>
    by_cases hfull : m.labels.size ≥ Limits.maxLabels
    · have hexact : m.labels.size = 65536 := Nat.le_antisymm hsize hfull
      rw [if_pos hfull]
      simp [hexact, eq_comm]
    · have hroom : m.labels.size ≠ 65536 := fun h => hfull (Nat.le_of_eq h.symm)
      rw [if_neg hfull]
      simp [hroom]

theorem setStepBits_eq_error_iff {bits : Int} {error : DialectError} :
    m.setStepBits bits = .error error ↔
      ¬ (0 ≤ bits ∧ bits ≤ 40) ∧ error = .stepBudgetOutOfRange bits := by
  rw [Machine.setStepBits]
  by_cases hrange : 0 ≤ bits ∧ bits ≤ Limits.maxStepBits
  · rw [if_pos hrange]
    simp [show 0 ≤ bits ∧ bits ≤ 40 from hrange]
  · rw [if_neg hrange, and_iff_right (show ¬ (0 ≤ bits ∧ bits ≤ 40) from hrange),
      Except.error.injEq, eq_comm]

theorem run_eq_error_iff {e : Effect} (he : c.effect? = some e) {error : DialectError} :
    (c.run m).1 = .error error ↔ e.apply m = .error error := by
  cases hresult : e.apply m with
  | ok m' => simp [Command.run_of_apply he hresult]
  | error error' => simp [Command.run_of_apply_error he hresult]

/-- After any commands the machine is the one that their log tells of, and its counter is
less than their number. A label is refused then if and only if it is bound already or the
table is full, a budget if and only if it is out of range, and a command that is refused
leaves all of the machine as it was. -/
theorem machine_follows_commands (cs : List Command) :
    Recorded (logFrom {} cs) (runFrom {} cs) ∧
    (runFrom {} cs).counter < cs.length ∧
    (∀ (c : Command) (name : String), c.effect? = some (.bind name) → ∀ error,
      (c.run (runFrom {} cs)).1 = .error error ↔
        (∃ address, (runFrom {} cs).labels[name]? = some address ∧
          error = .duplicateLabel name address) ∨
        (runFrom {} cs).labels[name]? = none ∧ (runFrom {} cs).labels.size = 65536 ∧
          error = .tooManyLabels) ∧
    (∀ (c : Command) (bits : Int), c.effect? = some (.budget bits) → ∀ error,
      (c.run (runFrom {} cs)).1 = .error error ↔
        ¬ (0 ≤ bits ∧ bits ≤ 40) ∧ error = .stepBudgetOutOfRange bits) ∧
    ∀ (c : Command) (error : DialectError), (c.run (runFrom {} cs)).1 = .error error →
      (c.run (runFrom {} cs)).2 = runFrom {} cs := by
  have hrecorded := recorded_runFrom cs
  refine ⟨hrecorded, ?_, ?_, ?_, ?_⟩
  · have hcount := List.countP_le_length (p := Entry.advances) (l := program (logFrom {} cs))
    have hlength := (List.rtakeWhile_suffix (fun e : Entry => !e.starts)
      (l := logFrom {} cs)).length_le
    rw [length_logFrom] at hlength
    have hcounter := hrecorded.counter
    rw [program] at hcounter hcount
    omega
  · intro c name he error
    rw [run_eq_error_iff he]
    exact defineLabel_eq_error_iff hrecorded.size_le
  · intro c bits he error
    rw [run_eq_error_iff he]
    exact setStepBits_eq_error_iff
  · intro c error herror
    exact Command.run_of_error herror

end QueryMachine.MySql
