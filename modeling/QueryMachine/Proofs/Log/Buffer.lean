import QueryMachine.Log.Buffer
import QueryMachine.Proofs.Token.Layout
import Mathlib.Data.List.DropRight
import Mathlib.Data.List.Forall2

/-!
# What a log keeps

A log of bounded size is told by the events that passed its level: it holds the
last of them, as many as there is room for (`Buffer.Keeps`). Adding an event to a
full log drops the oldest, which is one step of the window over the events; the
events that do not pass are no step at all.

Of a message that is too long the log keeps the longest beginning that fits and
does not end inside a character (`IsLongestIn`). Characters have between one and
four bytes, so what is lost of the room is less than a character: three bytes at
most.
-/

namespace QueryMachine.Log

/-! ## Messages -/

/-- The longest beginning of a text that ends between two characters and has at most
`room` bytes. -/
structure IsLongestIn (room : Nat) (text start : String) : Prop where
  begins : ∃ rest, text = start ++ rest
  size_le : start.utf8ByteSize ≤ room
  longest : ∀ n, n ≤ room → String.Pos.Raw.IsValid text ⟨n⟩ → n ≤ start.utf8ByteSize

/-- What is taken is a beginning of the text; it fits, and the next character does
not. -/
theorem takeBytesFrom_spec (before : List Char) (room : Nat) (cs : List Char) :
    ∃ taken rest, takeBytesFrom before room cs = before.reverse ++ taken ∧ cs = taken ++ rest ∧
      (taken.map Char.utf8Size).sum ≤ room ∧
      ∀ c ∈ rest.head?, room < (taken.map Char.utf8Size).sum + c.utf8Size := by
  induction cs generalizing before room with
  | nil => exact ⟨[], [], by simp [takeBytesFrom], rfl, Nat.zero_le _, by simp⟩
  | cons c cs ih =>
    rw [takeBytesFrom]
    split
    · next hfits =>
      obtain ⟨taken, rest, htake, rfl, hsize, hnext⟩ := ih (c :: before) (room - c.utf8Size)
      refine ⟨c :: taken, rest, ?_, rfl, ?_, ?_⟩
      · rw [htake]
        simp
      · rw [List.map_cons, List.sum_cons]
        omega
      · intro d hd
        have := hnext d hd
        rw [List.map_cons, List.sum_cons]
        omega
    · next hlarge =>
      refine ⟨[], c :: cs, by simp, rfl, Nat.zero_le _, ?_⟩
      intro d hd
      cases hd
      simpa using hlarge

/-- A message that is too long is cut as late as possible. -/
theorem isLongestIn_takeBytesFrom (room : Nat) (text : String) :
    IsLongestIn room text (String.ofList (takeBytesFrom [] room text.toList)) := by
  obtain ⟨taken, rest, htake, htext, hsize, hnext⟩ := takeBytesFrom_spec [] room text.toList
  rw [htake, List.reverse_nil, List.nil_append]
  have hbytes : (String.ofList taken).utf8ByteSize = (taken.map Char.utf8Size).sum := by
    rw [utf8ByteSize_eq_sum, String.toList_ofList]
  refine ⟨⟨String.ofList rest, ?_⟩, ?_, ?_⟩
  · rw [← String.ofList_append, ← htext, String.ofList_toList]
  · rw [hbytes]
    exact hsize
  · intro n hn hvalid
    obtain ⟨start, tail, heq, hoffset⟩ := String.Pos.Raw.isValid_iff_exists_append.mp hvalid
    have hlist : start.toList ++ tail.toList = taken ++ rest := by
      rw [← String.toList_append, ← heq, htext]
    have hn : n = (start.toList.map Char.utf8Size).sum := by
      rw [← utf8ByteSize_eq_sum]
      exact congrArg String.Pos.Raw.byteIdx hoffset
    rw [hbytes, hn]
    rcases List.append_eq_append_iff.mp hlist with ⟨more, heq, -⟩ | ⟨more, heq, hrest⟩
    · rw [heq, List.map_append, List.sum_append]
      omega
    · cases more with
      | nil => rw [heq, List.append_nil]
      | cons c more =>
        -- The next character would still be in the room.
        have hover := hnext c (by rw [hrest]; rfl)
        rw [heq, List.map_append, List.sum_append, List.map_cons, List.sum_cons] at hn
        omega

/-- What is lost of the room is less than a character. -/
theorem IsLongestIn.le_size {room : Nat} {text start : String} (h : IsLongestIn room text start)
    (hlong : room < text.utf8ByteSize) : room ≤ start.utf8ByteSize + 3 := by
  obtain ⟨rest, rfl⟩ := h.begins
  cases hrest : rest.toList with
  | nil =>
    rw [String.toList_eq_nil_iff] at hrest
    rw [hrest, String.append_empty] at hlong
    have := h.size_le
    omega
  | cons c cs =>
    have hvalid : String.Pos.Raw.IsValid (start ++ rest)
        ⟨start.utf8ByteSize + c.utf8Size⟩ := by
      refine String.Pos.Raw.isValid_iff_exists_append.mpr
        ⟨start ++ String.singleton c, String.ofList cs, ?_, ?_⟩
      · rw [String.append_assoc, ← String.ofList_cons, ← hrest, String.ofList_toList]
      · simp [String.rawEndPos]
    have hsmall := c.utf8Size_le_four
    have hpos := c.utf8Size_pos
    by_contra hlost
    have := h.longest _ (by omega) hvalid
    omega

/-- What a log makes of a message. -/
inductive Shortens (message : String) : String → Prop where
  | short : message.utf8ByteSize ≤ 4096 → Shortens message message
  | long {start : String} : 4096 < message.utf8ByteSize → IsLongestIn 4096 message start →
      4093 ≤ start.utf8ByteSize → Shortens message (start ++ "...")

theorem shortens_cut (message : String) : Shortens message (cut message) := by
  unfold cut
  split
  · next hshort => exact .short hshort
  · next hlong =>
    have hlongest := isLongestIn_takeBytesFrom Limits.maxMessageLength message
    have hlong : Limits.maxMessageLength < message.utf8ByteSize := Nat.lt_of_not_le hlong
    have hsize : 4096 ≤ _ + 3 := hlongest.le_size hlong
    exact .long hlong hlongest (by omega)

/-! ## Events -/

namespace Buffer

/-- A log with room for `capacity` events keeps the last of `events`. -/
structure Keeps (b : Buffer) (capacity : Nat) (events : List Event) : Prop where
  capacity_eq : b.capacity = capacity
  size_eq : b.size = b.toList.length
  toList_eq : b.toList = events.rtake capacity

theorem toList_dropOldest (b : Buffer) : b.dropOldest.toList = b.toList.tail := by
  unfold dropOldest toList
  split
  · next heq => rw [heq]; rfl
  · next heq => rw [heq]; simp

/-- Adding an event drops the first one of a full log. -/
theorem toList_push (b : Buffer) (e : Event) :
    (b.push e).toList
      = (if b.size ≥ b.capacity then b.toList.tail else b.toList) ++ [e] := by
  unfold push
  split
  · rw [← toList_dropOldest]
    simp [toList]
  · simp [toList]

theorem size_push (b : Buffer) (e : Event) :
    (b.push e).size = (if b.size ≥ b.capacity then b.size - 1 else b.size) + 1 := by
  unfold push dropOldest
  split
  · split <;> rfl
  · rfl

theorem capacity_push (b : Buffer) (e : Event) : (b.push e).capacity = b.capacity := by
  unfold push dropOldest
  split
  · split <;> rfl
  · rfl

/-- One more event moves the window by one. -/
theorem Keeps.push {b : Buffer} {capacity : Nat} {events : List Event}
    (h : b.Keeps capacity events) (hcapacity : 1 ≤ capacity) (e : Event) :
    (b.push e).Keeps capacity (events ++ [e]) := by
  have hlength : b.toList.length = events.length - (events.length - capacity) := by
    rw [h.toList_eq, List.rtake, List.length_drop]
  have hsize := h.size_eq
  refine ⟨(b.capacity_push e).trans h.capacity_eq, ?_, ?_⟩
  · rw [size_push, toList_push]
    split
    · rw [List.length_append, List.length_tail, List.length_singleton, hsize]
    · rw [List.length_append, List.length_singleton, hsize]
  · rw [toList_push, h.capacity_eq, h.toList_eq, List.rtake, List.rtake, List.length_append,
      List.length_singleton]
    split
    · next hfull =>
      have hskip : events.length + 1 - capacity = events.length - capacity + 1 := by omega
      rw [List.tail_drop, hskip, List.drop_append_of_le_length (by omega)]
    · next hroom =>
      have hnone : events.length - capacity = 0 := by omega
      have hnone' : events.length + 1 - capacity = 0 := by omega
      rw [hnone, hnone', List.drop_zero, List.drop_zero]

theorem Keeps.log {b : Buffer} {capacity : Nat} {events : List Event}
    (h : b.Keeps capacity events) (hcapacity : 1 ≤ capacity) (minimum : Level) (e : Event) :
    (b.log minimum e).Keeps capacity (events ++ (filter minimum e).toList) := by
  unfold Buffer.log
  cases filter minimum e with
  | none => simpa using h
  | some e => exact h.push hcapacity e

theorem Keeps.logAll {b : Buffer} {capacity : Nat} {before : List Event}
    (h : b.Keeps capacity before) (hcapacity : 1 ≤ capacity) (minimum : Level)
    (events : List Event) :
    (events.foldl (Buffer.log minimum) b).Keeps capacity
      (before ++ events.filterMap (filter minimum)) := by
  induction events generalizing b before with
  | nil => simpa using h
  | cons e events ih =>
    have hrest := ih (h.log hcapacity minimum e)
    rw [List.foldl_cons, List.filterMap_cons]
    cases hfilter : filter minimum e <;> simpa [hfilter] using hrest

end Buffer

/-- What a log stores for an event: the event with its message perhaps shortened. -/
def Stored (e stored : Event) : Prop :=
  ∃ message, Shortens e.message message ∧ stored = { e with message }

theorem filterMap_filter (minimum : Level) (events : List Event) :
    events.filterMap (filter minimum)
      = (events.filter fun e => e.level.rank ≤ minimum.rank).map
          fun e => { e with message := cut e.message } := by
  induction events with
  | nil => rfl
  | cons e events ih =>
    rw [List.filterMap_cons, List.filter_cons, ih]
    by_cases hpasses : e.level.rank ≤ minimum.rank
    · simp [filter, Level.passes, hpasses]
    · simp [filter, Level.passes, hpasses]

/-- A log of `capacity` events holds the last ones that are severe enough, in order. -/
theorem log_keeps_latest (minimum : Level) (capacity : Nat) (hcapacity : 1 ≤ capacity)
    (events : List Event) :
    List.Forall₂ Stored
      ((events.filter fun e => e.level.rank ≤ minimum.rank).rtake capacity)
      (events.foldl (Buffer.log minimum) { capacity }).toList := by
  have hstart : ({ capacity } : Buffer).Keeps capacity [] :=
    ⟨rfl, rfl, by simp [Buffer.toList, List.rtake]⟩
  have hkeeps := (hstart.logAll hcapacity minimum events).toList_eq
  rw [List.nil_append, filterMap_filter, List.rtake, List.length_map, ← List.map_drop,
    ← List.rtake] at hkeeps
  rw [hkeeps, List.forall₂_map_right_iff, List.forall₂_same]
  intro e _
  exact ⟨cut e.message, shortens_cut e.message, rfl⟩

/-- The first warning makes room for the last; the detail was never kept. -/
theorem log_keeps_latest_two :
    List.Forall₂ Stored [.error .unknownDialect "second", .warning "third"]
      ([.warning "first", .debug "detail", .error .unknownDialect "second",
        .warning "third"].foldl (Buffer.log .warning) { capacity := 2 }).toList :=
  log_keeps_latest .warning 2 (by decide)
    [.warning "first", .debug "detail", .error .unknownDialect "second", .warning "third"]

end QueryMachine.Log
