import QueryMachine.Text.Blank
import QueryMachine.Text.Split
import QueryMachine.Token
import QueryMachine.Token.LexError

/-!
# The lexer

A template is data, cut by three openers: `{{` for an expression, `{%` for a
block, `{#` for a comment. A `-` directly inside an opener or a closer removes
the blanks of the data beside it.

The lexer is a machine that recognises one lexeme per step: `step` says what a
state recognises and where it goes on, and every step leaves less to do
(`weight_lt_of_step`). `scan` runs it to the end of the text or to the first
error, without regard to the number of tokens; `tokenize` then counts what was
recognised against the limit, so that the error of the first token too many
and a lexical error are reported in the order of the text.
-/

namespace QueryMachine

namespace Lexer

/-- The two kinds of tags. -/
inductive TagKind where
  /-- `{{ … }}` -/
  | expression
  /-- `{% … %}` -/
  | block
  deriving DecidableEq, Repr

/-- What a `{` can open. -/
inductive Opener where
  | tag (kind : TagKind)
  | comment
  deriving DecidableEq, Repr

namespace TagKind

/-- The token of a tag's opener. -/
def beginToken : TagKind → Token
  | expression => .variableBegin
  | block => .blockBegin

/-- The token of a tag's closer. -/
def endToken : TagKind → Token
  | expression => .variableEnd
  | block => .blockEnd

/-- The character before the `}` of a tag's closer. -/
def closeMark : TagKind → Char
  | expression => '\x7d'
  | block => '%'

end TagKind

/-- The character after the `{` of an opener. -/
def Opener.mark : Opener → Char
  | tag .expression => '\x7b'
  | tag .block => '%'
  | comment => '#'

/-- The opener a text begins with, and the text after its two characters. -/
def openerAt : List Char → Option (Opener × List Char)
  | '\x7b' :: '\x7b' :: cs => some (.tag .expression, cs)
  | '\x7b' :: '%' :: cs => some (.tag .block, cs)
  | '\x7b' :: '#' :: cs => some (.comment, cs)
  | _ => none

/-- A closer at the start of a text: its characters, whether it removes the
blanks after it, and the text after it. -/
structure Closer where
  lexeme : List Char
  trims : Bool
  after : List Char

/-- The closer of a tag, with or without `-`, at the start of a text. -/
def closerAt (kind : TagKind) : List Char → Option Closer
  | a :: b :: cs =>
    if a = kind.closeMark ∧ b = '\x7d' then some ⟨[a, b], false, cs⟩
    else if a = '-' ∧ b = kind.closeMark then
      match cs with
      | '\x7d' :: cs => some ⟨[a, b, '\x7d'], true, cs⟩
      | _ => none
    else none
  | _ => none

/-- Whether a text begins with the end of a comment. -/
def closesComment : List Char → Bool
  | '#' :: '\x7d' :: _ => true
  | _ => false

/-- What the machine is reading. -/
inductive Mode where
  /-- Data; `trim` says whether the closer before it removes its first blanks. -/
  | data (trim : Bool)
  /-- The rest of an opener, its first two characters already passed. -/
  | opener (kind : Opener)
  /-- The content of a tag. -/
  | tag (kind : TagKind) (opened : Span)
  deriving DecidableEq, Repr

/-- A state of the machine: what it reads, where it stands, what is left. In
mode `opener` the position is that of the opener's `{`. -/
structure State where
  mode : Mode
  pos : Position
  rest : List Char

/-- What the machine recognises: a token, or a whole comment. -/
inductive Lexeme where
  | token (token : Located Token)
  | comment
  deriving DecidableEq, Repr

/-- The outcome of a step. -/
inductive Step where
  /-- At most one lexeme, and the state to go on with. -/
  | more (lexeme : Option Lexeme) (next : State)
  /-- The end marker. -/
  | finished (marker : Located Token)
  | failed (error : LexError)

/-! ## Data -/

/-- The token of a run of data, without the blanks that its neighbours remove;
none if nothing remains. -/
def dataToken (trimFirst trimLast : Bool) (pos : Position) (run : List Char) :
    Option (Located Token) :=
  let blanks := if trimFirst then run.takeWhile Text.isBlank else []
  let text := if trimFirst then Text.trimStart run else run
  let text := if trimLast then Text.trimEnd text else text
  let start := pos.advanceOver blanks
  if text.isEmpty then none
  else some ⟨.data (String.ofList text), ⟨start, start.advanceOver text⟩⟩

/-- Whether the text inside an opener begins with `-`. -/
def beginsWithDash : List Char → Bool
  | '-' :: _ => true
  | _ => false

/-- Reads data up to the next opener or the end of the text. -/
def stepData (trim : Bool) (pos : Position) (cs : List Char) : Step :=
  match cs with
  | [] => .finished ⟨.eof, .point pos⟩
  | _ :: _ =>
    let run := Text.breakAt (fun cs => (openerAt cs).isSome) cs
    let stop := pos.advanceOver run.1
    match openerAt run.2 with
    | some (kind, inside) =>
      .more ((dataToken trim (beginsWithDash inside) pos run.1).map .token)
        ⟨.opener kind, stop, inside⟩
    | none => .more ((dataToken trim false pos run.1).map .token) ⟨.data false, stop, []⟩

/-! ## Openers and comments -/

/-- The place and the text after the `-` that may follow an opener. -/
def skipDash (pos : Position) (cs : List Char) : Position × List Char :=
  if beginsWithDash cs then (pos.advance '-', cs.tail) else (pos, cs)

/-- Reads a comment to its end. -/
def stepComment (opened : Span) (pos : Position) (cs : List Char) : Step :=
  let body := Text.breakAt closesComment cs
  match body.2 with
  | [] => .failed (.unterminatedComment opened)
  | rest =>
    let stop := (pos.advanceOver body.1).advanceOver ['#', '\x7d']
    .more (some .comment) ⟨.data (body.1.getLast? == some '-'), stop, rest.drop 2⟩

/-- Reads the rest of an opener. -/
def stepOpener (kind : Opener) (pos : Position) (cs : List Char) : Step :=
  let inside := skipDash (pos.advanceOver ['\x7b', kind.mark]) cs
  let opened : Span := ⟨pos, inside.1⟩
  match kind with
  | .tag kind =>
    .more (some (.token ⟨kind.beginToken, opened⟩)) ⟨.tag kind opened, inside.1, inside.2⟩
  | .comment => stepComment opened inside.1 inside.2

/-! ## Tag content -/

/-- A character that can begin a name. -/
def isNameStart (c : Char) : Bool := c.isAlpha || c == '_'

/-- A character of a name or of a number. -/
def isWordChar (c : Char) : Bool := c.isAlphanum || c == '_'

/-- The largest integer literal: the largest signed word of 64 bits. -/
def maxInteger : Nat := 9223372036854775807

/-- The value of a digit. -/
def digitValue (c : Char) : Nat := c.toNat - '0'.toNat

/-- The value of a word of digits that continues the number `value`, if all of
it are digits and the value never passes `maxInteger`. -/
def integerFrom (value : Nat) : List Char → Option Nat
  | [] => some value
  | c :: cs =>
    let next := value * 10 + digitValue c
    if c.isDigit ∧ next ≤ maxInteger then integerFrom next cs else none

/-- A word of a tag, from its first character on: the word, the place after it
and the text after it. -/
def readWord (start : Position) (c : Char) (cs : List Char) :
    List Char × Position × List Char :=
  let word := c :: cs.takeWhile isWordChar
  (word, start.advanceOver word, cs.dropWhile isWordChar)

/-- A name of at most the largest length. -/
def nameToken (start : Position) (word : List Char) (stop : Position) :
    Except LexError Token :=
  if word.length > Limits.maxNameLength then
    .error (.nameTooLong word.length ⟨start, stop⟩)
  else .ok (.name (String.ofList word))

/-- A decimal integer of at most `maxInteger`. -/
def integerToken (start : Position) (word : List Char) (stop : Position) :
    Except LexError Token :=
  match integerFrom 0 word with
  | some value => .ok (.integer value)
  | none => .error (.invalidNumber (String.ofList word) ⟨start, stop⟩)

/-- The character that an escape stands for. -/
def unescape : Char → Char
  | 'n' => '\n'
  | 't' => '\t'
  | 'r' => '\r'
  | c => c

/-- How reading a string literal ends. -/
inductive StringEnd where
  | closed (value : List Char) (stop : Position) (after : List Char)
  | unterminated (stop : Position)
  | tooLarge (size : Nat) (stop : Position)

/-- Reads a string literal to its closing quote. `value` holds the reversed
characters so far and `size` their bytes; the size is checked after each of
them. -/
def readString (quote : Char) (value : List Char) (size : Nat) (pos : Position) :
    List Char → StringEnd
  | [] => .unterminated pos
  | c :: cs =>
    if c = quote then .closed value.reverse (pos.advance c) cs
    else if c = '\\' then
      match cs with
      | [] => .unterminated (pos.advance c)
      | e :: cs =>
        let stop := (pos.advance c).advance e
        let size := size + (unescape e).utf8Size
        if size > Limits.maxStringSize then .tooLarge size stop
        else readString quote (unescape e :: value) size stop cs
    else
      let stop := pos.advance c
      let size := size + c.utf8Size
      if size > Limits.maxStringSize then .tooLarge size stop
      else readString quote (c :: value) size stop cs

/-- The punctuation of tags. -/
def punctuation? : Char → Option Token
  | '(' => some .leftParen
  | ')' => some .rightParen
  | ',' => some .comma
  | '=' => some .assign
  | '-' => some .minus
  | _ => none

/-- Reads one token inside a tag: the token, the place and the text after it. -/
def readToken (start : Position) (c : Char) (cs : List Char) :
    Except LexError (Token × Position × List Char) :=
  if isNameStart c then
    let word := readWord start c cs
    (nameToken start word.1 word.2.1).map (·, word.2)
  else if c.isDigit then
    let word := readWord start c cs
    (integerToken start word.1 word.2.1).map (·, word.2)
  else if c = '"' ∨ c = '\'' then
    match readString c [] 0 (start.advance c) cs with
    | .closed value stop after => .ok (.string (String.ofList value), stop, after)
    | .unterminated stop => .error (.unterminatedString ⟨start, stop⟩)
    | .tooLarge size stop => .error (.stringTooLarge size ⟨start, stop⟩)
  else
    match punctuation? c with
    | some token => .ok (token, start.advance c, cs)
    | none => .error (.unexpectedCharacter c ⟨start, start.advance c⟩)

/-- Reads the next token of a tag, or its closer. -/
def stepTag (kind : TagKind) (opened : Span) (pos : Position) (cs : List Char) : Step :=
  let start := pos.advanceOver (cs.takeWhile Text.isBlank)
  match Text.trimStart cs with
  | [] => .failed (.unterminatedTag opened)
  | c :: cs =>
    match closerAt kind (c :: cs) with
    | some closer =>
      let stop := start.advanceOver closer.lexeme
      .more (some (.token ⟨kind.endToken, ⟨start, stop⟩⟩))
        ⟨.data closer.trims, stop, closer.after⟩
    | none =>
      match readToken start c cs with
      | .ok (token, stop, after) =>
        .more (some (.token ⟨token, ⟨start, stop⟩⟩)) ⟨.tag kind opened, stop, after⟩
      | .error error => .failed error

/-! ## The machine -/

/-- One step of the machine. -/
def step (s : State) : Step :=
  match s.mode with
  | .data trim => stepData trim s.pos s.rest
  | .opener kind => stepOpener kind s.pos s.rest
  | .tag kind opened => stepTag kind opened s.pos s.rest

/-- What a state has still to do. An opener may be passed without reading a
character. -/
def State.weight (s : State) : Nat :=
  match s.mode with
  | .opener _ => 2 * s.rest.length + 1
  | _ => 2 * s.rest.length

theorem length_of_openerAt {cs inside : List Char} {kind : Opener}
    (h : openerAt cs = some (kind, inside)) : inside.length + 2 = cs.length := by
  unfold openerAt at h
  split at h <;> simp_all

theorem length_of_closerAt {kind : TagKind} {cs : List Char} {closer : Closer}
    (h : closerAt kind cs = some closer) : closer.after.length < cs.length := by
  unfold closerAt at h
  split at h
  · split at h
    · simp only [Option.some.injEq] at h
      subst h
      simp only [List.length_cons]
      omega
    · split at h
      · split at h
        · simp only [Option.some.injEq] at h
          subst h
          simp only [List.length_cons]
          omega
        · simp at h
      · simp at h
  · simp at h

theorem length_of_readString {quote : Char} {value cs : List Char} {size : Nat}
    {pos : Position} {result : List Char} {stop : Position} {after : List Char}
    (h : readString quote value size pos cs = .closed result stop after) :
    after.length < cs.length := by
  fun_induction readString quote value size pos cs with
  | case1 => simp at h
  | case2 => simp_all
  | case3 => simp at h
  | case4 => simp at h
  | case5 _ _ _ _ _ _ _ _ _ ih =>
    have := ih h
    simp only [List.length_cons]
    omega
  | case6 => simp at h
  | case7 _ _ _ _ _ _ _ _ _ _ ih =>
    have := ih h
    simp only [List.length_cons]
    omega

theorem length_dropWhile_le (p : Char → Bool) (cs : List Char) :
    (cs.dropWhile p).length ≤ cs.length :=
  (List.dropWhile_suffix p).length_le

theorem length_of_readToken {start : Position} {c : Char} {cs : List Char}
    {token : Token} {stop : Position} {after : List Char}
    (h : readToken start c cs = .ok (token, stop, after)) : after.length ≤ cs.length := by
  have hword := length_dropWhile_le isWordChar cs
  unfold readToken at h
  split at h
  · simp only [nameToken] at h
    split at h
    · simp [Except.map] at h
    · simp only [Except.map, readWord, Except.ok.injEq, Prod.mk.injEq] at h
      rw [← h.2.2]
      exact hword
  · split at h
    · simp only [integerToken] at h
      split at h
      · simp only [Except.map, readWord, Except.ok.injEq, Prod.mk.injEq] at h
        rw [← h.2.2]
        exact hword
      · simp [Except.map] at h
    · split at h
      · split at h
        · rename_i hread
          simp only [Except.ok.injEq, Prod.mk.injEq] at h
          rw [← h.2.2]
          exact Nat.le_of_lt (length_of_readString hread)
        · simp at h
        · simp at h
      · split at h
        · simp only [Except.ok.injEq, Prod.mk.injEq] at h
          exact Nat.le_of_eq (congrArg List.length h.2.2).symm
        · simp at h

theorem weight_lt_of_stepData {trim : Bool} {pos : Position} {cs : List Char}
    {lexeme : Option Lexeme} {next : State}
    (h : stepData trim pos cs = .more lexeme next) : next.weight < 2 * cs.length := by
  unfold stepData at h
  split at h
  · simp at h
  · rename_i c cs
    have hle := Text.length_breakAt_snd_le (fun cs => (openerAt cs).isSome) (c :: cs)
    simp only at h
    split at h
    · rename_i hopen
      have hlen := length_of_openerAt hopen
      simp only [Step.more.injEq] at h
      rw [← h.2]
      simp only [State.weight]
      omega
    · simp only [Step.more.injEq] at h
      rw [← h.2]
      simp [State.weight]

theorem length_skipDash_le (pos : Position) (cs : List Char) :
    (skipDash pos cs).2.length ≤ cs.length := by
  unfold skipDash
  split <;> simp

theorem weight_lt_of_stepComment {opened : Span} {pos : Position} {cs : List Char}
    {lexeme : Option Lexeme} {next : State}
    (h : stepComment opened pos cs = .more lexeme next) :
    next.weight < 2 * cs.length + 1 := by
  have hle := Text.length_breakAt_snd_le closesComment cs
  unfold stepComment at h
  simp only at h
  split at h
  · simp at h
  · simp only [Step.more.injEq] at h
    rw [← h.2]
    simp only [State.weight, List.length_drop]
    omega

theorem weight_lt_of_stepOpener {kind : Opener} {pos : Position} {cs : List Char}
    {lexeme : Option Lexeme} {next : State}
    (h : stepOpener kind pos cs = .more lexeme next) :
    next.weight < 2 * cs.length + 1 := by
  have hle := length_skipDash_le (pos.advanceOver ['\x7b', kind.mark]) cs
  unfold stepOpener at h
  cases kind with
  | tag kind =>
    simp only [Step.more.injEq] at h
    rw [← h.2]
    simp only [State.weight]
    omega
  | comment =>
    have := weight_lt_of_stepComment h
    omega

theorem weight_lt_of_stepTag {kind : TagKind} {opened : Span} {pos : Position}
    {cs : List Char} {lexeme : Option Lexeme} {next : State}
    (h : stepTag kind opened pos cs = .more lexeme next) : next.weight < 2 * cs.length := by
  have hle := length_dropWhile_le Text.isBlank cs
  unfold stepTag at h
  simp only [Text.trimStart] at h
  split at h
  · simp at h
  · rename_i c rest hrest
    rw [hrest, List.length_cons] at hle
    split at h
    · rename_i hclose
      have hlen := length_of_closerAt hclose
      rw [List.length_cons] at hlen
      simp only [Step.more.injEq] at h
      rw [← h.2]
      simp only [State.weight]
      omega
    · split at h
      · rename_i hread
        have hlen := length_of_readToken hread
        simp only [Step.more.injEq] at h
        rw [← h.2]
        simp only [State.weight]
        omega
      · simp at h

/-- Every step leaves less to do. -/
theorem weight_lt_of_step {s next : State} {lexeme : Option Lexeme}
    (h : step s = .more lexeme next) : next.weight < s.weight := by
  unfold step at h
  split at h
  · rename_i hmode
    simpa [State.weight, hmode] using weight_lt_of_stepData h
  · rename_i hmode
    simpa [State.weight, hmode] using weight_lt_of_stepOpener h
  · rename_i hmode
    simpa [State.weight, hmode] using weight_lt_of_stepTag h

/-- Everything recognised in a text, up to the error that stopped the machine
if there was one. -/
structure Trace where
  lexemes : Array Lexeme
  failure : Option LexError

/-- Runs the machine from a state, after the lexemes recognised before. -/
def runFrom (s : State) (before : Array Lexeme) : Trace :=
  match _h : step s with
  | .more (some lexeme) next => runFrom next (before.push lexeme)
  | .more none next => runFrom next before
  | .finished marker => ⟨before.push (.token marker), none⟩
  | .failed error => ⟨before, some error⟩
termination_by s.weight
decreasing_by all_goals exact weight_lt_of_step _h

/-- Runs the machine on a whole text. -/
def scan (cs : List Char) : Trace :=
  runFrom ⟨.data false, .start, cs⟩ #[]

end Lexer

/-- The tokens and the number of comments recognised in a text. -/
structure Lexed where
  tokens : Array (Located Token) := #[]
  comments : Nat := 0

/-- An error, with what was recognised before it. -/
structure LexFailure where
  error : LexError
  seen : Lexed

namespace Lexer

/-- Counts one more lexeme; a token beyond the limit is refused. -/
def count (seen : Lexed) : Lexeme → Except LexFailure Lexed
  | .comment => .ok { seen with comments := seen.comments + 1 }
  | .token token =>
    if seen.tokens.size < Limits.maxTokenCount then
      .ok { seen with tokens := seen.tokens.push token }
    else .error ⟨.tooManyTokens (seen.tokens.size + 1) token.span, seen⟩

/-- Counts lexemes in order, up to the first that is refused. -/
def countFrom (seen : Lexed) : List Lexeme → Except LexFailure Lexed
  | [] => .ok seen
  | lexeme :: rest =>
    match count seen lexeme with
    | .ok seen => countFrom seen rest
    | .error failure => .error failure

/-- What a trace amounts to under the limit on tokens. -/
def Trace.result (trace : Trace) : Except LexFailure Lexed :=
  match countFrom {} trace.lexemes.toList, trace.failure with
  | .error failure, _ => .error failure
  | .ok seen, some error => .error ⟨error, seen⟩
  | .ok seen, none => .ok seen

/-- Cuts a template into tokens. The last one is the end marker. -/
def tokenize (source : String) : Except LexFailure Lexed :=
  (scan source.toList).result

end Lexer

end QueryMachine
