import QueryMachine.Proofs.Token.RoundTrip
import QueryMachine.Proofs.Token.WellFormed

/-!
# Numbers in tags

A word of a tag that begins with a digit is a number or an error, and which of the two
depends on the word alone. The lexer looks at the number after every digit; here it is
looked at once, as the number that the whole word denotes (`step_number`). Numbers only
grow as digits are read, which is why the two agree.

A number is printed by its digits without superfluous zeros. That is its numeral
(`IsNumeral`), stated without the printer, and it is the only one the printer can give.
-/

namespace QueryMachine.Lexer

/-! ## Numerals -/

theorem decimal_eq_ofDigitChars (cs : List Char) : decimal cs = Nat.ofDigitChars 10 cs 0 := by
  induction cs using List.reverseRecOn with
  | nil => rfl
  | append_singleton cs c ih =>
    rw [Nat.ofDigitChars_append, ← ih, decimal, decimal, List.reverse_append,
      List.reverse_singleton, List.singleton_append, List.map_cons, Nat.ofDigits_cons,
      Nat.add_comm]
    rfl

/-- The digits of a number, without zeros in front of them. -/
structure IsNumeral (n : Nat) (digits : List Char) : Prop where
  nonempty : digits ≠ []
  all_digits : ∀ c ∈ digits, c.isDigit = true
  value : decimal digits = n
  lead : digits.head? = some '0' → digits = ['0']

theorem digitChar_digitValue {c : Char} (h : c.isDigit = true) :
    digitValue c < 10 ∧ (digitValue c).digitChar = c := by
  have hc : 48 ≤ c.toNat ∧ c.toNat ≤ 57 := by
    simp only [Char.isDigit, Bool.and_eq_true, decide_eq_true_eq] at h
    exact h
  have hvalue : digitValue c = c.toNat - 48 := rfl
  refine ⟨by omega, Char.toNat_inj.mp ?_⟩
  rw [Nat.toNat_digitChar_of_lt_ten (by omega)]
  omega

/-- A number that is not zero is printed in front of the digits that follow it. -/
theorem toDigits_append {n : Nat} (hn : 0 < n) {cs : List Char}
    (hcs : ∀ c ∈ cs, c.isDigit = true) :
    Nat.toDigits 10 n ++ cs = Nat.toDigits 10 (Nat.ofDigitChars 10 cs n) := by
  induction cs generalizing n with
  | nil => rw [List.append_nil, Nat.ofDigitChars_nil]
  | cons c cs ih =>
    rw [List.forall_mem_cons] at hcs
    obtain ⟨hlt, hchar⟩ := digitChar_digitValue hcs.1
    have hone : Nat.toDigits 10 n ++ [c] = Nat.toDigits 10 (10 * n + digitValue c) := by
      rw [← Nat.toDigits_append_toDigits (by decide) hn hlt, Nat.toDigits_of_lt_base hlt, hchar]
    calc Nat.toDigits 10 n ++ c :: cs
        = Nat.toDigits 10 n ++ [c] ++ cs := by rw [List.append_assoc, List.singleton_append]
      _ = Nat.toDigits 10 (Nat.ofDigitChars 10 cs (10 * n + digitValue c)) := by
        rw [hone, ih (by omega) hcs.2]
      _ = Nat.toDigits 10 (Nat.ofDigitChars 10 (c :: cs) n) := by
        rw [Nat.ofDigitChars_cons]
        rfl

theorem head?_toDigits_ne {n : Nat} (hn : 0 < n) : (Nat.toDigits 10 n).head? ≠ some '0' := by
  induction n using Nat.strongRecOn with
  | ind n ih =>
    by_cases hlt : n < 10
    · rw [Nat.toDigits_of_lt_base hlt]
      interval_cases n <;> decide
    · -- The leading digit of a longer number is that of its tenth part.
      have htenth : Nat.toDigits 10 n = Nat.toDigits 10 (n / 10) ++ Nat.toDigits 10 (n % 10) := by
        rw [Nat.toDigits_append_toDigits (by decide) (by omega) (Nat.mod_lt _ (by decide)),
          Nat.div_add_mod]
      rw [htenth, List.head?_append_of_ne_nil _ Nat.toDigits_ne_nil]
      exact ih (n / 10) (by omega) (by omega)

/-- A number has one numeral, and that is what is printed for it. -/
theorem isNumeral_iff {n : Nat} {digits : List Char} :
    IsNumeral n digits ↔ digits = Nat.toDigits 10 n := by
  constructor
  · rintro ⟨hne, hdigits, rfl, hlead⟩
    obtain ⟨c, cs, rfl⟩ := List.exists_cons_of_ne_nil hne
    by_cases hzero : c = '0'
    · rw [hlead (by rw [hzero]; rfl)]
      decide
    · rw [List.forall_mem_cons] at hdigits
      obtain ⟨hlt, hchar⟩ := digitChar_digitValue hdigits.1
      have hpos : 0 < digitValue c := by
        rw [Nat.pos_iff_ne_zero]
        intro hvalue
        rw [hvalue] at hchar
        exact hzero hchar.symm
      have hprint := toDigits_append hpos hdigits.2
      rw [Nat.toDigits_of_lt_base hlt, hchar, List.singleton_append] at hprint
      have hvalue : decimal (c :: cs) = Nat.ofDigitChars 10 cs (digitValue c) := by
        rw [decimal_eq_ofDigitChars, Nat.ofDigitChars_cons, Nat.mul_zero, Nat.zero_add]
        rfl
      rw [hvalue, ← hprint]
  · rintro rfl
    refine ⟨Nat.toDigits_ne_nil, ?_, ?_, ?_⟩
    · intro c hc
      exact Nat.isDigit_of_mem_toDigits (by decide) (by decide) hc
    · rw [decimal_eq_ofDigitChars, Nat.ofDigitChars_ten_toDigits]
    · intro hhead
      rcases Nat.eq_zero_or_pos n with rfl | hpos
      · decide
      · exact absurd hhead (head?_toDigits_ne hpos)

/-! ## Words that begin with a digit -/

theorem integerFrom_eq_some_iff {cs : List Char} {n : Nat} :
    integerFrom 0 cs = some n ↔
      ((∀ c ∈ cs, c.isDigit = true) ∧ decimal cs ≤ maxInteger) ∧ decimal cs = n := by
  constructor
  · intro h
    obtain ⟨hdigits, hvalue⟩ := integerFrom_eq_some h
    rw [Nat.zero_mul, Nat.zero_add] at hvalue
    subst hvalue
    exact ⟨⟨hdigits, integerFrom_le (Nat.zero_le _) h⟩, rfl⟩
  · rintro ⟨⟨hdigits, hle⟩, rfl⟩
    rw [decimal_eq_ofDigitChars] at hle ⊢
    exact integerFrom_eq hdigits hle

theorem integerToken_eq (start stop : Position) (word : List Char) :
    integerToken start word stop
      = if (∀ c ∈ word, c.isDigit = true) ∧ decimal word ≤ maxInteger then
          .ok (.integer (decimal word))
        else .error (.invalidNumber (String.ofList word) ⟨start, stop⟩) := by
  unfold integerToken
  split_ifs with h
  · rw [integerFrom_eq_some_iff.mpr ⟨h, rfl⟩]
  · cases hvalue : integerFrom 0 word with
    | none => rfl
    | some n => exact absurd (integerFrom_eq_some_iff.mp hvalue).1 h

/-- What is read in a tag where, behind some blanks, a word begins with a digit. -/
theorem step_number (kind : TagKind) (opened : Span) (pos : Position) {blanks : List Char}
    (hblanks : ∀ b ∈ blanks, Text.isBlank b = true) {c : Char} (hc : c.isDigit = true)
    (cs : List Char) :
    step ⟨.tag kind opened, pos, blanks ++ c :: cs⟩
      = let word := c :: cs.takeWhile isWordChar
        let start := pos.advanceOver blanks
        let span : Span := ⟨start, start.advanceOver word⟩
        if (∀ d ∈ word, d.isDigit = true) ∧ decimal word ≤ maxInteger then
          .more (some (.token ⟨.integer (decimal word), span⟩))
            ⟨.tag kind opened, span.stop, cs.dropWhile isWordChar⟩
        else .failed (.invalidNumber (String.ofList word) span) := by
  have hword := isWordChar_of_isDigit hc
  have hclose : closerAt kind (c :: cs) = none := by
    have hmark : c ≠ kind.closeMark := (begins_word hword []).not_closer kind
    have hdash : c ≠ '-' := by
      rintro rfl
      cases hc
    cases cs <;> simp [closerAt, hmark, hdash]
  have hstep : step ⟨.tag kind opened, pos, blanks ++ c :: cs⟩ = _ :=
    stepTag_blanks kind opened pos hblanks (isBlank_of_isWordChar hword) cs
  rw [hstep, hclose]
  simp only [readToken, isNameStart_of_isDigit hc, hc, if_true, Bool.false_eq_true, if_false,
    readWord, integerToken_eq]
  split_ifs <;> rfl

end QueryMachine.Lexer
