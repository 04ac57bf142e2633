import Mathlib
import Bhasha.Proofs.Number.Nearest
import Bhasha.Proofs.Number.Numeral
import Bhasha.Value

namespace Bhasha

/-!
# The numbers that texts denote

Beside a number a text without its outer blanks denotes zero when nothing is left,
an infinity when it is its word, the number nearest to the digits of a marked radix,
and the number nearest to a decimal.  A number is loosely equal to a text exactly if
the text denotes it, as long as 64 bits hold the digits of a marked radix: a longer
text denotes a number but is read as none.
-/

namespace Reading

open Binary64

/-- A letter after a zero marks a radix. -/
inductive MarksRadix : Char → Nat → Prop where
  | hexadecimal {mark : Char} (marked : mark = 'x' ∨ mark = 'X') : MarksRadix mark 16
  | octal {mark : Char} (marked : mark = 'o' ∨ mark = 'O') : MarksRadix mark 8
  | binary {mark : Char} (marked : mark = 'b' ∨ mark = 'B') : MarksRadix mark 2

/-- A text that is a zero, the mark of a radix, and digits of that radix. -/
inductive WritesRadix : List Char → Nat → Prop where
  | intro
      {mark : Char} {radix : Nat} {body : List Char} {values : List Nat}
      (marked : MarksRadix mark radix)
      (nonempty : body ≠ [])
      (digits : body.mapM (digitValue? radix) = some values) :
      WritesRadix ('0' :: mark :: body) (Nat.ofDigits radix values.reverse)

/-- A text without outer blanks denotes a number. -/
inductive Denotes : List Char → Float → Prop where
  | zero
      {x : Float}
      (isZero : (x == 0.0) = true) :
      Denotes [] x
  | infinity
      {negative : Bool} {sign : List Char}
      (signed : IsSign negative sign) :
      Denotes (sign ++ "Infinity".toList) (if negative then -1.0 / 0.0 else 1.0 / 0.0)
  | radix
      {text : List Char} {n : Nat} {x : Float}
      (writes : WritesRadix text n)
      (nearest : IsNearest x n) :
      Denotes text x
  | decimal
      {text whole fraction : List Char} {negative : Bool} {power : ℤ} {x : Float}
      (writes : WritesDecimal text negative whole fraction power)
      (nearest :
        IsNearest x ((if negative then -1 else 1) * (written whole fraction power).value)) :
      Denotes text x

/-- The number with one digit of a radix more at its end. -/
def appendRadix (radix value digit : Nat) : Nat := radix * value + digit

/-- Digits at the end of a number do not make it smaller. -/
theorem le_foldl_appendRadix
    {radix : Nat}
    (positive : 0 < radix)
    (values : List Nat) :
    ∀ start, start ≤ values.foldl (appendRadix radix) start := by
  induction values with
  | nil =>
      exact Nat.le_refl
  | cons digit values inductionHypothesis =>
      intro start
      have grows : start ≤ appendRadix radix start digit :=
        Nat.le_add_right_of_le (Nat.le_mul_of_pos_left start positive)
      exact grows.trans (inductionHypothesis _)

/-- A number stays below a limit after every digit if it does so after the last. -/
theorem foldlM_appendRadix
    {radix : Nat}
    (positive : 0 < radix)
    (limit : Nat)
    (text : List Char) :
    ∀ {start : Nat}, start < limit →
      text.foldlM
          (fun value c =>
            ((digitValue? radix c).map (appendRadix radix value)).filter (· < limit))
          start =
        ((text.mapM (digitValue? radix)).map
          (List.foldl (appendRadix radix) start)).filter (· < limit) := by
  induction text with
  | nil =>
      intro start small
      simp [Option.filter_some, small]
  | cons c text inductionHypothesis =>
      intro start small
      rw [List.foldlM_cons, List.mapM_cons]
      cases digitValue? radix c with
      | none =>
          rfl
      | some digit =>
          by_cases fits : appendRadix radix start digit < limit
          · simp only [Option.map_some, Option.filter_some, decide_eq_true fits, if_true,
              Option.bind_eq_bind, Option.bind_some, inductionHypothesis fits]
            cases text.mapM (digitValue? radix) <;> rfl
          · simp only [Option.map_some, Option.filter_some, decide_eq_false fits,
              Bool.false_eq_true, if_false, Option.bind_eq_bind, Option.bind_none,
              Option.bind_some]
            cases text.mapM (digitValue? radix) with
            | none =>
                rfl
            | some values =>
                have grows :=
                  le_foldl_appendRadix positive values (appendRadix radix start digit)
                have beyond :
                    ¬ values.foldl (appendRadix radix) (appendRadix radix start digit) <
                      limit := by
                  omega
                exact (if_neg (mt of_decide_eq_true beyond)).symm

/-- Digits of a radix, the last one first, write the number that they are appended to. -/
theorem ofDigits_reverse (radix : Nat) (values : List Nat) :
    Nat.ofDigits radix values.reverse = values.foldl (appendRadix radix) 0 := by
  induction values using List.reverseRecOn with
  | nil =>
      rfl
  | append_singleton values digit inductionHypothesis =>
      rw [List.reverse_concat, Nat.ofDigits_cons, inductionHypothesis, List.foldl_append]
      exact Nat.add_comm _ _

/-- Digits of a radix are read as the number that they write, if 64 bits hold it. -/
theorem radixDigits?_eq
    {radix : Nat} {text : List Char}
    (positive : 0 < radix)
    (nonempty : text ≠ []) :
    radixDigits? radix text =
      ((text.mapM (digitValue? radix)).map fun values => Nat.ofDigits radix values.reverse).filter
        (· < 2 ^ 64) := by
  simp only [ofDigits_reverse]
  unfold radixDigits?
  split
  · exact absurd rfl nonempty
  · exact foldlM_appendRadix positive (2 ^ 64) text (Nat.two_pow_pos 64)

theorem MarksRadix.pos
    {mark : Char} {radix : Nat}
    (marked : MarksRadix mark radix) :
    0 < radix := by
  cases marked <;> decide

theorem readTrimmed?_of_marksRadix
    {mark : Char} {radix : Nat}
    (marked : MarksRadix mark radix)
    (body : List Char) :
    readTrimmed? ('0' :: mark :: body) = readRadix? radix body := by
  cases marked with
  | hexadecimal marked | octal marked | binary marked =>
      rcases marked with rfl | rfl <;> rfl

/-- Digits of a marked radix are read as the number nearest to them, if 64 bits hold them. -/
theorem readTrimmed?_of_writesRadix
    {text : List Char} {n : Nat}
    (writes : WritesRadix text n) :
    readTrimmed? text = if n < 2 ^ 64 then some (ofNat n) else none := by
  cases writes with
  | intro marked nonempty digits =>
      rw [readTrimmed?_of_marksRadix marked, readRadix?, radixDigits?_eq marked.pos nonempty,
        digits, Option.map_some, Option.filter_some]
      simp only [decide_eq_true_eq]
      split <;> rfl

/-- What is read after the mark of a radix are digits of it. -/
theorem exists_writesRadix
    {mark : Char} {radix : Nat} {body : List Char} {x : Float}
    (marked : MarksRadix mark radix)
    (read : readTrimmed? ('0' :: mark :: body) = some x) :
    ∃ n, WritesRadix ('0' :: mark :: body) n := by
  rw [readTrimmed?_of_marksRadix marked, readRadix?] at read
  obtain ⟨n, found, -⟩ := Option.map_eq_some_iff.mp read
  have nonempty : body ≠ [] := by
    rintro rfl
    cases found
  rw [radixDigits?_eq marked.pos nonempty, Option.filter_eq_some_iff,
    Option.map_eq_some_iff] at found
  obtain ⟨⟨values, digits, -⟩, -⟩ := found
  exact ⟨_, .intro marked nonempty digits⟩

/-- A text is empty, or it starts with the mark of a radix, or it is read as a word or a decimal. -/
theorem readTrimmed?_cases (text : List Char) :
    text = [] ∨
      (∃ mark radix body, MarksRadix mark radix ∧ text = '0' :: mark :: body) ∨
      readTrimmed? text =
        if (splitSign text).2 = "Infinity".toList then
          some (ofCode (splitSign text).1 infinity)
        else readDecimal? text := by
  unfold readTrimmed?
  split
  case h_1 => exact .inl rfl
  case h_2 body => exact .inr (.inl ⟨_, _, body, .hexadecimal (.inl rfl), rfl⟩)
  case h_3 body => exact .inr (.inl ⟨_, _, body, .hexadecimal (.inr rfl), rfl⟩)
  case h_4 body => exact .inr (.inl ⟨_, _, body, .octal (.inl rfl), rfl⟩)
  case h_5 body => exact .inr (.inl ⟨_, _, body, .octal (.inr rfl), rfl⟩)
  case h_6 body => exact .inr (.inl ⟨_, _, body, .binary (.inl rfl), rfl⟩)
  case h_7 body => exact .inr (.inl ⟨_, _, body, .binary (.inr rfl), rfl⟩)
  case h_8 => exact .inr (.inr rfl)

/-- The characters of decimals. -/
def isDecimalPart (c : Char) : Bool :=
  isDigit c || c = '.' || c = '-' || c = '+' || c = 'e' || c = 'E'

theorem IsSign.all_isDecimalPart
    {negative : Bool} {sign : List Char}
    (signed : IsSign negative sign) :
    sign.all isDecimalPart = true := by
  cases signed <;> decide

theorem all_isDecimalPart_of_digits
    {text : List Char}
    (digits : text.all isDigit = true) :
    text.all isDecimalPart = true := by
  rw [List.all_eq_true] at digits ⊢
  intro c member
  simp [isDecimalPart, digits c member]

/-- A decimal is written with the characters of decimals only. -/
theorem WritesDecimal.all_isDecimalPart
    {text whole fraction : List Char} {negative : Bool} {power : ℤ}
    (writes : WritesDecimal text negative whole fraction power) :
    text.all isDecimalPart = true := by
  cases writes with
  | @intro negative sign mantissa whole fraction tail power signed digits scaled =>
      have front : mantissa.all isDecimalPart = true := by
        cases digits with
        | whole some digits =>
            exact all_isDecimalPart_of_digits digits
        | pointed some digits decimals =>
            have point : isDecimalPart '.' = true := by
              decide
            rw [List.all_append, List.all_cons, all_isDecimalPart_of_digits digits,
              all_isDecimalPart_of_digits decimals, point]
            rfl
      have behind : tail.all isDecimalPart = true := by
        cases scaled with
        | none =>
            rfl
        | @written mark _ _ _ marked sign some digits =>
            have letter : isDecimalPart mark = true := by
              rcases marked with rfl | rfl <;> decide
            rw [List.all_cons, List.all_append, letter, sign.all_isDecimalPart,
              all_isDecimalPart_of_digits digits]
            rfl
      rw [List.all_append, List.all_append, signed.all_isDecimalPart, front, behind]
      rfl

/-- A decimal is read as one: it is neither empty, nor marked, nor a word. -/
theorem readTrimmed?_of_writesDecimal
    {text whole fraction : List Char} {negative : Bool} {power : ℤ}
    (writes : WritesDecimal text negative whole fraction power) :
    readTrimmed? text = readDecimal? text := by
  have parts := List.all_eq_true.mp writes.all_isDecimalPart
  rcases readTrimmed?_cases text with rfl | ⟨mark, radix, body, marked, rfl⟩ | read
  · obtain ⟨_, -, read⟩ := readDecimal?_of_writes writes
    cases read
  · have part := parts mark (by simp)
    cases marked with
    | hexadecimal marked | octal marked | binary marked =>
        rcases marked with rfl | rfl <;> exact absurd part (by decide)
  · rw [read, if_neg]
    intro word
    obtain ⟨sign, signed, shape⟩ := exists_isSign text
    rw [word] at shape
    have member : 'I' ∈ text := by
      rw [shape]
      simp
    exact absurd (parts 'I' member) (by decide)

/-- In a short text there are few digits before a power of ten. -/
theorem counted_of_length_le
    {text : List Char}
    (short : text.length ≤ 65000) :
    Counted text := by
  rintro negative whole fraction power (@⟨_, sign, mantissa, _, _, tail, _, -, digits, -⟩)
  have parts : (whole ++ fraction).length ≤ mantissa.length := by
    cases digits with
    | whole =>
        rw [List.append_nil]
    | pointed =>
        simp only [List.length_append, List.length_cons]
        omega
  simp only [List.length_append] at short parts ⊢
  exact .inr (by omega)

theorem readTrimmed?_infinity
    {negative : Bool} {sign : List Char}
    (signed : IsSign negative sign) :
    readTrimmed? (sign ++ "Infinity".toList) =
      some (if negative then -1.0 / 0.0 else 1.0 / 0.0) := by
  cases signed <;> decide +kernel

/-- A number is equal to an infinity only if it is the same. -/
theorem eq_of_beq_infinity
    {x : Float} {negative : Bool}
    (number : x.isNaN = false)
    (same : (x == ofCode negative infinity) = true) :
    x = ofCode negative infinity := by
  rw [beq_iff_rank_eq number (isNaN_ofCode negative (Nat.le_refl _))] at same
  rcases eq_of_rank_eq same with equal | ⟨-, zero⟩
  · exact equal
  · rw [code_ofCode negative (Nat.le_refl _)] at zero
    cases zero

/-- What a text denotes is read from it, unless it is a whole number that 64 bits do not hold. -/
theorem Denotes.exists_read
    {text : List Char} {x : Float}
    (denotes : Denotes text x)
    (number : x.isNaN = false)
    (counted : Counted text)
    (short : ∀ n, WritesRadix text n → n < 2 ^ 64) :
    ∃ y, readTrimmed? text = some y ∧ (x == y) = true := by
  cases denotes with
  | zero isZero =>
      have zero : ofCode false 0 = 0.0 := by
        decide +kernel
      exact ⟨_, rfl, zero ▸ isZero⟩
  | infinity signed =>
      refine ⟨_, readTrimmed?_infinity signed, ?_⟩
      split <;> decide +kernel
  | @radix _ n _ writes nearest =>
      rw [readTrimmed?_of_writesRadix writes, if_pos (short n writes)]
      exact ⟨_, rfl, ((isNearest_ofNat n).beq_iff number).mpr nearest⟩
  | decimal writes nearest =>
      rw [readTrimmed?_of_writesDecimal writes, readDecimal?_eq writes (counted _ _ _ _ writes)]
      exact ⟨_, rfl, ((Decimal.isNearest_toFloat _ _).beq_iff number).mpr nearest⟩

/-- A text denotes what is read from it. -/
theorem denotes_of_read
    {text : List Char} {x y : Float}
    (read : readTrimmed? text = some y)
    (number : x.isNaN = false)
    (counted : Counted text)
    (same : (x == y) = true) :
    Denotes text x := by
  rcases readTrimmed?_cases text with rfl | ⟨mark, radix, body, marked, rfl⟩ | word
  · have zero : ofCode false 0 = 0.0 := by
      decide +kernel
    cases read
    exact .zero (zero ▸ same)
  · obtain ⟨n, writes⟩ := exists_writesRadix marked read
    rw [readTrimmed?_of_writesRadix writes] at read
    split at read
    case isTrue =>
      cases read
      exact .radix writes (((isNearest_ofNat n).beq_iff number).mp same)
    case isFalse =>
      cases read
  · rw [word] at read
    split at read
    case isTrue spelled =>
      cases read
      obtain ⟨sign, signed, shape⟩ := exists_isSign text
      have denotes := Denotes.infinity signed
      have limit :
          (if (splitSign text).1 then -1.0 / 0.0 else 1.0 / 0.0) =
            ofCode (splitSign text).1 infinity := by
        cases (splitSign text).1 <;> decide +kernel
      rwa [← spelled, ← shape, limit, ← eq_of_beq_infinity number same] at denotes
    case isFalse =>
      obtain ⟨negative, whole, fraction, power, writes⟩ := exists_writes_of_readDecimal? read
      rw [readDecimal?_eq writes (counted _ _ _ _ writes)] at read
      cases read
      exact .decimal writes (((Decimal.isNearest_toFloat _ _).beq_iff number).mp same)

end Reading

namespace Value

open Reading

/--
A number is loosely equal to a text exactly if the text without its outer blanks denotes
it, unless the text is a whole number of a marked radix that 64 bits do not hold.
-/
theorem looselyEqual_string_iff
    {x : Float} {text : String}
    (number : x.isNaN = false)
    (counted : Counted (Text.trim text.toList)) :
    (Value.number x).looselyEqual (.string text) = true ↔
      Denotes (Text.trim text.toList) x ∧
        ∀ n, WritesRadix (Text.trim text.toList) n → n < 2 ^ 64 := by
  have compared :
      (Value.number x).looselyEqual (.string text) =
        (x == (readTrimmed? (Text.trim text.toList)).getD (0.0 / 0.0)) :=
    rfl
  rw [compared]
  generalize Text.trim text.toList = trimmed at counted ⊢
  constructor
  · intro same
    cases read : readTrimmed? trimmed with
    | none =>
        have invalid : (0.0 / 0.0 : Float) = Float.nan := by
          decide +kernel
        rw [read, Option.getD_none, Float.beq_iff_ne_nan_and_eq] at same
        exact absurd invalid same.2.1
    | some y =>
        rw [read, Option.getD_some] at same
        refine ⟨denotes_of_read read number counted same, fun n writes => ?_⟩
        rw [readTrimmed?_of_writesRadix writes] at read
        by_contra long
        rw [if_neg long] at read
        cases read
  · rintro ⟨denotes, short⟩
    obtain ⟨y, read, same⟩ := denotes.exists_read number counted short
    rw [read]
    exact same

/-- The decimal of a quarter denotes it, also with a power of ten and between blanks. -/
theorem looselyEqual_quarter :
    (0.25 : Float).isNaN = false ∧ Counted (Text.trim " +25e-2\n".toList) ∧
      Denotes (Text.trim " +25e-2\n".toList) 0.25 := by
  have number : (0.25 : Float).isNaN = false := by
    decide +kernel
  have counted : Counted (Text.trim " +25e-2\n".toList) := counted_of_length_le (by decide)
  have equal : (Value.number 0.25).looselyEqual (.string " +25e-2\n") = true := by
    decide +kernel
  exact ⟨number, counted, ((looselyEqual_string_iff number counted).mp equal).1⟩

/-- Seventeen hexadecimal digits denote a number that is not loosely equal to their text. -/
theorem looselyEqual_overlong :
    Denotes (Text.trim "0x10000000000000000".toList) 18446744073709551616 ∧
      (Value.number 18446744073709551616).looselyEqual (.string "0x10000000000000000") =
        false := by
  have digits :
      ("10000000000000000".toList).mapM (digitValue? 16) = some (1 :: List.replicate 16 0) := by
    decide
  have writes := WritesRadix.intro (.hexadecimal (.inl rfl)) (by decide) digits
  have nearest : Binary64.IsNearest 18446744073709551616 (18446744073709551616 : Nat) := by
    have rounded : Binary64.ofNat 18446744073709551616 = 18446744073709551616 := by
      decide +kernel
    exact rounded ▸ Binary64.isNearest_ofNat 18446744073709551616
  exact ⟨.radix writes nearest, by decide +kernel⟩

end Value

end Bhasha
