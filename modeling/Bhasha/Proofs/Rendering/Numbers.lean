import Mathlib
import Bhasha.Proofs.Number.Denotation
import Bhasha.Proofs.Rendering.Passage

namespace Bhasha

/-!
# Printed numbers are read back

Two readers meet printed numbers.  A comparison with a text reads every printed
number back, whatever its layout and its sign.  The scanner of programs reads one
number token back exactly in the range of positional notation: outside it there is a
sign, a power of ten or a word, none of which belongs to a number token.
-/

namespace Reading

/-- The characters of a plain number are digits and points. -/
theorem IsPlain.notMem
    {text : List Char} {c : Char}
    (plain : IsPlain text)
    (noDigit : isDigit c = false)
    (noPoint : c ≠ '.') :
    c ∉ text := by
  have apart {digits : List Char} (all : digits.all isDigit = true) : c ∉ digits := by
    intro member
    rw [List.all_eq_true] at all
    rw [all c member] at noDigit
    cases noDigit
  cases plain with
  | whole some digits =>
      exact apart digits
  | decimal some digits decimals =>
      simp [apart digits, apart decimals, noPoint]

end Reading

namespace NumberStyle

open Reading

/-- A number that is written plainly and read back lies in the range of positional notation. -/
theorem isPositional_of_isPlain
    {x : Float}
    (plain : IsPlain (screen.write x).toList)
    (read : readLiteral (screen.write x).toList = x) :
    IsPositional x := by
  have sign : Binary64.isNegative x = false := by
    obtain ⟨_, -, nearest⟩ :=
      (decimalOf (splitPoint (screen.write x).toList).1
        (splitPoint (screen.write x).toList).2.1).exists_roundsTo
    rw [← read]
    exact Binary64.isNegative_ofCode false (nearest.trans_le (Nat.min_le_right _ _))
  by_cases zero : Binary64.code x = 0
  · rcases Binary64.eq_zero_of_code zero with rfl | rfl
    · exact .inl (by decide +kernel)
    · exact absurd sign (by decide +kernel)
  have finite : Binary64.code x < Binary64.infinity := by
    by_contra beyond
    have word : screen.write x = "NaN" ∨ screen.write x = "Infinity" := by
      unfold write
      dsimp only
      split
      · exact .inl rfl
      · rw [if_pos (by omega), sign]
        exact .inr rfl
    rcases word with word | word <;> rw [word] at plain
    · exact plain.notMem (c := 'N') (by decide) (by decide) (by decide)
    · exact plain.notMem (c := 'I') (by decide) (by decide) (by decide)
  have positive : Binary64.Positive x := ⟨sign, zero, finite⟩
  rw [isPositional_iff_pointOf positive]
  by_contra outside
  obtain ⟨digits, -, layout⟩ := layout_scientific (decimalDigits_ne_nil _)
    (all_decimalDigits (Decimal.shortest .upper (Binary64.code x)).digits) outside
  rw [toList_write zero finite, sign, if_neg Bool.false_ne_true, List.nil_append,
    writeMagnitude_screen, layout] at plain
  exact plain.notMem (c := 'e') (by decide) (by decide) (by simp)

end NumberStyle

namespace Token

open NumberStyle
open Reading

/-- The kinds of the tokens of a text do not depend on their places. -/
theorem map_kind_scan (text : String) :
    (scan text).map kind = (spelled text.toList).map kind := by
  rw [spelled, List.map_map]
  rfl

/--
The text of a number is scanned as that number exactly if the number is zero or lies in
the range of positional notation.
-/
theorem scan_write_iff (x : Float) :
    (scan (screen.write x)).map kind = [.number x, .endOfInput] ↔ IsPositional x := by
  rw [map_kind_scan]
  have nothing (test : Char → Bool) : NotAhead test [] := by
    rintro c more ⟨⟩
  have spelling
      (plain : IsPlain (screen.write x).toList) :
      (spelled (screen.write x).toList).map kind =
        [.number (readLiteral (screen.write x).toList), .endOfInput] := by
    have spells := spelled_append_of_spells (spells_plain plain (nothing _))
    rw [List.append_nil, spelled_nil] at spells
    rw [spells]
    rfl
  constructor
  · intro same
    have form := isScreenForm_write x
    generalize shape : (screen.write x).toList = text at form
    cases form with
    | plain plain =>
        rw [← shape] at plain
        rw [spelling plain, List.cons.injEq, TokenKind.number.injEq] at same
        exact isPositional_of_isPlain plain same.1
    | infinity =>
        have tokens := spelled_append_of_spells (spells_infinity (nothing _))
        rw [List.append_nil] at tokens
        rw [shape, tokens] at same
        cases same
    | notANumber =>
        have tokens := spelled_append_of_spells (spells_notANumber (nothing _))
        rw [List.append_nil] at tokens
        rw [shape, tokens] at same
        cases same
    | @negative text =>
        obtain ⟨lexeme, more, tokens⟩ := spelled_minus text
        rw [shape, tokens] at same
        cases same
    | @scientific digits power sign plain signed =>
        rw [shape, spelled_scientific plain signed] at same
        cases same
  · intro positional
    obtain ⟨plain, read⟩ := write_screen positional
    rw [spelling plain, read]

/-- The literal of `10 ^ 21` is written with a power of ten, which is not scanned as a number. -/
theorem scan_write_sextillion :
    (scan "1000000000000000000000").map kind = [.number 1e21, .endOfInput] ∧
      screen.write 1e21 = "1e+21" ∧
      (scan (screen.write 1e21)).map kind ≠ [.number 1e21, .endOfInput] := by
  decide +kernel

end Token

namespace Text

/-- A text without blanks has no outer blanks. -/
theorem trim_of_noBlank
    {text : List Char}
    (noBlank : ∀ c ∈ text, isBlank c = false) :
    trim text = text := by
  have kept {text : List Char} (noBlank : ∀ c ∈ text, isBlank c = false) :
      text.dropWhile isBlank = text := by
    cases text with
    | nil => rfl
    | cons c text =>
        rw [List.dropWhile_cons_of_neg]
        simp [noBlank c List.mem_cons_self]
  rw [trim, kept noBlank, dropRightWhile, kept, List.reverse_reverse]
  intro c member
  exact noBlank c (List.mem_reverse.mp member)

end Text

namespace Reading

theorem noBlank_of_isDecimalPart
    {text : List Char}
    (parts : text.all isDecimalPart = true) :
    ∀ c ∈ text, Text.isBlank c = false := by
  rw [List.all_eq_true] at parts
  intro c member
  have part := parts c member
  apply isBlank_eq_false_of_visible
  simp only [isDecimalPart, Bool.or_eq_true, decide_eq_true_eq, isDigit_iff] at part
  rcases part with ((((digit | rfl) | rfl) | rfl) | rfl) | rfl
  · omega
  all_goals decide

/-- A printed number is read as a number of the same rank. -/
theorem rank_readNumeric_write
    {x : Float}
    (number : x.isNaN = false) :
    (readNumeric (NumberStyle.screen.write x)).isNaN = false ∧
      Binary64.rank (readNumeric (NumberStyle.screen.write x)) = Binary64.rank x := by
  have bound := Binary64.code_le_infinity number
  by_cases special : Binary64.code x = 0 ∨ Binary64.code x = Binary64.infinity
  · rw [← Binary64.ofCode_code x]
    rcases special with zero | infinite
    · rw [zero]
      cases Binary64.isNegative x <;> decide +kernel
    · rw [infinite]
      cases Binary64.isNegative x <;> decide +kernel
  · rw [not_or] at special
    have finite : Binary64.code x < Binary64.infinity := Nat.lt_of_le_of_ne bound special.2
    obtain ⟨whole, fraction, power, writes, value, counts⟩ :=
      NumberStyle.writesDecimal_write special.1 finite
    have read : readNumeric (NumberStyle.screen.write x) = x := by
      rw [readNumeric, Text.trim_of_noBlank (noBlank_of_isDecimalPart writes.all_isDecimalPart),
        readTrimmed?_of_writesDecimal writes, readDecimal?_eq writes (.inl counts),
        Option.getD_some, NumberStyle.toFloat_of_value_eq special.1 finite value]
    rw [read]
    exact ⟨number, rfl⟩

end Reading

namespace Value

open Reading

/-- A number is loosely equal to its display, and numbers of the same display are equal. -/
theorem looselyEqual_display
    {x : Float}
    (number : x.isNaN = false) :
    (Value.number x).looselyEqual (.string (Value.number x).display) = true ∧
      (Value.string (Value.number x).display).looselyEqual (.number x) = true ∧
      ∀ y : Float, y.isNaN = false →
        (Value.number y).display = (Value.number x).display → (x == y) = true := by
  obtain ⟨isNumber, rank_read⟩ := rank_readNumeric_write number
  refine ⟨?_, ?_, fun y otherNumber same => ?_⟩
  · exact (Binary64.beq_iff_rank_eq number isNumber).mpr rank_read.symm
  · exact (Binary64.beq_iff_rank_eq isNumber number).mpr rank_read
  · have otherRank := (rank_readNumeric_write otherNumber).2
    change NumberStyle.screen.write y = NumberStyle.screen.write x at same
    rw [same, rank_read] at otherRank
    exact (Binary64.beq_iff_rank_eq number otherNumber).mpr otherRank

/-- A large negative number is equal to its text, and the zeros are printed alike. -/
theorem looselyEqual_display_negative :
    (-1.5e300 : Float).isNaN = false ∧ (Value.number (-1.5e300)).display = "-1.5e+300" ∧
      (Value.number (-1.5e300)).looselyEqual (.string "-1.5e+300") = true ∧
      (Value.number (-0.0)).display = (Value.number 0.0).display ∧
      ((0.0 : Float) == -0.0) = true := by
  have number : (-1.5e300 : Float).isNaN = false := by
    decide +kernel
  have display : (Value.number (-1.5e300)).display = "-1.5e+300" := by
    decide +kernel
  have zero : (0.0 : Float).isNaN = false := by
    decide +kernel
  have negativeZero : (-0.0 : Float).isNaN = false := by
    decide +kernel
  have alike : (Value.number (-0.0)).display = (Value.number 0.0).display := by
    decide +kernel
  exact ⟨number, display, display ▸ (looselyEqual_display number).1, alike,
    (looselyEqual_display zero).2.2 (-0.0) negativeZero alike⟩

end Value

end Bhasha
