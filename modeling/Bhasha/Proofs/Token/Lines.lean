import Bhasha.Proofs.Token.Scanning
import Mathlib.Data.List.DropRight

namespace Bhasha

/-!
# Lines of a text and places in it

There are two notions of a line.  A place counts the line feeds before it, and
`Source.line?` looks a line up by walking over the text again.  Both are the lines
of `List.splitOn`: the line that the place of an offset names is the text since
the last line feed before the offset and up to the next one after it.  What stands
at the offset is found in that line again, also where the carriage returns at the
end of the line are dropped, unless it ends with one itself.
-/

/-- The text since the last line feed. -/
def lineStart (text : List Char) : List Char :=
  (text.reverse.takeWhile (· ≠ '\n')).reverse

/-- The line around an offset: since the last line feed before it, and up to the next one. -/
def lineAround (text : List Char) (offset : Nat) : List Char :=
  lineStart (text.take offset) ++ (text.drop offset).takeWhile (· ≠ '\n')

@[simp] theorem lineStart_feed (text : List Char) :
    lineStart (text ++ ['\n']) = [] := by
  simp [lineStart]

theorem lineStart_concat
    {c : Char}
    (noFeed : c ≠ '\n')
    (text : List Char) :
    lineStart (text ++ [c]) = lineStart text ++ [c] := by
  simp [lineStart, noFeed]

namespace Position

/-- The place of an offset by its line feeds and by the text since the last of them. -/
theorem ofOffset_eq (text : List Char) (offset : Nat) :
    ofOffset text offset =
      ⟨(text.take offset).count '\n' + 1, (lineStart (text.take offset)).length + 1⟩ := by
  rw [ofOffset, lineStart, List.length_reverse, Nat.add_comm 1, Nat.add_comm 1]

end Position

/-- A text has one line more than line feeds. -/
theorem length_splitOn_feed (text : List Char) :
    (text.splitOn '\n').length = text.count '\n' + 1 := by
  induction text with
  | nil =>
      rfl
  | cons c text inductionHypothesis =>
      rw [List.splitOn_cons_eq_if_modifyHead]
      by_cases feed : c = '\n' <;> simp [feed, inductionHypothesis]

/-- The first line of a text ends before the first line feed. -/
theorem head_splitOn_feed (text : List Char) :
    (text.splitOn '\n')[0]? = some (text.takeWhile (· ≠ '\n')) := by
  induction text with
  | nil =>
      rfl
  | cons c text inductionHypothesis =>
      rw [List.splitOn_cons_eq_if_modifyHead]
      by_cases feed : c = '\n' <;> simp [feed, inductionHypothesis]

/-- A place between two parts of a text is in the line with the line feeds of the first. -/
theorem splitOn_append_count (before after : List Char) :
    ((before ++ after).splitOn '\n')[before.count '\n']? =
      some (lineStart before ++ after.takeWhile (· ≠ '\n')) := by
  -- The last character before the place either ends a line or belongs to what stands there.
  induction before using List.reverseRecOn generalizing after with
  | nil =>
      exact head_splitOn_feed after
  | append_singleton before c inductionHypothesis =>
      rw [List.append_assoc, List.singleton_append]
      by_cases feed : c = '\n'
      · subst feed
        have lines := length_splitOn_feed before
        rw [List.splitOn_append_cons_self, List.getElem?_append_right (by simp [lines]),
          lineStart_feed]
        simpa [lines] using head_splitOn_feed after
      · have count : (before ++ [c]).count '\n' = before.count '\n' := by
          simp [List.count_append, feed]
        have goesOn : (c :: after).takeWhile (· ≠ '\n') = c :: after.takeWhile (· ≠ '\n') :=
          List.takeWhile_cons_of_pos (by simp [feed])
        rw [count, inductionHypothesis (c :: after), lineStart_concat feed, goesOn,
          List.append_assoc, List.singleton_append]

/-- The line around an offset is the one with the line feeds before the offset. -/
theorem splitOn_lineAround (text : List Char) (offset : Nat) :
    (text.splitOn '\n')[(text.take offset).count '\n']? = some (lineAround text offset) := by
  have line := splitOn_append_count (text.take offset) (text.drop offset)
  rwa [List.take_append_drop] at line

/-- No line feed is in a line. -/
theorem feed_notMem_lineAround (text : List Char) (offset : Nat) :
    '\n' ∉ lineAround text offset := by
  simp only [lineAround, lineStart, List.mem_append, List.mem_reverse, not_or]
  exact ⟨notMem_takeWhile_ne '\n' _, notMem_takeWhile_ne '\n' _⟩

/-- The last character of a text that a class does not hold ends what the class can drop. -/
theorem rdropWhile_append_of_last
    {test : Char → Bool} {kept : List Char}
    (some : kept ≠ [])
    (refused : test (kept.getLast some) = false)
    (more : List Char) :
    (kept ++ more).rdropWhile test = kept ++ more.rdropWhile test := by
  induction more using List.reverseRecOn with
  | nil =>
      have whole : kept.rdropWhile test = kept :=
        List.rdropWhile_eq_self_iff.mpr fun _ => by simp [refused]
      simpa using whole
  | append_singleton more c inductionHypothesis =>
      rw [← List.append_assoc, List.rdropWhile_concat, List.rdropWhile_concat]
      split
      · exact inductionHypothesis
      · exact List.append_assoc ..

/-- What stands at an offset is in its line, also where the line drops carriage returns. -/
theorem prefix_drop_lineAround
    {text mark : List Char} {offset : Nat}
    (some : mark ≠ [])
    (noBreak : ∀ c ∈ mark, c ≠ '\n' ∧ c ≠ '\r')
    (starts : mark <+: text.drop offset) :
    mark <+:
      ((lineAround text offset).rdropWhile (· = '\r')).drop
        (lineStart (text.take offset)).length := by
  obtain ⟨more, after⟩ := starts
  have onLine : (mark ++ more).takeWhile (· ≠ '\n') = mark ++ more.takeWhile (· ≠ '\n') :=
    List.takeWhile_append_of_pos fun c member => by simp [(noBreak c member).1]
  have kept : lineStart (text.take offset) ++ mark ≠ [] :=
    List.append_ne_nil_of_right_ne_nil _ some
  have last : decide ((lineStart (text.take offset) ++ mark).getLast kept = '\r') = false := by
    rw [List.getLast_append_of_right_ne_nil _ _ some]
    simp [(noBreak _ (List.getLast_mem some)).2]
  rw [lineAround, ← after, onLine, ← List.append_assoc, rdropWhile_append_of_last kept last,
    List.append_assoc, List.drop_left]
  exact List.prefix_append ..

/-- Nothing is in the line at the end of a text, also where it drops carriage returns. -/
theorem drop_lineAround_eq_nil
    {text : List Char} {offset : Nat}
    (ended : text.drop offset = []) :
    ((lineAround text offset).rdropWhile (· = '\r')).drop
      (lineStart (text.take offset)).length = [] := by
  rw [lineAround, ended, List.takeWhile_nil, List.append_nil]
  exact List.drop_eq_nil_of_le (List.rdropWhile_prefix _ _).length_le

namespace Source

/-- The line with some line feeds before it is the one of that index. -/
theorem lineAfter_eq (feeds : Nat) (text : List Char) :
    lineAfter feeds text = (text.splitOn '\n')[feeds]? := by
  induction text generalizing feeds with
  | nil =>
      cases feeds <;> rfl
  | cons c text inductionHypothesis =>
      cases feeds with
      | zero =>
          exact (head_splitOn_feed (c :: text)).symm
      | succ feeds =>
          rw [List.splitOn_cons_eq_if_modifyHead]
          by_cases feed : c = '\n'
          · simp [lineAfter, feed, inductionHypothesis]
          · have same : lineAfter (feeds + 1) (c :: text) = lineAfter (feeds + 1) text := by
              simp [lineAfter, feed]
            rw [same, inductionHypothesis]
            simp [feed]

/-- The line that the place of an offset names is found, as the line around the offset. -/
theorem line?_ofOffset (source : Source) (offset : Nat) :
    source.line? (Position.ofOffset source.text.toList offset).line =
      some (String.ofList ((lineAround source.text.toList offset).rdropWhile (· = '\r'))) := by
  rw [Position.ofOffset_eq, line?, lineAfter_eq, splitOn_lineAround]
  rfl

end Source

end Bhasha
