import Bhasha.Proofs.Syntax.Grammar
import Bhasha.Proofs.Token.Spelling

namespace Bhasha

/-!
# Derivations and the places of tokens

The grammar looks at the roles and the texts of tokens but not at their places.
So a tree that is read off some tokens is read off all tokens that differ from
them only in their places.
-/

open Token

namespace Grammar

/-- Tokens that differ only in their places have the same role and the same text. -/
theorem role_of_unplaced
    {token other : Token}
    (same : other.unplaced = token.unplaced) :
    other.role = token.role ∧ other.lexeme = token.lexeme := by
  rcases token with ⟨kind, lexeme, span⟩
  rcases other with ⟨otherKind, otherLexeme, otherSpan⟩
  cases same
  exact ⟨rfl, rfl⟩

/-- What is derived does not depend on the places of the tokens. -/
theorem Derives.of_unplaced
    {layer : Layer} {tokens : List Token} {value : Expression}
    (derived : Derives layer tokens value) :
    ∀ {others : List Token}, others.map unplaced = tokens.map unplaced →
      Derives layer others value := by
  induction derived with
  | number role =>
      intro others same
      obtain ⟨other, rfl, alike⟩ := List.map_eq_singleton_iff.mp same
      obtain ⟨sameRole, sameLexeme⟩ := role_of_unplaced alike
      rw [← sameLexeme]
      exact .number (sameRole.trans role)
  | string role =>
      intro others same
      obtain ⟨other, rfl, alike⟩ := List.map_eq_singleton_iff.mp same
      obtain ⟨sameRole, sameLexeme⟩ := role_of_unplaced alike
      rw [← sameLexeme]
      exact .string (sameRole.trans role)
  | name role =>
      intro others same
      obtain ⟨other, rfl, alike⟩ := List.map_eq_singleton_iff.mp same
      obtain ⟨sameRole, sameLexeme⟩ := role_of_unplaced alike
      rw [← sameLexeme]
      exact .name (sameRole.trans role)
  | paren opens derived closes inductionHypothesis =>
      intro others same
      simp only [List.map_cons, List.map_append, List.map_nil, List.map_eq_cons_iff,
        List.map_eq_append_iff, List.map_eq_nil_iff] at same
      obtain ⟨opening, _, rfl, openingSame, inner, _, rfl, innerSame, closing, _, rfl,
        closingSame, rfl⟩ := same
      exact .paren ((role_of_unplaced openingSame).1.trans opens)
        (inductionHypothesis innerSame) ((role_of_unplaced closingSame).1.trans closes)
  | single next derived inductionHypothesis =>
      intro others same
      exact .single next (inductionHypothesis same)
  | chain next leftDerived role member rightDerived leftHypothesis rightHypothesis =>
      intro others same
      simp only [List.map_cons, List.map_append, List.map_eq_cons_iff,
        List.map_eq_append_iff] at same
      obtain ⟨lefts, _, rfl, leftSame, token, rights, rfl, tokenSame, rightSame⟩ := same
      exact .chain next (leftHypothesis leftSame) ((role_of_unplaced tokenSame).1.trans role)
        member (rightHypothesis rightSame)

mutual

/-- A statement is read alike off tokens that differ only in their places. -/
theorem ReadsStatement.of_unplaced
    {tokens rest : List Token} {statement : Statement}
    (read : ReadsStatement tokens rest statement)
    {others : List Token}
    (same : others.map unplaced = tokens.map unplaced) :
    ∃ otherRest, otherRest.map unplaced = rest.map unplaced ∧
      ReadsStatement others otherRest statement := by
  cases read with
  | declare typed declared named assigned derived ended =>
      simp only [List.map_cons, List.map_append, List.map_eq_cons_iff,
        List.map_eq_append_iff] at same
      obtain ⟨word, _, rfl, wordSame, name, _, rfl, nameSame, assign, _, rfl, assignSame,
        value, _, rfl, valueSame, semicolon, otherRest, rfl, semicolonSame, restSame⟩ := same
      obtain ⟨nameRole, nameLexeme⟩ := role_of_unplaced nameSame
      rw [← nameLexeme]
      exact ⟨otherRest, restSame,
        .declare ((role_of_unplaced wordSame).1.trans typed) declared (nameRole.trans named)
          ((role_of_unplaced assignSame).1.trans assigned) (derived.of_unplaced valueSame)
          ((role_of_unplaced semicolonSame).1.trans ended)⟩
  | assign named assigned derived ended =>
      simp only [List.map_cons, List.map_append, List.map_eq_cons_iff,
        List.map_eq_append_iff] at same
      obtain ⟨name, _, rfl, nameSame, assign, _, rfl, assignSame,
        value, _, rfl, valueSame, semicolon, otherRest, rfl, semicolonSame, restSame⟩ := same
      obtain ⟨nameRole, nameLexeme⟩ := role_of_unplaced nameSame
      rw [← nameLexeme]
      exact ⟨otherRest, restSame,
        .assign (nameRole.trans named) ((role_of_unplaced assignSame).1.trans assigned)
          (derived.of_unplaced valueSame) ((role_of_unplaced semicolonSame).1.trans ended)⟩
  | print printed opens derived closes ended =>
      simp only [List.map_cons, List.map_append, List.map_eq_cons_iff,
        List.map_eq_append_iff] at same
      obtain ⟨word, _, rfl, wordSame, opening, _, rfl, openingSame, value, _, rfl, valueSame,
        closing, _, rfl, closingSame, semicolon, otherRest, rfl, semicolonSame,
        restSame⟩ := same
      exact ⟨otherRest, restSame,
        .print ((role_of_unplaced wordSame).1.trans printed)
          ((role_of_unplaced openingSame).1.trans opens) (derived.of_unplaced valueSame)
          ((role_of_unplaced closingSame).1.trans closes)
          ((role_of_unplaced semicolonSame).1.trans ended)⟩
  | ifThen conditional opens derived closes consequentRead =>
      simp only [List.map_cons, List.map_append, List.map_eq_cons_iff,
        List.map_eq_append_iff] at same
      obtain ⟨word, _, rfl, wordSame, opening, _, rfl, openingSame, value, _, rfl, valueSame,
        closing, first, rfl, closingSame, firstSame⟩ := same
      obtain ⟨otherRest, restSame, consequent⟩ := consequentRead.of_unplaced firstSame
      exact ⟨otherRest, restSame,
        .ifThen ((role_of_unplaced wordSame).1.trans conditional)
          ((role_of_unplaced openingSame).1.trans opens) (derived.of_unplaced valueSame)
          ((role_of_unplaced closingSame).1.trans closes) consequent⟩
  | ifElse conditional opens derived closes consequentRead alternative alternateRead =>
      simp only [List.map_cons, List.map_append, List.map_eq_cons_iff,
        List.map_eq_append_iff] at same
      obtain ⟨word, _, rfl, wordSame, opening, _, rfl, openingSame, value, _, rfl, valueSame,
        closing, first, rfl, closingSame, firstSame⟩ := same
      obtain ⟨middle, middleSame, consequent⟩ := consequentRead.of_unplaced firstSame
      obtain ⟨otherwise, second, rfl, otherwiseSame, secondSame⟩ :=
        List.map_eq_cons_iff.mp middleSame
      obtain ⟨otherRest, restSame, alternate⟩ := alternateRead.of_unplaced secondSame
      exact ⟨otherRest, restSame,
        .ifElse ((role_of_unplaced wordSame).1.trans conditional)
          ((role_of_unplaced openingSame).1.trans opens) (derived.of_unplaced valueSame)
          ((role_of_unplaced closingSame).1.trans closes) consequent
          ((role_of_unplaced otherwiseSame).1.trans alternative) alternate⟩
  | loop looping opens derived closes bodyRead =>
      simp only [List.map_cons, List.map_append, List.map_eq_cons_iff,
        List.map_eq_append_iff] at same
      obtain ⟨word, _, rfl, wordSame, opening, _, rfl, openingSame, value, _, rfl, valueSame,
        closing, first, rfl, closingSame, firstSame⟩ := same
      obtain ⟨otherRest, restSame, body⟩ := bodyRead.of_unplaced firstSame
      exact ⟨otherRest, restSame,
        .loop ((role_of_unplaced wordSame).1.trans looping)
          ((role_of_unplaced openingSame).1.trans opens) (derived.of_unplaced valueSame)
          ((role_of_unplaced closingSame).1.trans closes) body⟩

theorem ReadsBlock.of_unplaced
    {tokens rest : List Token} {block : Block}
    (read : ReadsBlock tokens rest block)
    {others : List Token}
    (same : others.map unplaced = tokens.map unplaced) :
    ∃ otherRest, otherRest.map unplaced = rest.map unplaced ∧
      ReadsBlock others otherRest block := by
  cases read with
  | closed opens bodyRead closes =>
      obtain ⟨opening, inner, rfl, openingSame, innerSame⟩ := List.map_eq_cons_iff.mp same
      obtain ⟨last, lastSame, body⟩ := bodyRead.of_unplaced innerSame
      obtain ⟨closing, otherRest, rfl, closingSame, restSame⟩ := List.map_eq_cons_iff.mp lastSame
      exact ⟨otherRest, restSame,
        .closed ((role_of_unplaced openingSame).1.trans opens) body
          ((role_of_unplaced closingSame).1.trans closes)⟩
  | unclosed opens bodyRead ends =>
      obtain ⟨opening, inner, rfl, openingSame, innerSame⟩ := List.map_eq_cons_iff.mp same
      obtain ⟨last, lastSame, body⟩ := bodyRead.of_unplaced innerSame
      obtain ⟨finish, otherRest, rfl, finishSame, restSame⟩ := List.map_eq_cons_iff.mp lastSame
      exact ⟨finish :: otherRest, lastSame,
        .unclosed ((role_of_unplaced openingSame).1.trans opens) body
          ((role_of_unplaced finishSame).1.trans ends)⟩

theorem ReadsBody.of_unplaced
    {tokens rest : List Token} {statements : List Statement}
    (read : ReadsBody tokens rest statements)
    {others : List Token}
    (same : others.map unplaced = tokens.map unplaced) :
    ∃ otherRest, otherRest.map unplaced = rest.map unplaced ∧
      ReadsBody others otherRest statements := by
  cases read with
  | nil =>
      exact ⟨others, same, .nil⟩
  | cons statementRead bodyRead =>
      obtain ⟨middle, middleSame, statement⟩ := statementRead.of_unplaced same
      obtain ⟨otherRest, restSame, body⟩ := bodyRead.of_unplaced middleSame
      exact ⟨otherRest, restSame, .cons statement body⟩

end

end Grammar

end Bhasha
