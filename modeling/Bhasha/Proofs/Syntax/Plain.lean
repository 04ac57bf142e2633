import Bhasha.Proofs.Syntax.Relabel
import Bhasha.Proofs.Syntax.Run

namespace Bhasha

/-!
# Reading plain tokens

A plain token has no place, and a plain word no spelling; the words for the types
of variables are all the same.  Reading commutes with making plain: one step from
a plain place by a plain token is the plain form of the step, `State.step_plain`.
So two lists of tokens with the same plain form are read alike, `read_alike`: to
trees with the same plain form, or up to tokens at the same index that are refused
for the same reason.
-/

namespace Keyword

/-- A word for a type stands for any of them. -/
def untyped (keyword : Keyword) : Keyword :=
  if keyword.isType then .integer else keyword

theorem untyped_eq_iff
    {word target : Keyword}
    (noType : target.isType = false) :
    word.untyped = target ↔ word = target := by
  unfold untyped
  split
  case isTrue typed =>
    constructor
    · rintro rfl
      cases noType
    · rintro rfl
      cases typed.symm.trans noType
  case isFalse =>
    exact Iff.rfl

end Keyword

namespace TokenKind

def untyped : TokenKind → TokenKind
  | .keyword word => .keyword word.untyped
  | kind => kind

/-- The text of a kind of token, which is of no matter for a word. -/
def plainLexeme (lexeme : String) : TokenKind → String
  | .keyword _ => ""
  | _ => lexeme

end TokenKind

namespace Role

def untyped : Role → Role
  | .keyword word => .keyword word.untyped
  | role => role

theorem untyped_of_isMark
    {role : Role}
    (isMark : role.isMark = true) :
    role.untyped = role := by
  cases role with
  | keyword word =>
      cases isMark
  | _ =>
      rfl

/-- The word for the type of a variable. -/
def isType : Role → Bool
  | .keyword word => word.isType
  | _ => false

theorem untyped_eq_iff
    {role target : Role}
    (noType : target.isType = false) :
    role.untyped = target ↔ role = target := by
  cases role with
  | keyword word =>
      cases target with
      | keyword wanted =>
          simpa only [untyped, keyword.injEq] using Keyword.untyped_eq_iff noType
      | _ =>
          simp only [untyped, reduceCtorEq]
  | _ =>
      rfl

end Role

namespace Token

/-- A token without its place, and a word without its spelling and its type. -/
def plain (token : Token) : Token :=
  ⟨token.kind.untyped, token.kind.plainLexeme token.lexeme, Span.point .first⟩

theorem role_plain (token : Token) :
    token.plain.role = token.role.untyped := by
  rcases token with ⟨kind, lexeme, span⟩
  cases kind with
  | operator =>
      exact (Role.untyped_of_isMark (isMark_operatorRole lexeme)).symm
  | punctuation =>
      exact (Role.untyped_of_isMark (isMark_punctuationRole lexeme)).symm
  | keyword | identifier | number | string | endOfInput =>
      rfl

/-- A token that is no word keeps its text. -/
theorem lexeme_plain
    {token : Token}
    (noWord : ∀ keyword, token.role ≠ .keyword keyword) :
    token.plain.lexeme = token.lexeme := by
  rcases token with ⟨kind, lexeme, span⟩
  cases kind with
  | keyword keyword =>
      exact absurd rfl (noWord keyword)
  | identifier | number | string | operator | punctuation | endOfInput =>
      rfl

theorem isFinish_plain (token : Token) :
    token.plain.isFinish = token.isFinish := by
  rcases token with ⟨kind, lexeme, span⟩
  cases kind <;> rfl

end Token

namespace Reader

namespace Heading

def relabel (labels : Relabel) : Heading → Heading
  | declare start type name =>
      declare (labels.span start) (labels.type type) (name.relabel labels)
  | assign start name => assign (labels.span start) (name.relabel labels)
  | print start => print (labels.span start)
  | conditional start => conditional (labels.span start)
  | loop start => loop (labels.span start)

end Heading

namespace Waiting

def relabel (labels : Relabel) : Waiting → Waiting
  | operand left operator opened => operand (left.relabel labels) operator opened
  | paren opened => paren opened

end Waiting

namespace Owner

def relabel (labels : Relabel) : Owner → Owner
  | consequent start condition =>
      consequent (labels.span start) (condition.relabel labels)
  | alternate start condition first =>
      alternate (labels.span start) (condition.relabel labels) (first.relabel labels)
  | loop start condition => loop (labels.span start) (condition.relabel labels)

end Owner

namespace OpenBlock

def relabel (labels : Relabel) (block : OpenBlock) : OpenBlock :=
  ⟨block.owner.relabel labels, labels.span block.start, relabelAll labels block.before⟩

end OpenBlock

namespace Expecting

def relabel (labels : Relabel) : Expecting → Expecting
  | statement => statement
  | alternate start condition consequent =>
      alternate (labels.span start) (condition.relabel labels) (consequent.relabel labels)
  | name start type => name (labels.span start) (labels.type type)
  | assign heading => assign (heading.relabel labels)
  | openParen heading => openParen (heading.relabel labels)
  | operand heading waiting =>
      operand (heading.relabel labels) (waiting.map (Waiting.relabel labels))
  | operator heading waiting value opened =>
      operator (heading.relabel labels) (waiting.map (Waiting.relabel labels))
        (value.relabel labels) opened
  | endOfPrint start value => endOfPrint (labels.span start) (value.relabel labels)
  | openBrace owner => openBrace (owner.relabel labels)
  | tooDeep => tooDeep

end Expecting

namespace State

def relabel (labels : Relabel) (state : State) : State :=
  ⟨state.blocks.map (OpenBlock.relabel labels), relabelAll labels state.body,
    state.expecting.relabel labels, labels.span state.last⟩

end State

theorem span_relabel (labels : Relabel) (value : Expression) :
    (value.relabel labels).span = labels.span value.span := by
  cases value <;> rfl

theorem relabelAll_eq_map (labels : Relabel) (body : List Statement) :
    relabelAll labels body = body.map (Statement.relabel labels) := by
  induction body with
  | nil =>
      simp only [relabelAll, List.map_nil]
  | cons statement rest inductionHypothesis =>
      simp only [relabelAll, List.map_cons, inductionHypothesis]

theorem relabelAll_reverse (labels : Relabel) (body : List Statement) :
    relabelAll labels body.reverse = (relabelAll labels body).reverse := by
  simp only [relabelAll_eq_map, List.map_reverse]

theorem opened_map_relabel (labels : Relabel) (waiting : List Waiting) :
    Waiting.opened (waiting.map (Waiting.relabel labels)) = Waiting.opened waiting := by
  rcases waiting with _ | ⟨⟨left, operator, opened⟩ | opened, rest⟩ <;> rfl

theorem parens_map_relabel (labels : Relabel) (waiting : List Waiting) :
    Waiting.parens (waiting.map (Waiting.relabel labels)) = Waiting.parens waiting := by
  rw [Waiting.parens, Waiting.parens, List.countP_map]
  congr 1
  funext entry
  cases entry <;> rfl

theorem join_plain (operator : BinaryOperator) (left right : Expression) :
    (Expression.join operator left right).relabel .plain =
      .join operator (left.relabel .plain) (right.relabel .plain) := by
  simp only [Expression.join, Expression.relabel, span_relabel]
  rfl

theorem settle_plain
    (precedence : Nat)
    (waiting : List Waiting)
    (value : Expression)
    (opened : Nat) :
    settle precedence (waiting.map (Waiting.relabel .plain)) (value.relabel .plain) opened =
      let (settled, joined, before) := settle precedence waiting value opened
      (settled.map (Waiting.relabel .plain), joined.relabel .plain, before) := by
  induction waiting generalizing value opened with
  | nil =>
      rfl
  | cons entry rest inductionHypothesis =>
      cases entry with
      | operand left operator before =>
          by_cases tight : precedence ≤ operator.precedence
          · simp only [List.map_cons, Waiting.relabel, settle, tight, ↓reduceIte,
              ← join_plain, inductionHypothesis]
          · simp only [List.map_cons, Waiting.relabel, settle, tight, ↓reduceIte]
      | paren before =>
          rfl

/-- Results that a map makes equal are both found, or both refused for one reason. -/
theorem alike_of_map_eq
    {ε α β : Type} {f : α → β} {first second : Except ε α}
    (same : first.map f = second.map f) :
    (∃ found other, first = .ok found ∧ second = .ok other ∧ f found = f other) ∨
      ∃ refusal, first = .error refusal ∧ second = .error refusal := by
  cases first with
  | ok found =>
      cases second with
      | ok other =>
          exact .inl ⟨found, other, rfl, rfl, Except.ok.inj same⟩
      | error refusal =>
          cases same
  | error refusal =>
      cases second with
      | ok other =>
          cases same
      | error otherRefusal =>
          cases same
          exact .inr ⟨refusal, rfl, rfl⟩

namespace State

theorem closeBlock_plain (state : State) (token : Token) :
    (state.relabel .plain).closeBlock token.plain =
      (state.closeBlock token).map (relabel .plain) := by
  rcases state with ⟨_ | ⟨⟨owner, start, before⟩, outer⟩, body, expecting, last⟩
  · rfl
  · cases owner <;>
      simp only [relabel, List.map_cons, OpenBlock.relabel, Owner.relabel, closeBlock,
        ← relabelAll_reverse] <;> rfl

theorem startStatement_plain (state : State) (token : Token) :
    (state.relabel .plain).startStatement token.plain =
      (state.startStatement token).map (relabel .plain) := by
  cases role : token.role with
  | keyword keyword =>
      cases keyword <;> simp only [startStatement, role, token.role_plain, Role.untyped] <;> rfl
  | closeBrace =>
      simp only [startStatement, role, token.role_plain, Role.untyped, closeBlock_plain]
  | identifier =>
      have sameLexeme : token.plain.lexeme = token.lexeme := Token.lexeme_plain (by simp [role])
      simp only [startStatement, role, token.role_plain, Role.untyped, sameLexeme]
      rfl
  | _ =>
      simp only [startStatement, role, token.role_plain, Role.untyped]
      rfl

theorem depth_plain (state : State) (waiting : List Waiting) :
    (state.relabel .plain).depth (waiting.map (Waiting.relabel .plain)) =
      state.depth waiting := by
  simp only [depth, relabel, List.length_map, parens_map_relabel]

theorem readOperand_plain
    (bounds : Bounds)
    (state : State)
    (token : Token)
    (heading : Heading)
    (waiting : List Waiting) :
    (state.relabel .plain).readOperand bounds token.plain (heading.relabel .plain)
        (waiting.map (Waiting.relabel .plain)) =
      (state.readOperand bounds token heading waiting).map (relabel .plain) := by
  cases role : token.role with
  | number | string | identifier =>
      have sameLexeme : token.plain.lexeme = token.lexeme := Token.lexeme_plain (by simp [role])
      simp only [readOperand, role, token.role_plain, Role.untyped, sameLexeme,
        opened_map_relabel]
      rfl
  | openParen =>
      simp only [readOperand, role, token.role_plain, Role.untyped, depth_plain,
        opened_map_relabel]
      split <;> rfl
  | _ =>
      simp only [readOperand, role, token.role_plain, Role.untyped]
      rfl

theorem endExpression_plain
    (state : State)
    (token : Token)
    (heading : Heading)
    (value : Expression) :
    (state.relabel .plain).endExpression token.plain (heading.relabel .plain)
        (value.relabel .plain) =
      (state.endExpression token heading value).map (relabel .plain) := by
  cases heading <;> cases role : token.role <;>
    simp only [Heading.relabel, endExpression, role, token.role_plain, Role.untyped] <;> rfl

/-- After an operand, what is no operator closes a parenthesis or ends the expression. -/
theorem readOperator_of_not_binary
    {token : Token}
    (notBinary : ∀ operator, token.role ≠ .binary operator)
    (bounds : Bounds)
    (state : State)
    (heading : Heading)
    (waiting : List Waiting)
    (value : Expression)
    (opened : Nat) :
    state.readOperator bounds token heading waiting value opened =
      match settle 0 waiting value opened with
      | (.paren before :: settled, inner, _) =>
          if token.role = .closeParen then
            .ok (state.after token (.operator heading settled inner before))
          else .error (.wanted .closeParen)
      | (_, whole, _) => state.endExpression token heading whole := by
  unfold readOperator
  split
  · next operator role =>
    exact absurd role (notBinary operator)
  · rfl

theorem readOperator_plain
    (bounds : Bounds)
    (state : State)
    (token : Token)
    (heading : Heading)
    (waiting : List Waiting)
    (value : Expression)
    (opened : Nat) :
    (state.relabel .plain).readOperator bounds token.plain (heading.relabel .plain)
        (waiting.map (Waiting.relabel .plain)) (value.relabel .plain) opened =
      (state.readOperator bounds token heading waiting value opened).map (relabel .plain) := by
  by_cases binary : ∃ operator, token.role = .binary operator
  · obtain ⟨operator, role⟩ := binary
    simp only [readOperator, role, token.role_plain, Role.untyped, settle_plain]
    split <;> rfl
  · have notBinary (operator : BinaryOperator) : token.role ≠ .binary operator :=
      fun role => binary ⟨operator, role⟩
    have plainNotBinary (operator : BinaryOperator) : token.plain.role ≠ .binary operator := by
      rw [token.role_plain]
      exact fun role => notBinary operator ((Role.untyped_eq_iff rfl).mp role)
    rw [readOperator_of_not_binary notBinary, readOperator_of_not_binary plainNotBinary,
      settle_plain]
    rcases settle_zero_shape waiting value opened with
      ⟨whole, before, joined⟩ | ⟨before, settled, inner, innermost, joined⟩
    · rw [joined]
      exact endExpression_plain state token heading whole
    · have closes : token.plain.role = .closeParen ↔ token.role = .closeParen := by
        rw [token.role_plain]
        exact Role.untyped_eq_iff rfl
      simp only [joined, List.map_cons, Waiting.relabel, closes]
      split <;> rfl

theorem step_plain (bounds : Bounds) (state : State) (token : Token) :
    (state.relabel .plain).step bounds token.plain =
      (state.step bounds token).map (relabel .plain) := by
  rcases state with ⟨blocks, body, expecting, last⟩
  cases expecting with
  | statement =>
      exact startStatement_plain _ token
  | alternate start condition consequent =>
      by_cases alternative : token.role = .keyword .alternative
      · simp only [relabel, Expecting.relabel, step, alternative, token.role_plain]
        rfl
      · have plainNotAlternative : token.plain.role ≠ .keyword .alternative := by
          rw [token.role_plain]
          exact fun role => alternative ((Role.untyped_eq_iff rfl).mp role)
        rw [step_alternate alternative]
        refine (step_alternate plainNotAlternative).trans ?_
        have started := startStatement_plain
          ⟨blocks, .ifThen condition consequent (start.merge last) :: body, .statement, last⟩ token
        simp only [relabel, relabelAll, Statement.relabel] at started
        exact started
  | name start type =>
      cases role : token.role with
      | identifier =>
          have sameLexeme : token.plain.lexeme = token.lexeme := Token.lexeme_plain (by simp [role])
          simp only [relabel, Expecting.relabel, step, role, token.role_plain, Role.untyped,
            sameLexeme]
          rfl
      | _ =>
          simp only [relabel, Expecting.relabel, step, role, token.role_plain, Role.untyped]
          rfl
  | assign | openParen | endOfPrint =>
      cases role : token.role <;>
        simp only [relabel, Expecting.relabel, step, role, token.role_plain, Role.untyped] <;> rfl
  | openBrace owner =>
      cases role : token.role with
      | openBrace =>
          have sameDepth := depth_plain ⟨blocks, body, .openBrace owner, last⟩ []
          simp only [List.map_nil, relabel, Expecting.relabel] at sameDepth
          simp only [relabel, Expecting.relabel, step, role, token.role_plain, Role.untyped,
            openBlock, sameDepth]
          split <;> rfl
      | _ =>
          simp only [relabel, Expecting.relabel, step, role, token.role_plain, Role.untyped]
          rfl
  | operand heading waiting =>
      exact readOperand_plain bounds _ token heading waiting
  | operator heading waiting value opened =>
      exact readOperator_plain bounds _ token heading waiting value opened
  | tooDeep =>
      rfl

theorem complete_plain (owner : Owner) (block : Block) (last : Span) :
    (owner.complete block last).relabel .plain =
      (owner.relabel .plain).complete (block.relabel .plain) (Relabel.plain.span last) := by
  cases owner <;> simp only [Owner.complete, Statement.relabel] <;> rfl

theorem finishBlocks_plain (last : Span) (blocks : List OpenBlock) (body : List Statement) :
    finishBlocks (Relabel.plain.span last) (blocks.map (OpenBlock.relabel .plain))
        (relabelAll .plain body) =
      relabelAll .plain (finishBlocks last blocks body) := by
  induction blocks generalizing body with
  | nil =>
      exact (relabelAll_reverse .plain body).symm
  | cons block rest inductionHypothesis =>
      have outer := inductionHypothesis
        (block.owner.complete (.mk body.reverse (block.start.merge last)) last :: block.before)
      simp only [relabelAll, complete_plain, Block.relabel, relabelAll_reverse] at outer
      exact outer

theorem finish_plain (state : State) :
    (state.relabel .plain).finish = state.finish.map (relabelAll .plain) := by
  rcases state with ⟨blocks, body, expecting, last⟩
  cases expecting with
  | statement =>
      exact congrArg Except.ok (finishBlocks_plain last blocks body)
  | alternate start condition consequent =>
      have finished := finishBlocks_plain last blocks
        (.ifThen condition consequent (start.merge last) :: body)
      simp only [relabelAll, Statement.relabel] at finished
      exact congrArg Except.ok finished
  | operator heading waiting value opened =>
      simp only [relabel, Expecting.relabel, finish, Expecting.refusal, parens_map_relabel]
      cases heading <;> rfl
  | name | assign | openParen | operand | endOfPrint | openBrace | tooDeep =>
      rfl

/-- Places with the same plain form take tokens with the same plain form alike. -/
theorem step_alike
    (bounds : Bounds)
    {first second : State} {token other : Token}
    (places : first.relabel .plain = second.relabel .plain)
    (tokens : token.plain = other.plain) :
    (∃ next following,
        first.step bounds token = .ok next ∧ second.step bounds other = .ok following ∧
          next.relabel .plain = following.relabel .plain) ∨
      ∃ refusal, first.step bounds token = .error refusal ∧
        second.step bounds other = .error refusal := by
  apply alike_of_map_eq
  rw [← step_plain, ← step_plain, places, tokens]

/-- Places with the same plain form end a program alike. -/
theorem finish_alike
    {first second : State}
    (places : first.relabel .plain = second.relabel .plain) :
    (∃ body other,
        first.finish = .ok body ∧ second.finish = .ok other ∧
          relabelAll .plain body = relabelAll .plain other) ∨
      ∃ refusal, first.finish = .error refusal ∧ second.finish = .error refusal := by
  apply alike_of_map_eq
  rw [← finish_plain, ← finish_plain, places]

/-- Lists with the same plain form are read alike, up to a refusal at the same index. -/
theorem readTo_alike
    (bounds : Bounds)
    {first second : State} {tokens others : List Token}
    (places : first.relabel .plain = second.relabel .plain)
    (same : tokens.map Token.plain = others.map Token.plain)
    (ended : ∃ token ∈ tokens, token.isFinish = true)
    (ending otherEnding : Token) :
    (∃ body last other otherLast,
        first.readTo bounds ending tokens = .ok (body, last) ∧
          second.readTo bounds otherEnding others = .ok (other, otherLast) ∧
            relabelAll .plain body = relabelAll .plain other) ∨
      ∃ (index : Nat) (token other : Token) (refusal : Refusal),
        tokens[index]? = some token ∧ others[index]? = some other ∧
          token.plain = other.plain ∧
            first.readTo bounds ending tokens = .error (token, refusal) ∧
              second.readTo bounds otherEnding others = .error (other, refusal) := by
  induction tokens generalizing first second others with
  | nil =>
      obtain ⟨token, member, -⟩ := ended
      cases member
  | cons token tokens inductionHypothesis =>
      obtain ⟨other, others, rfl, sameToken, sameRest⟩ := List.map_eq_cons_iff.mp same.symm
      have sameFinish : token.isFinish = other.isFinish := by
        rw [← token.isFinish_plain, ← other.isFinish_plain, sameToken]
      by_cases isFinish : token.isFinish = true
      · have otherFinish : other.isFinish = true := sameFinish.symm.trans isFinish
        simp only [readTo, isFinish, otherFinish, ↓reduceIte, readEnd]
        rcases finish_alike places with
          ⟨body, otherBody, finished, otherFinished, like⟩ | ⟨refusal, refused, otherRefused⟩
        · simp only [finished, otherFinished]
          exact .inl ⟨body, first.last, otherBody, second.last, rfl, rfl, like⟩
        · simp only [refused, otherRefused]
          exact .inr ⟨0, token, other, refusal, rfl, rfl, sameToken.symm, rfl, rfl⟩
      · have endedRest : ∃ token ∈ tokens, token.isFinish = true := by
          obtain ⟨found, member, foundFinish⟩ := ended
          rcases List.mem_cons.mp member with rfl | member
          · exact absurd foundFinish isFinish
          · exact ⟨found, member, foundFinish⟩
        have otherGoesOn : ¬ other.isFinish = true := sameFinish ▸ isFinish
        simp only [readTo, isFinish, otherGoesOn]
        rcases step_alike bounds places sameToken.symm with
          ⟨next, following, stepped, followed, sameNext⟩ | ⟨refusal, stepped, followed⟩
        · simp only [stepped, followed]
          rcases inductionHypothesis sameNext sameRest.symm endedRest with
            read | ⟨index, found, otherFound, refusal, place, otherPlace, refused⟩
          · exact .inl read
          · exact .inr ⟨index + 1, found, otherFound, refusal, place, otherPlace, refused⟩
        · simp only [stepped, followed]
          exact .inr ⟨0, token, other, refusal, rfl, rfl, sameToken.symm, rfl, rfl⟩

end State

namespace Refusal

theorem codeOf_plain (token : Token) :
    codeOf token.plain = codeOf token := by
  rcases token with ⟨kind, lexeme, span⟩
  cases kind with
  | keyword word =>
      have reserved : word.untyped.isReserved = word.isReserved := by
        cases word <;> rfl
      simp only [codeOf, Token.isFinish, isReservedWord, isUnknownOperator, Token.plain,
        TokenKind.untyped, reserved]
      rfl
  | identifier | number | string | operator | punctuation | endOfInput =>
      rfl

/-- A refusal of tokens with the same plain form gives the same code and the same hint. -/
theorem toError_alike
    {token other : Token}
    (same : token.plain = other.plain)
    (refusal : Refusal)
    (source otherSource : Source) :
    (refusal.toError source token).code = (refusal.toError otherSource other).code ∧
      (refusal.toError source token).expected = (refusal.toError otherSource other).expected := by
  cases refusal with
  | wanted what =>
      have sameCode : codeOf token = codeOf other := by
        rw [← codeOf_plain, ← codeOf_plain other, same]
      exact ⟨sameCode, rfl⟩
  | nesting | operators =>
      exact ⟨rfl, rfl⟩

/-- An error names the text and the place of the token that is refused. -/
theorem toError_token
    (refusal : Refusal)
    (source : Source)
    (token : Token) :
    (refusal.toError source token).token = token.lexeme ∧
      (refusal.toError source token).span = token.span := by
  cases refusal <;> exact ⟨rfl, rfl⟩

end Refusal

/-- Lists with the same plain form are parsed alike, up to an error at the same index. -/
theorem parseTokens_alike
    {tokens others : List Token}
    (same : tokens.map Token.plain = others.map Token.plain)
    (ended : ∃ token ∈ tokens, token.isFinish = true)
    (source otherSource : Source) :
    (∃ program other,
        parseTokens source tokens = .ok program ∧ parseTokens otherSource others = .ok other ∧
          program.relabel .plain = other.relabel .plain) ∨
      ∃ (index : Nat) (token other : Token) (error otherError : SyntaxError),
        tokens[index]? = some token ∧ others[index]? = some other ∧
          parseTokens source tokens = .error error ∧
            parseTokens otherSource others = .error otherError ∧
              (error.token = token.lexeme ∧ error.span = token.span) ∧
                (otherError.token = other.lexeme ∧ otherError.span = other.span) ∧
                  error.code = otherError.code ∧ error.expected = otherError.expected := by
  have places : State.initial.relabel .plain = State.initial.relabel .plain :=
    rfl
  simp only [parseTokens, read_eq_readTo]
  rcases State.readTo_alike .standard places same ended (finishAfter tokens)
      (finishAfter others) with
    ⟨body, last, other, otherLast, accepted, otherAccepted, like⟩ |
    ⟨index, token, other, refusal, found, otherFound, sameToken, refused, otherRefused⟩
  · simp only [accepted, otherAccepted]
    refine .inl ⟨_, _, rfl, rfl, ?_⟩
    unfold Program.relabel
    rw [like]
    rfl
  · simp only [refused, otherRefused]
    exact .inr ⟨index, token, other, _, _, found, otherFound, rfl, rfl,
      refusal.toError_token source token, refusal.toError_token otherSource other,
      refusal.toError_alike sameToken source otherSource⟩

end Reader

end Bhasha
