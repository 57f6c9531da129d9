import FileQuery.Query
import FileQuery.TokenKind
import FileQuery.Word.Quoting

/-!
Canonical text: the words of an expression with single spaces between them, every argument quoted
where it has to be, and parentheses exactly around the operands that would otherwise be read as part
of something else.
-/

namespace FileQuery

/-- An argument as one raw word. -/
def Argument.word : Argument → String
  | string value => Word.quote value
  | amount value => value.text

/-- Where an operand stands: under which connective, and on which side of it. -/
inductive OperandPlace where
  | negated
  | leftOfConjunction
  | rightOfConjunction
  | leftOfDisjunction
  | rightOfDisjunction
  | firstItem
  | laterItem
deriving DecidableEq

namespace Expression

/-- Whether an operand takes parentheses at its place. A disjunction takes them everywhere but on
the left of another one; the two forms of conjunction take them where they would run on into the
operands before them; only a single operand stands behind a negation without them. -/
def isGrouped : OperandPlace → Expression → Bool
  | .leftOfDisjunction, _ => false
  | .negated, disjunction .. => true
  | .negated, conjunction .. => true
  | .negated, list _ => true
  | .leftOfConjunction, disjunction .. => true
  | .rightOfConjunction, disjunction .. => true
  | .rightOfConjunction, conjunction .. => true
  | .rightOfConjunction, list _ => true
  | .rightOfDisjunction, disjunction .. => true
  | .firstItem, disjunction .. => true
  | .firstItem, list _ => true
  | .laterItem, disjunction .. => true
  | .laterItem, conjunction .. => true
  | .laterItem, list _ => true
  | _, _ => false

/-- Words between parentheses, if parentheses are called for. -/
def grouped (parens : Bool) (ws : List String) : List String :=
  if parens then TokenKind.leftParen.spelling :: ws ++ [TokenKind.rightParen.spelling] else ws

mutual

/-- The raw words of an expression. An empty list leaves its place blank. -/
def words : Expression → List String
  | const true => [TokenKind.constTrue.spelling]
  | const false => [TokenKind.constFalse.spelling]
  | negation e => TokenKind.negation.spelling :: grouped (isGrouped .negated e) e.words
  | conjunction l r =>
      grouped (isGrouped .leftOfConjunction l) l.words ++
        TokenKind.conjunction.spelling :: grouped (isGrouped .rightOfConjunction r) r.words
  | disjunction l r =>
      grouped (isGrouped .leftOfDisjunction l) l.words ++
        TokenKind.disjunction.spelling :: grouped (isGrouped .rightOfDisjunction r) r.words
  | list [] => [""]
  | list (e :: es) => grouped (isGrouped .firstItem e) e.words ++ laterWords es
  | predicate name arguments => ("-" ++ name) :: arguments.map Argument.word
  | command action ws =>
      ("-" ++ action) :: ws.map Word.quote ++ [TokenKind.semicolon.spelling]

/-- The raw words of the items of a list behind the first. -/
def laterWords : List Expression → List String
  | [] => []
  | e :: es => grouped (isGrouped .laterItem e) e.words ++ laterWords es

end

/-- The words of an expression with single spaces between them. -/
def text (e : Expression) : String :=
  String.intercalate " " e.words

end Expression

namespace Query

/-- The raw words of a query. It begins with the command word, so that a starting point of the same
spelling is not taken for it. -/
def words (q : Query) : List String :=
  TokenKind.find.spelling :: q.startingPoints.map Word.quote ++
    (q.expression.map Expression.words).getD []

/-- The canonical text of a query. -/
def text (q : Query) : String :=
  String.intercalate " " q.words

end Query

end FileQuery
