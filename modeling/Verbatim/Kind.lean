/-
  The kinds of syntax elements.

  One enumeration labels everything that occurs in a tree: trivia, tokens, lists
  and nodes.  The declaration order is the numbering, and the groups of kinds are
  intervals of it.  Kinds of punctuation, operators and keywords have one fixed
  spelling; the keywords are exactly the kinds that the keyword table reads back.
-/
import Verbatim.Text.Basic

set_option autoImplicit false

namespace Verbatim

/-- Label of a syntax element. -/
inductive Kind where
  -- a place whose kind is not decided yet
  | tombstone
  -- trivia
  | whitespaceTrivia | newlineTrivia | singleLineCommentTrivia | multiLineCommentTrivia
  | skippedTextTrivia
  -- elements without a grammatical kind of their own
  | list | separatedList | triviaList
  -- tokens of varying text
  | eof | unknown | identifier | numericLiteral | stringLiteral
  -- punctuation and operators
  | openBrace | closeBrace | openParen | closeParen | openBracket | closeBracket | dot
  | semicolon | comma | colon | question | equals | equalsEquals | equalsEqualsEquals
  | exclamation | exclamationEquals | exclamationEqualsEquals | lessThan | lessThanEquals
  | greaterThan | greaterThanEquals | plus | minus | asterisk | slash | percent
  | ampersandAmpersand | barBar
  -- keywords
  | constKw | elseKw | falseKw | functionKw | ifKw | interfaceKw | letKw | nullKw | returnKw
  | trueKw | varKw | whileKw
  -- nodes
  | sourceUnit | variableStatement | variableDeclaration | variableDeclarator
  | equalsValueClause | functionDeclaration | parameterList | parameter | block
  | expressionStatement | emptyStatement | ifStatement | elseClause | whileStatement
  | returnStatement | nameExpression | literalExpression | parenthesizedExpression
  | prefixUnaryExpression | binaryExpression | assignmentExpression | invocationExpression
  | argumentList | memberAccessExpression | typeAscription | typeReference
  | interfaceDeclaration | propertySignature
  deriving DecidableEq, Repr, Inhabited

namespace Kind

/-- Every kind, in declaration order. -/
def all : List Kind :=
  [.tombstone, .whitespaceTrivia, .newlineTrivia, .singleLineCommentTrivia,
  .multiLineCommentTrivia, .skippedTextTrivia, .list, .separatedList, .triviaList, .eof,
  .unknown, .identifier, .numericLiteral, .stringLiteral, .openBrace, .closeBrace, .openParen,
  .closeParen, .openBracket, .closeBracket, .dot, .semicolon, .comma, .colon, .question,
  .equals, .equalsEquals, .equalsEqualsEquals, .exclamation, .exclamationEquals,
  .exclamationEqualsEquals, .lessThan, .lessThanEquals, .greaterThan, .greaterThanEquals,
  .plus, .minus, .asterisk, .slash, .percent, .ampersandAmpersand, .barBar, .constKw, .elseKw,
  .falseKw, .functionKw, .ifKw, .interfaceKw, .letKw, .nullKw, .returnKw, .trueKw, .varKw,
  .whileKw, .sourceUnit, .variableStatement, .variableDeclaration, .variableDeclarator,
  .equalsValueClause, .functionDeclaration, .parameterList, .parameter, .block,
  .expressionStatement, .emptyStatement, .ifStatement, .elseClause, .whileStatement,
  .returnStatement, .nameExpression, .literalExpression, .parenthesizedExpression,
  .prefixUnaryExpression, .binaryExpression, .assignmentExpression, .invocationExpression,
  .argumentList, .memberAccessExpression, .typeAscription, .typeReference,
  .interfaceDeclaration, .propertySignature]

/-- Position in the declaration order. -/
def number (k : Kind) : Nat :=
  k.ctorIdx

/-- Name under which dumps and messages show the kind. -/
def name : Kind → String
  | .tombstone => "TOMBSTONE"
  | .whitespaceTrivia => "WHITESPACE_TRIVIA"
  | .newlineTrivia => "NEWLINE_TRIVIA"
  | .singleLineCommentTrivia => "SINGLE_LINE_COMMENT_TRIVIA"
  | .multiLineCommentTrivia => "MULTI_LINE_COMMENT_TRIVIA"
  | .skippedTextTrivia => "SKIPPED_TEXT_TRIVIA"
  | .list => "LIST"
  | .separatedList => "SEPARATED_LIST"
  | .triviaList => "TRIVIA_LIST"
  | .eof => "EOF"
  | .unknown => "UNKNOWN"
  | .identifier => "IDENTIFIER"
  | .numericLiteral => "NUMERIC_LITERAL"
  | .stringLiteral => "STRING_LITERAL"
  | .openBrace => "OPEN_BRACE"
  | .closeBrace => "CLOSE_BRACE"
  | .openParen => "OPEN_PAREN"
  | .closeParen => "CLOSE_PAREN"
  | .openBracket => "OPEN_BRACKET"
  | .closeBracket => "CLOSE_BRACKET"
  | .dot => "DOT"
  | .semicolon => "SEMICOLON"
  | .comma => "COMMA"
  | .colon => "COLON"
  | .question => "QUESTION"
  | .equals => "EQUALS"
  | .equalsEquals => "EQUALS_EQUALS"
  | .equalsEqualsEquals => "EQUALS_EQUALS_EQUALS"
  | .exclamation => "EXCLAMATION"
  | .exclamationEquals => "EXCLAMATION_EQUALS"
  | .exclamationEqualsEquals => "EXCLAMATION_EQUALS_EQUALS"
  | .lessThan => "LESS_THAN"
  | .lessThanEquals => "LESS_THAN_EQUALS"
  | .greaterThan => "GREATER_THAN"
  | .greaterThanEquals => "GREATER_THAN_EQUALS"
  | .plus => "PLUS"
  | .minus => "MINUS"
  | .asterisk => "ASTERISK"
  | .slash => "SLASH"
  | .percent => "PERCENT"
  | .ampersandAmpersand => "AMPERSAND_AMPERSAND"
  | .barBar => "BAR_BAR"
  | .constKw => "CONST_KW"
  | .elseKw => "ELSE_KW"
  | .falseKw => "FALSE_KW"
  | .functionKw => "FUNCTION_KW"
  | .ifKw => "IF_KW"
  | .interfaceKw => "INTERFACE_KW"
  | .letKw => "LET_KW"
  | .nullKw => "NULL_KW"
  | .returnKw => "RETURN_KW"
  | .trueKw => "TRUE_KW"
  | .varKw => "VAR_KW"
  | .whileKw => "WHILE_KW"
  | .sourceUnit => "SOURCE_UNIT"
  | .variableStatement => "VARIABLE_STATEMENT"
  | .variableDeclaration => "VARIABLE_DECLARATION"
  | .variableDeclarator => "VARIABLE_DECLARATOR"
  | .equalsValueClause => "EQUALS_VALUE_CLAUSE"
  | .functionDeclaration => "FUNCTION_DECLARATION"
  | .parameterList => "PARAMETER_LIST"
  | .parameter => "PARAMETER"
  | .block => "BLOCK"
  | .expressionStatement => "EXPRESSION_STATEMENT"
  | .emptyStatement => "EMPTY_STATEMENT"
  | .ifStatement => "IF_STATEMENT"
  | .elseClause => "ELSE_CLAUSE"
  | .whileStatement => "WHILE_STATEMENT"
  | .returnStatement => "RETURN_STATEMENT"
  | .nameExpression => "NAME_EXPRESSION"
  | .literalExpression => "LITERAL_EXPRESSION"
  | .parenthesizedExpression => "PARENTHESIZED_EXPRESSION"
  | .prefixUnaryExpression => "PREFIX_UNARY_EXPRESSION"
  | .binaryExpression => "BINARY_EXPRESSION"
  | .assignmentExpression => "ASSIGNMENT_EXPRESSION"
  | .invocationExpression => "INVOCATION_EXPRESSION"
  | .argumentList => "ARGUMENT_LIST"
  | .memberAccessExpression => "MEMBER_ACCESS_EXPRESSION"
  | .typeAscription => "TYPE_ANNOTATION"
  | .typeReference => "TYPE_REFERENCE"
  | .interfaceDeclaration => "INTERFACE_DECLARATION"
  | .propertySignature => "PROPERTY_SIGNATURE"

/-- The kind of a given name. -/
def ofName? (s : String) : Option Kind :=
  all.find? fun k => k.name == s

/-- The name as a text. -/
def label (k : Kind) : Text :=
  k.name.toList

/-! ## Groups of kinds -/

/-- Kinds that only ever label trivia. -/
def isTrivia (k : Kind) : Bool :=
  Kind.whitespaceTrivia.number ≤ k.number && k.number ≤ Kind.skippedTextTrivia.number

/-- Kinds that label a token. -/
def isToken (k : Kind) : Bool :=
  Kind.eof.number ≤ k.number && k.number ≤ Kind.whileKw.number

/-- Kinds of the reserved words. -/
def isKeyword (k : Kind) : Bool :=
  Kind.constKw.number ≤ k.number && k.number ≤ Kind.whileKw.number

/-- Kinds that label a composite node. -/
def isNode (k : Kind) : Bool :=
  Kind.sourceUnit.number ≤ k.number

/-- Constructs of the typed dialect, which plain programs do not have. -/
def isTypeScriptSpecific : Kind → Bool
  | .typeAscription | .typeReference | .interfaceDeclaration | .propertySignature => true
  | _ => false

/-! ## Spelling -/

/-- Source text of punctuation, operators and keywords. -/
def fixedText : Kind → Option Text
  | .openBrace => some "\x7b".toList
  | .closeBrace => some "\x7d".toList
  | .openParen => some "(".toList
  | .closeParen => some ")".toList
  | .openBracket => some "[".toList
  | .closeBracket => some "]".toList
  | .dot => some ".".toList
  | .semicolon => some ";".toList
  | .comma => some ",".toList
  | .colon => some ":".toList
  | .question => some "?".toList
  | .equals => some "=".toList
  | .equalsEquals => some "==".toList
  | .equalsEqualsEquals => some "===".toList
  | .exclamation => some "!".toList
  | .exclamationEquals => some "!=".toList
  | .exclamationEqualsEquals => some "!==".toList
  | .lessThan => some "<".toList
  | .lessThanEquals => some "<=".toList
  | .greaterThan => some ">".toList
  | .greaterThanEquals => some ">=".toList
  | .plus => some "+".toList
  | .minus => some "-".toList
  | .asterisk => some "*".toList
  | .slash => some "/".toList
  | .percent => some "%".toList
  | .ampersandAmpersand => some "&&".toList
  | .barBar => some "||".toList
  | .constKw => some "const".toList
  | .elseKw => some "else".toList
  | .falseKw => some "false".toList
  | .functionKw => some "function".toList
  | .ifKw => some "if".toList
  | .interfaceKw => some "interface".toList
  | .letKw => some "let".toList
  | .nullKw => some "null".toList
  | .returnKw => some "return".toList
  | .trueKw => some "true".toList
  | .varKw => some "var".toList
  | .whileKw => some "while".toList
  | _ => none

/-- The reserved words. -/
def keywords : List Kind :=
  all.filter isKeyword

/-- The keyword with a given spelling. -/
def ofKeyword? (word : Text) : Option Kind :=
  keywords.find? fun k => k.fixedText == some word

end Kind

end Verbatim
