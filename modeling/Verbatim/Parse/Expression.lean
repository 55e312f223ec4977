/-
  Expressions.

  An expression is always read as one node: where nothing can start an expression,
  a name that the source does not have stands in.  Binary operators associate to
  the left and bind by precedence, assignment associates to the right, and calls
  and member accesses bind most tightly.
-/
import Verbatim.Parse.State

set_option autoImplicit false

namespace Verbatim.Parser

/-! ## Classes of tokens -/

/-- Tokens that are a literal. -/
def isLiteral : Kind → Bool
  | .numericLiteral | .stringLiteral | .trueKw | .falseKw | .nullKw => true
  | _ => false

/-- Operators in front of an operand. -/
def isSign : Kind → Bool
  | .exclamation | .minus | .plus => true
  | _ => false

/-- Tokens that can start an expression. -/
def startsExpression (kind : Kind) : Bool :=
  kind == .identifier || kind == .openParen || isLiteral kind || isSign kind

/-- Tokens that end an argument list, also a broken one. -/
def endsArguments : Kind → Bool
  | .closeParen | .semicolon | .openBrace | .closeBrace => true
  | _ => false

/-- How tightly a binary operator binds; a larger number binds more tightly. -/
def precedence? : Kind → Option Nat
  | .barBar => some 1
  | .ampersandAmpersand => some 2
  | .equalsEquals | .exclamationEquals | .equalsEqualsEquals | .exclamationEqualsEquals => some 3
  | .lessThan | .lessThanEquals | .greaterThan | .greaterThanEquals => some 4
  | .plus | .minus => some 5
  | .asterisk | .slash | .percent => some 6
  | _ => none

/-! ## Productions

Each production takes the parser of the expressions nested in it as `inner`. -/

/-- A name, a literal or a parenthesized expression. -/
def primary (inner : Parser Completed) : Parser Completed := do
  let kind := (← get).peekKind
  if kind = .identifier then
    return .node .nameExpression (← advance)
  else if isLiteral kind then
    return .node .literalExpression (← advance)
  else if kind = .openParen then
    let opening ← advance
    let body ← inner
    let closing ← expect .closeParen
    return .node .parenthesizedExpression (opening ++ body.events ++ closing)
  else
    report "expected an expression"
    return .node .nameExpression [.missing .identifier]

/-- The arguments of a call. -/
def argumentList (inner : Parser Completed) (budget : Nat) : Parser Segment := do
  let opening ← advance
  let arguments ← separated .comma startsExpression false (do return (← inner).events) budget
  skipUntil endsArguments "expected an argument" budget
  let closing ← expect .closeParen
  return Segment.node .argumentList (opening ++ arguments ++ closing)

/-- Calls and member accesses behind an expression. -/
def chain (inner : Parser Completed) : Nat → Completed → Parser Completed
  | 0, _ => throw .exhausted
  | budget + 1, object => do
      let kind := (← get).peekKind
      if kind = .openParen then
        let arguments ← argumentList inner budget
        chain inner budget (object.wrap .invocationExpression arguments)
      else if kind = .dot then
        let dot ← advance
        let member ← name
        chain inner budget (object.wrap .memberAccessExpression (dot ++ member))
      else return object

/-- An operand with its signs. -/
def unary (inner : Parser Completed) : Nat → Parser Completed
  | 0 => throw .exhausted
  | budget + 1 => do
      if isSign (← get).peekKind then
        let sign ← advance
        let operand ← unary inner budget
        return .node .prefixUnaryExpression (sign ++ operand.events)
      else
        let object ← primary inner
        chain inner budget object

/-- Operators that bind more tightly than `least`, behind a left operand. -/
def binary (operand : Parser Completed) : Nat → Nat → Completed → Parser Completed
  | 0, _, _ => throw .exhausted
  | budget + 1, least, left => do
      match precedence? (← get).peekKind with
      | none => return left
      | some precedence =>
          if precedence ≤ least then return left
          let operator ← advance
          let first ← operand
          let right ← binary operand budget precedence first
          binary operand budget least (left.wrap .binaryExpression (operator ++ right.events))

/-- An expression. -/
def expression : Nat → Parser Completed
  | 0 => throw .exhausted
  | budget + 1 => do
      let operand := unary (expression budget) budget
      let first ← operand
      let left ← binary operand budget 0 first
      if (← get).isAt .equals then
        let sign ← advance
        let right ← expression budget
        return left.wrap .assignmentExpression (sign ++ right.events)
      else return left

end Verbatim.Parser
