/-
  Statements and declarations.

  Every production reads one node, except that a token which starts no statement
  is skipped and yields nothing.  Bodies are read by the parser of statements that
  is passed in as `inner`.
-/
import Verbatim.Parse.Expression

set_option autoImplicit false

namespace Verbatim.Parser

/-! ## Types -/

/-- `: Type`, with both parts stood in for where they are missing. -/
def typeAscription : Parser Segment := do
  let colon ← expect .colon
  let type ← name
  return Segment.node .typeAscription (colon ++ Segment.node .typeReference type)

/-- A type, if a colon comes next. -/
def optionalType : Parser Segment := do
  if (← get).isAt .colon then typeAscription else return []

/-! ## Loops over statements and members -/

/-- Reads statements up to the end of the file, or also up to a closing brace. -/
def statements (inner : Parser Segment) (toBrace : Bool) : Nat → Parser Segment
  | 0 => throw .exhausted
  | budget + 1 => do
      let s ← get
      if s.isAt .eof || (toBrace && s.isAt .closeBrace) then return []
      let here ← inner
      return here ++ (← statements inner toBrace budget)

/-- A block.  Where the opening brace is missing, an empty block stands in. -/
def block (inner : Parser Segment) (budget : Nat) : Parser Segment := do
  if (← get).isAt .openBrace then
    let opening ← advance
    let body ← statements inner true budget
    let closing ← expect .closeBrace
    return Segment.node .block (opening ++ Segment.list body ++ closing)
  else
    let opening ← expect .openBrace
    return Segment.node .block (opening ++ Segment.list [] ++ [.missing .closeBrace])

/-- A property of an interface. -/
def propertySignature : Parser Segment := do
  let key ← advance
  let question ← eat .question
  let type ← typeAscription
  let s ← get
  let terminator ←
    if s.isAt .semicolon then advance
    else if s.isAt .comma then advance
    else if s.isAt .closeBrace || s.atLineBreak then pure []
    else expect .semicolon
  return Segment.node .propertySignature (key ++ question ++ type ++ terminator)

/-- The properties of an interface, up to a closing brace or the end of the file. -/
def members : Nat → Parser Segment
  | 0 => throw .exhausted
  | budget + 1 => do
      let s ← get
      if s.isAt .closeBrace || s.isAt .eof then return []
      if s.isAt .identifier then
        let here ← propertySignature
        return here ++ (← members budget)
      else
        reportAndSkip "expected a property signature"
        members budget

/-! ## Declarations -/

/-- A name that starts an item of a list of names. -/
def startsName (kind : Kind) : Bool :=
  kind == .identifier

/-- Tokens that end a parameter list, also a broken one. -/
def endsParameters : Kind → Bool
  | .closeParen | .openBrace | .closeBrace | .semicolon | .colon => true
  | _ => false

/-- `= expression`, if an equals sign comes next. -/
def optionalValue (budget : Nat) : Parser Segment := do
  if (← get).isAt .equals then
    let sign ← advance
    let value ← expression budget
    return Segment.node .equalsValueClause (sign ++ value.events)
  else return []

/-- One declared variable. -/
def variableDeclarator (budget : Nat) : Parser Segment := do
  let variableName ← name
  let type ← optionalType
  let value ← optionalValue budget
  return Segment.node .variableDeclarator (variableName ++ type ++ value)

/-- A declaration of variables. -/
def variableStatement (options : ParseOptions) (budget : Nat) : Parser Segment := do
  let keyword ← advance
  let declarators ← separated .comma startsName true (variableDeclarator budget) budget
  let terminator ← semicolon options
  return Segment.node .variableStatement
    (Segment.node .variableDeclaration (keyword ++ declarators) ++ terminator)

/-- One parameter of a function. -/
def parameter : Parser Segment := do
  let parameterName ← name
  let type ← optionalType
  return Segment.node .parameter (parameterName ++ type)

/-- The parameters of a function. -/
def parameterList (budget : Nat) : Parser Segment := do
  let opening ← expect .openParen
  let parameters ← separated .comma startsName false parameter budget
  skipUntil endsParameters "expected a parameter" budget
  let closing ← expect .closeParen
  return Segment.node .parameterList (opening ++ parameters ++ closing)

/-- A function. -/
def functionDeclaration (inner : Parser Segment) (budget : Nat) : Parser Segment := do
  let keyword ← advance
  let functionName ← name
  let parameters ← parameterList budget
  let type ← optionalType
  let body ← block inner budget
  return Segment.node .functionDeclaration (keyword ++ functionName ++ parameters ++ type ++ body)

/-- An interface. -/
def interfaceDeclaration (budget : Nat) : Parser Segment := do
  let keyword ← advance
  let interfaceName ← name
  let opening ← expect .openBrace
  let properties ← members budget
  let closing ← expect .closeBrace
  return Segment.node .interfaceDeclaration
    (keyword ++ interfaceName ++ opening ++ Segment.list properties ++ closing)

/-! ## Control flow -/

/-- The parenthesized condition of a branch or loop. -/
def condition (budget : Nat) : Parser Segment := do
  let opening ← expect .openParen
  let test ← expression budget
  let closing ← expect .closeParen
  return opening ++ test.events ++ closing

/-- `else` and its body, if it comes next. -/
def optionalElse (inner : Parser Segment) : Parser Segment := do
  if (← get).isAt .elseKw then
    let keyword ← advance
    let body ← inner
    return Segment.node .elseClause (keyword ++ body)
  else return []

/-- A branch. -/
def ifStatement (inner : Parser Segment) (budget : Nat) : Parser Segment := do
  let keyword ← advance
  let test ← condition budget
  let body ← inner
  let otherwise ← optionalElse inner
  return Segment.node .ifStatement (keyword ++ test ++ body ++ otherwise)

/-- A loop. -/
def whileStatement (inner : Parser Segment) (budget : Nat) : Parser Segment := do
  let keyword ← advance
  let test ← condition budget
  let body ← inner
  return Segment.node .whileStatement (keyword ++ test ++ body)

/-- A return.  Its value has to start on the same line. -/
def returnStatement (options : ParseOptions) (budget : Nat) : Parser Segment := do
  let keyword ← advance
  let s ← get
  let value ←
    if startsExpression s.peekKind && !s.atLineBreak then do
      pure (← expression budget).events
    else pure []
  let terminator ← semicolon options
  return Segment.node .returnStatement (keyword ++ value ++ terminator)

/-- An expression used as a statement. -/
def expressionStatement (options : ParseOptions) (budget : Nat) : Parser Segment := do
  let value ← expression budget
  let terminator ← semicolon options
  return Segment.node .expressionStatement (value.events ++ terminator)

/-- A statement.  A token that starts none is skipped. -/
def statement (options : ParseOptions) : Nat → Parser Segment
  | 0 => throw .exhausted
  | budget + 1 => do
      let inner := statement options budget
      match (← get).peekKind with
      | .varKw | .letKw | .constKw => variableStatement options budget
      | .functionKw => functionDeclaration inner budget
      | .interfaceKw => interfaceDeclaration budget
      | .openBrace => block inner budget
      | .semicolon => return Segment.node .emptyStatement (← advance)
      | .ifKw => ifStatement inner budget
      | .whileKw => whileStatement inner budget
      | .returnKw => returnStatement options budget
      | kind =>
          if startsExpression kind then expressionStatement options budget
          else
            reportAndSkip "expected a statement"
            return []

/-- A whole source text. -/
def sourceUnit (options : ParseOptions) (budget : Nat) : Parser Segment := do
  let body ← statements (statement options budget) false budget
  let last ← expect .eof
  return Segment.node .sourceUnit (Segment.list body ++ last)

end Verbatim.Parser
