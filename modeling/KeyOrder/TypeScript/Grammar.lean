import KeyOrder.TypeScript.Peg

/-!
# The grammar of TypeScript

Statements, expressions and types as parsing expressions. The grammar is exact where member lists
are written (interfaces, object types, enums, their members and separators) and generous
everywhere else: operators have no precedence, and a pattern is read as the literal that it looks
like.
-/

namespace KeyOrder.TypeScript

/-- Which of the two languages a source is written in. -/
inductive Dialect where
  | plain
  /-- With elements in expressions. -/
  | elements
deriving DecidableEq, Repr

/-- The symbols of the grammar. -/
inductive Symbol where
  -- Sources and statements.
  | source | statement | statements | block | skipped | group | semicolon
  | declaration | interfaceDeclaration | enumDeclaration | classDeclaration | functionDeclaration
  | variableStatement | importStatement | exportStatement | controlStatement
  -- Member lists.
  | objectType | interfaceBody | listBody | member | propertyName | enumBody | enumMember
  -- Types.
  | type | operandType | intersection | prefixedType | suffixedType | simpleType | functionType
  | returnType | typeArguments | typeParameters | parameters | signature | typing | typeTemplate
  -- Expressions.
  | expression | assignment | arrow | operation | operand | suffix | simpleExpression | arguments
  | objectLiteral | arrayLiteral | template | function | classExpression | classBody | element
deriving DecidableEq, Repr

namespace Grammar

open Peg

/-- A parsing expression of this grammar. -/
abbrev Rule := Peg Symbol

/-- A symbol as an expression. -/
def s (symbol : Symbol) : Rule := .symbol symbol

/-- An opening brace. -/
def openBrace : Rule := m "\x7b"

/-- A closing brace. -/
def closeBrace : Rule := m "\x7d"

/-- Any word. -/
def word : Rule := .token .anyWord none

/-- A word that is not reserved. -/
def identifier : Rule := .token .identifier (some .identifier)

/-- A string. -/
def string : Rule := .token .string (some .string)

/-- A number. -/
def number : Rule := .token .number (some .number)

/-- A node that is only there to hold others. -/
def holder (name : String) (item : Rule) : Rule := .node (.other name) item

/-- Items with commas between them and perhaps one behind them. -/
def commaList (item : Rule) : Rule := separated (m ",") item ++ opt (m ",")

/-- The keyword `text`, but not as a name: on the same line more follows. -/
def keywordBefore (texts : List String) (next : Rule) : Rule :=
  words texts ++ .ahead (.sameLine ++ next)

/-! ## Member lists -/

/-- What a property name can start with. -/
def nameStart : Rule := word <|> .token .privateName none <|> string <|> number <|> m "["

/-- Words and marks in front of a property name. -/
def memberModifiers : Rule :=
  .many (keywordBefore
    ["public", "private", "protected", "static", "override", "readonly"] nameStart)

/-- A word or mark that says what kind of method follows. -/
def methodModifier : Rule :=
  opt (keywordBefore ["async"] nameStart) ++
    opt (keywordBefore ["get", "set"] nameStart <|> m "*")

/-- The start of a signature: parameters, or type parameters. -/
def signatureStart : Rule := .ahead (marks ["(", "<"])

/-- A name between brackets: a literal by itself, or any expression. -/
def computedName : Rule :=
  let closes := Peg.ahead (m "]")
  .node .computedPropertyName
    (m "[" ++
      oneOf [string ++ closes, number ++ closes, s .template ++ closes,
        holder "expression" (s .expression)] ++
      m "]")

/-- The name of a property or of an enum member. -/
def propertyName : Rule :=
  oneOf [.token .anyWord (some .propertyIdentifier),
    .token .privateName (some .privatePropertyIdentifier), string, number, computedName]

/-- An index signature, or the content of a mapped type. -/
def indexSignature : Rule :=
  let mark := opt (marks ["+", "-"])
  let parameter := Peg.role .name (.token .anyWord (some .identifier)) ++ m ":" ++
    holder "index_type" (s .type)
  let mapped := Peg.node .mappedTypeClause
    (word ++ w "in" ++ s .type ++ opt (w "as" ++ s .type))
  .node .indexSignature
    (opt (mark ++ w "readonly") ++ m "[" ++
      ((parameter ++ m "]" ++ s .typing) <|>
        (mapped ++ m "]" ++ opt (holder "annotation" (mark ++ opt (m "?") ++ m ":" ++ s .type)))))

/-- The signature of a member behind its name. At a line end that would end the member, none
follows. -/
def memberSignature : Rule :=
  .notAhead .endWithoutMark ++ signatureStart ++ holder "signature" (s .signature)

/-- A member of an interface or an object type. At its start, the word `abstract` is never a
name. -/
def member : Rule :=
  let key := Peg.role .name (s .propertyName)
  let notAbstract := Peg.notAhead (w "abstract")
  oneOf [
    .node .callSignature (signatureStart ++ s .signature),
    .node .constructSignature (opt (w "abstract") ++ w "new" ++ memberSignature),
    indexSignature,
    .node .methodSignature
      (notAbstract ++ memberModifiers ++ methodModifier ++ key ++ opt (m "?") ++ memberSignature),
    .node .propertySignature
      (notAbstract ++ memberModifiers ++ key ++ opt (m "?") ++ opt (s .typing))]

/-- Members with a comma, a semicolon or a line end between them. -/
def listBody : Rule :=
  let separator := marks [",", ";"] <|> Peg.endWithoutMark
  opt (marks [",", ";"]) ++ opt (separated separator (s .member) ++ opt separator)

/-- A body of members between braces, which may have a bar. -/
def listBetweenBraces : Rule :=
  (Peg.token (.exact "\x7b|") none <|> openBrace) ++ s .listBody ++
    (closeBrace <|> Peg.token (.exact "|\x7d") none)

/-- A member of an enum: a name, perhaps with a value. -/
def enumMember : Rule :=
  let value := (string ++ .ahead (m "," <|> closeBrace)) <|> holder "expression" (s .assignment)
  .node .enumAssignment (.role .name (s .propertyName) ++ m "=" ++ .role .value value) <|>
    s .propertyName

/-! ## Types -/

/-- Parameters of a function type, told apart from a type in parentheses by how they start. -/
def functionTypeStart : Rule :=
  let start := oneOf [word, .ahead openBrace ++ s .group, .ahead (m "[") ++ s .group]
  .ahead (m "<" <|> (m "(" ++ oneOf [m ")", m "...",
    start ++ (marks [":", ",", "?", "="] <|> (m ")" ++ m "=>"))]))

/-- The type of a function, or of a constructor. -/
def functionType : Rule :=
  let arrow := opt (s .typeParameters) ++ s .parameters ++ m "=>" ++ s .returnType
  (functionTypeStart ++ arrow) <|> (opt (w "abstract") ++ w "new" ++ signatureStart ++ arrow)

/-- The type of a result, which may say what holds of a parameter. -/
def returnType : Rule :=
  oneOf [
    opt (w "asserts" ++ .sameLine) ++ word ++ .sameLine ++ w "is" ++ s .type,
    w "asserts" ++ .sameLine ++ word,
    s .type]

/-- A type that may be conditional. -/
def type : Rule :=
  s .operandType ++
    opt (.sameLine ++ w "extends" ++ s .operandType ++ m "?" ++ s .type ++ m ":" ++ s .type)

/-- A function type, or a union. -/
def operandType : Rule :=
  s .functionType <|> (opt (m "|") ++ separated (m "|") (s .intersection))

/-- A type with a keyword in front. -/
def prefixedType : Rule :=
  oneOf [
    words ["keyof", "readonly", "unique"] ++ s .prefixedType,
    w "infer" ++ word ++ opt (w "extends" ++ s .operandType ++ .notAhead (m "?")),
    s .functionType,
    s .suffixedType]

/-- A type with brackets behind it. -/
def suffixedType : Rule :=
  s .simpleType ++ .many (.sameLine ++ m "[" ++ opt (s .type) ++ m "]")

/-- Names with dots between them. -/
def dottedName : Rule := separated (m ".") word

/-- A module, or a name in it. -/
def importedName : Rule := w "import" ++ s .arguments ++ .many (m "." ++ word)

/-- One item of a tuple type. -/
def tupleItem : Rule :=
  opt (m "...") ++ opt (word ++ opt (m "?") ++ m ":") ++ s .type ++ opt (m "?")

/-- A type that is one name, one literal or in brackets. -/
def simpleType : Rule :=
  oneOf [
    m "(" ++ s .type ++ m ")",
    s .objectType,
    m "[" ++ opt (commaList tupleItem) ++ m "]",
    s .typeTemplate,
    string,
    opt (marks ["-", "+"]) ++ number,
    w "typeof" ++ (importedName <|> dottedName) ++ opt (.sameLine ++ s .typeArguments),
    importedName ++ opt (s .typeArguments),
    dottedName ++ opt (s .typeArguments)]

/-- Types between angle brackets. -/
def typeArguments : Rule := m "<" ++ commaList (s .type) ++ m ">"

/-- Type parameters between angle brackets. -/
def typeParameters : Rule :=
  let parameter := .many (words ["const", "in", "out"] ++ .ahead word) ++ word ++
    opt (w "extends" ++ s .type) ++ opt (m "=" ++ s .type)
  m "<" ++ commaList parameter ++ m ">"

/-- Marks in front of a declaration. -/
def decorator : Rule :=
  m "@" ++ ((m "(" ++ s .expression ++ m ")") <|> (dottedName ++ opt (s .arguments)))

/-- What a variable or a parameter is bound by. -/
def pattern : Rule := oneOf [s .objectLiteral, s .arrayLiteral, .token .anyWord none]

/-- Parameters between parentheses. -/
def parameters : Rule :=
  let start := oneOf [word, openBrace, m "["]
  let modifiers := Peg.many
    (words ["public", "private", "protected", "readonly", "override"] ++ .ahead start)
  let parameter := .many decorator ++ modifiers ++ opt (m "...") ++ pattern ++ opt (m "?") ++
    opt (m ":" ++ s .type) ++ opt (m "=" ++ s .assignment)
  m "(" ++ opt (commaList parameter) ++ m ")"

/-- Parameters and the type of the result. -/
def signature : Rule :=
  opt (s .typeParameters) ++ s .parameters ++ opt (m ":" ++ s .returnType)

/-- A template whose substitutions are `inner`. -/
def templateOf (inner : Rule) : Rule :=
  let substitution := Peg.node .templateSubstitution
    (.token (.adjacent "$\x7b") none ++ inner ++ closeBrace)
  .node .templateString
    (m "`" ++ .many (.token .templateText none <|> substitution) ++ .token (.adjacent "`") none)

/-! ## Expressions -/

/-- Operators between two operands. -/
def binaryOperator : Rule :=
  oneOf [
    marks ["+", "-", "*", "/", "%", "**", "<<", "<", "<=", "==", "!=", "===", "!==", "&", "|", "^",
      "&&", "||", "??"],
    m ">" ++ opt (m ">") ++ opt (m ">") ++ opt (m "="),
    words ["in", "instanceof"]]

/-- Operators that give a value to a variable. -/
def assignmentOperator : Rule :=
  marks ["=", "+=", "-=", "*=", "/=", "%=", "**=", "<<=", "&=", "|=", "^=", "&&=", "||=", "??="]

/-- The start of an arrow function. -/
def arrowStart : Rule :=
  .ahead (opt (w "async" ++ .sameLine) ++
    ((word ++ m "=>") <|>
      (opt (s .typeParameters) ++ .ahead (m "(") ++ s .group ++ marks ["=>", ":"])))

/-- An arrow function. -/
def arrow : Rule :=
  let head := (word ++ m "=>") <|>
    (opt (s .typeParameters) ++ s .parameters ++ opt (m ":" ++ s .returnType) ++ m "=>")
  arrowStart ++ ((w "async" ++ head) <|> head) ++ (s .block <|> s .assignment)

/-- An expression that is not a list. -/
def assignment : Rule :=
  oneOf [
    s .arrow,
    w "yield" ++ .sameLine ++ opt (m "*") ++ s .assignment,
    s .operation ++
      opt ((m "?" ++ s .assignment ++ m ":" ++ s .assignment) <|>
        (assignmentOperator ++ s .assignment))]

/-- Operands with operators between them; a type assertion stands where an operator would. -/
def operation : Rule :=
  s .operand ++ .many
    ((.sameLine ++ words ["as", "satisfies"] ++ s .type) <|> (binaryOperator ++ s .operand))

/-- An operand with operators in front of it and behind it. -/
def operand (dialect : Dialect) : Rule :=
  let assertion := match dialect with
    | .plain => m "<" ++ s .type ++ m ">" ++ s .operand
    | .elements => .notAhead .empty
  oneOf [
    marks ["!", "~", "+", "-", "++", "--"] ++ s .operand,
    words ["typeof", "void", "delete", "await"] ++ s .operand,
    assertion,
    s .simpleExpression ++ .many (s .suffix) ++ opt (.sameLine ++ marks ["++", "--"])]

/-- What follows an operand and belongs to it. -/
def suffix : Rule :=
  let name := word <|> .token .privateName none
  let index := m "[" ++ s .expression ++ m "]"
  oneOf [
    m "." ++ name,
    m "?." ++ oneOf [index, s .arguments, s .typeArguments ++ s .arguments, name],
    index,
    s .arguments,
    s .template,
    .sameLine ++ m "!",
    s .typeArguments ++ .ahead (marks ["(", "`"])]

/-- An operand without operators. -/
def simpleExpression (dialect : Dialect) : Rule :=
  let element := match dialect with
    | .plain => .notAhead .empty
    | .elements => s .element
  oneOf [
    s .function,
    s .classExpression,
    w "new" ++ (m "." ++ word <|> (s .operand)),
    words ["this", "super"],
    w "import" ++ ((m "." ++ word) <|> s .arguments),
    identifier,
    .token .privateName none,
    number,
    string,
    s .template,
    .token .regex none,
    m "(" ++ s .expression ++ m ")",
    s .arrayLiteral,
    s .objectLiteral,
    element]

/-- Arguments of a call. -/
def arguments : Rule :=
  m "(" ++ opt (commaList (opt (m "...") ++ s .assignment)) ++ m ")"

/-- An object literal, or a pattern that looks like one. -/
def objectLiteral : Rule :=
  let property := oneOf [
    m "..." ++ s .assignment,
    methodModifier ++ s .propertyName ++ s .signature ++ s .block,
    s .propertyName ++ m ":" ++ s .assignment,
    word ++ opt (m "=" ++ s .assignment)]
  openBrace ++ opt (commaList property) ++ closeBrace

/-- An array literal, or a pattern that looks like one; items may be missing. -/
def arrayLiteral : Rule :=
  let item := opt (opt (m "...") ++ s .assignment)
  m "[" ++ item ++ .many (m "," ++ item) ++ m "]"

/-- A function as an expression. -/
def function : Rule :=
  opt (w "async" ++ .sameLine) ++ w "function" ++ opt (m "*") ++ opt identifier ++ s .signature ++
    s .block

/-- A class. -/
def classExpression : Rule :=
  let heritage := s .operand ++ opt (s .typeArguments)
  .many decorator ++ w "class" ++
    opt (.notAhead (words ["extends", "implements"]) ++ word) ++ opt (s .typeParameters) ++
    opt (w "extends" ++ heritage) ++
    opt (w "implements" ++ separated (m ",") (s .type)) ++ s .classBody

/-- The members of a class. -/
def classBody : Rule :=
  let start := nameStart <|> m "*"
  let modifiers := Peg.many (keywordBefore
    ["public", "private", "protected", "static", "abstract", "override", "readonly", "declare",
      "accessor"] start)
  let field := s .propertyName ++ opt (marks ["?", "!"]) ++ opt (m ":" ++ s .type) ++
    opt (m "=" ++ s .assignment) ++ s .semicolon
  let method := methodModifier ++ s .propertyName ++ opt (m "?") ++ signatureStart ++
    s .signature ++ (s .block <|> s .semicolon)
  let member := oneOf [
    m ";",
    w "static" ++ s .block,
    .many decorator ++ modifiers ++
      oneOf [indexSignature ++ s .semicolon, method, field]]
  openBrace ++ .many member ++ closeBrace

/-- The name of a tag or of an attribute. -/
def tagName : Rule := separated (marks [".", "-", ":"]) word

/-- An element with its attributes and what stands between its tags. -/
def element : Rule :=
  let value := oneOf [string, openBrace ++ s .expression ++ closeBrace, s .element]
  let setting := (openBrace ++ m "..." ++ s .expression ++ closeBrace) <|>
    (tagName ++ opt (m "=" ++ value))
  let inner := oneOf [
    .token .elementText none,
    openBrace ++ opt (opt (m "...") ++ s .expression) ++ closeBrace,
    s .element]
  let closing := m "<" ++ m "/" ++ opt tagName ++ m ">"
  m "<" ++ ((m ">" ++ .many inner ++ closing) <|>
    (tagName ++ opt (s .typeArguments) ++ .many setting ++
      ((m "/" ++ m ">") <|> (m ">" ++ .many inner ++ closing))))

/-! ## Statements -/

/-- A source: statements up to its end. What is not a statement is skipped as a syntax error. -/
def source : Rule :=
  holder "program" (.many (s .statements <|> .broken (.token .anyToken none))) ++
    .token .endOfSource none

/-- Tokens that are no statement: up to a semicolon or a body in braces, or to the end of the
line. -/
def skipped : Rule :=
  let braces := Peg.ahead openBrace ++ s .group
  let item := .notAhead (oneOf [openBrace, closeBrace, m ";"]) ++
    (s .group <|> .token .anyToken none)
  .broken (oneOf [
    item ++ .many (.sameLine ++ item) ++ opt (m ";" <|> (.sameLine ++ braces)),
    braces,
    openBrace,
    m ";"])

/-- Tokens between brackets that match. -/
def group : Rule :=
  let closer := marks ["\x7d", ")", "]"]
  let item := oneOf [s .group, s .template, .notAhead closer ++ .token .anyToken none]
  oneOf [
    openBrace ++ .many item ++ closeBrace,
    m "(" ++ .many item ++ m ")",
    m "[" ++ .many item ++ m "]"]

/-- A declaration of a type, a class, a function or a namespace. -/
def declaration : Rule :=
  let nameOrPath := string <|> dottedName
  oneOf [
    s .interfaceDeclaration,
    s .enumDeclaration,
    w "type" ++ .sameLine ++ word ++ opt (s .typeParameters) ++ m "=" ++ s .type ++ s .semicolon,
    words ["namespace", "module"] ++ .sameLine ++ nameOrPath ++ (s .block <|> s .semicolon),
    s .functionDeclaration,
    s .classDeclaration,
    w "declare" ++ .sameLine ++
      oneOf [s .declaration, s .variableStatement, w "global" ++ s .block]]

/-- An interface. -/
def interfaceDeclaration : Rule :=
  holder "interface_declaration"
    (w "interface" ++ .sameLine ++ word ++ opt (s .typeParameters) ++
      opt (w "extends" ++ separated (m ",") (s .type)) ++ s .interfaceBody)

/-- An enum. -/
def enumDeclaration : Rule :=
  holder "enum_declaration" (opt (w "const") ++ w "enum" ++ word ++ s .enumBody)

/-- Variables with their types and values. -/
def variableStatement : Rule :=
  let declarator := pattern ++ opt (m "!") ++ opt (m ":" ++ s .type) ++
    opt (m "=" ++ s .assignment)
  words ["var", "let", "const", "using"] ++ .notAhead (m "=") ++ separated (m ",") declarator ++
    s .semicolon

/-- What is imported together with the name of a module. -/
def importStatement : Rule :=
  let attributes := opt (.sameLine ++ words ["with", "assert"] ++ s .group)
  let names := Peg.ahead openBrace ++ s .group
  let all := m "*" ++ w "as" ++ word
  let clause := oneOf [all, names, word ++ opt (m "," ++ (all <|> names))]
  let origin := w "from" ++ string ++ attributes ++ s .semicolon
  w "import" ++ oneOf [
    string ++ attributes ++ s .semicolon,
    words ["type", "typeof"] ++ clause ++ origin,
    clause ++ origin,
    opt (w "type") ++ word ++ m "=" ++ s .expression ++ s .semicolon]

/-- What is exported. -/
def exportStatement : Rule :=
  let attributes := opt (.sameLine ++ words ["with", "assert"] ++ s .group)
  let origin := w "from" ++ string ++ attributes
  let names := Peg.ahead openBrace ++ s .group
  .many decorator ++ w "export" ++ oneOf [
    w "default" ++ oneOf [s .interfaceDeclaration, s .functionDeclaration, s .classDeclaration,
      s .assignment ++ s .semicolon],
    opt (w "type") ++ m "*" ++ opt (w "as" ++ (word <|> string)) ++ origin ++ s .semicolon,
    opt (w "type") ++ names ++ opt origin ++ s .semicolon,
    m "=" ++ s .expression ++ s .semicolon,
    w "as" ++ w "namespace" ++ word ++ s .semicolon,
    s .importStatement,
    s .declaration,
    s .variableStatement]

/-- What a loop runs over: items of something, or a start, a condition and a step. -/
def loopHead : Rule :=
  let binding := words ["var", "let", "const", "using"] ++ pattern ++ opt (m ":" ++ s .type)
  let start := oneOf [s .variableStatement, s .expression ++ m ";", m ";"]
  oneOf [
    m "(" ++ (binding <|> s .operand) ++ words ["of", "in"] ++ s .expression ++ m ")",
    m "(" ++ start ++ opt (s .expression) ++ m ";" ++ opt (s .expression) ++ m ")",
    .ahead (m "(") ++ s .group]

/-- Statements that start with a keyword of control. -/
def controlStatement : Rule :=
  let condition := m "(" ++ s .expression ++ m ")"
  let case := ((w "case" ++ s .expression) <|> w "default") ++ m ":" ++
    .many (.notAhead (words ["case", "default"]) ++ s .statements)
  oneOf [
    w "if" ++ condition ++ s .statement ++ opt (w "else" ++ s .statement),
    w "for" ++ opt (w "await") ++ loopHead ++ s .statement,
    w "while" ++ condition ++ s .statement,
    w "do" ++ s .statement ++ w "while" ++ condition ++ opt (m ";"),
    w "switch" ++ condition ++ openBrace ++ .many case ++ closeBrace,
    w "try" ++ s .block ++ opt (w "catch" ++ opt (s .parameters) ++ s .block) ++
      opt (w "finally" ++ s .block),
    w "return" ++ opt (.sameLine ++ s .expression) ++ s .semicolon,
    w "throw" ++ s .expression ++ s .semicolon,
    words ["break", "continue"] ++ opt (.sameLine ++ identifier) ++ s .semicolon,
    w "debugger" ++ s .semicolon,
    w "with" ++ condition ++ s .statement]

/-- One statement. -/
def statement : Rule :=
  oneOf [
    s .block,
    m ";",
    s .importStatement,
    s .exportStatement,
    s .declaration,
    s .variableStatement,
    s .controlStatement,
    identifier ++ m ":" ++ s .statement,
    .notAhead (words ["function", "class"]) ++ s .expression ++ s .semicolon]

end Grammar

open Peg Grammar in
/-- The expression of each symbol. -/
def grammar (dialect : Dialect) : Symbol → Peg Symbol
  | .source => source
  | .statement => statement
  | .statements => s .statement <|> s .skipped
  | .block => openBrace ++ .many (s .statements) ++ closeBrace
  | .skipped => skipped
  | .group => group
  | .semicolon => m ";" <|> .endWithoutMark
  | .declaration => declaration
  | .interfaceDeclaration => interfaceDeclaration
  | .enumDeclaration => enumDeclaration
  | .classDeclaration => opt (w "abstract" ++ .sameLine) ++ s .classExpression
  | .functionDeclaration =>
    opt (w "async" ++ .sameLine) ++ w "function" ++ opt (m "*") ++ opt identifier ++ s .signature ++
      (s .block <|> s .semicolon)
  | .variableStatement => variableStatement
  | .importStatement => importStatement
  | .exportStatement => exportStatement
  | .controlStatement => controlStatement
  | .objectType => .node .objectType listBetweenBraces
  | .interfaceBody => .node .interfaceBody listBetweenBraces
  | .listBody => listBody
  | .member => member
  | .propertyName => propertyName
  | .enumBody => .node .enumBody (openBrace ++ opt (commaList (s .enumMember)) ++ closeBrace)
  | .enumMember => enumMember
  | .type => type
  | .operandType => operandType
  | .intersection => opt (m "&") ++ separated (m "&") (s .prefixedType)
  | .prefixedType => prefixedType
  | .suffixedType => suffixedType
  | .simpleType => simpleType
  | .functionType => functionType
  | .returnType => returnType
  | .typeArguments => typeArguments
  | .typeParameters => typeParameters
  | .parameters => parameters
  | .signature => signature
  | .typing => holder "type_annotation" (m ":" ++ s .type)
  | .typeTemplate => templateOf (s .type)
  | .expression => separated (m ",") (s .assignment)
  | .assignment => assignment
  | .arrow => arrow
  | .operation => operation
  | .operand => operand dialect
  | .suffix => suffix
  | .simpleExpression => simpleExpression dialect
  | .arguments => arguments
  | .objectLiteral => objectLiteral
  | .arrayLiteral => arrayLiteral
  | .template => templateOf (s .expression)
  | .function => function
  | .classExpression => classExpression
  | .classBody => classBody
  | .element => element

end KeyOrder.TypeScript
