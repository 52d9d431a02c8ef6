import Lox.Proofs.Reading.Ahead
/-!
# The recursion of the readers

Without fuel the readers are a system of equations: `Reading.body` says what each of them does,
given what stands for the readers that it calls. No measure on the text alone decreases along these
calls, since a reader may call others before it has moved. But each call is made with fewer tokens
left or lower down in the grammar, and so with less need of fuel. Therefore the recursion ends:
unrolled as deep as the need says, the equations give the same whatever stands for the calls that
are deeper still, and that is what the readers give with fuel.
-/

namespace Lox

/-- The readers, with what they are given besides a cursor. -/
inductive Reading : Type → Type
  | assignment : Reading Expr
  | level (l : Level) : Reading Expr
  | moreOperands (l : Level) (left : Expr) : Reading Expr
  | operand (l : Level) : Reading Expr
  | unary : Reading Expr
  | calls (e : Expr) : Reading Expr
  | arguments (count : Nat) : Reading (List Expr)
  | primary : Reading Expr
  | parameters (count : Nat) : Reading (List Ident)
  | declaration : Reading Stmt
  | declarations : Reading (List Stmt)
  | block : Reading (List Stmt × Span)
  | function (sort : String) : Reading FunctionDecl
  | methods : Reading (List FunctionDecl)
  | classDecl : Reading Stmt
  | statement : Reading Stmt
  | ifStmt : Reading Stmt
  | whileStmt : Reading Stmt
  | forStmt : Reading Stmt
  | topLevel : Reading (List Stmt)
  /-- A reader that is not part of a recursion. -/
  | expect (s : Symbol) (place : String) : Reading Span
  | name (role : String) : Reading Ident
  | expression : Reading Expr
  | expressionUnless (s : Symbol) : Reading (Option Expr)
  | parameterList (sort : String) : Reading (List Ident)
  | varDecl : Reading Stmt
  | printStmt : Reading Stmt
  | returnStmt : Reading Stmt
  | expressionStmt : Reading Stmt
  | forInitial : Reading (Option Stmt)
  | superclass : Reading (Option Superclass)

/-- What stands for the readers that are called. -/
abbrev Reading.Calls : Type 1 := ∀ {α : Type}, Reading α → Reader α

namespace Reading

open Reader (eat eatKeyword previous advance here isSymbol ask site report fail attempt
  infixNode assignNode)

variable {α β : Type} {c : Cursor}

/-- The reader with fuel `n`. -/
def reader (n : Nat) : Calls
  | _, assignment => Reader.assignment n
  | _, level l => Reader.level n l
  | _, moreOperands l left => Reader.moreOperands n l left
  | _, operand l => Reader.operand n l
  | _, unary => Reader.unary n
  | _, calls e => Reader.calls n e
  | _, arguments count => Reader.arguments n count
  | _, primary => Reader.primary n
  | _, parameters count => Reader.parameters n count
  | _, declaration => Reader.declaration n
  | _, declarations => Reader.declarations n
  | _, block => Reader.block n
  | _, function sort => Reader.function n sort
  | _, methods => Reader.methods n
  | _, classDecl => Reader.classDecl n
  | _, statement => Reader.statement n
  | _, ifStmt => Reader.ifStmt n
  | _, whileStmt => Reader.whileStmt n
  | _, forStmt => Reader.forStmt n
  | _, topLevel => Reader.topLevel n
  | _, expect s place => Reader.expect s place
  | _, name role => Reader.name role
  | _, expression => Reader.expression
  | _, expressionUnless s => Reader.expressionUnless s
  | _, parameterList sort => Reader.parameterList sort
  | _, varDecl => Reader.varDecl
  | _, printStmt => Reader.printStmt
  | _, returnStmt => Reader.returnStmt
  | _, expressionStmt => Reader.expressionStmt
  | _, forInitial => Reader.forInitial
  | _, superclass => Reader.superclass

/-- Fuel that is enough, and a measure of the recursion. -/
@[simp] def need (c : Cursor) : Reading α → Nat
  | assignment => 16 * c.rest.length + 15
  | level l => 16 * c.rest.length + 2 + l.steps
  | operand l => 16 * c.rest.length + 1 + l.steps
  | unary => 16 * c.rest.length + 2
  | moreOperands _ _ | calls _ | primary => 16 * c.rest.length + 1
  | arguments _ => 16 * c.rest.length + 16
  | declarations => 4 * c.rest.length + 5
  | declaration | methods => 4 * c.rest.length + 4
  | statement | function _ => 4 * c.rest.length + 3
  | block | ifStmt | whileStmt | forStmt => 4 * c.rest.length + 2
  | classDecl => 4 * c.rest.length + 1
  | parameters _ | topLevel => c.rest.length + 1
  | _ => 1

/-- What the reader does from `c` on. -/
def read (r : Reading α) : Reader α := fun c => r.reader (r.need c) c

/-! ### The equations -/

/-- What reads a declaration that starts with a token of the kind, up to a failure. -/
def declarationBody (go : Calls) : TokenKind → Reader Stmt
  | .keyword .cls => go classDecl
  | .keyword .fun => do
    let _ ← advance
    let d ← go (function "function")
    pure (.function d)
  | .keyword .var => Reader.varDecl
  | _ => go statement

/-- What the readers do. Whole expressions and whole lists of parameters are read by readers that
are no part of the recursion of statements. -/
def body (go : Calls) : Calls
  | _, assignment => do
    let target ← go (level .or)
    if ← eat .eq then
      let eqSpan ← previous
      let value ← go assignment
      assignNode target eqSpan value
    else
      pure target
  | _, level l => do
    let left ← go (operand l)
    go (moreOperands l left)
  | _, moreOperands l left => do
    match l.operator? (← ask Cursor.kind) with
    | none => pure left
    | some op =>
      let opSpan ← advance
      let right ← go (operand l)
      let node ← infixNode left op opSpan right
      go (moreOperands l node)
  | _, operand l =>
    match l.tighter? with
    | some t => go (level t)
    | none => go unary
  | _, unary => do
    match UnaryOp.ofToken? (← ask Cursor.kind) with
    | none => do
      let callee ← go primary
      go (calls callee)
    | some op =>
      let opSpan ← advance
      let e ← go unary
      let s ← site (opSpan.merge e.span)
      pure (.unary s op opSpan e)
  | _, calls e => do
    if ← eat .leftParen then
      let es ← if ← isSymbol .rightParen then pure [] else go (arguments 0)
      let paren ← Reader.expect .rightParen "after arguments"
      let s ← site (e.span.merge paren)
      go (calls (.call s e paren es))
    else if ← eat .dot then
      let x ← Reader.name "property name after '.'"
      let s ← site (e.span.merge x.span)
      go (calls (.get s e x))
    else
      pure e
  | _, arguments count => do
    if maxArity ≤ count then report .tooManyArguments
    let e ← go assignment
    if ← eat .comma then
      let es ← go (arguments (count + 1))
      pure (e :: es)
    else
      pure [e]
  | _, primary => do
    let start ← here
    let kind ← ask Cursor.kind
    match kind with
    | .keyword .this => do
      let _ ← advance
      pure (.this (← site start))
    | .identifier x => do
      let _ ← advance
      pure (.var (← site start) ⟨x, start⟩)
    | .keyword .super => do
      let _ ← advance
      let _ ← Reader.expect .dot "after 'super'"
      let x ← Reader.name "superclass method name"
      pure (.super (← site (start.merge x.span)) x)
    | .symbol .leftParen => do
      let _ ← advance
      let e ← go assignment
      let paren ← Reader.expect .rightParen "after expression"
      pure (.grouping (← site (start.merge paren)) e)
    | _ => Reader.literalOf start (Literal.ofToken? kind)
  | _, parameters count => do
    if maxArity ≤ count then report .tooManyParameters
    let x ← Reader.name "parameter name"
    if ← eat .comma then
      let xs ← go (parameters (count + 1))
      pure (x :: xs)
    else
      pure [x]
  | _, declaration => fun c => Reader.StatementRuns.recovered (declarationBody go c.kind c)
  | _, declarations => do
    if ← ask (fun c => c.isSymbol .rightBrace || c.atEnd || c.tooManyErrors) then pure []
    else
      let s ← attempt (go declaration)
      let ss ← go declarations
      pure (s.toList ++ ss)
  | _, block => do
    let start ← Reader.expect .leftBrace "before block"
    let body ← go declarations
    let finish ← Reader.expect .rightBrace "after block"
    pure (body, start.merge finish)
  | _, function sort => do
    let x ← Reader.name s!"{sort} name"
    let ps ← Reader.parameterList sort
    if ← isSymbol .leftBrace then
      let (body, span) ← go block
      pure (.mk x ps body (x.span.merge span))
    else
      report (.expectedSymbol .leftBrace s!"before {sort} body")
      fail
  | _, methods => do
    if ← ask (fun c => c.isSymbol .rightBrace || c.atEnd) then pure []
    else
      let d ← go (function "method")
      let ds ← go methods
      pure (d :: ds)
  | _, classDecl => do
    let start ← advance
    let x ← Reader.name "class name"
    let parent ← Reader.superclass
    let _ ← Reader.expect .leftBrace "before class body"
    let ms ← go methods
    let finish ← Reader.expect .rightBrace "after class body"
    pure (.classDecl (start.merge finish) x parent ms)
  | _, statement => do
    match ← ask Cursor.kind with
    | .keyword .print => Reader.printStmt
    | .keyword .if => go ifStmt
    | .keyword .while => go whileStmt
    | .keyword .for => go forStmt
    | .keyword .return => Reader.returnStmt
    | .symbol .leftBrace => do
      let (body, span) ← go block
      pure (.block span body)
    | _ => Reader.expressionStmt
  | _, ifStmt => do
    let start ← advance
    let _ ← Reader.expect .leftParen "after 'if'"
    let condition ← Reader.expression
    let _ ← Reader.expect .rightParen "after if condition"
    let yes ← go statement
    if ← eatKeyword .else then
      let no ← some <$> go statement
      Reader.ifEnd start condition yes no
    else Reader.ifEnd start condition yes none
  | _, whileStmt => do
    let start ← advance
    let _ ← Reader.expect .leftParen "after 'while'"
    let condition ← Reader.expression
    let _ ← Reader.expect .rightParen "after condition"
    let body ← go statement
    pure (.whileLoop (start.merge (← previous)) condition body)
  | _, forStmt => do
    let start ← advance
    let _ ← Reader.expect .leftParen "after 'for'"
    let initial ← Reader.forInitial
    let condition ← Reader.expressionUnless .semicolon
    let conditionEnd ← Reader.expect .semicolon "after loop condition"
    let increment ← Reader.expressionUnless .rightParen
    let _ ← Reader.expect .rightParen "after for clauses"
    let body ← go statement
    Reader.forEnd start initial conditionEnd increment body condition
  | _, topLevel => do
    if ← ask (fun c => c.atEnd || c.tooManyErrors) then pure []
    else
      let s ← attempt Reader.nextDeclaration
      let ss ← go topLevel
      pure (s.toList ++ ss)
  | _, expect s place => Reader.expect s place
  | _, name role => Reader.name role
  | _, expression => Reader.expression
  | _, expressionUnless s => Reader.expressionUnless s
  | _, parameterList sort => Reader.parameterList sort
  | _, varDecl => Reader.varDecl
  | _, printStmt => Reader.printStmt
  | _, returnStmt => Reader.returnStmt
  | _, expressionStmt => Reader.expressionStmt
  | _, forInitial => Reader.forInitial
  | _, superclass => Reader.superclass

/-- With one more unit of fuel the readers do what the equations say. -/
theorem reader_succ (n : Nat) (r : Reading α) : r.reader (n + 1) = body (reader n) r := by
  cases r with
  | ifStmt => exact Reader.ifStmt_eq n
  | forStmt => exact Reader.forStmt_eq n
  | declaration =>
    funext c
    exact Reader.StatementRuns.declaration_eq n c
  | _ => rfl

theorem need_pos (r : Reading α) (c : Cursor) : 0 < r.need c := by
  cases r with
  | level l | operand l => simp only [need]; omega
  | _ => exact Nat.succ_pos _

end Reading

end Lox
