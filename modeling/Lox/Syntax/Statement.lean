import Lox.Syntax.Expression
/-!
# Reading statements

Declarations are where reading recovers: when one fails, its error has been recorded, and
the cursor moves on to where the next statement may begin. A `for` loop is read as the
statements that it stands for.
-/

namespace Lox

/-- The statements that a `for` loop over `span` stands for: the initial statement in a block of its
own, then a loop whose body is followed by the increment. -/
def Stmt.forLoop (span : Span) (initial : Option Stmt) (condition : Expr) (increment : Option Expr)
    (body : Stmt) : Stmt :=
  let body :=
    match increment with
    | some e => .block span [body, .expr e.span e]
    | none => body
  let loop := Stmt.whileLoop span condition body
  match initial with
  | some s => .block span [s, loop]
  | none => loop

namespace Reader

/-- An expression, unless the symbol `s` comes next. -/
def expressionUnless (s : Symbol) : Reader (Option Expr) := do
  if ← isSymbol s then pure none
  else
    let e ← expression
    pure (some e)

/-- The parameters of a function after `count` others. -/
def parameters : Nat → Nat → Reader (List Ident)
  | 0, _ => fail
  | fuel + 1, count => do
    if maxArity ≤ count then report .tooManyParameters
    let x ← name "parameter name"
    if ← eat .comma then
      let xs ← parameters fuel (count + 1)
      pure (x :: xs)
    else
      pure [x]

/-- Parameters in parentheses, after the name of a function of the given sort. -/
def parameterList (sort : String) : Reader (List Ident) := do
  let _ ← expect .leftParen s!"after {sort} name"
  let xs ← if ← isSymbol .rightParen then pure [] else fun c => parameters (c.rest.length + 1) 0 c
  let _ ← expect .rightParen "after parameters"
  pure xs

def varDecl : Reader Stmt := do
  let start ← advance
  let x ← name "variable name"
  let initial ← if ← eat .eq then some <$> expression else pure none
  let finish ← expect .semicolon "after variable declaration"
  pure (.var (start.merge finish) x initial)

def printStmt : Reader Stmt := do
  let start ← advance
  let e ← expression
  let finish ← expect .semicolon "after value"
  pure (.print (start.merge finish) e)

def returnStmt : Reader Stmt := do
  let keyword ← advance
  let value ← expressionUnless .semicolon
  let finish ← expect .semicolon "after return value"
  pure (.returning (keyword.merge finish) keyword value)

def expressionStmt : Reader Stmt := do
  let e ← expression
  let finish ← expect .semicolon "after expression"
  pure (.expr (e.span.merge finish) e)

/-- The first clause of a `for` loop, with its semicolon. -/
def forInitial : Reader (Option Stmt) := do
  if ← eat .semicolon then pure none
  else if ← ask (·.isKeyword .var) then some <$> varDecl
  else
    let e ← expression
    let _ ← expect .semicolon "after loop initializer"
    pure (some (.expr e.span e))

/-- The class that a declaration inherits from. -/
def superclass : Reader (Option Superclass) := do
  if ← eat .less then
    let x ← name "superclass name"
    pure (some ⟨← site x.span, x⟩)
  else
    pure none

mutual

/-- A declaration. After a failure the cursor has moved to where a statement may begin. -/
def declaration : Nat → Reader Stmt
  | 0 => fail
  | fuel + 1 => fun c =>
    let r : Reader Stmt :=
      match c.kind with
      | .keyword .cls => classDecl fuel
      | .keyword .fun => do
        let _ ← advance
        let d ← function fuel "function"
        pure (.function d)
      | .keyword .var => varDecl
      | _ => statement fuel
    match r c with
    | (some s, d) => (some s, d)
    | (none, d) => (none, d.recover)

/-- The declarations up to a closing brace or the end, without those that failed. -/
def declarations : Nat → Reader (List Stmt)
  | 0 => fail
  | fuel + 1 => do
    if ← ask (fun c => c.isSymbol .rightBrace || c.atEnd || c.tooManyErrors) then pure []
    else
      let s ← attempt (declaration fuel)
      let ss ← declarations fuel
      pure (s.toList ++ ss)

/-- A block and its span. -/
def block : Nat → Reader (List Stmt × Span)
  | 0 => fail
  | fuel + 1 => do
    let start ← expect .leftBrace "before block"
    let body ← declarations fuel
    let finish ← expect .rightBrace "after block"
    pure (body, start.merge finish)

/-- A function or method after the word that introduces it. -/
def function : Nat → String → Reader FunctionDecl
  | 0, _ => fail
  | fuel + 1, sort => do
    let x ← name s!"{sort} name"
    let ps ← parameterList sort
    if ← isSymbol .leftBrace then
      let (body, span) ← block fuel
      pure (.mk x ps body (x.span.merge span))
    else
      report (.expectedSymbol .leftBrace s!"before {sort} body")
      fail

/-- The methods of a class up to its closing brace. -/
def methods : Nat → Reader (List FunctionDecl)
  | 0 => fail
  | fuel + 1 => do
    if ← ask (fun c => c.isSymbol .rightBrace || c.atEnd) then pure []
    else
      let d ← function fuel "method"
      let ds ← methods fuel
      pure (d :: ds)

def classDecl : Nat → Reader Stmt
  | 0 => fail
  | fuel + 1 => do
    let start ← advance
    let x ← name "class name"
    let parent ← superclass
    let _ ← expect .leftBrace "before class body"
    let ms ← methods fuel
    let finish ← expect .rightBrace "after class body"
    pure (.classDecl (start.merge finish) x parent ms)

def statement : Nat → Reader Stmt
  | 0 => fail
  | fuel + 1 => do
    match ← ask Cursor.kind with
    | .keyword .print => printStmt
    | .keyword .if => ifStmt fuel
    | .keyword .while => whileStmt fuel
    | .keyword .for => forStmt fuel
    | .keyword .return => returnStmt
    | .symbol .leftBrace => do
      let (body, span) ← block fuel
      pure (.block span body)
    | _ => expressionStmt

/-- An `else` belongs to the nearest `if`. -/
def ifStmt : Nat → Reader Stmt
  | 0 => fail
  | fuel + 1 => do
    let start ← advance
    let _ ← expect .leftParen "after 'if'"
    let condition ← expression
    let _ ← expect .rightParen "after if condition"
    let yes ← statement fuel
    let no ← if ← eatKeyword .else then some <$> statement fuel else pure none
    pure (.ifElse (start.merge (← previous)) condition yes no)

def whileStmt : Nat → Reader Stmt
  | 0 => fail
  | fuel + 1 => do
    let start ← advance
    let _ ← expect .leftParen "after 'while'"
    let condition ← expression
    let _ ← expect .rightParen "after condition"
    let body ← statement fuel
    pure (.whileLoop (start.merge (← previous)) condition body)

/-- A missing condition is always true; it gets its number after all other
expressions of the loop. -/
def forStmt : Nat → Reader Stmt
  | 0 => fail
  | fuel + 1 => do
    let start ← advance
    let _ ← expect .leftParen "after 'for'"
    let initial ← forInitial
    let condition ← expressionUnless .semicolon
    let conditionEnd ← expect .semicolon "after loop condition"
    let increment ← expressionUnless .rightParen
    let _ ← expect .rightParen "after for clauses"
    let body ← statement fuel
    let span := start.merge (← previous)
    let condition ←
      match condition with
      | some e => pure e
      | none => do pure (.literal (← site conditionEnd) (.bool true))
    pure (.forLoop span initial condition increment body)

end

/-- The declarations up to the end. A closing brace without an opening one is no end. -/
def topLevel : Nat → Reader (List Stmt)
  | 0 => fail
  | fuel + 1 => do
    if ← ask (fun c => c.atEnd || c.tooManyErrors) then pure []
    else
      let s ← attempt fun c => declaration (4 * (c.rest.length + 1)) c
      let ss ← topLevel fuel
      pure (s.toList ++ ss)

end Reader

/-- What reading a list of tokens gives. -/
structure Parsed where
  /-- The declarations that could be read. Those that could not are left out, so a program is only
  whole if there are no errors. -/
  program : Program
  errors : List (Located SyntaxError)
  /-- The first number that no expression of the program has. -/
  nextId : Nat

namespace Parsed

/-- Reads a program from tokens, numbering its expressions from `firstId`. -/
def ofTokens (tokens : List Token) (firstId : Nat) : Parsed :=
  let start := Cursor.ofTokens tokens firstId
  let (body, finish) := Reader.topLevel (start.rest.length + 1) start
  ⟨⟨body.getD [], start.span.merge finish.span⟩, finish.errors.toList, finish.nextId⟩

end Parsed

end Lox
