import Lox.Syntax.Basic
import Lox.Token.Basic
import Lox.Diagnostic.Sink
/-!
# Reading tokens

A cursor is what is left of a list of tokens, with the errors found so far and the number that the
next expression gets. Readers are functions on cursors that may fail; a reader that fails leaves the
cursor where it stopped, so that reading can go on from there.
-/

namespace Lox

inductive SyntaxProblem where
  | expectedExpression
  /-- A symbol is missing at the named place. -/
  | expectedSymbol (sign : Symbol) (place : String)
  /-- A name is missing; `role` says what it would have named. -/
  | expectedName (role : String)
  | invalidAssignmentTarget
  | tooManyArguments
  | tooManyParameters
deriving DecidableEq, Repr

/-- A problem, and whether it was met at the end of the tokens. -/
structure SyntaxError where
  problem : SyntaxProblem
  atEnd : Bool
deriving DecidableEq, Repr

/-- The most parameters a function may have, and the most arguments a call may have. -/
def maxArity : Nat := 255

namespace SyntaxProblem

def code : SyntaxProblem → ErrorCode
  | expectedExpression => ⟨102⟩
  | expectedSymbol _ _ | expectedName _ => ⟨103⟩
  | invalidAssignmentTarget => ⟨104⟩
  | tooManyArguments => ⟨105⟩
  | tooManyParameters => ⟨106⟩

def message : SyntaxProblem → String
  | expectedExpression => "Expect expression."
  | expectedSymbol sign place => s!"Expect '{sign.text}' {place}."
  | expectedName role => s!"Expect {role}."
  | invalidAssignmentTarget => "Invalid assignment target."
  | tooManyArguments => s!"Can't have more than {maxArity} arguments."
  | tooManyParameters => s!"Can't have more than {maxArity} parameters."

end SyntaxProblem

instance : Reportable SyntaxError where
  code e := e.problem.code
  message e := if e.atEnd then e.problem.message ++ " (at end)" else e.problem.message

structure Cursor where
  /-- The tokens not read yet, without the mark at the end. -/
  rest : List Token
  /-- The span of the token read last. -/
  previous : Span
  /-- The span of the mark at the end. -/
  finish : Span
  errors : Array (Located SyntaxError)
  nextId : Nat

namespace Cursor

/-- A cursor on the tokens before the first mark at the end. Tokens without such a mark end where
their last token stands. -/
def ofTokens (tokens : List Token) (firstId : Nat) : Cursor where
  rest := tokens.takeWhile fun t => !t.kind.isEof
  previous := .point .start
  finish :=
    match tokens.dropWhile fun t => !t.kind.isEof with
    | t :: _ => t.span
    | [] => (tokens.getLast?.map Token.span).getD (.point .start)
  errors := #[]
  nextId := firstId

/-- The kind of the next token. -/
def kind (c : Cursor) : TokenKind :=
  match c.rest with
  | [] => .eof
  | t :: _ => t.kind

/-- The span of the next token. -/
def span (c : Cursor) : Span :=
  match c.rest with
  | [] => c.finish
  | t :: _ => t.span

def atEnd (c : Cursor) : Bool := c.rest.isEmpty

/-- Moves past the next token, if there is one. -/
def advance (c : Cursor) : Cursor :=
  match c.rest with
  | [] => c
  | t :: ts => { c with rest := ts, previous := t.span }

def isSymbol (c : Cursor) (s : Symbol) : Bool :=
  match c.kind with
  | .symbol t => t = s
  | _ => false

def isKeyword (c : Cursor) (w : Keyword) : Bool :=
  match c.kind with
  | .keyword v => v = w
  | _ => false

/-- Records a problem at the next token. -/
def reportHere (c : Cursor) (p : SyntaxProblem) : Cursor :=
  { c with errors := c.errors.push ⟨⟨p, c.atEnd⟩, c.span⟩ }

/-- Records a problem at a token already read. -/
def reportAt (c : Cursor) (p : SyntaxProblem) (s : Span) : Cursor :=
  { c with errors := c.errors.push ⟨⟨p, false⟩, s⟩ }

/-- Reading stops between statements after as many errors as a sink keeps. -/
def tooManyErrors (c : Cursor) : Bool := Diagnostics.limit ≤ c.errors.size

/-- Whether the next token is a reserved word that begins a statement. -/
def startsStatement (c : Cursor) : Bool :=
  match c.kind with
  | .keyword .cls | .keyword .fun | .keyword .var | .keyword .for | .keyword .if | .keyword .while
  | .keyword .print | .keyword .return => true
  | _ => false

/-- Skips to just past a semicolon or just before a word that begins a statement. -/
def skipStatement : Nat → Cursor → Cursor
  | 0, c => c
  | fuel + 1, c =>
    if c.atEnd || c.startsStatement then c
    else if c.isSymbol .semicolon then c.advance
    else skipStatement fuel c.advance

/-- Recovers from a failure: moves past at least one token and on to where a statement may begin. -/
def recover (c : Cursor) : Cursor :=
  if c.isSymbol .semicolon then c.advance
  else skipStatement c.rest.length c.advance

end Cursor

/-- A reader of something from a cursor. -/
def Reader (α : Type) : Type := Cursor → Option α × Cursor

namespace Reader

variable {α β : Type}

@[always_inline, inline] protected def pure (a : α) : Reader α := fun c => (some a, c)

@[always_inline, inline] protected def bind (r : Reader α) (f : α → Reader β) : Reader β := fun c =>
  match r c with
  | (some a, d) => f a d
  | (none, d) => (none, d)

@[always_inline] instance : Monad Reader where
  pure := Reader.pure
  bind := Reader.bind

/-- Fails without having read anything. -/
@[inline] def fail : Reader α := fun c => (none, c)

/-- What `f` says about the cursor, which stays where it is. -/
@[inline] def ask (f : Cursor → α) : Reader α := fun c => (some (f c), c)

@[inline] def change (f : Cursor → Cursor) : Reader Unit := fun c => (some (), f c)

/-- Reads what `r` reads, or nothing from where `r` failed. -/
@[inline] def attempt (r : Reader α) : Reader (Option α) := fun c =>
  let (a, d) := r c
  (some a, d)

/-- The span of the token read last. -/
@[inline] def previous : Reader Span := ask Cursor.previous

/-- The span of the next token. -/
@[inline] def here : Reader Span := ask Cursor.span

/-- Reads one token and gives its span. -/
@[inline] def advance : Reader Span := fun c => (some c.span, c.advance)

@[inline] def isSymbol (s : Symbol) : Reader Bool := ask (·.isSymbol s)

/-- Reads the symbol `s` if it comes next, and says whether it did. -/
@[inline] def eat (s : Symbol) : Reader Bool := fun c =>
  if c.isSymbol s then (some true, c.advance) else (some false, c)

/-- Reads the reserved word `w` if it comes next, and says whether it did. -/
@[inline] def eatKeyword (w : Keyword) : Reader Bool := fun c =>
  if c.isKeyword w then (some true, c.advance) else (some false, c)

@[inline] def report (p : SyntaxProblem) : Reader Unit := change (·.reportHere p)

/-- Reads the symbol `s`, which must come next, and gives its span. -/
def expect (s : Symbol) (place : String) : Reader Span := fun c =>
  if c.isSymbol s then (some c.span, c.advance) else (none, c.reportHere (.expectedSymbol s place))

/-- Reads an identifier, which must come next. -/
def name (role : String) : Reader Ident := fun c =>
  match c.kind with
  | .identifier x => (some ⟨x, c.span⟩, c.advance)
  | _ => (none, c.reportHere (.expectedName role))

/-- A fresh number for an expression with the given span. -/
@[inline] def site (s : Span) : Reader Site := fun c =>
  (some ⟨c.nextId, s⟩, { c with nextId := c.nextId + 1 })

end Reader

end Lox
