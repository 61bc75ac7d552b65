import Frontend.Grammar.Branching
import Frontend.Grammar.Promotion
import Frontend.Grammar.TypeExpr

/-!
Expressions, from binary operators down to primaries. Operators bind by their power, those of one
power to the left; `as` binds tighter than all of them, then come the operators in front of an
operand, then calls and accesses.
-/
namespace Frontend.Grammar

open Frontend.Grammar.Parser
open Token (Kind)

/-- The operators between operands, with their binding powers. A larger power binds tighter. -/
def binaryOp? : Kind → Option (BinaryOp × Nat)
  | .or => some (.or, 1)
  | .and => some (.and, 2)
  | .equal => some (.eq, 3)
  | .notEqual => some (.notEq, 3)
  | .less => some (.less, 4)
  | .lessEqual => some (.lessEq, 4)
  | .greater => some (.greater, 4)
  | .greaterEqual => some (.greaterEq, 4)
  | .plus => some (.add, 5)
  | .minus => some (.sub, 5)
  | .star => some (.mul, 6)
  | .div => some (.div, 6)
  | .percent => some (.mod, 6)
  | _ => none

/-- The operators in front of an operand. -/
def unaryOp? : Kind → Option UnaryOp
  | .minus => some .neg
  | .plus => some .pos
  | .not => some .not
  | _ => none

/-- A literal. `minus` is the start of a minus that belongs to it. -/
def literal (t : Token) (minus : Option Position) : Parser Expr :=
  let span := ⟨minus.getD t.span.start, t.span.stop⟩
  match Literal.read t.kind minus.isSome t.text with
  | .ok value => pure ⟨span, value.toExpr⟩
  | .error problem => fail (.across span (.badLiteral t.kind minus.isSome t.text problem))

/-- Statements up to `end`, as one value. `hint` is where an empty block is reported. -/
def blockBody (rules : Rules) (hint : Position) : Parser Expr := do
  let stmts ← block rules [.endWord]
  let _ ← expect .endWord "'end' closing block"
  ofExcept (promoteBlock hint stmts)

/-- Parameters without types, between commas. -/
def lambdaParams : Parser (List Param) := do
  let names ← commaList (expectIdent "parameter name")
  pure (names.map fun name => ⟨name.text, none⟩)

/-- Whether a list of tokens begins with identifiers between commas and then a separator; and the
number of the token that decides it. -/
def identsThenSeparator : List Token → Bool × Nat
  | [] => (false, 0)
  | [t] => (false, if t.kind = .ident then 1 else 0)
  | t :: after :: more =>
    if t.kind ≠ .ident then (false, 0)
    else if after.kind = .comma then
      let (answer, n) := identsThenSeparator more
      (answer, n + 2)
    else (after.kind.isSeparator, 1)

/-- Whether parameters stand on the line of a `do`. -/
def doParamsAhead : Parser Bool := fun c =>
  let (answer, n) := identsThenSeparator c.upcoming
  .ok answer (c.receive n)

/-- `do x, y` and a block up to `end`, the last argument of a call. -/
def doBlock (rules : Rules) : Parser Expr := do
  let word ← next
  let params ← if ← doParamsAhead then lambdaParams else pure []
  let body ← blockBody rules word.span.start
  let stop ← place
  pure ⟨⟨word.span.start, stop⟩, .lambda true params body⟩

/-- A named argument. -/
def namedArg (rules : Rules) : Parser (String × Expr) := do
  let name ← expectIdent "argument name"
  let _ ← expect .colon "':' after argument name"
  skipNewlines
  let value ← rules.expr
  pure (name.text, value)

/-- The end of the arguments of a call: where the call stops, and the block that may follow. -/
def callEnd (rules : Rules) : Parser (Position × Option Expr) := do
  let close ← expect .rparen "')' closing arguments"
  if (← kind) = .doWord then
    let body ← doBlock rules
    pure (body.span.stop, some body)
  else pure (close.span.stop, none)

/-- A call. The first argument decides whether arguments are named. -/
def call (rules : Rules) (callee : Expr) : Parser Expr := do
  let _ ← next
  skipNewlines
  let named ← if (← kind) = .ident then (do
      let after ← kindAt 1
      pure (after = .colon : Bool)) else pure false
  if named then
    let args ← closedList .rparen fun _ => namedArg rules
    let (stop, body) ← callEnd rules
    pure ⟨⟨callee.span.start, stop⟩, .callNamed callee args body⟩
  else
    let args ← closedList .rparen fun _ => rules.expr
    let (stop, body) ← callEnd rules
    pure ⟨⟨callee.span.start, stop⟩, .call callee args body⟩

/-- An access by index. -/
def indexAccess (rules : Rules) (target : Expr) : Parser Expr := do
  let _ ← next
  skipNewlines
  let index ← rules.expr
  skipNewlines
  let close ← expect .rbracket "']' closing index access"
  pure ⟨target.span.through close.span, .index target index⟩

/-- An access to a field. -/
def fieldAccess (target : Expr) : Parser Expr := do
  let _ ← next
  let name ← expectIdent "field name after '.'"
  pure ⟨target.span.through name.span, .field target name.text⟩

/-- A field of a record literal or a tuple literal. -/
def literalField (rules : Rules) (fields : List (String × Expr)) : Parser (String × Expr) := do
  let name ← expectIdent "field name"
  checkFieldName .literal fields name
  let _ ← expect .colon "':' after field name"
  skipNewlines
  let value ← rules.expr
  pure (name.text, value)

/-- `{a: e}` or `{_: e}`, with or without a name in front. -/
def recordOrTuple (rules : Rules) : Parser Expr := do
  let name ← eat .ident
  let opening ← expect .lbrace "'\x7b'"
  let fields ← closedList .rbrace (literalField rules)
  let close ← expect .rbrace "'\x7d' closing literal"
  let head := name.map (·.text)
  let form := if areUnnamed fields then .tuple head (fields.map (·.2)) else .record head fields
  pure ⟨(name.getD opening).span.through close.span, form⟩

/-- The elements of an array after the first one. -/
def arrayRest (rules : Rules) (first : Expr) : Parser (List Expr) :=
  iterate (fun elems => do
    if ← ate .comma then
      skipNewlines
      if (← kind) = .rbracket then pure (.done elems.reverse)
      else
        let e ← rules.expr
        skipNewlines
        pure (.again (e :: elems))
    else pure (.done elems.reverse)) [first]

/-- The elements of a dictionary after the first one. -/
def dictRest (rules : Rules) (first : Expr × Expr) : Parser (List (Expr × Expr)) :=
  iterate (fun elems => do
    if ← ate .comma then
      skipNewlines
      if (← kind) = .rbracket then pure (.done elems.reverse)
      else
        let key ← rules.expr
        skipNewlines
        let _ ← expect .fatArrow "'=>' in dictionary literal"
        skipNewlines
        let value ← rules.expr
        skipNewlines
        pure (.again ((key, value) :: elems))
    else pure (.done elems.reverse)) [first]

/-- The elements of an array or a dictionary that is not empty. -/
def elements (rules : Rules) : Parser ExprForm := do
  let first ← rules.expr
  skipNewlines
  if ← ate .fatArrow then
    skipNewlines
    let value ← rules.expr
    let elems ← dictRest rules (first, value)
    pure (.dict elems)
  else
    let elems ← arrayRest rules first
    pure (.array elems)

/-- `[a, b]`, `[]`, `[k => v]` or `[=>]` -/
def arrayOrDict (rules : Rules) : Parser Expr := do
  let opening ← next
  skipNewlines
  if ← ate .fatArrow then
    skipNewlines
    let close ← expect .rbracket "']' closing empty dictionary"
    pure ⟨opening.span.through close.span, .dict []⟩
  else
    match ← eat .rbracket with
    | some close => pure ⟨opening.span.through close.span, .array []⟩
    | none =>
      let form ← elements rules
      skipNewlines
      let close ← expect .rbracket "']' closing literal"
      pure ⟨opening.span.through close.span, form⟩

/-- Whether parameters stand behind the arrow of a lambda. -/
def lambdaParamsAhead : Parser Bool := do
  if (← kind) = .ident then
    let after ← kindAt 1
    pure (after = .comma || after = .inWord || after = .doWord)
  else pure false

/-- The body of a lambda. Without a block it follows `in` if there are parameters. -/
def lambdaBody (rules : Rules) (hasParams : Bool) : Parser Expr := do
  match ← eat .doWord with
  | some word => blockBody rules word.span.start
  | none =>
    if hasParams then
      let _ ← expect .inWord "'in' or 'do' after lambda parameters"
      skipNewlines
      rules.expr
    else rules.expr

/-- `-> a, b in e`, `-> e`, `-> a do … end` or `-> do … end` -/
def lambda (rules : Rules) : Parser Expr := do
  let arrow ← next
  let hasParams ← lambdaParamsAhead
  let params ← if hasParams then lambdaParams else pure []
  let body ← lambdaBody rules hasParams
  let stop ← place
  pure ⟨⟨arrow.span.start, stop⟩, .lambda false params body⟩

/-- An expression in parentheses. It keeps its own span. -/
def parenthesized (rules : Rules) : Parser Expr := do
  let _ ← next
  skipNewlines
  let e ← rules.expr
  skipNewlines
  let _ ← expect .rparen "')' closing parenthesized expression"
  pure e

/-- A construct with branches, as a value. -/
def branchingValue (stmt : Parser Stmt) : Parser Expr := do
  let s ← stmt
  ofExcept (promote s)

/-- An operand without operators, calls and accesses. -/
def primary (rules : Rules) : Parser Expr := do
  let k ← kind
  if Literal.isKind k then
    let t ← next
    literal t none
  else
    match k with
    | .ident =>
      if (← kindAt 1) = .lbrace then recordOrTuple rules
      else
        let name ← expectIdent "variable"
        pure ⟨name.span, .variable name.text⟩
    | .lbrace => recordOrTuple rules
    | .lbracket => arrayOrDict rules
    | .lparen => parenthesized rules
    | .arrow => lambda rules
    | .ifWord => branchingValue (ifStmt rules)
    | .switchWord => branchingValue (switchStmt rules)
    | .matchWord => branchingValue (matchStmt rules)
    | _ => unexpected "expression"

/-- An operand with its calls and accesses. -/
def chained (rules : Rules) : Parser Expr := do
  let operand ← primary rules
  iterate (fun e => do
    match ← kind with
    | .lparen =>
      let e ← call rules e
      pure (.again e)
    | .lbracket =>
      let e ← indexAccess rules e
      pure (.again e)
    | .dot =>
      let e ← fieldAccess e
      pure (.again e)
    | _ => pure (.done e)) operand

/-- Whether a minus belongs to the literal behind it. It does unless a call or an access binds to
the literal first. -/
def negativeLiteralAhead : Parser Bool := do
  let k ← kindAt 1
  if k = .int ∨ k = .float then
    let after ← kindAt 2
    pure (after != .lparen && after != .lbracket && after != .dot)
  else pure false

/-- An operator in front of its operand. -/
def prefixed (rules : Rules) (op : UnaryOp) : Parser Expr := do
  let t ← next
  let operand ← rules.unary
  pure ⟨t.span.through operand.span, .unary op operand⟩

/-- An operand with the operators in front of it. -/
def unary (rules : Rules) : Parser Expr := do
  match unaryOp? (← kind) with
  | none => chained rules
  | some .neg =>
    if ← negativeLiteralAhead then
      let minus ← next
      let t ← next
      literal t (some minus.span.start)
    else prefixed rules .neg
  | some op => prefixed rules op

/-- An operand with the types that it is taken as. -/
def coerced (rules : Rules) : Parser Expr := do
  let operand ← unary rules
  iterate (fun e => do
    if ← ate .asWord then
      let t ← rules.typeExpr
      pure (.again ⟨e.span.through t.span, .coerce e t⟩)
    else pure (.done e)) operand

/-- An expression whose operators outside of brackets have at least the binding power `power`. -/
def binary (rules : Rules) (power : Nat) : Parser Expr := do
  let first ← coerced rules
  iterate (fun lhs => do
    match binaryOp? (← kind) with
    | none => pure (.done lhs)
    | some (op, p) =>
      if p < power then pure (.done lhs)
      else
        let _ ← next
        skipNewlines
        let rhs ← rules.binary (p + 1)
        pure (.again ⟨lhs.span.through rhs.span, .binary op lhs rhs⟩)) first

end Frontend.Grammar
