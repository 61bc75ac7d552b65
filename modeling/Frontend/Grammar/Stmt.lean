import Frontend.Grammar.Expr

/-!
Statements. The first token decides which statement it is; a statement that begins with an
identifier is told from an expression by the token after it.
-/
namespace Frontend.Grammar

open Frontend.Grammar.Parser

/-- `let a, {b} = e1, e2` or `var a = e` -/
def declaration (rules : Rules) : Parser Stmt := do
  let word ← next
  let targets ← commaList rules.destructuring
  let _ ← expect .assign "'=' in variable declaration"
  skipNewlines
  let values ← rules.exprList
  let stop ← place
  pure ⟨⟨word.span.start, stop⟩, .declare (word.kind = .varWord) targets values⟩

/-- `x := e`, which declares like `let x = e`. -/
def definition (rules : Rules) : Parser Stmt := do
  let name ← expectIdent "variable name"
  let _ ← next
  skipNewlines
  let value ← rules.expr
  pure ⟨name.span.through value.span, .declare false [.variable name.span name.text] [value]⟩

/-- `a = e` or `a, b = e1, e2` -/
def assignment (rules : Rules) : Parser Stmt := do
  let first ← peekAt 0
  let names ← commaList (expectIdent "variable name")
  let _ ← expect .assign "'=' in assignment"
  skipNewlines
  let values ← rules.exprList
  let stop ← place
  pure ⟨⟨first.span.start, stop⟩, .assign (names.map (·.text)) values⟩

/-- An expression, or `a[i] = e`. -/
def exprStmt (rules : Rules) : Parser Stmt := do
  let e ← binary rules 1
  if ← ate .assign then
    match e.form with
    | .index target index =>
      skipNewlines
      let value ← rules.expr
      pure ⟨e.span.through value.span, .assignIndex target index value⟩
    | form => fail (.across e.span (.notAssignable form.label))
  else pure (.ofExpr e)

/-- `ret` or `ret e1, e2`. Without values it stands before the end of its statement. -/
def retStmt (rules : Rules) : Parser Stmt := do
  let word ← next
  let k ← kind
  let values ←
    if k.isSeparator ∨ k ∈ [.endWord, .elseWord, .caseWord, .withWord, .eof] then pure []
    else rules.exprList
  let stop ← place
  pure ⟨⟨word.span.start, stop⟩, .ret values⟩

/-- What a `for` repeats: `x in xs` and a block, or a condition and a block. -/
def forBody (rules : Rules) : Parser StmtForm := do
  if ← destructuringThenIn then
    let target ← rules.destructuring
    let _ ← expect .inWord "'in' of 'for' statement"
    let range ← rules.expr
    let body ← block rules [.endWord]
    pure (.forEach target range body)
  else
    let cond ← rules.expr
    let body ← block rules [.endWord]
    pure (.whileTrue cond body)

/-- `for x in xs … end` or `for c … end` -/
def forStmt (rules : Rules) : Parser Stmt := do
  let word ← next
  let form ← forBody rules
  let close ← expect .endWord "'end' closing 'for'"
  pure ⟨word.span.through close.span, form⟩

/-- A statement. -/
def statement (rules : Rules) : Parser Stmt := do
  match ← kind with
  | .letWord | .varWord => declaration rules
  | .retWord => retStmt rules
  | .ifWord => ifStmt rules
  | .switchWord => switchStmt rules
  | .matchWord => matchStmt rules
  | .forWord => forStmt rules
  | .ident =>
    match ← kindAt 1 with
    | .define => definition rules
    | .assign | .comma => assignment rules
    | _ => exprStmt rules
  | _ => exprStmt rules

end Frontend.Grammar
