import Frontend.Grammar.Pattern

/-!
Blocks, and the constructs that branch to them: `if`, `switch` and `match`. They are read as
statements also where a value is wanted.
-/
namespace Frontend.Grammar

open Frontend.Grammar.Parser
open Token (Kind)

/-- Statements up to one of some closing tokens, which is not taken. -/
def block (rules : Rules) (closers : List Kind) : Parser (List Stmt) :=
  iterate (fun stmts => do
    skipSeparators
    let k ← kind
    if k ∈ closers then pure (.done stmts.reverse)
    else if k.isTerminal then unexpected "'end' of block"
    else
      let s ← rules.statement
      let k ← kind
      if k.isSeparator ∨ k ∈ closers then pure (.again (s :: stmts))
      else unexpected "end of statement") []

/-- The block after `else`, up to `end`; empty without an `else`. -/
def elseBlock (rules : Rules) : Parser (List Stmt) := do
  if ← ate .elseWord then block rules [.endWord] else pure []

/-- What ends a condition: `then`, or the end of its line, which is left. -/
def thenOrSeparator (what : String) : Parser Unit := do
  if ← ate .thenWord then pure ()
  else if (← kind).isSeparator then pure ()
  else unexpected s!"'then' or end of line after {what}"

/-- `if c then … else … end` -/
def ifStmt (rules : Rules) : Parser Stmt := do
  let word ← next
  let cond ← rules.expr
  thenOrSeparator "condition of 'if'"
  let thenBlock ← block rules [.elseWord, .endWord]
  let elseBlock ← elseBlock rules
  let close ← expect .endWord "'end' closing 'if'"
  pure ⟨word.span.through close.span, .ifThen cond thenBlock elseBlock⟩

/-- Branches that begin with a word each; there has to be one. -/
def branches {α : Type} (word : Kind) (what : String) (branch : Parser α) : Parser (List α) := do
  let all ← iterate (fun found => do
    if ← ate word then
      let b ← branch
      pure (.again (b :: found))
    else pure (.done found.reverse)) []
  if all.isEmpty then unexpected what else pure all

/-- A case of a `switch`, after `case`. -/
def switchCase (rules : Rules) : Parser (Expr × List Stmt) := do
  let cond ← rules.expr
  thenOrSeparator "condition of 'case'"
  let stmts ← block rules [.caseWord, .elseWord, .endWord]
  pure (cond, stmts)

/-- `switch case c then … else … end` -/
def switchStmt (rules : Rules) : Parser Stmt := do
  let word ← next
  skipSeparators
  let cases ← branches .caseWord "'case' in 'switch'" (switchCase rules)
  let elseBlock ← elseBlock rules
  let close ← expect .endWord "'end' closing 'switch'"
  pure ⟨word.span.through close.span, .switch cases elseBlock⟩

/-- An arm of a `match`, after `with`. -/
def matchArm (rules : Rules) : Parser (Pattern × List Stmt) := do
  let p ← rules.pattern
  thenOrSeparator "pattern of 'with'"
  let stmts ← block rules [.withWord, .elseWord, .endWord]
  pure (p, stmts)

/-- `match e with p then … else … end` -/
def matchStmt (rules : Rules) : Parser Stmt := do
  let word ← next
  let subject ← rules.expr
  skipSeparators
  let arms ← branches .withWord "'with' in 'match'" (matchArm rules)
  let elseBlock ← elseBlock rules
  let close ← expect .endWord "'end' closing 'match'"
  pure ⟨word.span.through close.span, .matchWith subject arms elseBlock⟩

end Frontend.Grammar
