import Frontend.Grammar.Fault
import Frontend.Tree.Label

/-!
Blocks as values. Branches of `if`, `switch` and `match` are blocks of statements. Where such a
construct is used as a value, the last statement of each branch becomes the value of the branch,
and the statements before it are kept in front. The last statement may be such a construct itself.
-/
namespace Frontend.Grammar

/-- The value of a block, out of its leading statements and the value of its last one. -/
def blockValue : List Stmt × Expr → Expr
  | ([], value) => value
  | (first :: rest, value) => ⟨first.span.through value.span, .seq (first :: rest) value⟩

/-- A branch as a value, out of its promoted block; a fault is told where it is. -/
def branchValue (start : Position) (branch : Branch) (block : Except Fault (List Stmt × Expr)) :
    Except Fault Expr :=
  (block.map blockValue).mapError (·.inBranch start branch)

mutual

/-- A statement as a value, if it has one. -/
def promote : Stmt → Except Fault Expr
  | ⟨_, .value e⟩ => .ok e
  | ⟨span, .ifThen cond thenBlock elseBlock⟩ => do
    let thenValue ← branchValue span.start .thenOfIf (promoteLast span.start thenBlock)
    let elseValue ← branchValue span.start .elseOfIf (promoteLast span.start elseBlock)
    .ok ⟨span, .ifThen cond thenValue elseValue⟩
  | ⟨span, .switch cases elseBlock⟩ => do
    let cases ← promoteCases span.start 1 cases
    let elseValue ← branchValue span.start .elseOfSwitch (promoteLast span.start elseBlock)
    .ok ⟨span, .switch cases elseValue⟩
  | ⟨span, .matchWith subject arms elseBlock⟩ => do
    let arms ← promoteArms span.start 1 arms
    let elseValue ← branchValue span.start .elseOfMatch (promoteLast span.start elseBlock)
    .ok ⟨span, .matchWith subject arms elseValue⟩
  | ⟨span, form⟩ => .error (.across span (.noValue form.label))

/-- A block with its last statement as a value: the statements before it, and the value. `hint` is
where an empty block is reported. -/
def promoteLast (hint : Position) : List Stmt → Except Fault (List Stmt × Expr)
  | [] => .error (.pointAt hint .emptyBlock)
  | [s] => do
    let value ← promote s
    .ok ([], value)
  | s :: next :: rest => do
    let (stmts, value) ← promoteLast hint (next :: rest)
    .ok (s :: stmts, value)

/-- The cases of a `switch` with their blocks as values, the first being the n-th. -/
def promoteCases (start : Position) (n : Nat) :
    List (Expr × List Stmt) → Except Fault (List (Expr × Expr))
  | [] => .ok []
  | (cond, block) :: rest => do
    let value ← branchValue start (.caseOfSwitch n) (promoteLast start block)
    let rest ← promoteCases start (n + 1) rest
    .ok ((cond, value) :: rest)

/-- The arms of a `match` with their blocks as values, the first being the n-th. -/
def promoteArms (start : Position) (n : Nat) :
    List (Pattern × List Stmt) → Except Fault (List (Pattern × Expr))
  | [] => .ok []
  | (pattern, block) :: rest => do
    let value ← branchValue start (.withOfMatch n) (promoteLast start block)
    let rest ← promoteArms start (n + 1) rest
    .ok ((pattern, value) :: rest)

end

/-- A block as a value. `hint` is where an empty block is reported. -/
def promoteBlock (hint : Position) (stmts : List Stmt) : Except Fault Expr :=
  (promoteLast hint stmts).map blockValue

/-- A computation of two steps succeeds where both do. -/
theorem Except.bind_eq_ok {ε α β : Type} {x : Except ε α} {k : α → Except ε β} {b : β} :
    (x >>= k) = .ok b ↔ ∃ a, x = .ok a ∧ k a = .ok b := by
  cases x with
  | error e => exact ⟨nofun, fun ⟨_, eq, _⟩ => nomatch eq⟩
  | ok a => exact ⟨fun h => ⟨a, rfl, h⟩, fun ⟨_, eq, h⟩ => by cases eq; exact h⟩

section Success

variable {hint start : Position} {span : Span} {e : Expr} {parts : List Stmt × Expr}

theorem branchValue_eq_ok {branch : Branch} {block : Except Fault (List Stmt × Expr)}
    (h : branchValue start branch block = .ok e) :
    ∃ parts, block = .ok parts ∧ blockValue parts = e := by
  cases block with
  | error f => cases h
  | ok parts => exact ⟨parts, rfl, Except.ok.inj h⟩

theorem promoteBlock_eq_ok {stmts : List Stmt} (h : promoteBlock hint stmts = .ok e) :
    ∃ parts, promoteLast hint stmts = .ok parts ∧ blockValue parts = e := by
  unfold promoteBlock at h
  cases run : promoteLast hint stmts with
  | error f =>
    rw [run] at h
    cases h
  | ok parts =>
    rw [run] at h
    exact ⟨parts, rfl, Except.ok.inj h⟩

theorem promote_ifThen_eq_ok {cond : Expr} {thenBlock elseBlock : List Stmt}
    (h : promote ⟨span, .ifThen cond thenBlock elseBlock⟩ = .ok e) :
    ∃ then_ else_, promoteLast span.start thenBlock = .ok then_ ∧
      promoteLast span.start elseBlock = .ok else_ ∧
      ⟨span, .ifThen cond (blockValue then_) (blockValue else_)⟩ = e := by
  rw [promote] at h
  obtain ⟨_, then_value, h⟩ := Except.bind_eq_ok.mp h
  obtain ⟨_, else_value, h⟩ := Except.bind_eq_ok.mp h
  obtain ⟨then_, then_run, rfl⟩ := branchValue_eq_ok then_value
  obtain ⟨else_, else_run, rfl⟩ := branchValue_eq_ok else_value
  exact ⟨then_, else_, then_run, else_run, Except.ok.inj h⟩

theorem promote_switch_eq_ok {cases : List (Expr × List Stmt)} {elseBlock : List Stmt}
    (h : promote ⟨span, .switch cases elseBlock⟩ = .ok e) :
    ∃ values else_, promoteCases span.start 1 cases = .ok values ∧
      promoteLast span.start elseBlock = .ok else_ ∧
      ⟨span, .switch values (blockValue else_)⟩ = e := by
  rw [promote] at h
  obtain ⟨values, cases_run, h⟩ := Except.bind_eq_ok.mp h
  obtain ⟨_, else_value, h⟩ := Except.bind_eq_ok.mp h
  obtain ⟨else_, else_run, rfl⟩ := branchValue_eq_ok else_value
  exact ⟨values, else_, cases_run, else_run, Except.ok.inj h⟩

theorem promote_matchWith_eq_ok {subject : Expr} {arms : List (Pattern × List Stmt)}
    {elseBlock : List Stmt} (h : promote ⟨span, .matchWith subject arms elseBlock⟩ = .ok e) :
    ∃ values else_, promoteArms span.start 1 arms = .ok values ∧
      promoteLast span.start elseBlock = .ok else_ ∧
      ⟨span, .matchWith subject values (blockValue else_)⟩ = e := by
  rw [promote] at h
  obtain ⟨values, arms_run, h⟩ := Except.bind_eq_ok.mp h
  obtain ⟨_, else_value, h⟩ := Except.bind_eq_ok.mp h
  obtain ⟨else_, else_run, rfl⟩ := branchValue_eq_ok else_value
  exact ⟨values, else_, arms_run, else_run, Except.ok.inj h⟩

theorem promoteLast_single_eq_ok {s : Stmt} (h : promoteLast hint [s] = .ok parts) :
    ∃ value, promote s = .ok value ∧ ([], value) = parts := by
  rw [promoteLast] at h
  obtain ⟨value, run, h⟩ := Except.bind_eq_ok.mp h
  exact ⟨value, run, Except.ok.inj h⟩

theorem promoteLast_cons_eq_ok {s next : Stmt} {rest : List Stmt}
    (h : promoteLast hint (s :: next :: rest) = .ok parts) :
    ∃ lead value, promoteLast hint (next :: rest) = .ok (lead, value) ∧
      (s :: lead, value) = parts := by
  rw [promoteLast] at h
  obtain ⟨⟨lead, value⟩, run, h⟩ := Except.bind_eq_ok.mp h
  exact ⟨lead, value, run, Except.ok.inj h⟩

theorem promoteCases_cons_eq_ok {n : Nat} {cond : Expr} {block : List Stmt}
    {rest : List (Expr × List Stmt)} {values : List (Expr × Expr)}
    (h : promoteCases start n ((cond, block) :: rest) = .ok values) :
    ∃ parts more, promoteLast start block = .ok parts ∧
      promoteCases start (n + 1) rest = .ok more ∧ (cond, blockValue parts) :: more = values := by
  rw [promoteCases] at h
  obtain ⟨_, block_value, h⟩ := Except.bind_eq_ok.mp h
  obtain ⟨more, rest_run, h⟩ := Except.bind_eq_ok.mp h
  obtain ⟨parts, block_run, rfl⟩ := branchValue_eq_ok block_value
  exact ⟨parts, more, block_run, rest_run, Except.ok.inj h⟩

theorem promoteArms_cons_eq_ok {n : Nat} {pattern : Pattern} {block : List Stmt}
    {rest : List (Pattern × List Stmt)} {values : List (Pattern × Expr)}
    (h : promoteArms start n ((pattern, block) :: rest) = .ok values) :
    ∃ parts more, promoteLast start block = .ok parts ∧
      promoteArms start (n + 1) rest = .ok more ∧
      (pattern, blockValue parts) :: more = values := by
  rw [promoteArms] at h
  obtain ⟨_, block_value, h⟩ := Except.bind_eq_ok.mp h
  obtain ⟨more, rest_run, h⟩ := Except.bind_eq_ok.mp h
  obtain ⟨parts, block_run, rfl⟩ := branchValue_eq_ok block_value
  exact ⟨parts, more, block_run, rest_run, Except.ok.inj h⟩

end Success

end Frontend.Grammar
