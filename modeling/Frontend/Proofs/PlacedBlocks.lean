import Frontend.Grammar.Branching
import Frontend.Grammar.Promotion
import Frontend.Proofs.PlacedTypes

/-!
Blocks that the grammar yields stand in their source in order, and so do the values that they are
promoted to: a promoted statement keeps its span, and a block is the stretch from its first
statement to its value.
-/
namespace Frontend.Grammar

open Frontend.Grammar.Parser
open Node (Row)
open Token (Kind)

/-- A result that is good, or else a fault at a good place. -/
def Settles {α : Type} (good : Position → Prop) (x : Except Fault α) (post : α → Prop) : Prop :=
  match x with
  | .ok a => post a
  | .error f => f.Placed good

variable {good : Position → Prop} {lo hi : Nat} {seen : Token → Prop} {rules : Rules}

theorem Settles.bind {α β : Type} {x : Except Fault α} {k : α → Except Fault β} {mid : α → Prop}
    {post : β → Prop} (first : Settles good x mid)
    (then_ : ∀ a, mid a → Settles good (k a) post) : Settles good (x >>= k) post := by
  cases x with
  | error f => exact first
  | ok a => exact then_ a first

theorem Covers.ofSettled {α : Type} {x : Except Fault α} {early : α → Prop}
    {post : α → Nat → Prop} (h : Settles good x (post · lo)) (here : Settles (·.offset ≤ lo) x early) :
    Covers good lo seen (MonadExcept.ofExcept x) post := by
  cases x with
  | error f => exact .fail h here.start_good
  | ok a => exact .pure h

/-- The nodes of a block of which the last statement is a value. -/
def valueNodes (parts : List Stmt × Expr) : List Node :=
  parts.1.map .stmt ++ [.expr parts.2]

theorem row_blockValue {parts : List Stmt × Expr} (h : Row good lo (valueNodes parts) hi) :
    Row good lo [.expr (blockValue parts)] hi := by
  obtain ⟨lead, value⟩ := parts
  cases lead with
  | nil => exact h
  | cons first rest => exact .spanning h rfl List.getLast?_concat rfl

theorem settles_branchValue {start : Position} {branch : Branch}
    {block : Except Fault (List Stmt × Expr)}
    (h : Settles good block fun parts => Row good lo (valueNodes parts) hi) :
    Settles good (branchValue start branch block) fun e => Row good lo [.expr e] hi := by
  cases block with
  | error f => exact Fault.Placed.inBranch h
  | ok parts => exact row_blockValue h

mutual

/-- The value of a statement stands where the statement does. -/
theorem settles_promote : ∀ (s : Stmt) {lo hi : Nat}, Row good lo [.stmt s] hi →
    Settles good (promote s) fun e => Row good lo [.expr e] hi
  | ⟨_, .value e⟩, lo, hi, row => (row.inside.lower row.lies.lower).upper row.lies.upper
  | ⟨span, .ifThen cond thenBlock elseBlock⟩, lo, hi, row => by
    unfold promote
    obtain ⟨mid, cond_row, blocks⟩ := row.inside.uncons
    obtain ⟨mid', then_row, else_row⟩ := blocks.split
    apply (settles_branchValue (settles_promoteLast row.lies.start_good thenBlock then_row)).bind
    intro thenValue then_row
    apply (settles_branchValue (settles_promoteLast row.lies.start_good elseBlock else_row)).bind
    intro elseValue else_row
    exact .one row.lies (cond_row.append (then_row.append else_row))
  | ⟨span, .switch cases elseBlock⟩, lo, hi, row => by
    unfold promote
    obtain ⟨mid, cases_row, else_row⟩ := row.inside.split
    apply (settles_promoteCases row.lies.start_good 1 cases cases_row).bind
    intro values values_row
    apply (settles_branchValue (settles_promoteLast row.lies.start_good elseBlock else_row)).bind
    intro elseValue else_row
    exact .one row.lies (values_row.append else_row)
  | ⟨span, .matchWith subject arms elseBlock⟩, lo, hi, row => by
    unfold promote
    obtain ⟨mid, subject_row, blocks⟩ := row.inside.uncons
    obtain ⟨mid', arms_row, else_row⟩ := blocks.split
    apply (settles_promoteArms row.lies.start_good 1 arms arms_row).bind
    intro values values_row
    apply (settles_branchValue (settles_promoteLast row.lies.start_good elseBlock else_row)).bind
    intro elseValue else_row
    exact .one row.lies (subject_row.append (values_row.append else_row))
  | ⟨span, .declare _ _ _⟩, lo, hi, row | ⟨span, .assign _ _⟩, lo, hi, row
  | ⟨span, .assignIndex _ _ _⟩, lo, hi, row | ⟨span, .ret _⟩, lo, hi, row
  | ⟨span, .forEach _ _ _⟩, lo, hi, row | ⟨span, .whileTrue _ _⟩, lo, hi, row => by
    unfold promote
    exact .of_lies row.lies

/-- A block whose last statement is a value stands where the block does. -/
theorem settles_promoteLast {hint : Position} (hint_good : good hint) :
    ∀ (stmts : List Stmt) {lo hi : Nat}, Row good lo (stmts.map .stmt) hi →
    Settles good (promoteLast hint stmts) fun parts => Row good lo (valueNodes parts) hi
  | [], lo, hi, _ => by
    unfold promoteLast
    exact .pointAt hint_good
  | [s], lo, hi, row => by
    unfold promoteLast
    apply (settles_promote s row).bind
    intro value value_row
    exact value_row
  | s :: next :: rest, lo, hi, row => by
    unfold promoteLast
    obtain ⟨mid, first_row, rest_row⟩ := row.uncons
    apply (settles_promoteLast hint_good (next :: rest) rest_row).bind
    intro parts parts_row
    exact first_row.append parts_row

theorem settles_promoteCases {start : Position} (start_good : good start) (n : Nat) :
    ∀ (cases : List (Expr × List Stmt)) {lo hi : Nat},
    Row good lo (cases.flatMap fun c => .expr c.1 :: c.2.map .stmt) hi →
    Settles good (promoteCases start n cases) fun values =>
      Row good lo (values.flatMap fun c => [.expr c.1, .expr c.2]) hi
  | [], lo, hi, row => row
  | (cond, block) :: rest, lo, hi, row => by
    unfold promoteCases
    rw [List.flatMap_cons] at row
    obtain ⟨mid, first_row, rest_row⟩ := row.split
    obtain ⟨mid', cond_row, block_row⟩ := first_row.uncons
    apply (settles_branchValue (settles_promoteLast start_good block block_row)).bind
    intro value value_row
    apply (settles_promoteCases start_good (n + 1) rest rest_row).bind
    intro values values_row
    exact cond_row.append (value_row.append values_row)

theorem settles_promoteArms {start : Position} (start_good : good start) (n : Nat) :
    ∀ (arms : List (Pattern × List Stmt)) {lo hi : Nat},
    Row good lo (arms.flatMap fun a => .pattern a.1 :: a.2.map .stmt) hi →
    Settles good (promoteArms start n arms) fun values =>
      Row good lo (values.flatMap fun a => [.pattern a.1, .expr a.2]) hi
  | [], lo, hi, row => row
  | (pattern, block) :: rest, lo, hi, row => by
    unfold promoteArms
    rw [List.flatMap_cons] at row
    obtain ⟨mid, first_row, rest_row⟩ := row.split
    obtain ⟨mid', pattern_row, block_row⟩ := first_row.uncons
    apply (settles_branchValue (settles_promoteLast start_good block block_row)).bind
    intro value value_row
    apply (settles_promoteArms start_good (n + 1) rest rest_row).bind
    intro values values_row
    exact pattern_row.append (value_row.append values_row)

end

theorem settles_promoteBlock {hint : Position} (hint_good : good hint) {stmts : List Stmt}
    (row : Row good lo (stmts.map .stmt) hi) :
    Settles good (promoteBlock hint stmts) fun e => Row good lo [.expr e] hi := by
  have parts := settles_promoteLast hint_good stmts row
  unfold promoteBlock
  cases run : promoteLast hint stmts with
  | error f =>
    rw [run] at parts
    exact parts
  | ok parts' =>
    rw [run] at parts
    exact row_blockValue parts

theorem covers_block (placed : rules.Placed good) {closers : List Kind} :
    Covers good lo seen (block rules closers) fun stmts hi => Row good lo (stmts.map .stmt) hi := by
  apply Covers.iterate (fun stmts hi => Row good lo (stmts.reverse.map .stmt) hi)
  · exact .nil (Nat.le_refl _)
  intro stmts mid row
  apply Covers.bind .skipWhile
  intro _ mid' le _
  apply Covers.kind_bind
  intro k
  apply Covers.ite
  · intro _
    exact .pure (row.upper le)
  intro _
  apply Covers.ite
  · intro _
    exact .unexpected
  intro _
  apply Covers.bind placed.statement
  intro s hi _ s_row
  apply Covers.kind_bind
  intro k
  apply Covers.ite
  · intro _
    apply Covers.pure
    simpa [Turn.Keeps] using row.append (s_row.lower le)
  · intro _
    exact .unexpected

theorem covers_elseBlock (placed : rules.Placed good) :
    Covers good lo seen (elseBlock rules) fun stmts hi => Row good lo (stmts.map .stmt) hi := by
  apply Covers.ate_ite (by decide)
  · intro mid less
    apply (covers_block placed).mono
    intro stmts hi row
    exact row.lower (Nat.le_of_lt less)
  · exact .pure (.nil (Nat.le_refl _))

theorem covers_thenOrSeparator {what : String} :
    Covers good lo seen (thenOrSeparator what) fun _ _ => True := by
  apply Covers.ate_ite (by decide)
  · intro _ _
    exact .pure trivial
  apply Covers.kind_bind
  intro k
  apply Covers.ite
  · intro _
    exact .pure trivial
  · intro _
    exact .unexpected

theorem covers_ifStmt (placed : rules.Placed good) (more : ∀ t, seen t → t.kind ≠ .eof) :
    Covers good lo seen (ifStmt rules) fun s hi => Row good lo [.stmt s] hi := by
  apply Covers.bind (.next more)
  intro word _ _ ⟨_, word_lies⟩
  apply Covers.bind (placed.binary 1)
  intro cond _ _ cond_row
  apply Covers.bind covers_thenOrSeparator
  intro _ _ le _
  apply Covers.bind (covers_block placed)
  intro thenBlock _ _ then_row
  apply Covers.bind (covers_elseBlock placed)
  intro elseBlock _ _ else_row
  apply Covers.bind (.expect (by decide))
  intro close hi _ ⟨_, close_lies⟩
  apply Covers.pure
  have children := (cond_row.upper le).append (then_row.append else_row)
  exact .enclosed word_lies children close_lies rfl

/-- Branches whose nodes stand in a row, one branch behind the other. -/
theorem covers_branches {α : Type} {word : Kind} {what : String} {branch : Parser α}
    (nodes : α → List Node) (real : word ≠ .eof)
    (each : ∀ lo, Covers good lo anything branch fun b hi => Row good lo (nodes b) hi) :
    Covers good lo seen (branches word what branch) fun all hi =>
      Row good lo (all.flatMap nodes) hi := by
  have found : Covers good lo seen (iterate (fun found => do
      if ← ate word then
        let b ← branch
        pure (.again (b :: found))
      else pure (.done found.reverse)) []) fun all hi => Row good lo (all.flatMap nodes) hi := by
    apply Covers.iterate (fun found hi => Row good lo (found.reverse.flatMap nodes) hi)
    · exact .nil (Nat.le_refl _)
    intro found mid row
    apply Covers.ate_ite real
    · intro mid' less
      apply Covers.bind (each mid')
      intro b hi _ b_row
      apply Covers.pure
      simpa [Turn.Keeps] using row.append (b_row.lower (Nat.le_of_lt less))
    · exact .pure row
  apply Covers.bind found
  intro all hi _ row
  apply Covers.ite
  · intro _
    exact .unexpected
  · intro _
    exact .pure row

theorem covers_switchCase (placed : rules.Placed good) :
    Covers good lo seen (switchCase rules) fun c hi =>
      Row good lo (.expr c.1 :: c.2.map .stmt) hi := by
  apply Covers.bind (placed.binary 1)
  intro cond _ _ cond_row
  apply Covers.bind covers_thenOrSeparator
  intro _ _ le _
  apply Covers.bind (covers_block placed)
  intro stmts hi _ row
  exact .pure ((cond_row.upper le).append row)

theorem covers_switchStmt (placed : rules.Placed good) (more : ∀ t, seen t → t.kind ≠ .eof) :
    Covers good lo seen (switchStmt rules) fun s hi => Row good lo [.stmt s] hi := by
  apply Covers.bind (.next more)
  intro word _ _ ⟨_, word_lies⟩
  apply Covers.bind .skipWhile
  intro _ _ le _
  apply Covers.bind (covers_branches (fun c => .expr c.1 :: c.2.map .stmt) (by decide)
    fun _ => covers_switchCase placed)
  intro cases _ _ cases_row
  apply Covers.bind (covers_elseBlock placed)
  intro elseBlock _ _ else_row
  apply Covers.bind (.expect (by decide))
  intro close hi _ ⟨_, close_lies⟩
  apply Covers.pure
  have children := (cases_row.append else_row).lower le
  exact .enclosed word_lies children close_lies rfl

theorem covers_matchArm (placed : rules.Placed good) :
    Covers good lo seen (matchArm rules) fun a hi =>
      Row good lo (.pattern a.1 :: a.2.map .stmt) hi := by
  apply Covers.bind placed.pattern
  intro p _ _ p_row
  apply Covers.bind covers_thenOrSeparator
  intro _ _ le _
  apply Covers.bind (covers_block placed)
  intro stmts hi _ row
  exact .pure ((p_row.upper le).append row)

theorem covers_matchStmt (placed : rules.Placed good) (more : ∀ t, seen t → t.kind ≠ .eof) :
    Covers good lo seen (matchStmt rules) fun s hi => Row good lo [.stmt s] hi := by
  apply Covers.bind (.next more)
  intro word _ _ ⟨_, word_lies⟩
  apply Covers.bind (placed.binary 1)
  intro subject _ _ subject_row
  apply Covers.bind .skipWhile
  intro _ _ le _
  apply Covers.bind (covers_branches (fun a => .pattern a.1 :: a.2.map .stmt) (by decide)
    fun _ => covers_matchArm placed)
  intro arms _ _ arms_row
  apply Covers.bind (covers_elseBlock placed)
  intro elseBlock _ _ else_row
  apply Covers.bind (.expect (by decide))
  intro close hi _ ⟨_, close_lies⟩
  apply Covers.pure
  have children := (subject_row.upper le).append (arms_row.append else_row)
  exact .enclosed word_lies children close_lies rfl

end Frontend.Grammar
