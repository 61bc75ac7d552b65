import Frontend.Grammar.Branching
import Frontend.Grammar.Promotion
import Frontend.Proofs.AlikeTypes

/-!
Blocks are the same wherever their words stand, and so are the values that they are promoted to.
Promotion is compared with promotion of the same block without places, which is one block for all
blocks that differ in places only.
-/
namespace Frontend

theorem Stmt.span_bare (s : Stmt) : s.bare.span = default := by
  obtain ⟨_, form⟩ := s
  cases form <;> rfl

theorem Expr.span_bare (e : Expr) : e.bare.span = default := by
  obtain ⟨_, form⟩ := e
  cases form <;> rfl

namespace Grammar

open Frontend.Grammar.Parser
open Token (Kind)

/-- A result, and what it is without places; or two like faults. -/
def Mirrors {α β : Type} (x : Except Fault α) (y : Except Fault β) (bare : α → β) : Prop :=
  match x, y with
  | .ok a, .ok b => bare a = b
  | .error f, .error g => f.Like g
  | _, _ => False

namespace Mirrors

variable {α β γ δ : Type} {x x' : Except Fault α} {y : Except Fault β} {bare : α → β}

theorem bind {k : α → Except Fault γ} {l : β → Except Fault δ} {bare' : γ → δ}
    (first : Mirrors x y bare) (then_ : ∀ a, Mirrors (k a) (l (bare a)) bare') :
    Mirrors (x >>= k) (y >>= l) bare' := by
  cases x with
  | ok a =>
    cases y with
    | ok b =>
      obtain rfl : bare a = b := first
      exact then_ a
    | error g => exact first.elim
  | error f =>
    cases y with
    | ok b => exact first.elim
    | error g => exact first

theorem map {value : α → γ} {value' : β → δ} {bare' : γ → δ} (h : Mirrors x y bare)
    (same : ∀ a, bare' (value a) = value' (bare a)) :
    Mirrors (x.map value) (y.map value') bare' := by
  cases x with
  | ok a =>
    cases y with
    | ok b =>
      obtain rfl : bare a = b := h
      exact same a
    | error g => exact h.elim
  | error f =>
    cases y with
    | ok b => exact h.elim
    | error g => exact h

/-- Two results that are the same without places. -/
theorem alike (h : Mirrors x y bare) (h' : Mirrors x' y bare) :
    Alike (MonadExcept.ofExcept x) (MonadExcept.ofExcept x') fun a b => bare a = bare b := by
  cases y with
  | ok b =>
    cases x with
    | error f => exact h.elim
    | ok a =>
      cases x' with
      | error f => exact h'.elim
      | ok a' => exact .pure (Eq.trans h (Eq.symm h'))
  | error g =>
    cases x with
    | ok a => exact h.elim
    | error f =>
      cases x' with
      | ok a => exact h'.elim
      | error f' =>
        have f_like : f.Like g := h
        have f_like' : f'.Like g := h'
        exact .fail ⟨f_like.message.trans f_like'.message.symm,
          f_like.branches.trans f_like'.branches.symm⟩

end Mirrors

/-- A block of which the last statement is a value, without places. -/
def bareParts (parts : List Stmt × Expr) : List Stmt × Expr :=
  (parts.1.map Stmt.bare, parts.2.bare)

theorem bare_blockValue (parts : List Stmt × Expr) :
    (blockValue parts).bare = blockValue (bareParts parts) := by
  obtain ⟨lead, value⟩ := parts
  cases lead with
  | nil => rfl
  | cons first rest =>
    have span : first.bare.span.through value.bare.span = default := by
      rw [first.span_bare, value.span_bare]
      rfl
    simp [blockValue, bareParts, Expr.bare, span]

theorem mirrors_branchValue {start start' : Position} {branch : Branch}
    {block block' : Except Fault (List Stmt × Expr)} (h : Mirrors block block' bareParts) :
    Mirrors (branchValue start branch block) (branchValue start' branch block') Expr.bare := by
  have values := h.map bare_blockValue
  unfold branchValue
  cases x : block.map blockValue with
  | ok e =>
    cases y : block'.map blockValue with
    | ok e' => rwa [x, y] at values
    | error g => rw [x, y] at values; exact values.elim
  | error f =>
    cases y : block'.map blockValue with
    | ok e' => rw [x, y] at values; exact values.elim
    | error g =>
      rw [x, y] at values
      have like : f.Like g := values
      exact ⟨like.message, by simp [Fault.inBranch, like.branches]⟩

mutual

/-- The value of a statement is that of the statement without places, up to places. -/
theorem mirrors_promote : ∀ s : Stmt, Mirrors (promote s) (promote s.bare) Expr.bare
  | ⟨_, .value e⟩ => rfl
  | ⟨span, .ifThen cond thenBlock elseBlock⟩ => by
    simp only [Stmt.bare, Stmt.bareAll_eq, promote]
    apply (mirrors_branchValue (mirrors_promoteLast _ _ thenBlock)).bind
    intro thenValue
    apply (mirrors_branchValue (mirrors_promoteLast _ _ elseBlock)).bind
    intro elseValue
    rfl
  | ⟨span, .switch cases elseBlock⟩ => by
    simp only [Stmt.bare, Stmt.bareAll_eq, Stmt.bareCases_eq, promote]
    apply (mirrors_promoteCases _ _ 1 cases).bind
    intro values
    apply (mirrors_branchValue (mirrors_promoteLast _ _ elseBlock)).bind
    intro elseValue
    simp [Mirrors, Expr.bare]
  | ⟨span, .matchWith subject arms elseBlock⟩ => by
    simp only [Stmt.bare, Stmt.bareAll_eq, Stmt.bareArms_eq, promote]
    apply (mirrors_promoteArms _ _ 1 arms).bind
    intro values
    apply (mirrors_branchValue (mirrors_promoteLast _ _ elseBlock)).bind
    intro elseValue
    simp [Mirrors, Expr.bare]
  | ⟨span, .declare mutable targets values⟩ => by
    simp only [Stmt.bare, promote]
    exact .of_cause (by simp [Fault.across, StmtForm.label]) rfl
  | ⟨span, .assign _ _⟩ | ⟨span, .assignIndex _ _ _⟩ | ⟨span, .ret _⟩
  | ⟨span, .forEach _ _ _⟩ | ⟨span, .whileTrue _ _⟩ => by
    simp only [Stmt.bare, promote]
    exact .of_cause rfl rfl

theorem mirrors_promoteLast (hint hint' : Position) : ∀ stmts : List Stmt,
    Mirrors (promoteLast hint stmts) (promoteLast hint' (stmts.map Stmt.bare)) bareParts
  | [] => by
    simp only [List.map_nil, promoteLast]
    exact .of_cause rfl rfl
  | [s] => by
    simp only [List.map_cons, List.map_nil, promoteLast]
    apply (mirrors_promote s).bind
    intro value
    rfl
  | s :: next :: rest => by
    simp only [List.map_cons, promoteLast]
    have more := mirrors_promoteLast hint hint' (next :: rest)
    rw [List.map_cons] at more
    apply more.bind
    intro parts
    rfl

theorem mirrors_promoteCases (start start' : Position) (n : Nat) :
    ∀ cases : List (Expr × List Stmt), Mirrors (promoteCases start n cases)
      (promoteCases start' n (cases.map (Prod.map Expr.bare (List.map Stmt.bare))))
      (List.map (Prod.map Expr.bare Expr.bare))
  | [] => by
    simp only [List.map_nil, promoteCases]
    rfl
  | (cond, block) :: rest => by
    simp only [List.map_cons, Prod.map_apply, promoteCases]
    apply (mirrors_branchValue (mirrors_promoteLast _ _ block)).bind
    intro value
    apply (mirrors_promoteCases _ _ (n + 1) rest).bind
    intro values
    rfl

theorem mirrors_promoteArms (start start' : Position) (n : Nat) :
    ∀ arms : List (Pattern × List Stmt), Mirrors (promoteArms start n arms)
      (promoteArms start' n (arms.map (Prod.map Pattern.bare (List.map Stmt.bare))))
      (List.map (Prod.map Pattern.bare Expr.bare))
  | [] => by
    simp only [List.map_nil, promoteArms]
    rfl
  | (pattern, block) :: rest => by
    simp only [List.map_cons, Prod.map_apply, promoteArms]
    apply (mirrors_branchValue (mirrors_promoteLast _ _ block)).bind
    intro value
    apply (mirrors_promoteArms _ _ (n + 1) rest).bind
    intro values
    rfl

end

/-- Statements that differ in places only are promoted alike. -/
theorem alike_promote {s s' : Stmt} (same : s.bare = s'.bare) :
    Alike (MonadExcept.ofExcept (promote s)) (MonadExcept.ofExcept (promote s')) fun e e' =>
      e.bare = e'.bare :=
  (mirrors_promote s).alike (same ▸ mirrors_promote s')

theorem alike_promoteBlock {hint hint' : Position} {stmts stmts' : List Stmt}
    (same : stmts.map Stmt.bare = stmts'.map Stmt.bare) :
    Alike (MonadExcept.ofExcept (promoteBlock hint stmts))
      (MonadExcept.ofExcept (promoteBlock hint' stmts')) fun e e' => e.bare = e'.bare := by
  have first := (mirrors_promoteLast hint .start stmts).map bare_blockValue
  have second := (mirrors_promoteLast hint' .start stmts').map bare_blockValue
  exact first.alike (same ▸ second)

variable {rules : Rules}

theorem alike_block (free : rules.Free) {closers : List Kind} :
    LayoutFree (block rules closers) (List.map Stmt.bare) := by
  apply Alike.iterate fun stmts stmts' => stmts.map Stmt.bare = stmts'.map Stmt.bare
  · rfl
  intro stmts stmts' known
  apply Alike.skipWhile.bind
  intro _ _ _
  apply Alike.kind_bind
  intro k
  apply Alike.ite
  · intro _
    apply Alike.pure
    simp [Turn.Alike, known]
  intro _
  apply Alike.ite
  · intro _
    exact .unexpected
  intro _
  apply free.statement.bind
  intro s s' same
  apply Alike.kind_bind
  intro k
  apply Alike.ite
  · intro _
    apply Alike.pure
    simp [Turn.Alike, same, known]
  · intro _
    exact .unexpected

theorem alike_elseBlock (free : rules.Free) :
    LayoutFree (elseBlock rules) (List.map Stmt.bare) :=
  .ate_ite (alike_block free) (.pure rfl)

theorem alike_thenOrSeparator {what : String} :
    LayoutFree (thenOrSeparator what) id := by
  apply Alike.ate_ite
  · exact .pure rfl
  apply Alike.kind_bind
  intro k
  apply Alike.ite
  · intro _
    exact .pure rfl
  · intro _
    exact .unexpected

theorem alike_ifStmt (free : rules.Free) : LayoutFree (ifStmt rules) Stmt.bare := by
  apply Alike.next.bind
  intro _ _ _
  apply (free.binary 1).bind
  intro cond cond' cond_eq
  apply alike_thenOrSeparator.bind
  intro _ _ _
  apply (alike_block free).bind
  intro thenBlock thenBlock' then_eq
  apply (alike_elseBlock free).bind
  intro elseBlock elseBlock' else_eq
  apply Alike.expect.bind
  intro _ _ _
  apply Alike.pure
  simp [Stmt.bare, cond_eq, then_eq, else_eq]

theorem alike_branches {α γ : Type} {word : Kind} {what : String} {branch : Parser α}
    {bare : α → γ} (each : LayoutFree branch bare) :
    LayoutFree (branches word what branch) (List.map bare) := by
  have found : LayoutFree (iterate (fun found => do
      if ← ate word then
        let b ← branch
        pure (.again (b :: found))
      else pure (.done found.reverse)) []) (List.map bare) := by
    apply Alike.iterate fun found found' => found.map bare = found'.map bare
    · rfl
    intro found found' known
    apply Alike.ate_ite
    · apply each.bind
      intro b b' same
      apply Alike.pure
      simp [Turn.Alike, same, known]
    · apply Alike.pure
      simp [Turn.Alike, known]
  apply found.bind
  intro all all' same
  have size : all.length = all'.length := by simpa using congrArg List.length same
  have empty : all.isEmpty = all'.isEmpty := by
    cases all <;> cases all' <;> simp_all
  rw [empty]
  apply Alike.ite
  · intro _
    exact .unexpected
  · intro _
    exact .pure same

theorem alike_switchCase (free : rules.Free) :
    LayoutFree (switchCase rules) (Prod.map Expr.bare (List.map Stmt.bare)) := by
  apply (free.binary 1).bind
  intro cond cond' cond_eq
  apply alike_thenOrSeparator.bind
  intro _ _ _
  apply (alike_block free).bind
  intro stmts stmts' stmts_eq
  apply Alike.pure
  simp [cond_eq, stmts_eq]

theorem alike_switchStmt (free : rules.Free) : LayoutFree (switchStmt rules) Stmt.bare := by
  apply Alike.next.bind
  intro _ _ _
  apply Alike.skipWhile.bind
  intro _ _ _
  apply (alike_branches (alike_switchCase free)).bind
  intro cases cases' cases_eq
  apply (alike_elseBlock free).bind
  intro elseBlock elseBlock' else_eq
  apply Alike.expect.bind
  intro _ _ _
  apply Alike.pure
  simp [Stmt.bare, cases_eq, else_eq]

theorem alike_matchArm (free : rules.Free) :
    LayoutFree (matchArm rules) (Prod.map Pattern.bare (List.map Stmt.bare)) := by
  apply free.pattern.bind
  intro p p' p_eq
  apply alike_thenOrSeparator.bind
  intro _ _ _
  apply (alike_block free).bind
  intro stmts stmts' stmts_eq
  apply Alike.pure
  simp [p_eq, stmts_eq]

theorem alike_matchStmt (free : rules.Free) : LayoutFree (matchStmt rules) Stmt.bare := by
  apply Alike.next.bind
  intro _ _ _
  apply (free.binary 1).bind
  intro subject subject' subject_eq
  apply Alike.skipWhile.bind
  intro _ _ _
  apply (alike_branches (alike_matchArm free)).bind
  intro arms arms' arms_eq
  apply (alike_elseBlock free).bind
  intro elseBlock elseBlock' else_eq
  apply Alike.expect.bind
  intro _ _ _
  apply Alike.pure
  simp [Stmt.bare, subject_eq, arms_eq, else_eq]

end Grammar

end Frontend
