import Frontend.Grammar.Branching
import Frontend.Grammar.Promotion
import Frontend.Proofs.AdvancingTypes

/-!
Blocks and the constructs that branch to them never stall. A block may be empty, so it need not take
a token; the constructs begin with a word of their own. A block that has no value is a fault of the
source, never a stall.
-/
namespace Frontend.Grammar

open Frontend.Grammar.Parser
open Token (Kind)

variable {n : Nat} {ahead : List Token → Prop} {rules : Rules}

theorem advances_block (advancing : rules.Advancing n) {closers : List Kind} :
    Advances n ahead never (block rules closers) := by
  apply Advances.iterate
  intro stmts
  apply Advances.skipSeparators.bind
  intro _
  apply Advances.kind_bind
  intro k
  apply Advances.ite
  · exact fun _ => .pure id
  intro _
  apply Advances.ite
  · exact fun _ => .unexpected
  intro _
  apply advancing.statement.start
  intro s
  apply Advances.kind_bind
  intro k
  apply Advances.ite
  · exact fun _ => .pure id
  · exact fun _ => .unexpected

theorem advances_elseBlock (advancing : rules.Advancing n) :
    Advances n ahead never (elseBlock rules) := by
  apply Advances.ate_ite rfl
  · exact advances_block advancing
  · exact .pure id

theorem advances_thenOrSeparator {what : String} :
    Advances n ahead never (thenOrSeparator what) := by
  apply Advances.ate_ite rfl
  · exact .pure id
  apply Advances.kind_bind
  intro k
  apply Advances.ite
  · exact fun _ => .pure id
  · exact fun _ => .unexpected

theorem advances_ifStmt (advancing : rules.Advancing n)
    (some : ∀ tokens, ahead tokens → tokens ≠ []) :
    Advances (n + 1) ahead always (ifStmt rules) := by
  apply Advances.first (.next some)
  intro word
  apply advancing.expr.bind
  intro cond
  apply advances_thenOrSeparator.bind
  intro _
  apply (advances_block advancing).bind
  intro thenBlock
  apply (advances_elseBlock advancing).bind
  intro elseBlock
  apply Advances.start (.expect rfl)
  exact fun _ => .pure id

theorem advances_branches {α : Type} {word : Kind} {what : String} {branch : Parser α}
    (going : word.isTerminal = false) (each : Advances n whatever never branch) :
    Advances n ahead never (branches word what branch) := by
  have found : Advances n ahead never (iterate (fun found => do
      if ← ate word then
        let b ← branch
        pure (.again (b :: found))
      else pure (.done found.reverse)) []) := by
    apply Advances.iterate
    intro found
    apply Advances.ate_ite going
    · exact each.bind fun _ => .pure id
    · exact .pure id
  apply found.bind
  intro all
  apply Advances.ite
  · exact fun _ => .unexpected
  · exact fun _ => .pure id

theorem advances_switchCase (advancing : rules.Advancing n) :
    Advances n ahead never (switchCase rules) := by
  apply advancing.expr.bind
  intro cond
  apply advances_thenOrSeparator.bind
  intro _
  apply (advances_block advancing).bind
  exact fun _ => .pure id

theorem advances_switchStmt (advancing : rules.Advancing n)
    (some : ∀ tokens, ahead tokens → tokens ≠ []) :
    Advances (n + 1) ahead always (switchStmt rules) := by
  apply Advances.first (.next some)
  intro word
  apply Advances.skipSeparators.bind
  intro _
  apply (advances_branches rfl (advances_switchCase advancing)).bind
  intro cases
  apply (advances_elseBlock advancing).bind
  intro elseBlock
  apply Advances.start (.expect rfl)
  exact fun _ => .pure id

theorem advances_matchArm (advancing : rules.Advancing n) :
    Advances n ahead never (matchArm rules) := by
  apply advancing.pattern.bind
  intro p
  apply advances_thenOrSeparator.bind
  intro _
  apply (advances_block advancing).bind
  exact fun _ => .pure id

theorem advances_matchStmt (advancing : rules.Advancing n)
    (some : ∀ tokens, ahead tokens → tokens ≠ []) :
    Advances (n + 1) ahead always (matchStmt rules) := by
  apply Advances.first (.next some)
  intro word
  apply advancing.expr.bind
  intro subject
  apply Advances.skipSeparators.bind
  intro _
  apply (advances_branches rfl (advances_matchArm advancing)).bind
  intro arms
  apply (advances_elseBlock advancing).bind
  intro elseBlock
  apply Advances.start (.expect rfl)
  exact fun _ => .pure id

/-- A computation whose faults are none of the rules' own. -/
def Spoken {α : Type} (x : Except Fault α) : Prop := ∀ f, x = .error f → f.cause ≠ .stalled

namespace Spoken

variable {α β : Type} {x : Except Fault α}

theorem ok {a : α} : Spoken (.ok a : Except Fault α) := nofun

theorem error {f : Fault} (sound : f.cause ≠ .stalled) : Spoken (.error f : Except Fault α) := by
  rintro _ ⟨⟩
  exact sound

theorem bind {k : α → Except Fault β} (h : Spoken x) (then_ : ∀ a, Spoken (k a)) :
    Spoken (x >>= k) := by
  cases x with
  | error f => exact error (h f rfl)
  | ok a => exact then_ a

/-- A fault keeps its cause while branches are added to it. -/
theorem branchValue {start : Position} {branch : Branch}
    {found : Except Fault (List Stmt × Expr)} (h : Spoken found) :
    Spoken (branchValue start branch found) := by
  cases found with
  | error f => exact error (h f rfl)
  | ok value => exact ok

end Spoken

mutual

theorem spoken_promote : ∀ s : Stmt, Spoken (promote s)
  | ⟨_, .value e⟩ => by
    rw [promote]
    exact .ok
  | ⟨span, .ifThen cond thenBlock elseBlock⟩ => by
    rw [promote]
    apply (spoken_promoteLast _ thenBlock).branchValue.bind
    intro thenValue
    apply (spoken_promoteLast _ elseBlock).branchValue.bind
    exact fun _ => .ok
  | ⟨span, .switch cases elseBlock⟩ => by
    rw [promote]
    apply (spoken_promoteCases _ 1 cases).bind
    intro cases
    apply (spoken_promoteLast _ elseBlock).branchValue.bind
    exact fun _ => .ok
  | ⟨span, .matchWith subject arms elseBlock⟩ => by
    rw [promote]
    apply (spoken_promoteArms _ 1 arms).bind
    intro arms
    apply (spoken_promoteLast _ elseBlock).branchValue.bind
    exact fun _ => .ok
  | ⟨span, .declare ..⟩ | ⟨span, .assign ..⟩ | ⟨span, .assignIndex ..⟩ | ⟨span, .ret ..⟩
  | ⟨span, .forEach ..⟩ | ⟨span, .whileTrue ..⟩ => by
    simp only [promote]
    exact .error nofun

theorem spoken_promoteLast (hint : Position) : ∀ stmts : List Stmt, Spoken (promoteLast hint stmts)
  | [] => by
    rw [promoteLast]
    exact .error nofun
  | [s] => by
    rw [promoteLast]
    exact (spoken_promote s).bind fun _ => .ok
  | s :: next :: rest => by
    rw [promoteLast]
    exact (spoken_promoteLast hint (next :: rest)).bind fun _ => .ok

theorem spoken_promoteCases (start : Position) (n : Nat) :
    ∀ cases : List (Expr × List Stmt), Spoken (promoteCases start n cases)
  | [] => by
    rw [promoteCases]
    exact .ok
  | (cond, block) :: rest => by
    rw [promoteCases]
    apply (spoken_promoteLast _ block).branchValue.bind
    intro value
    exact (spoken_promoteCases start (n + 1) rest).bind fun _ => .ok

theorem spoken_promoteArms (start : Position) (n : Nat) :
    ∀ arms : List (Pattern × List Stmt), Spoken (promoteArms start n arms)
  | [] => by
    rw [promoteArms]
    exact .ok
  | (pattern, block) :: rest => by
    rw [promoteArms]
    apply (spoken_promoteLast _ block).branchValue.bind
    intro value
    exact (spoken_promoteArms start (n + 1) rest).bind fun _ => .ok

end

theorem spoken_promoteBlock (hint : Position) (stmts : List Stmt) :
    Spoken (promoteBlock hint stmts) := by
  have parts := spoken_promoteLast hint stmts
  unfold promoteBlock
  cases found : promoteLast hint stmts with
  | error f => exact .error (parts f found)
  | ok value => exact .ok

end Frontend.Grammar
