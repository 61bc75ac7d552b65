import Frontend.Grammar.Promotion

/-!
Tail blocks. A block is used as a value by its last statement; if that is a construct with branches,
the blocks of these are used as values in turn. So there is a list of blocks that all have to end
with a value, and a fault is about the first one of them that does not. It tells where that block
is: a note on each construct around it, from the inside out.
-/
namespace Frontend

open Grammar

/-- The branches of a construct with their blocks, in order. -/
def StmtForm.branches : StmtForm → List (Branch × List Stmt)
  | .ifThen _ thenBlock elseBlock => [(.thenOfIf, thenBlock), (.elseOfIf, elseBlock)]
  | .switch cases elseBlock =>
    (cases.zipIdx 1).map (fun c => (.caseOfSwitch c.2, c.1.2)) ++ [(.elseOfSwitch, elseBlock)]
  | .matchWith _ arms elseBlock =>
    (arms.zipIdx 1).map (fun a => (.withOfMatch a.2, a.1.2)) ++ [(.elseOfMatch, elseBlock)]
  | _ => []

/-- A statement that may stand for a value: an expression, or a construct with branches. -/
def StmtForm.isPromotable : StmtForm → Bool
  | .value _ | .ifThen .. | .switch .. | .matchWith .. => true
  | _ => false

/-- The block of a case or an arm is smaller than all of them. -/
theorem sizeOf_block_lt {α : Type} [SizeOf α] {items : List (α × List Stmt)}
    {item : (α × List Stmt) × Nat} {n : Nat} (mem : item ∈ items.zipIdx n) :
    sizeOf item.1.2 < sizeOf items := by
  have one := List.sizeOf_lt_of_mem (List.fst_mem_of_mem_zipIdx mem)
  have pair : sizeOf item.1 = 1 + sizeOf item.1.1 + sizeOf item.1.2 := rfl
  omega

/-- The blocks of branches are smaller than the construct. -/
theorem StmtForm.sizeOf_branch_lt {form : StmtForm} {b : Branch × List Stmt}
    (mem : b ∈ form.branches) : sizeOf b.2 < sizeOf form := by
  cases form with
  | ifThen cond thenBlock elseBlock =>
    obtain rfl | rfl : b = (.thenOfIf, thenBlock) ∨ b = (.elseOfIf, elseBlock) := by
      simpa [branches] using mem
    all_goals
      simp only [ifThen.sizeOf_spec]
      omega
  | switch cases elseBlock =>
    obtain mem | mem := List.mem_append.mp mem
    · obtain ⟨item, numbered, rfl⟩ := List.mem_map.mp mem
      have smaller := sizeOf_block_lt numbered
      simp only [switch.sizeOf_spec]
      omega
    · rw [List.mem_singleton.mp mem]
      simp only [switch.sizeOf_spec]
      omega
  | matchWith subject arms elseBlock =>
    obtain mem | mem := List.mem_append.mp mem
    · obtain ⟨item, numbered, rfl⟩ := List.mem_map.mp mem
      have smaller := sizeOf_block_lt numbered
      simp only [matchWith.sizeOf_spec]
      omega
    · rw [List.mem_singleton.mp mem]
      simp only [matchWith.sizeOf_spec]
      omega
  | _ => exact absurd mem List.not_mem_nil

namespace Grammar

/-- A block that has to end with a value. `branches` are the branches that it is in, each with the
start of its construct, innermost first. `hint` is where the block is if it is empty. -/
structure TailBlock where
  hint : Position
  branches : List (Position × Branch)
  stmts : List Stmt

/-- The tail blocks of a block: the block itself, and those of the branches of its last
statement. -/
def tailBlocks (hint : Position) (around : List (Position × Branch)) (stmts : List Stmt) :
    List TailBlock :=
  ⟨hint, around, stmts⟩ :: match _ : stmts.getLast? with
    | none => []
    | some s => s.form.branches.attach.flatMap fun b =>
      tailBlocks s.span.start ((s.span.start, b.1.1) :: around) b.1.2
termination_by sizeOf stmts
decreasing_by
  have inner := StmtForm.sizeOf_branch_lt b.2
  have outer := List.sizeOf_lt_of_mem (List.mem_of_getLast? ‹_›)
  have form : sizeOf s.form < sizeOf s := by
    cases s
    simp only [Stmt.mk.sizeOf_spec]
    omega
  omega

variable {hint : Position} {around : List (Position × Branch)} {stmts : List Stmt} {s : Stmt}

/-- The tail blocks of the branches of a statement. -/
def branchTails (around : List (Position × Branch)) (start : Position)
    (branches : List (Branch × List Stmt)) : List TailBlock :=
  branches.flatMap fun b => tailBlocks start ((start, b.1) :: around) b.2

theorem tailBlocks_nil : tailBlocks hint around [] = [⟨hint, around, []⟩] := by
  rw [tailBlocks]
  rfl

theorem tailBlocks_eq (last : stmts.getLast? = some s) : tailBlocks hint around stmts =
    ⟨hint, around, stmts⟩ :: branchTails around s.span.start s.form.branches := by
  rw [tailBlocks]
  split
  next none =>
    rw [last] at none
    cases none
  next s' last' =>
    rw [last] at last'
    cases last'
    have all := List.flatMap_map Subtype.val
      (fun b => tailBlocks s.span.start ((s.span.start, b.1) :: around) b.2) s.form.branches.attach
    rw [List.attach_map_subtype_val] at all
    rw [branchTails, all]

namespace TailBlock

/-- A block that ends with a statement that may stand for a value. -/
def HasValue (t : TailBlock) : Prop := ∃ s, t.stmts.getLast? = some s ∧ s.form.isPromotable = true

/-- What is wrong with a block that has no value: it is empty, or ends with another statement. -/
def fault? (t : TailBlock) : Option Fault :=
  match t.stmts.getLast? with
  | none => some ⟨.emptyBlock, t.hint, none, t.branches⟩
  | some s =>
    if s.form.isPromotable then none
    else some ⟨.noValue s.form.label, s.span.start, some s.span.stop, t.branches⟩

/-- The notes on the branches that a block is in, innermost first. -/
def notes (source : Source) (t : TailBlock) : List String :=
  t.branches.map fun b => s!"{b.2.message} (at {source.cite b.1})"

/-- The error about a block that has no value. -/
def refusal (source : Source) (t : TailBlock) : Diagnostic :=
  match t.stmts.getLast? with
  | none => ⟨source, t.hint, none, Cause.emptyBlock.message, t.notes source⟩
  | some s =>
    ⟨source, s.span.start, some s.span.stop, (Cause.noValue s.form.label).message, t.notes source⟩

variable {t : TailBlock} {f : Fault} {source : Source}

/-- The error about a fault has a note on each branch that it arose in. -/
theorem diagnostic_eq : f.diagnostic source = ⟨source, f.start, f.stop, f.message,
    f.branches.map fun b => s!"{b.2.message} (at {source.cite b.1})"⟩ := by
  rw [Fault.diagnostic, Diagnostic.foldl_noteAt_eq, List.nil_append]

/-- What is wrong with a block makes up the error about it. -/
theorem refusal_eq (wrong : t.fault? = some f) : f.diagnostic source = t.refusal source := by
  unfold fault? at wrong
  unfold refusal
  split at wrong
  · cases wrong
    rw [diagnostic_eq]
    rfl
  · split at wrong
    · cases wrong
    · cases wrong
      rw [diagnostic_eq]
      rfl

theorem hasValue_iff : t.HasValue ↔ t.fault? = none := by
  unfold HasValue fault?
  cases t.stmts.getLast? <;> simp

end TailBlock

/-- A fault that arose in some more branches, further out. -/
def Fault.within (f : Fault) (around : List (Position × Branch)) : Fault :=
  { f with branches := f.branches ++ around }

/-- What becomes of a part of a block, judged by its tail blocks: it is a value if all of them have
one, and otherwise fails like the first that has none. -/
def Judged {α : Type} (around : List (Position × Branch)) (tails : List TailBlock) :
    Except Fault α → Prop
  | .ok _ => tails.findSome? TailBlock.fault? = none
  | .error f => tails.findSome? TailBlock.fault? = some (f.within around)

namespace Judged

variable {α β : Type} {tails more : List TailBlock} {x : Except Fault α} {k : α → Except Fault β}
  {start : Position} {branch : Branch} {block : Except Fault (List Stmt × Expr)}

theorem bind (first : Judged around tails x) (then_ : ∀ a, Judged around more (k a)) :
    Judged around (tails ++ more) (x >>= k) := by
  cases x with
  | error f =>
    have found : tails.findSome? TailBlock.fault? = some (f.within around) := first
    show (tails ++ more).findSome? TailBlock.fault? = some (f.within around)
    rw [List.findSome?_append, found]
    rfl
  | ok a =>
    have none_ : tails.findSome? TailBlock.fault? = none := first
    have rest := then_ a
    show Judged around (tails ++ more) (k a)
    unfold Judged at rest ⊢
    rw [List.findSome?_append, none_]
    exact rest

/-- What follows has no tail blocks of its own. -/
theorem then_ok {g : α → β} (first : Judged around tails x) :
    Judged around tails (x >>= fun a => .ok (g a)) := by
  have ends : ∀ a, Judged around [] (Except.ok (g a) : Except Fault β) := fun _ => rfl
  rw [← List.append_nil tails]
  exact first.bind ends

theorem congr (judged : Judged around tails x)
    (same : more.findSome? TailBlock.fault? = tails.findSome? TailBlock.fault?) :
    Judged around more x := by
  unfold Judged at judged ⊢
  rwa [same]

/-- A fault in a branch has one more note, on that branch. -/
theorem branchValue (inside : Judged ((start, branch) :: around) tails block) :
    Judged around tails (branchValue start branch block) := by
  cases block with
  | error f =>
    have found : tails.findSome? TailBlock.fault? = some (f.within ((start, branch) :: around)) :=
      inside
    have noted : (f.inBranch start branch).within around =
        f.within ((start, branch) :: around) := by
      simp [Fault.inBranch, Fault.within]
    rw [← noted] at found
    exact found
  | ok parts => exact inside

end Judged

theorem branchTails_cons {start : Position} {branch : Branch} {block : List Stmt}
    {rest : List (Branch × List Stmt)} : branchTails around start ((branch, block) :: rest) =
      tailBlocks start ((start, branch) :: around) block ++ branchTails around start rest :=
  List.flatMap_cons

theorem branchTails_single {start : Position} {branch : Branch} {block : List Stmt} :
    branchTails around start [(branch, block)] =
      tailBlocks start ((start, branch) :: around) block := by
  rw [branchTails_cons, branchTails, List.flatMap_nil, List.append_nil]

theorem branchTails_append {start : Position} {branches rest : List (Branch × List Stmt)} :
    branchTails around start (branches ++ rest) =
      branchTails around start branches ++ branchTails around start rest :=
  List.flatMap_append

/-- A block is at fault like its last statement, or like the branches of that statement. -/
theorem findSome?_tailBlocks (last : stmts.getLast? = some s) :
    (tailBlocks hint around stmts).findSome? TailBlock.fault? =
      if s.form.isPromotable then
        (branchTails around s.span.start s.form.branches).findSome? TailBlock.fault?
      else some ⟨.noValue s.form.label, s.span.start, some s.span.stop, around⟩ := by
  have own : TailBlock.fault? ⟨hint, around, stmts⟩ = if s.form.isPromotable then none
      else some ⟨.noValue s.form.label, s.span.start, some s.span.stop, around⟩ := by
    simp only [TailBlock.fault?, last]
  rw [tailBlocks_eq last, List.findSome?_cons, own]
  cases s.form.isPromotable <;> rfl

mutual

/-- A statement with a value is judged by the tail blocks of its branches; another one is at
fault. -/
theorem judged_promote (around : List (Position × Branch)) : ∀ s : Stmt,
    if s.form.isPromotable then
      Judged around (branchTails around s.span.start s.form.branches) (promote s)
    else promote s = .error (.across s.span (.noValue s.form.label))
  | ⟨_, .value e⟩ => by
    rw [promote]
    rfl
  | ⟨span, .ifThen cond thenBlock elseBlock⟩ => by
    rw [promote]
    have then_judged := judged_promoteLast span.start ((span.start, .thenOfIf) :: around) thenBlock
    have else_judged := judged_promoteLast span.start ((span.start, .elseOfIf) :: around) elseBlock
    show Judged around
      (branchTails around span.start [(.thenOfIf, thenBlock), (.elseOfIf, elseBlock)]) _
    rw [branchTails_cons, branchTails_single]
    exact then_judged.branchValue.bind fun _ => else_judged.branchValue.then_ok
  | ⟨span, .switch cases elseBlock⟩ => by
    rw [promote]
    have cases_judged := judged_promoteCases span.start around 1 cases
    have else_judged :=
      judged_promoteLast span.start ((span.start, .elseOfSwitch) :: around) elseBlock
    show Judged around (branchTails around span.start (_ ++ [(.elseOfSwitch, elseBlock)])) _
    rw [branchTails_append, branchTails_single]
    exact cases_judged.bind fun _ => else_judged.branchValue.then_ok
  | ⟨span, .matchWith subject arms elseBlock⟩ => by
    rw [promote]
    have arms_judged := judged_promoteArms span.start around 1 arms
    have else_judged :=
      judged_promoteLast span.start ((span.start, .elseOfMatch) :: around) elseBlock
    show Judged around (branchTails around span.start (_ ++ [(.elseOfMatch, elseBlock)])) _
    rw [branchTails_append, branchTails_single]
    exact arms_judged.bind fun _ => else_judged.branchValue.then_ok
  | ⟨span, .declare ..⟩ | ⟨span, .assign ..⟩ | ⟨span, .assignIndex ..⟩ | ⟨span, .ret ..⟩
  | ⟨span, .forEach ..⟩ | ⟨span, .whileTrue ..⟩ => by
    rw [promote]
    · rfl
    all_goals nofun

/-- A block is judged by its tail blocks. -/
theorem judged_promoteLast (hint : Position) (around : List (Position × Branch)) :
    ∀ stmts : List Stmt, Judged around (tailBlocks hint around stmts) (promoteLast hint stmts)
  | [] => by
    rw [promoteLast, tailBlocks_nil]
    rfl
  | [s] => by
    have judged := judged_promote around s
    have found := @findSome?_tailBlocks hint around [s] s rfl
    rw [promoteLast]
    split at judged
    next promotable =>
      rw [if_pos promotable] at found
      exact judged.then_ok.congr found
    next other =>
      rw [if_neg other] at found
      rw [judged]
      exact found
  | s :: next :: rest => by
    have judged := judged_promoteLast hint around (next :: rest)
    obtain ⟨last, found⟩ : ∃ last, (next :: rest).getLast? = some last :=
      ⟨_, List.getLast?_eq_some_getLast (List.cons_ne_nil next rest)⟩
    have same : (tailBlocks hint around (s :: next :: rest)).findSome? TailBlock.fault? =
        (tailBlocks hint around (next :: rest)).findSome? TailBlock.fault? := by
      rw [findSome?_tailBlocks found, findSome?_tailBlocks (List.getLast?_cons_cons.trans found)]
    rw [promoteLast]
    exact judged.then_ok.congr same

theorem judged_promoteCases (start : Position) (around : List (Position × Branch)) (n : Nat) :
    ∀ cases : List (Expr × List Stmt), Judged around
      (branchTails around start ((cases.zipIdx n).map fun c => (.caseOfSwitch c.2, c.1.2)))
      (promoteCases start n cases)
  | [] => rfl
  | (cond, block) :: rest => by
    rw [promoteCases, List.zipIdx_cons, List.map_cons, branchTails_cons]
    have block_judged := judged_promoteLast start ((start, .caseOfSwitch n) :: around) block
    have rest_judged := judged_promoteCases start around (n + 1) rest
    exact block_judged.branchValue.bind fun _ => rest_judged.then_ok

theorem judged_promoteArms (start : Position) (around : List (Position × Branch)) (n : Nat) :
    ∀ arms : List (Pattern × List Stmt), Judged around
      (branchTails around start ((arms.zipIdx n).map fun a => (.withOfMatch a.2, a.1.2)))
      (promoteArms start n arms)
  | [] => rfl
  | (pattern, block) :: rest => by
    rw [promoteArms, List.zipIdx_cons, List.map_cons, branchTails_cons]
    have block_judged := judged_promoteLast start ((start, .withOfMatch n) :: around) block
    have rest_judged := judged_promoteArms start around (n + 1) rest
    exact block_judged.branchValue.bind fun _ => rest_judged.then_ok

end

/-- A value is found in a block if and only if all its tail blocks have one. Otherwise the error is
about the first tail block that has none. -/
theorem value_or_first_refusal (source : Source) (hint : Position) (stmts : List Stmt) :
    ((∃ e, promoteBlock hint stmts = .ok e) ↔ ∀ t ∈ tailBlocks hint [] stmts, t.HasValue) ∧
      ∀ f, promoteBlock hint stmts = .error f → ∃ before t after,
        tailBlocks hint [] stmts = before ++ t :: after ∧ (∀ u ∈ before, u.HasValue) ∧
          ¬ t.HasValue ∧ f.diagnostic source = t.refusal source := by
  have judged := judged_promoteLast hint [] stmts
  unfold promoteBlock
  cases run : promoteLast hint stmts with
  | ok parts =>
    rw [run] at judged
    have all := List.findSome?_eq_none_iff.mp judged
    have values : ∀ t ∈ tailBlocks hint [] stmts, t.HasValue := fun t mem =>
      TailBlock.hasValue_iff.mpr (all t mem)
    exact ⟨⟨fun _ => values, fun _ => ⟨_, rfl⟩⟩, nofun⟩
  | error f =>
    rw [run] at judged
    obtain ⟨before, t, after, split, wrong, passed⟩ := List.findSome?_eq_some_iff.mp judged
    have inside : f.within [] = f := by simp [Fault.within]
    rw [inside] at wrong
    have refused : ¬ t.HasValue := by simp [TailBlock.hasValue_iff, wrong]
    have first : ∃ before t after, tailBlocks hint [] stmts = before ++ t :: after ∧
        (∀ u ∈ before, u.HasValue) ∧ ¬ t.HasValue ∧ f.diagnostic source = t.refusal source :=
      ⟨before, t, after, split, fun u mem => TailBlock.hasValue_iff.mpr (passed u mem), refused,
        TailBlock.refusal_eq wrong⟩
    refine ⟨⟨nofun, fun values => absurd (values t ?_) refused⟩, ?_⟩
    · rw [split]
      exact List.mem_append_right _ List.mem_cons_self
    · rintro _ ⟨⟩
      exact first

/-- A block that ends with an `if`, whose `else` ends with a `switch`, whose second case is
empty. -/
def hollow : List Stmt :=
  let one : Expr := ⟨⟨⟨3, 1, 4⟩, ⟨4, 1, 5⟩⟩, .int 1⟩
  let cases : List (Expr × List Stmt) := [(one, [.ofExpr one]), (one, [])]
  let switch : Stmt := ⟨⟨⟨18, 2, 3⟩, ⟨60, 5, 6⟩⟩, .switch cases [.ofExpr one]⟩
  [⟨⟨⟨0, 1, 1⟩, ⟨64, 6, 4⟩⟩, .ifThen one [.ofExpr one] [.ofExpr one, switch]⟩]

theorem value_or_first_refusal_hollow :
    let source : Source := .inMemory "m" []
    ∃ f, promoteBlock .start hollow = .error f ∧
      (∃ before t after, tailBlocks .start [] hollow = before ++ t :: after ∧
        (∀ u ∈ before, u.HasValue) ∧ ¬ t.HasValue ∧ f.diagnostic source = t.refusal source) ∧
      f.diagnostic source = ⟨source, ⟨18, 2, 3⟩, none, Cause.emptyBlock.message,
        ["2nd 'case' block of 'switch' expression is incorrect (at m:2:3)",
          "'else' block of 'if' expression is incorrect (at m:1:1)"]⟩ :=
  ⟨_, rfl, (value_or_first_refusal _ _ _).2 _ rfl, rfl⟩

end Grammar

end Frontend
