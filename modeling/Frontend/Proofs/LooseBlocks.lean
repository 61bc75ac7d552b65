import Frontend.Grammar.Branching
import Frontend.Proofs.AlikeBlocks
import Frontend.Proofs.LoosePatterns

/-!
Blocks, and the constructs that branch to them, are the same on looser streams, and so are the
values that they are promoted to. Separators between statements are all skipped, so it does not
matter how many there are.
-/
namespace Frontend.Grammar

open Token (Kind)
open Frontend.Grammar.Parser Context

variable {gap : ℤ} {rules rules' : Rules} {stack : List Frame} {ph : Phase} {v : View}

/-- A statement may begin here, or the line of one end. -/
structure Lines (ph : Phase) (v : View) : Prop where
  quiet : ph.isQuiet = true
  apart : ph.isEnd = true → binaryOp? (v 0).1 = none

theorem Phase.isOpen_of_isQuiet (quiet : ph.isQuiet = true) : ph.isOpen = false := by
  cases ph <;> first | rfl | cases quiet

theorem Phase.ne_opened_of_isQuiet (quiet : ph.isQuiet = true) : ph ≠ .opened := by
  rintro rfl
  cases quiet

theorem binaryOp?_of_isSeparator {k : Kind} (separator : k.isSeparator = true) :
    binaryOp? k = none := by
  cases k <;> first | rfl | cases separator

theorem plain_block : Plain (.block :: stack) := .cons nofun

theorem Lines.fresh : Lines .fresh v := ⟨rfl, nofun⟩

theorem Lines.starts (lines : Lines ph v) : Starts (.block :: stack) ph v where
  plain := plain_block
  clear := .of_isQuiet lines.quiet
  other := Phase.ne_case_of_isQuiet lines.quiet
  apart ended := ⟨rfl, lines.apart ended⟩

/-- In a block streams differ in separators only. -/
theorem Apart.isSeparator_iff {k l : Kind} (apart : Apart ⟨.block :: stack, ph⟩ k l)
    (quiet : ph.isQuiet = true) : k.isSeparator = true ↔ l.isSeparator = true := by
  obtain rfl | ⟨rfl, rfl, -⟩ := apart.in_block (Phase.ne_opened_of_isQuiet quiet)
  · exact Iff.rfl
  · exact ⟨fun _ => rfl, fun _ => rfl⟩

namespace Matches

variable {α γ δ : Type} {final : γ → δ → Context → View → Prop}

/-- Both runs skip all separators in a block. -/
theorem skipSeparators_bind {k : Unit → Parser γ} {l : Unit → Parser δ} (lines : Lines ph v)
    (then_ : ∀ ph w, Lines ph w → (w 0).1 = (w 0).2 → (w 0).1.isSeparator = false →
      (∀ k, v.Past Kind.isSeparator k → (w 0).1 = k) →
      Matches gap ⟨.block :: stack, ph⟩ w (k ()) (l ()) final) :
    Matches gap ⟨.block :: stack, ph⟩ v (skipSeparators >>= k) (skipSeparators >>= l) final := by
  obtain ⟨quiet, apart⟩ := lines
  have closed : (⟨.block :: stack, ph⟩ : Context).isOpen = false := Phase.isOpen_of_isQuiet quiet
  apply skipWhile_bind plain_block ⟨Phase.ne_case_of_isQuiet quiet, .inl ⟨closed, rfl⟩⟩
  intro ph' w rests unmoved found heads stopped stopped'
  have quiet' := rests.isQuiet quiet
  have lines' : Lines ph' w := by
    refine ⟨quiet', fun ended => ?_⟩
    rw [unmoved ended]
    obtain rfl | ⟨-, rfl⟩ := rests
    · exact apart ended
    · cases ended
  refine then_ ph' w lines' ?_ stopped found
  obtain same | ⟨-, newline, -⟩ := heads.in_block (Phase.ne_opened_of_isQuiet quiet')
  · exact same
  · rw [newline] at stopped'
    cases stopped'

/-- What is the same without places has a value of its own or has none. -/
theorem ofExcept {β : Type} {bare : α → β} {x x' : Except Fault α} {y : Except Fault β}
    {c : Context} (first : Mirrors x y bare) (second : Mirrors x' y bare) :
    Matches gap c v (MonadExcept.ofExcept x) (MonadExcept.ofExcept x') fun a b z _ =>
      bare a = bare b ∧ z = c := by
  cases x with
  | error f =>
    apply of_error
    intro _ a c' run
    exact absurd (show EStateM.Result.error f _ = .ok a c' from run) nofun
  | ok a =>
    cases y with
    | error g => exact first.elim
    | ok b =>
      cases x' with
      | error f => exact second.elim
      | ok a' => exact pure ⟨Eq.trans first (Eq.symm second), rfl⟩

end Matches

/-- Statements that differ in places only have the same value. -/
theorem matches_promote {s s' : Stmt} {x : Context} (same : s.bare = s'.bare) :
    Matches gap x v (MonadExcept.ofExcept (promote s)) (MonadExcept.ofExcept (promote s'))
      fun e e' y _ => e.bare = e'.bare ∧ y = x :=
  .ofExcept (mirrors_promote s) (same ▸ mirrors_promote s')

theorem matches_promoteBlock {hint hint' : Position} {stmts stmts' : List Stmt} {x : Context}
    (same : stmts.map Stmt.bare = stmts'.map Stmt.bare) :
    Matches gap x v (MonadExcept.ofExcept (promoteBlock hint stmts))
      (MonadExcept.ofExcept (promoteBlock hint' stmts')) fun e e' y _ =>
        e.bare = e'.bare ∧ y = x := by
  have first := (mirrors_promoteLast hint .start stmts).map bare_blockValue
  have second := (mirrors_promoteLast hint' .start stmts').map bare_blockValue
  exact .ofExcept first (same ▸ second)

theorem matches_block (free : rules.Match gap rules') {closers : List Kind}
    (others : ∀ k ∈ closers, binaryOp? k = none) (lines : Lines ph v) :
    Matches gap ⟨.block :: stack, ph⟩ v (block rules closers) (block rules' closers)
      fun stmts stmts' y _ => stmts.map Stmt.bare = stmts'.map Stmt.bare ∧
        Stays (.block :: stack) Phase.isQuiet y := by
  apply Matches.iterate fun stmts stmts' y w => stmts.map Stmt.bare = stmts'.map Stmt.bare ∧
    ∃ ph, y = ⟨.block :: stack, ph⟩ ∧ Lines ph w
  · exact ⟨rfl, ph, rfl, lines⟩
  rintro stmts stmts' _ w ⟨known, ph, rfl, lines⟩
  apply Matches.skipSeparators_bind lines
  intro ph w lines same _ _
  apply Matches.kind_bind
  apply Matches.ite (by rw [same])
  · intro _
    apply Matches.pure
    exact ⟨by simp [known], ph, rfl, lines.quiet⟩
  intro _
  apply Matches.ite (by rw [same])
  · intro _
    exact .unexpected
  intro _
  apply (free.statement lines.starts).bind
  rintro s s' _ w ⟨stmt_eq, ph, rfl, quiet⟩
  apply Matches.ahead
  intro apart
  have separators := apart.isSeparator_iff quiet
  apply Matches.kind_bind
  refine Matches.ite ?_ ?_ fun _ => .unexpected
  · obtain same | ⟨left, right, -⟩ := apart.in_block (Phase.ne_opened_of_isQuiet quiet)
    · rw [same]
    · rw [left, right]
      exact ⟨fun _ => .inl rfl, fun _ => .inl rfl⟩
  · intro ends
    apply Matches.pure
    refine ⟨by simp [stmt_eq, known], ph, rfl, quiet, fun _ => ?_⟩
    obtain separator | close := ends
    · exact binaryOp?_of_isSeparator separator
    · exact others _ close

theorem matches_elseBlock (free : rules.Match gap rules') (quiet : ph.isQuiet = true) :
    Matches gap ⟨.block :: stack, ph⟩ v (elseBlock rules) (elseBlock rules') fun stmts stmts' y _ =>
      stmts.map Stmt.bare = stmts'.map Stmt.bare ∧ Stays (.block :: stack) Phase.isQuiet y := by
  apply Matches.ate_clear plain_block (.of_isQuiet quiet) (Phase.ne_case_of_isQuiet quiet) rfl rfl
  · intro _
    exact matches_block free (by simp [binaryOp?]) .fresh
  · intro _
    exact .pure ⟨rfl, ph, rfl, quiet⟩

theorem matches_thenOrSeparator {what : String} (quiet : ph.isQuiet = true) :
    Matches gap ⟨.block :: stack, ph⟩ v (thenOrSeparator what) (thenOrSeparator what)
      fun _ _ y w => ∃ ph, y = ⟨.block :: stack, ph⟩ ∧ Lines ph w := by
  apply Matches.ate_clear plain_block (.of_isQuiet quiet) (Phase.ne_case_of_isQuiet quiet) rfl rfl
  · intro _
    exact .pure ⟨.fresh, rfl, .fresh⟩
  intro _
  apply Matches.ahead
  intro apart
  apply Matches.kind_bind
  apply Matches.ite (apart.isSeparator_iff quiet)
  · intro separator
    exact .pure ⟨ph, rfl, quiet, fun _ => binaryOp?_of_isSeparator separator⟩
  · intro _
    exact .unexpected

/-- Both runs take the `end` of a construct. -/
theorem Matches.end_bind {γ δ : Type} {final : γ → δ → Context → View → Prop} {what : String}
    {k : Token → Parser γ} {l : Token → Parser δ} (quiet : ph.isQuiet = true)
    (then_ : ∀ t u w, Matches gap ⟨stack, .ended⟩ w (k t) (l u) final) :
    Matches gap ⟨.block :: stack, ph⟩ v (expect .endWord what >>= k) (expect .endWord what >>= l)
      final :=
  expect_clear plain_block (.of_isQuiet quiet) (.inl (Phase.ne_case_of_isQuiet quiet)) rfl rfl
    fun t u _ => then_ t u _

/-- Any expression, in a block of its own or on a line of one. -/
theorem Rules.Match.expr (free : rules.Match gap rules') (starts : Starts stack ph v) :
    Matches gap ⟨stack, ph⟩ v rules.expr rules'.expr fun e e' y w =>
      e.bare = e'.bare ∧ Stays stack Phase.isEnd y ∧ binaryOp? (w 0).1 = none := by
  refine (free.binary 1 starts).mono ?_
  rintro e e' y w ⟨same, stays, last⟩
  refine ⟨same, stays, Option.eq_none_iff_forall_ne_some.mpr fun ⟨op, p⟩ found => ?_⟩
  have low := last op p found
  generalize (w 0).1 = k at found
  cases k <;> simp [binaryOp?] at found <;> omega

theorem Rules.Match.operand (free : rules.Match gap rules') (starts : Starts stack ph v) :
    Matches gap ⟨stack, ph⟩ v rules.expr rules'.expr fun e e' y _ =>
      e.bare = e'.bare ∧ Stays stack Phase.isEnd y := by
  refine (free.expr starts).mono ?_
  rintro e e' y w ⟨same, stays, -⟩
  exact ⟨same, stays⟩

theorem matches_ifStmt (free : rules.Match gap rules') (plain : Plain stack) (other : ph ≠ .case)
    (shown : v 0 = (.ifWord, .ifWord)) :
    Matches gap ⟨stack, ph⟩ v (ifStmt rules) (ifStmt rules') fun s s' y _ =>
      s.bare = s'.bare ∧ Stays stack Phase.isEnd y := by
  apply Matches.next_bind plain shown rfl (.inl other)
  intro _ _ _ _
  apply (free.expr Lines.fresh.starts).bind
  rintro cond cond' _ w ⟨cond_eq, ⟨ph, rfl, ended⟩, -⟩
  apply (matches_thenOrSeparator (Phase.isQuiet_of_isEnd ended)).bind
  rintro _ _ _ w ⟨ph, rfl, lines⟩
  apply (matches_block free (by simp [binaryOp?]) lines).bind
  rintro thenBlock thenBlock' _ w ⟨then_eq, ph, rfl, quiet⟩
  apply (matches_elseBlock free quiet).bind
  rintro elseBlock elseBlock' _ w ⟨else_eq, ph, rfl, quiet⟩
  apply Matches.end_bind quiet
  intro _ _ w
  apply Matches.pure
  exact ⟨by simp [Stmt.bare, cond_eq, then_eq, else_eq], .ended, rfl, rfl⟩

/-- Branches that begin with a word, which leads on in the same block. -/
theorem matches_branches {α γ : Type} {word : Kind} {what : String} {branch branch' : Parser α}
    {bare : α → γ} (solid : isSolid word = true) (pause : isPause word = false)
    (leads : ∀ ph, (⟨.block :: stack, ph⟩ : Context).take word = ⟨.block :: stack, .fresh⟩)
    (each : ∀ w, Matches gap ⟨.block :: stack, .fresh⟩ w branch branch' fun a b y _ =>
      bare a = bare b ∧ Stays (.block :: stack) Phase.isQuiet y)
    (quiet : ph.isQuiet = true) :
    Matches gap ⟨.block :: stack, ph⟩ v (branches word what branch) (branches word what branch')
      fun all all' y _ => all.map bare = all'.map bare ∧
        Stays (.block :: stack) Phase.isQuiet y := by
  have found : Matches gap ⟨.block :: stack, ph⟩ v
      (iterate (fun found => do
        if ← ate word then
          let b ← branch
          pure (.again (b :: found))
        else pure (.done found.reverse)) [])
      (iterate (fun found => do
        if ← ate word then
          let b ← branch'
          pure (.again (b :: found))
        else pure (.done found.reverse)) [])
      fun all all' y _ => all.map bare = all'.map bare ∧
        Stays (.block :: stack) Phase.isQuiet y := by
    apply Matches.iterate fun found found' y _ => found.map bare = found'.map bare ∧
      Stays (.block :: stack) Phase.isQuiet y
    · exact ⟨rfl, ph, rfl, quiet⟩
    rintro found found' _ w ⟨known, ph, rfl, quiet⟩
    apply Matches.ate_clear plain_block (.of_isQuiet quiet) (Phase.ne_case_of_isQuiet quiet) solid
      pause
    · intro _
      rw [leads]
      apply (each _).bind
      rintro b b' _ _ ⟨same, stays⟩
      apply Matches.pure
      exact ⟨by simp [same, known], stays⟩
    · intro _
      apply Matches.pure
      exact ⟨by simp [known], ph, rfl, quiet⟩
  apply found.bind
  rintro all all' y w ⟨same, stays⟩
  have empty : all.isEmpty = all'.isEmpty := by
    cases all <;> cases all' <;> simp_all
  rw [empty]
  apply Matches.ite Iff.rfl
  · intro _
    exact .unexpected
  · intro _
    exact .pure ⟨same, stays⟩

theorem matches_switchCase (free : rules.Match gap rules') :
    Matches gap ⟨.block :: stack, .fresh⟩ v (switchCase rules) (switchCase rules') fun a b y _ =>
      Prod.map Expr.bare (List.map Stmt.bare) a = Prod.map Expr.bare (List.map Stmt.bare) b ∧
        Stays (.block :: stack) Phase.isQuiet y := by
  apply (free.expr Lines.fresh.starts).bind
  rintro cond cond' _ w ⟨cond_eq, ⟨ph, rfl, ended⟩, -⟩
  apply (matches_thenOrSeparator (Phase.isQuiet_of_isEnd ended)).bind
  rintro _ _ _ w ⟨ph, rfl, lines⟩
  apply (matches_block free (by simp [binaryOp?]) lines).bind
  rintro stmts stmts' _ w ⟨stmts_eq, stays⟩
  apply Matches.pure
  exact ⟨by simp [cond_eq, stmts_eq], stays⟩

theorem matches_switchStmt (free : rules.Match gap rules') (plain : Plain stack)
    (other : ph ≠ .case)
    (shown : v 0 = (.switchWord, .switchWord)) :
    Matches gap ⟨stack, ph⟩ v (switchStmt rules) (switchStmt rules') fun s s' y _ =>
      s.bare = s'.bare ∧ Stays stack Phase.isEnd y := by
  apply Matches.next_bind plain shown rfl (.inl other)
  intro _ _ _ _
  apply Matches.skipSeparators_bind Lines.fresh
  intro ph w lines _ _ _
  apply (matches_branches rfl rfl (fun _ => rfl) (fun _ => matches_switchCase free)
    lines.quiet).bind
  rintro cases cases' _ w ⟨cases_eq, ph, rfl, quiet⟩
  apply (matches_elseBlock free quiet).bind
  rintro elseBlock elseBlock' _ w ⟨else_eq, ph, rfl, quiet⟩
  apply Matches.end_bind quiet
  intro _ _ w
  apply Matches.pure
  exact ⟨by simp [Stmt.bare, Stmt.bareCases_eq, cases_eq, else_eq], .ended, rfl, rfl⟩

theorem matches_matchArm (free : rules.Match gap rules') :
    Matches gap ⟨.block :: stack, .fresh⟩ v (matchArm rules) (matchArm rules') fun a b y _ =>
      Prod.map Pattern.bare (List.map Stmt.bare) a = Prod.map Pattern.bare (List.map Stmt.bare) b ∧
        Stays (.block :: stack) Phase.isQuiet y := by
  apply (free.pattern plain_block (.of_isQuiet (by rfl)) (by nofun) (by rfl)).bind
  rintro p p' _ w ⟨pattern_eq, ph, rfl, ended⟩
  apply (matches_thenOrSeparator (Phase.isQuiet_of_isEnd ended)).bind
  rintro _ _ _ w ⟨ph, rfl, lines⟩
  apply (matches_block free (by simp [binaryOp?]) lines).bind
  rintro stmts stmts' _ w ⟨stmts_eq, stays⟩
  apply Matches.pure
  exact ⟨by simp [pattern_eq, stmts_eq], stays⟩

theorem matches_matchStmt (free : rules.Match gap rules') (plain : Plain stack) (other : ph ≠ .case)
    (shown : v 0 = (.matchWord, .matchWord)) :
    Matches gap ⟨stack, ph⟩ v (matchStmt rules) (matchStmt rules') fun s s' y _ =>
      s.bare = s'.bare ∧ Stays stack Phase.isEnd y := by
  apply Matches.next_bind plain shown rfl (.inl other)
  intro _ _ _ _
  apply (free.expr Lines.fresh.starts).bind
  rintro subject subject' _ w ⟨subject_eq, ⟨ph, rfl, ended⟩, last⟩
  apply Matches.skipSeparators_bind ⟨Phase.isQuiet_of_isEnd ended, fun _ => last⟩
  intro ph w lines _ _ _
  apply (matches_branches rfl rfl (fun _ => rfl) (fun w => matches_matchArm free) lines.quiet).bind
  rintro arms arms' _ w ⟨arms_eq, ph, rfl, quiet⟩
  apply (matches_elseBlock free quiet).bind
  rintro elseBlock elseBlock' _ w ⟨else_eq, ph, rfl, quiet⟩
  apply Matches.end_bind quiet
  intro _ _ w
  apply Matches.pure
  exact ⟨by simp [Stmt.bare, Stmt.bareArms_eq, subject_eq, arms_eq, else_eq], .ended, rfl, rfl⟩

end Frontend.Grammar
