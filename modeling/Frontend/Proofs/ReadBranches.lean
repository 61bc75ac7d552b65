import Frontend.Proofs.ReadBlocks

/-!
Constructs with branches are read as what they are spelled from, as statements and as values.
-/
namespace Frontend.Grammar

open Frontend.Grammar.Parser
open Token (Kind)

variable {n : Nat} {k : List Word} {span : Span}

theorem headKind_elseWords (block : List Spelling) :
    headKind (elseWords block k) ∈ [Kind.elseWord, .endWord] := by
  unfold elseWords
  split <;> simp

/-- The block behind `else`, or none. -/
theorem Reads.elseBlock {stmts : List Stmt} (legible : ∀ s ∈ stmts, s.Legible) :
    Reads n (elseBlock (below n)) (elseWords (stmts.map Stmt.words) k) (spelled .endWord :: k)
      fun stmts' => stmts'.map Stmt.bare = stmts.map Stmt.bare := by
  unfold elseWords
  cases stmts with
  | nil =>
    refine (Reads.ate_other (by simp)).bind fun word none => ?_
    rw [none]
    exact .pure rfl
  | cons s stmts =>
    refine (Takes.ate rfl).reads.bind fun word there => ?_
    rw [there]
    exact Reads.block (reads_below n) legible (by decide) (by simp)

theorem Takes.thenOrSeparator {what : String} :
    Takes n (thenOrSeparator what) (spelled .thenWord :: k) k fun _ => True := by
  refine (Takes.ate rfl).bind fun word there => ?_
  rw [there]
  exact .pure trivial

theorem Takes.ifStmt {cond : Expr} {thenBlock elseBlock : List Stmt} (cond_legible : cond.Legible)
    (then_legible : ∀ s ∈ thenBlock, s.Legible) (else_legible : ∀ s ∈ elseBlock, s.Legible) :
    Takes (n + 1) (ifStmt (below n)) ((Stmt.mk span (.ifThen cond thenBlock elseBlock)).words k) k
      fun s => s.bare = (Stmt.mk span (.ifThen cond thenBlock elseBlock)).bare := by
  rw [Stmt.words, Stmt.items_eq, Stmt.items_eq]
  refine .first .next fun word _ => ?_
  refine (Takes.below_expr cond_legible (ends_cons (by decide))).reads.bind
    fun cond' cond_same => ?_
  refine Takes.thenOrSeparator.reads.bind fun _ _ => ?_
  have closes := headKind_elseWords (k := k) (elseBlock.map Stmt.words)
  refine (Reads.block (reads_below n) then_legible (by decide) closes).bind
    fun then' then_same => ?_
  refine (Reads.elseBlock else_legible).bind fun else' else_same => ?_
  refine (Takes.expect rfl).reads.bind fun close _ => .pure ?_
  simp [Stmt.bare, cond_same, then_same, else_same]

section Branches

variable {α X γ : Type} {word : Kind} {what : String} {branch : Parser α}
  {value : α → γ} {expected : X → γ}

/-- Branches that begin with a word each. -/
theorem Reads.branches (words : List X → List Word) {items : List X} (some : items ≠ [])
    (stop : headKind (words []) ≠ word)
    (each : ∀ x ∈ items, ∀ more, ∃ i, words (x :: more) = spelled word :: i ∧
      Reads n branch i (words more) fun b => value b = expected x) :
    Reads n (branches word what branch) (words items) (words []) fun all =>
      all.map value = items.map expected := by
  refine (Reads.iterate_list (o := words []) value expected
    words (fun before => ?_) (fun x mem more before => ?_) []).bind fun all same => ?_
  · refine (Reads.ate_other stop).bind fun found none => ?_
    rw [none]
    exact .pure rfl
  · obtain ⟨i, eq, reads⟩ := each x mem more
    rw [eq]
    refine (Takes.ate rfl).bind fun found there => ?_
    rw [there]
    exact reads.bind fun b same => .pure ⟨b, rfl, same⟩
  · have some' : all ≠ [] := by
      rintro rfl
      exact some (by simpa using same.symm)
    rw [if_neg (by simpa using some')]
    exact .pure (by simpa using same)

end Branches

theorem headKind_caseWords {cases : List (Expr × List Stmt)}
    (close : headKind k ∈ [Kind.elseWord, .endWord]) :
    headKind (Stmt.caseWords cases k) ∈ [Kind.caseWord, .elseWord, .endWord] := by
  cases cases with
  | nil => exact List.mem_cons_of_mem _ close
  | cons c cases => simp [Stmt.caseWords]

theorem headKind_armWords {arms : List (Pattern × List Stmt)}
    (close : headKind k ∈ [Kind.elseWord, .endWord]) :
    headKind (Stmt.armWords arms k) ∈ [Kind.withWord, .elseWord, .endWord] := by
  cases arms with
  | nil => exact List.mem_cons_of_mem _ close
  | cons a arms => simp [Stmt.armWords]

/-- The cases of a `switch`, up to what follows them. -/
theorem Reads.switchCases {cases : List (Expr × List Stmt)} (some : cases ≠ [])
    (conds_legible : ∀ c ∈ cases, c.1.Legible)
    (blocks_legible : ∀ c ∈ cases, ∀ s ∈ c.2, s.Legible)
    (closes : headKind k ∈ [Kind.elseWord, .endWord]) {what : String} :
    Reads n (Grammar.branches .caseWord what (switchCase (below n))) (Stmt.caseWords cases k) k
      fun cases' => cases'.map (Prod.map Expr.bare (List.map Stmt.bare)) =
        cases.map (Prod.map Expr.bare (List.map Stmt.bare)) := by
  refine Reads.branches (fun cases => Stmt.caseWords cases k) some ?_
    fun c mem more => ⟨_, by rw [Stmt.caseWords], ?_⟩
  · have other : ∀ kind ∈ [Kind.elseWord, .endWord], kind ≠ .caseWord := by decide
    exact other _ closes
  · refine (Takes.below_expr (conds_legible c mem) (ends_cons (by decide))).reads.bind
      fun cond same => ?_
    refine Takes.thenOrSeparator.reads.bind fun _ _ => ?_
    rw [Stmt.items_eq]
    refine (Reads.block (reads_below n) (blocks_legible c mem) (by decide)
      (headKind_caseWords closes)).bind ?_
    exact fun stmts same' => .pure (by simp [Prod.map, same, same'])

theorem Takes.switchStmt {cases : List (Expr × List Stmt)} {elseBlock : List Stmt}
    (some : cases ≠ []) (conds_legible : ∀ c ∈ cases, c.1.Legible)
    (blocks_legible : ∀ c ∈ cases, ∀ s ∈ c.2, s.Legible)
    (else_legible : ∀ s ∈ elseBlock, s.Legible) :
    Takes (n + 1) (switchStmt (below n)) ((Stmt.mk span (.switch cases elseBlock)).words k) k
      fun s => s.bare = (Stmt.mk span (.switch cases elseBlock)).bare := by
  rw [Stmt.words, Stmt.items_eq]
  have plain : (headKind (Stmt.caseWords cases
      (elseWords (elseBlock.map Stmt.words) k))).isSeparator = false := by
    have none : ∀ kind ∈ [Kind.caseWord, .elseWord, .endWord], kind.isSeparator = false := by decide
    exact none _ (headKind_caseWords (headKind_elseWords _))
  refine .first .next fun word _ => (Takes.skipSeparators plain).reads.bind fun _ _ => ?_
  refine (Reads.switchCases some conds_legible blocks_legible (headKind_elseWords _)).bind ?_
  refine fun cases' same => (Reads.elseBlock else_legible).bind fun else' else_same => ?_
  refine (Takes.expect rfl).reads.bind fun close _ => .pure ?_
  simp [Stmt.bare, same, else_same]

/-- The arms of a `match`, up to what follows them. -/
theorem Reads.matchArms {arms : List (Pattern × List Stmt)} (some : arms ≠ [])
    (patterns_legible : ∀ a ∈ arms, a.1.Legible)
    (blocks_legible : ∀ a ∈ arms, ∀ s ∈ a.2, s.Legible)
    (closes : headKind k ∈ [Kind.elseWord, .endWord]) {what : String} :
    Reads n (Grammar.branches .withWord what (matchArm (below n))) (Stmt.armWords arms k) k
      fun arms' => arms'.map (Prod.map Pattern.bare (List.map Stmt.bare)) =
        arms.map (Prod.map Pattern.bare (List.map Stmt.bare)) := by
  refine Reads.branches (fun arms => Stmt.armWords arms k) some ?_
    fun a mem more => ⟨_, by rw [Stmt.armWords], ?_⟩
  · have other : ∀ kind ∈ [Kind.elseWord, .endWord], kind ≠ .withWord := by decide
    exact other _ closes
  · refine (Takes.below_pattern (patterns_legible a mem) (ends_cons (by decide))).reads.bind
      fun p same => ?_
    refine Takes.thenOrSeparator.reads.bind fun _ _ => ?_
    rw [Stmt.items_eq]
    refine (Reads.block (reads_below n) (blocks_legible a mem) (by decide)
      (headKind_armWords closes)).bind ?_
    exact fun stmts same' => .pure (by simp [Prod.map, same, same'])

theorem Takes.matchStmt {subject : Expr} {arms : List (Pattern × List Stmt)}
    {elseBlock : List Stmt} (subject_legible : subject.Legible) (some : arms ≠ [])
    (patterns_legible : ∀ a ∈ arms, a.1.Legible)
    (blocks_legible : ∀ a ∈ arms, ∀ s ∈ a.2, s.Legible)
    (else_legible : ∀ s ∈ elseBlock, s.Legible) :
    Takes (n + 1) (matchStmt (below n))
      ((Stmt.mk span (.matchWith subject arms elseBlock)).words k) k
      fun s => s.bare = (Stmt.mk span (.matchWith subject arms elseBlock)).bare := by
  rw [Stmt.words, Stmt.items_eq]
  have plain : (headKind (Stmt.armWords arms
      (elseWords (elseBlock.map Stmt.words) k))).isSeparator = false := by
    have none : ∀ kind ∈ [Kind.withWord, .elseWord, .endWord], kind.isSeparator = false := by decide
    exact none _ (headKind_armWords (headKind_elseWords _))
  refine .first .next fun word _ => ?_
  refine (Takes.below_expr subject_legible (ends_cons (by decide))).reads.bind
    fun subject' same => ?_
  refine (Takes.skipSeparators plain).reads.bind fun _ _ => ?_
  refine (Reads.matchArms some patterns_legible blocks_legible (headKind_elseWords _)).bind ?_
  refine fun arms' arms_same => (Reads.elseBlock else_legible).bind fun else' else_same => ?_
  refine (Takes.expect rfl).reads.bind fun close _ => .pure ?_
  simp [Stmt.bare, same, arms_same, else_same]

section Values

/-- A statement that is an expression up to where it stands is an expression. -/
theorem exists_value_of_bare {s : Stmt} {e : Expr} (h : s.bare = ⟨default, .value e⟩) :
    ∃ span e', s = ⟨span, .value e'⟩ ∧ e'.bare = e := by
  obtain ⟨span, form⟩ := s
  cases form with
  | value e' =>
    refine ⟨span, e', rfl, ?_⟩
    simpa [Stmt.bare] using h
  | _ => simp [Stmt.bare] at h

theorem promoteLast_concat (hint : Position) (lead : List Stmt) (span : Span) (e : Expr) :
    promoteLast hint (lead ++ [⟨span, .value e⟩]) = .ok (lead, e) := by
  induction lead with
  | nil => rfl
  | cons s lead ih =>
    cases lead with
    | nil => rfl
    | cons next rest =>
      rw [List.cons_append, List.cons_append, promoteLast, ← List.cons_append, ih]
      rfl

theorem asBlock_ne_nil (body : Expr) : body.asBlock ≠ [] := by
  unfold Expr.asBlock
  split <;> simp

theorem asBlock_of_not_isSeq {e : Expr} (single : e.isSeq = false) : e.asBlock = [.ofExpr e] := by
  obtain ⟨span, form⟩ := e
  cases form <;> first | rfl | exact nomatch single

/-- The lines of a body are legible. -/
theorem legible_asBlock {body : Expr} (legible : body.LegibleBody) :
    ∀ s ∈ body.asBlock, s.Legible := by
  cases legible with
  | plain single legible =>
    rw [asBlock_of_not_isSeq single]
    exact List.forall_mem_singleton.mpr (legible_value legible)
  | seq nonempty stmts_legible last_legible =>
    intro s mem
    obtain mem | mem := List.mem_append.mp mem
    · exact stmts_legible s mem
    · obtain rfl := List.mem_singleton.mp mem
      exact legible_value last_legible

/-- Lines that are those of a body have its value. -/
theorem promoteLast_asBlock {body : Expr} (legible : body.LegibleBody) {stmts : List Stmt}
    (same : stmts.map Stmt.bare = body.asBlock.map Stmt.bare) (hint : Position) :
    ∃ parts, promoteLast hint stmts = .ok parts ∧ (blockValue parts).bare = body.bare := by
  have split_last : ∀ (lead : List Stmt) (last : Expr),
      stmts.map Stmt.bare = (lead ++ [Stmt.ofExpr last]).map Stmt.bare →
      ∃ lead' e, promoteLast hint stmts = .ok (lead', e) ∧
        lead'.map Stmt.bare = lead.map Stmt.bare ∧ e.bare = last.bare := by
    intro lead last same
    rw [List.map_append] at same
    obtain ⟨lead', tail, rfl, lead_same, tail_same⟩ := List.map_eq_append_iff.mp same
    obtain ⟨s, rfl, s_same⟩ := List.map_eq_singleton_iff.mp tail_same
    obtain ⟨span, e, rfl, e_same⟩ := exists_value_of_bare s_same
    exact ⟨lead', e, promoteLast_concat hint lead' span e, lead_same, e_same⟩
  cases legible with
  | plain single legible =>
    rw [asBlock_of_not_isSeq single] at same
    obtain ⟨lead, e, run, lead_same, e_same⟩ := split_last [] body same
    obtain rfl : lead = [] := by simpa using lead_same
    exact ⟨_, run, e_same⟩
  | @seq span stmts' last nonempty _ _ =>
    obtain ⟨lead, e, run, lead_same, e_same⟩ := split_last stmts' last same
    refine ⟨_, run, ?_⟩
    cases lead with
    | nil => exact absurd (by simpa using lead_same.symm) nonempty
    | cons s lead =>
      simp [blockValue, Expr.bare, ← lead_same, e_same]

/-- Lines that are those of a body are its value in a branch. -/
theorem branchValue_asBlock {body : Expr} (legible : body.LegibleBody) {stmts : List Stmt}
    (same : stmts.map Stmt.bare = body.asBlock.map Stmt.bare) (start : Position) (branch : Branch) :
    ∃ value, branchValue start branch (promoteLast start stmts) = .ok value ∧
      value.bare = body.bare := by
  obtain ⟨parts, run, parts_same⟩ := promoteLast_asBlock legible same start
  exact ⟨blockValue parts, by rw [run]; rfl, parts_same⟩

theorem promote_ifThen {s : Stmt} {cond thenValue elseValue : Expr}
    (then_legible : thenValue.LegibleBody) (else_legible : elseValue.LegibleBody)
    (same : s.bare = (Stmt.mk span (.ifThen cond thenValue.asBlock elseValue.asBlock)).bare) :
    ∃ e, promote s = .ok e ∧ e.bare = (Expr.mk span (.ifThen cond thenValue elseValue)).bare := by
  obtain ⟨span', form⟩ := s
  cases form with
  | ifThen cond' thenBlock elseBlock =>
    obtain ⟨cond_same, then_same, else_same⟩ : cond'.bare = cond.bare ∧
        thenBlock.map Stmt.bare = thenValue.asBlock.map Stmt.bare ∧
        elseBlock.map Stmt.bare = elseValue.asBlock.map Stmt.bare := by
      simpa [Stmt.bare] using same
    obtain ⟨then', then_run, then_same⟩ :=
      branchValue_asBlock then_legible then_same span'.start .thenOfIf
    obtain ⟨else', else_run, else_same⟩ :=
      branchValue_asBlock else_legible else_same span'.start .elseOfIf
    refine ⟨⟨span', .ifThen cond' then' else'⟩, ?_, ?_⟩
    · rw [promote, then_run, else_run]
      rfl
    · simp [Expr.bare, cond_same, then_same, else_same]
  | _ => simp [Stmt.bare] at same

/-- Cases as a statement has them, with lines for values. -/
def blockCases {α : Type} (cases : List (α × Expr)) : List (α × List Stmt) :=
  cases.map (Prod.map id Expr.asBlock)

theorem promoteCases_asBlock {cases : List (Expr × Expr)}
    (legible : ∀ c ∈ cases, c.2.LegibleBody) {read : List (Expr × List Stmt)}
    (same : read.map (Prod.map Expr.bare (List.map Stmt.bare)) =
      (blockCases cases).map (Prod.map Expr.bare (List.map Stmt.bare)))
    (start : Position) (n : Nat) :
    ∃ values, promoteCases start n read = .ok values ∧
      values.map (Prod.map Expr.bare Expr.bare) = cases.map (Prod.map Expr.bare Expr.bare) := by
  induction cases generalizing read n with
  | nil =>
    obtain rfl : read = [] := by simpa [blockCases] using same
    exact ⟨[], rfl, rfl⟩
  | cons c cases ih =>
    have ⟨first_legible, rest_legible⟩ := List.forall_mem_cons.mp legible
    obtain ⟨⟨cond, block⟩, read, rfl, first_same, rest_same⟩ := List.map_eq_cons_iff.mp same
    obtain ⟨cond_same, block_same⟩ := Prod.ext_iff.mp first_same
    obtain ⟨value, run, value_same⟩ :=
      branchValue_asBlock first_legible block_same start (.caseOfSwitch n)
    obtain ⟨values, rest_run, values_same⟩ := ih rest_legible rest_same (n + 1)
    refine ⟨(cond, value) :: values, ?_, ?_⟩
    · rw [promoteCases, run, rest_run]
      rfl
    · simp_all [Prod.map]

theorem promote_switch {s : Stmt} {cases : List (Expr × Expr)} {elseValue : Expr}
    (legible : ∀ c ∈ cases, c.2.LegibleBody) (else_legible : elseValue.LegibleBody)
    (same : s.bare = (Stmt.mk span (.switch (blockCases cases) elseValue.asBlock)).bare) :
    ∃ e, promote s = .ok e ∧ e.bare = (Expr.mk span (.switch cases elseValue)).bare := by
  obtain ⟨span', form⟩ := s
  cases form with
  | switch read elseBlock =>
    obtain ⟨cases_same, else_same⟩ :
        read.map (Prod.map Expr.bare (List.map Stmt.bare)) =
          (blockCases cases).map (Prod.map Expr.bare (List.map Stmt.bare)) ∧
        elseBlock.map Stmt.bare = elseValue.asBlock.map Stmt.bare := by
      simpa only [Stmt.bare, Stmt.bareCases_eq, Stmt.bareAll_eq, Stmt.mk.injEq,
        StmtForm.switch.injEq, true_and] using same
    obtain ⟨values, run, values_same⟩ := promoteCases_asBlock legible cases_same span'.start 1
    obtain ⟨else', else_run, else_same⟩ :=
      branchValue_asBlock else_legible else_same span'.start .elseOfSwitch
    refine ⟨⟨span', .switch values else'⟩, ?_, ?_⟩
    · rw [promote, run, else_run]
      rfl
    · simp [Expr.bare, values_same, else_same]
  | _ => simp [Stmt.bare] at same

theorem promoteArms_asBlock {arms : List (Pattern × Expr)}
    (legible : ∀ a ∈ arms, a.2.LegibleBody) {read : List (Pattern × List Stmt)}
    (same : read.map (Prod.map Pattern.bare (List.map Stmt.bare)) =
      (blockCases arms).map (Prod.map Pattern.bare (List.map Stmt.bare)))
    (start : Position) (n : Nat) :
    ∃ values, promoteArms start n read = .ok values ∧
      values.map (Prod.map Pattern.bare Expr.bare) =
        arms.map (Prod.map Pattern.bare Expr.bare) := by
  induction arms generalizing read n with
  | nil =>
    obtain rfl : read = [] := by simpa [blockCases] using same
    exact ⟨[], rfl, rfl⟩
  | cons a arms ih =>
    have ⟨first_legible, rest_legible⟩ := List.forall_mem_cons.mp legible
    obtain ⟨⟨p, block⟩, read, rfl, first_same, rest_same⟩ := List.map_eq_cons_iff.mp same
    obtain ⟨p_same, block_same⟩ := Prod.ext_iff.mp first_same
    obtain ⟨value, run, value_same⟩ :=
      branchValue_asBlock first_legible block_same start (.withOfMatch n)
    obtain ⟨values, rest_run, values_same⟩ := ih rest_legible rest_same (n + 1)
    refine ⟨(p, value) :: values, ?_, ?_⟩
    · rw [promoteArms, run, rest_run]
      rfl
    · simp_all [Prod.map]

theorem promote_matchWith {s : Stmt} {subject : Expr} {arms : List (Pattern × Expr)}
    {elseValue : Expr} (legible : ∀ a ∈ arms, a.2.LegibleBody)
    (else_legible : elseValue.LegibleBody)
    (same : s.bare = (Stmt.mk span (.matchWith subject (blockCases arms) elseValue.asBlock)).bare) :
    ∃ e, promote s = .ok e ∧ e.bare = (Expr.mk span (.matchWith subject arms elseValue)).bare := by
  obtain ⟨span', form⟩ := s
  cases form with
  | matchWith subject' read elseBlock =>
    obtain ⟨subject_same, arms_same, else_same⟩ : subject'.bare = subject.bare ∧
        read.map (Prod.map Pattern.bare (List.map Stmt.bare)) =
          (blockCases arms).map (Prod.map Pattern.bare (List.map Stmt.bare)) ∧
        elseBlock.map Stmt.bare = elseValue.asBlock.map Stmt.bare := by
      simpa only [Stmt.bare, Stmt.bareArms_eq, Stmt.bareAll_eq, Stmt.mk.injEq,
        StmtForm.matchWith.injEq, true_and] using same
    obtain ⟨values, run, values_same⟩ := promoteArms_asBlock legible arms_same span'.start 1
    obtain ⟨else', else_run, else_same⟩ :=
      branchValue_asBlock else_legible else_same span'.start .elseOfMatch
    refine ⟨⟨span', .matchWith subject' values else'⟩, ?_, ?_⟩
    · rw [promote, run, else_run]
      rfl
    · simp [Expr.bare, subject_same, values_same, else_same]
  | _ => simp [Stmt.bare] at same

theorem elseWords_asBlock (body : Expr) :
    elseWords (body.asBlock.map Stmt.words) k =
      spelled .elseWord :: spelled .newline ::
        bodyWords body body.inner (spelled .endWord :: k) := by
  unfold elseWords
  rw [if_neg (by simpa using asBlock_ne_nil body), bodyWords_eq]

theorem inner_ifThen {cond thenValue elseValue : Expr} :
    (Expr.mk span (.ifThen cond thenValue elseValue)).inner k =
      (Stmt.mk span (.ifThen cond thenValue.asBlock elseValue.asBlock)).words k := by
  rw [Expr.inner, Stmt.words, Stmt.items_eq, Stmt.items_eq, elseWords_asBlock, ← bodyWords_eq]

theorem caseWords_blockCases (cases : List (Expr × Expr)) :
    Expr.caseWords cases k = Stmt.caseWords (blockCases cases) k := by
  induction cases with
  | nil => rfl
  | cons c cases ih =>
    obtain ⟨cond, value⟩ := c
    show _ = Stmt.caseWords ((cond, value.asBlock) :: blockCases cases) k
    rw [Expr.caseWords, Stmt.caseWords, bodyWords_eq, Stmt.items_eq, ih]

theorem inner_switch {cases : List (Expr × Expr)} {elseValue : Expr} :
    (Expr.mk span (.switch cases elseValue)).inner k =
      (Stmt.mk span (.switch (blockCases cases) elseValue.asBlock)).words k := by
  rw [Expr.inner, Stmt.words, Stmt.items_eq, elseWords_asBlock, caseWords_blockCases]

theorem armWords_blockCases (arms : List (Pattern × Expr)) :
    Expr.armWords arms k = Stmt.armWords (blockCases arms) k := by
  induction arms with
  | nil => rfl
  | cons a arms ih =>
    obtain ⟨p, value⟩ := a
    show _ = Stmt.armWords ((p, value.asBlock) :: blockCases arms) k
    rw [Expr.armWords, Stmt.armWords, bodyWords_eq, Stmt.items_eq, ih]

theorem inner_matchWith {subject : Expr} {arms : List (Pattern × Expr)} {elseValue : Expr} :
    (Expr.mk span (.matchWith subject arms elseValue)).inner k =
      (Stmt.mk span (.matchWith subject (blockCases arms) elseValue.asBlock)).words k := by
  rw [Expr.inner, Stmt.words, Stmt.items_eq, elseWords_asBlock, armWords_blockCases]

/-- A construct with branches whose last lines are values. -/
theorem Takes.branchingValue {stmt : Parser Stmt} {words : List Word} {s : Stmt} {e : Expr}
    (takes : Takes n stmt words k fun s' => s'.bare = s.bare)
    (promotes : ∀ s', s'.bare = s.bare → ∃ e', promote s' = .ok e' ∧ e'.bare = e.bare) :
    Takes n (branchingValue stmt) words k fun e' => e'.bare = e.bare := by
  refine takes.bind fun s' same => ?_
  obtain ⟨e', run, e'_same⟩ := promotes s' same
  exact .ofExcept run e'_same

theorem legible_ifThen {cond thenValue elseValue : Expr} (cond_legible : cond.Legible)
    (then_legible : thenValue.LegibleBody) (else_legible : elseValue.LegibleBody) :
    (Expr.mk span (.ifThen cond thenValue elseValue)).Legible := by
  refine ⟨fun k => begins_cons (by decide), fun n k => ?_⟩
  rw [inner_ifThen]
  refine .binary_of_primary (.after .kind fun kind here => ?_) rfl (ends_cons (by decide))
  obtain rfl : kind = .ifWord := here
  exact .branchingValue (.ifStmt cond_legible (legible_asBlock then_legible)
    (legible_asBlock else_legible)) fun s same => promote_ifThen then_legible else_legible same

/-- The parts of cases are legible, and so are the lines of their values. -/
theorem legible_blockCases {α : Type} {cases : List (α × Expr)}
    (legible : ∀ c ∈ cases, c.2.LegibleBody) : ∀ c ∈ blockCases cases, ∀ s ∈ c.2, s.Legible := by
  intro c mem
  obtain ⟨c', mem', rfl⟩ := List.mem_map.mp mem
  exact legible_asBlock (legible c' mem')

theorem blockCases_fst {α : Type} {good : α → Prop} {cases : List (α × Expr)}
    (h : ∀ c ∈ cases, good c.1) : ∀ c ∈ blockCases cases, good c.1 := by
  intro c mem
  obtain ⟨c', mem', rfl⟩ := List.mem_map.mp mem
  exact h c' mem'

theorem blockCases_ne_nil {α : Type} {cases : List (α × Expr)} (some : cases ≠ []) :
    blockCases cases ≠ [] := by
  simpa [blockCases] using some

theorem legible_switch {cases : List (Expr × Expr)} {elseValue : Expr} (some : cases ≠ [])
    (conds_legible : ∀ c ∈ cases, c.1.Legible) (values_legible : ∀ c ∈ cases, c.2.LegibleBody)
    (else_legible : elseValue.LegibleBody) :
    (Expr.mk span (.switch cases elseValue)).Legible := by
  refine ⟨fun k => begins_cons (by decide), fun n k => ?_⟩
  rw [inner_switch]
  refine .binary_of_primary (.after .kind fun kind here => ?_) rfl (ends_cons (by decide))
  obtain rfl : kind = .switchWord := here
  exact .branchingValue (.switchStmt (blockCases_ne_nil some) (blockCases_fst conds_legible)
    (legible_blockCases values_legible) (legible_asBlock else_legible))
    fun s same => promote_switch values_legible else_legible same

theorem legible_matchWith {subject : Expr} {arms : List (Pattern × Expr)} {elseValue : Expr}
    (subject_legible : subject.Legible) (some : arms ≠ [])
    (patterns_legible : ∀ a ∈ arms, a.1.Legible) (values_legible : ∀ a ∈ arms, a.2.LegibleBody)
    (else_legible : elseValue.LegibleBody) :
    (Expr.mk span (.matchWith subject arms elseValue)).Legible := by
  refine ⟨fun k => begins_cons (by decide), fun n k => ?_⟩
  rw [inner_matchWith]
  refine .binary_of_primary (.after .kind fun kind here => ?_) rfl (ends_cons (by decide))
  obtain rfl : kind = .matchWord := here
  exact .branchingValue (.matchStmt subject_legible (blockCases_ne_nil some)
    (blockCases_fst patterns_legible) (legible_blockCases values_legible)
    (legible_asBlock else_legible))
    fun s same => promote_matchWith values_legible else_legible same

end Values

end Frontend.Grammar
