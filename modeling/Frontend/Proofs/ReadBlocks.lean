import Frontend.Proofs.ParsedExprs
import Frontend.Proofs.ReadPatterns

/-!
Blocks are read as what they are spelled from, as long as their statements are. A block that is a
value is spelled as a block whose last statement is an expression, and promotion gives that
expression back.
-/
namespace Frontend

open Grammar Grammar.Parser

/-- A type that is read as what it is, up to the places where it stands. -/
structure TypeExpr.Legible (t : TypeExpr) : Prop where
  begins : ∀ k, Begins (t.words k)
  takes : ∀ n k, Ends k →
    Takes (n + 1) (typeExpr (below n)) (t.words k) k fun t' => t'.bare = t.bare

/-- A statement that is read as what it is, up to the places where it stands. -/
structure Stmt.Legible (s : Stmt) : Prop where
  begins : ∀ k, Begins (s.words k)
  takes : ∀ n k, headKind k = .newline →
    Takes (n + 1) (statement (below n)) (s.words k) k fun s' => s'.bare = s.bare

/-- An expression that is read between parentheses as what it is, up to the places where it
stands. -/
structure Expr.Legible (e : Expr) : Prop where
  begins : ∀ k, Begins (e.inner k)
  takes : ∀ n k, Takes (n + 1) (binary (below n) 1) (e.inner (spelled .rparen :: k))
    (spelled .rparen :: k) fun e' => e'.bare = e.bare

/-- The value of a branch or the body of a lambda with legible parts. -/
inductive Expr.LegibleBody : Expr → Prop
  | plain {e : Expr} (single : e.isSeq = false) (legible : e.Legible) : LegibleBody e
  | seq {span : Span} {stmts : List Stmt} {last : Expr} (nonempty : stmts ≠ [])
      (stmts_legible : ∀ s ∈ stmts, s.Legible) (last_legible : last.Legible) :
      LegibleBody ⟨span, .seq stmts last⟩

/-- The lines of a block that is a value. -/
def Expr.asBlock (e : Expr) : List Stmt :=
  match e.form with
  | .seq stmts last => stmts ++ [.ofExpr last]
  | _ => [.ofExpr e]

theorem Stmt.items_eq (stmts : List Stmt) : items stmts = stmts.map words :=
  eq_map_of_cons rfl (fun _ _ => rfl) stmts

theorem lines_append (front back : List Spelling) (k : List Word) :
    lines (front ++ back) k = lines front (lines back k) := by
  induction front with
  | nil => rfl
  | cons item front ih => rw [List.cons_append, lines, lines, ih]

theorem bodyWords_eq (body : Expr) (k : List Word) :
    bodyWords body body.inner k = lines (body.asBlock.map Stmt.words) k := by
  unfold bodyWords Expr.isSeq Expr.asBlock
  obtain ⟨span, form⟩ := body
  cases form with
  | seq stmts last =>
    rw [if_pos rfl, List.map_append, lines_append, ← Stmt.items_eq]
    rfl
  | _ => rfl

namespace Grammar

open Token (Kind)

variable {n : Nat} {k : List Word} {closers : List Kind}

theorem Takes.below_type {t : TypeExpr} (legible : t.Legible) (ends : Ends k) :
    Takes n (below n).typeExpr (t.words k) k fun t' => t'.bare = t.bare := by
  rw [below_eq n]
  exact .forFewer fun m _ => legible.takes m k ends

theorem Takes.below_statement {s : Stmt} (legible : s.Legible) (line : headKind k = .newline) :
    Takes n (below n).statement (s.words k) k fun s' => s'.bare = s.bare := by
  rw [below_eq n]
  exact .forFewer fun m _ => legible.takes m k line

/-- Rules that read types and statements as what they are, where there are less than `n` words. -/
structure Rules.Read (rules : Rules) (n : Nat) : Prop where
  type : ∀ (t : TypeExpr) k, t.Legible → Ends k →
    Takes n rules.typeExpr (t.words k) k fun t' => t'.bare = t.bare
  statement : ∀ (s : Stmt) k, s.Legible → headKind k = .newline →
    Takes n rules.statement (s.words k) k fun s' => s'.bare = s.bare

theorem reads_below (n : Nat) : (below n).Read n :=
  ⟨fun _ _ legible ends => .below_type legible ends,
    fun _ _ legible line => .below_statement legible line⟩

/-- Statements on lines of their own, behind the line that opens the block. -/
theorem Reads.block {rules : Rules} {stmts : List Stmt} (reads : rules.Read n)
    (legible : ∀ s ∈ stmts, s.Legible)
    (apart : ∀ kind ∈ closers, kind ∉ starters ∧ kind.isSeparator = false)
    (closes : headKind k ∈ closers) :
    Reads n (block rules closers) (spelled .newline :: lines (stmts.map Stmt.words) k) k
      fun stmts' => stmts'.map Stmt.bare = stmts.map Stmt.bare := by
  refine (Reads.iterate_list Stmt.bare Stmt.bare
    (fun stmts => spelled .newline :: lines (stmts.map Stmt.words) k) (fun before => ?_)
    (fun s mem more before => ?_) []).mono fun all same => by simpa using same
  · refine (Takes.skipSeparators (apart _ closes).2).reads.bind fun _ _ => Reads.kind.bind
      fun kind here => ?_
    rw [if_pos (here ▸ closes)]
    exact .pure rfl
  · have begins := (legible s mem).begins (spelled .newline :: lines (more.map Stmt.words) k)
    refine (Takes.skipSeparators begins.isSeparator).bind fun _ _ => ?_
    refine Reads.kind.bind fun kind here => ?_
    have starter : kind ∈ starters := by rw [here]; exact begins
    have goes_on : ¬ kind.isTerminal = true := by
      have none : ∀ k ∈ starters, ¬ k.isTerminal = true := by decide
      exact none kind starter
    rw [if_neg (fun closed => (apart kind closed).1 starter), if_neg goes_on]
    refine (reads.statement s _ (legible s mem) rfl).reads.bind fun s' same => ?_
    refine Reads.kind.bind fun kind here => ?_
    rw [if_pos (.inl (by rw [here]; rfl))]
    exact .pure ⟨s', rfl, same⟩

section Levels

variable {i o : List Word} {good : Expr → Prop} {power : Nat}

/-- Words that go on with an operand: calls, accesses and further types. -/
def chainers : List Kind := [.lparen, .lbracket, .dot]

/-- Calls and accesses end where none follows. -/
theorem Reads.chain_end {e : Expr} (stop : headKind o ∉ chainers) :
    Reads n (iterate (fun e => do
      match ← Parser.kind with
      | .lparen =>
        let e ← call (below n) e
        Pure.pure (Turn.again e)
      | .lbracket =>
        let e ← indexAccess (below n) e
        Pure.pure (Turn.again e)
      | .dot =>
        let e ← fieldAccess e
        Pure.pure (Turn.again e)
      | _ => Pure.pure (Turn.done e)) e) o o (· = e) := by
  refine .iterate_done (Reads.kind.bind fun kind here => ?_)
  subst here
  split
  · exact absurd (by simp_all [chainers]) stop
  · exact absurd (by simp_all [chainers]) stop
  · exact absurd (by simp_all [chainers]) stop
  · exact .pure ⟨e, rfl, rfl⟩

/-- An operand that nothing is called on and nothing is accessed of. -/
theorem Takes.chained (h : Takes (n + 1) (primary (below n)) i o good)
    (stop : headKind o ∉ chainers) : Takes (n + 1) (chained (below n)) i o good :=
  .first h fun _ e_good => (Reads.chain_end stop).mono fun _ same => same ▸ e_good

/-- An operand without operators in front. -/
theorem Takes.unary (h : Takes (n + 1) (Grammar.chained (below n)) i o good)
    (start : unaryOp? (headKind i) = none) : Takes (n + 1) (unary (below n)) i o good := by
  refine .after .kind fun kind here => ?_
  rw [here, start]
  exact h

/-- An operand that is taken as no other type. -/
theorem Takes.coerced (h : Takes (n + 1) (Grammar.unary (below n)) i o good)
    (stop : headKind o ≠ .asWord) : Takes (n + 1) (coerced (below n)) i o good := by
  refine .first h fun e e_good => .iterate_done ((Reads.ate_other stop).bind fun word none => ?_)
  rw [none]
  exact .pure ⟨e, rfl, e_good⟩

/-- An operand with no operator behind it. -/
theorem Takes.binary (h : Takes (n + 1) (Grammar.coerced (below n)) i o good)
    (stop : binaryOp? (headKind o) = none) : Takes (n + 1) (binary (below n) power) i o good := by
  refine .first h fun e e_good => .iterate_done (Reads.kind.bind fun kind here => ?_)
  rw [here, stop]
  exact .pure ⟨e, rfl, e_good⟩

theorem Ends.not_chainers (ends : Ends o) : headKind o ∉ chainers := by
  have none : ∀ k ∈ enders, k ∉ chainers := by decide
  exact none _ ends

theorem Ends.binaryOp? (ends : Ends o) : binaryOp? (headKind o) = none := by
  have none : ∀ k ∈ enders, Grammar.binaryOp? k = none := by decide
  exact none _ ends

/-- A primary that is the whole of an expression. -/
theorem Takes.binary_of_primary (h : Takes (n + 1) (primary (below n)) i o good)
    (start : unaryOp? (headKind i) = none) (ends : Ends o) :
    Takes (n + 1) (Grammar.binary (below n) power) i o good :=
  (((h.chained ends.not_chainers).unary start).coerced (ends.ne (by decide))).binary ends.binaryOp?

/-- A chain of calls and accesses that is the whole of an expression. -/
theorem Takes.binary_of_chained (h : Takes (n + 1) (Grammar.chained (below n)) i o good)
    (start : unaryOp? (headKind i) = none) (ends : Ends o) :
    Takes (n + 1) (Grammar.binary (below n) power) i o good :=
  ((h.unary start).coerced (ends.ne (by decide))).binary ends.binaryOp?

variable {e : Expr}

/-- An expression in parentheses is a primary, whatever follows. -/
theorem Takes.primary (legible : e.Legible) :
    Takes (n + 1) (primary (below n)) (e.words k) k fun e' => e'.bare = e.bare := by
  refine .after .kind fun kind here => ?_
  obtain rfl : kind = .lparen := here
  refine .first .next fun opening _ => ?_
  refine (Reads.skipNewlines ((legible.begins _).ne (by decide))).bind fun _ _ => ?_
  have inner : Takes n ((below n).binary 1) (e.inner (spelled .rparen :: k))
      (spelled .rparen :: k) fun e' => e'.bare = e.bare := by
    rw [below_eq n]
    exact .forFewer fun m _ => legible.takes m k
  refine inner.reads.bind fun e' same => ?_
  refine (Reads.skipNewlines (by simp)).bind fun _ _ => ?_
  exact (Takes.expect rfl).reads.bind fun close _ => .pure same

theorem Takes.below_binary (legible : e.Legible) (ends : Ends k) :
    Takes n ((below n).binary power) (e.words k) k fun e' => e'.bare = e.bare := by
  rw [below_eq n]
  exact .forFewer fun m _ => .binary_of_primary (.primary legible) rfl ends

theorem Takes.below_expr (legible : e.Legible) (ends : Ends k) :
    Takes n (below n).expr (e.words k) k fun e' => e'.bare = e.bare :=
  .below_binary legible ends

theorem Takes.below_unary (legible : e.Legible) (ends : Ends k) :
    Takes n (below n).unary (e.words k) k fun e' => e'.bare = e.bare := by
  rw [below_eq n]
  exact .forFewer fun m _ => ((Takes.primary legible).chained ends.not_chainers).unary rfl

/-- Expressions between commas. -/
theorem Takes.exprList {values : List Expr} (some : values ≠ [])
    (legible : ∀ e ∈ values, e.Legible) (ends : Ends k) (stop : headKind k ≠ .comma) :
    Takes n (below n).exprList (listed (values.map Expr.words) k) k fun values' =>
      values'.map Expr.bare = values.map Expr.bare :=
  .commaList some (fun e mem _ follows => .below_expr (legible e mem) (follows.ends ends))
    (fun _ _ _ => begins_cons (by decide)) stop

/-- An expression in parentheses is a statement. -/
theorem legible_value {span : Span} (legible : e.Legible) : (Stmt.mk span (.value e)).Legible := by
  refine ⟨fun k => begins_cons (by decide), fun n k line => ?_⟩
  have ends : Ends k := by rw [Ends, line]; decide
  refine .after .kind fun kind here => ?_
  obtain rfl : kind = .lparen := here
  refine .first (.binary_of_primary (.primary legible) rfl ends) fun e' same => ?_
  refine (Reads.ate_other (by simp [line])).bind fun assign none => ?_
  rw [none]
  exact .pure (by simp [Stmt.ofExpr, Stmt.bare, same])

end Levels

end Grammar

end Frontend
