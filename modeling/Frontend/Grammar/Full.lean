import Frontend.Grammar.Stmt

/-!
The full grammar: its rules, tied to each other. A rule called from inside a rule works on fewer
tokens than the rule that calls it, so the rules for streams of a size are those whose calls go to
the rules for smaller sizes.
-/
namespace Frontend.Grammar

/-- A parser for streams with less than `n` tokens, given one for each smaller size. -/
def forFewer {α : Type} (n : Nat) (p : (m : Nat) → m < n → Parser α) : Parser α := fun c =>
  if h : c.remaining < n then p c.remaining h c else .error (.pointAt c.place .stalled) c

/-- The rules for streams with less than `n` tokens. -/
def below (n : Nat) : Rules :=
  { binary := fun power => forFewer n fun m _ => binary (below m) power
    unary := forFewer n fun m _ => unary (below m)
    typeExpr := forFewer n fun m _ => typeExpr (below m)
    pattern := forFewer n fun m _ => pattern (below m)
    destructuring := forFewer n fun m _ => destructuring (below m)
    statement := forFewer n fun m _ => statement (below m) }
termination_by n

/-- A parser that calls rules, with the rules for what is left of the stream. -/
def withRules {α : Type} (p : Rules → Parser α) : Parser α := fun c => p (below c.remaining) c

/-- The rules for all streams. -/
def full : Rules where
  binary power := withRules fun rules => binary rules power
  unary := withRules unary
  typeExpr := withRules typeExpr
  pattern := withRules pattern
  destructuring := withRules destructuring
  statement := withRules statement

theorem below_eq (n : Nat) : below n =
    { binary := fun power => forFewer n fun m _ => binary (below m) power
      unary := forFewer n fun m _ => unary (below m)
      typeExpr := forFewer n fun m _ => typeExpr (below m)
      pattern := forFewer n fun m _ => pattern (below m)
      destructuring := forFewer n fun m _ => destructuring (below m)
      statement := forFewer n fun m _ => statement (below m) } := by
  rw [below]

theorem forFewer_apply {α : Type} {n : Nat} {p : (m : Nat) → m < n → Parser α} {c : Cursor}
    (h : c.remaining < n) : forFewer n p c = p c.remaining h c := by
  simp [forFewer, h]

/-- On a stream that is short enough, the rules for short streams are the rules for all streams. -/
theorem below_statement {n : Nat} {c : Cursor} (h : c.remaining < n) :
    (below n).statement c = full.statement c := by
  rw [below_eq]
  show forFewer n (fun m _ => statement (below m)) c = _
  exact forFewer_apply h

theorem below_binary {n power : Nat} {c : Cursor} (h : c.remaining < n) :
    (below n).binary power c = full.binary power c := by
  rw [below_eq]
  show forFewer n (fun m _ => binary (below m) power) c = _
  exact forFewer_apply h

theorem below_unary {n : Nat} {c : Cursor} (h : c.remaining < n) :
    (below n).unary c = full.unary c := by
  rw [below_eq]
  show forFewer n (fun m _ => unary (below m)) c = _
  exact forFewer_apply h

theorem below_typeExpr {n : Nat} {c : Cursor} (h : c.remaining < n) :
    (below n).typeExpr c = full.typeExpr c := by
  rw [below_eq]
  show forFewer n (fun m _ => typeExpr (below m)) c = _
  exact forFewer_apply h

theorem below_pattern {n : Nat} {c : Cursor} (h : c.remaining < n) :
    (below n).pattern c = full.pattern c := by
  rw [below_eq]
  show forFewer n (fun m _ => pattern (below m)) c = _
  exact forFewer_apply h

theorem below_destructuring {n : Nat} {c : Cursor} (h : c.remaining < n) :
    (below n).destructuring c = full.destructuring c := by
  rw [below_eq]
  show forFewer n (fun m _ => destructuring (below m)) c = _
  exact forFewer_apply h

end Frontend.Grammar
