import Frontend.Proofs.Endings
import Frontend.Proofs.Groupings
import Frontend.Proofs.Reads

/-!
What is read from operands and the operators between them. Reading goes on with an operator that
binds tight enough, and its right side takes the operators behind that bind tighter. What has been
read at any point is a bound grouping of the chain up to there (`ReadUpTo`); the operator that
reading goes on with binds no tighter than the root of that grouping, which makes it the left side.
-/
namespace Frontend.Grammar

open Frontend.Grammar.Parser
open Token (Kind)

/-- An operator, newlines behind it, and the operand that follows. -/
structure Link where
  op : BinaryOp
  token : Token
  newlines : List Token
  operand : List Token
  kind_token : token.kind = op.kind
  blank : ∀ t ∈ newlines, t.kind = .newline

/-- The tokens of some links. -/
def chain (links : List Link) : List Token :=
  links.flatMap fun link => link.token :: (link.newlines ++ link.operand)

@[simp] theorem chain_nil : chain [] = [] := rfl

@[simp] theorem chain_cons (link : Link) (links : List Link) :
    chain (link :: links) = link.token :: (link.newlines ++ (link.operand ++ chain links)) := by
  simp [chain]

@[simp] theorem chain_append (before behind : List Link) :
    chain (before ++ behind) = chain before ++ chain behind :=
  List.flatMap_append

/-- Tokens that are read as one operand in front of every operator and of every token of such a
kind, with nothing of what stands behind them. -/
def IsOperand (stops : Kind → Prop) (tokens : List Token) : Prop :=
  ∀ (c : Cursor) (rest : List Token), c.Proper → c.upcoming = tokens ++ rest →
    (∃ op : BinaryOp, (c.token tokens.length).kind = op.kind) ∨ stops (c.token tokens.length).kind →
    ∃ e c', withRules coerced c = .ok e c' ∧ c'.upcoming = rest

/-- On the way from a point of a stream, `e` is read for the tokens of an operand in front of
`rest`. -/
def Cursor.ReadsOperand (start : Cursor) (tokens rest : List Token) (e : Expr) : Prop :=
  ∃ taken c c', start.Passes taken c ∧ c.upcoming = tokens ++ rest ∧
    withRules coerced c = .ok e c' ∧ c'.upcoming = rest

/-- The operators of some links in front of `rest`, each with what is read for its operand. -/
inductive ReadLinks (start : Cursor) (rest : List Token) : List Link → List (BinaryOp × Expr) → Prop
  | nil : ReadLinks start rest [] []
  | cons {link : Link} {links : List Link} {e : Expr} {read : List (BinaryOp × Expr)}
      (operand : start.ReadsOperand link.operand (chain links ++ rest) e)
      (others : ReadLinks start rest links read) :
      ReadLinks start rest (link :: links) ((link.op, e) :: read)

variable {start c mid c' : Cursor} {first tokens rest taken : List Token} {link : Link}
  {links before more behind : List Link} {lhs rhs g : Grouping} {e : Expr} {power : Nat}
  {stops : Kind → Prop}

theorem ReadLinks.append {read read' : List (BinaryOp × Expr)}
    (one : ReadLinks start (chain behind ++ rest) before read)
    (two : ReadLinks start rest behind read') :
    ReadLinks start rest (before ++ behind) (read ++ read') := by
  induction one with
  | nil => exact two
  | cons operand _ ih =>
    refine .cons ?_ ih
    simpa using operand

section Tokens

/-- The token behind some others is the first one of those behind, or the end. -/
theorem Cursor.token_length (ahead : c.upcoming = tokens ++ rest) :
    c.token tokens.length = rest[0]?.getD c.last := by
  rw [Cursor.token, ahead, List.getElem?_append_right (Nat.le_refl _), Nat.sub_self]

/-- Every point of a stream is come to by taking the tokens in front of it. -/
theorem Cursor.Proper.reaches (proper : c.Proper) (ahead : c.upcoming = tokens ++ rest) :
    ∃ c', c.Passes tokens c' ∧ c'.upcoming = rest := by
  induction tokens generalizing c with
  | nil => exact ⟨c, .stay, ahead⟩
  | cons t tokens ih =>
    have token : c.token 0 = t := by simp [Cursor.token, ahead]
    have going : (c.token 0).kind.isTerminal = false := by
      rw [token]
      exact proper.plain t (by simp [ahead])
    have one : c.Passes [t] (c.receive 0).advance := token ▸ .take .stay going
    obtain ⟨c', passes, ahead'⟩ := ih (one.proper proper) (by simp [ahead])
    exact ⟨c', one.trans passes, ahead'⟩

/-- No operand begins with a newline. -/
theorem coerced_newline (rules : Rules) (newline : (c.token 0).kind = .newline) :
    ∃ f c', coerced rules c = .error f c' := by
  have fails : ∃ f c', primary rules (c.receive 0) = .error f c' := by
    simp [primary, kind, kindAt, peekAt, bind, EStateM.bind, pure, EStateM.pure, Literal.isKind,
      unexpected, fail, newline]
  obtain ⟨f, c', error⟩ := fails
  refine ⟨f, c', ?_⟩
  simp [coerced, unary, chained, kind, kindAt, peekAt, bind, EStateM.bind, pure, EStateM.pure,
    newline, unaryOp?, error]

theorem IsOperand.dropWhile_newline (operand : IsOperand stops tokens) (proper : c.Proper)
    (ahead : c.upcoming = tokens ++ rest)
    (follow : (∃ op : BinaryOp, (c.token tokens.length).kind = op.kind) ∨
      stops (c.token tokens.length).kind) :
    c.upcoming.dropWhile (fun t => t.kind = .newline) = c.upcoming := by
  have head : (c.token 0).kind ≠ .newline := by
    intro newline
    obtain ⟨e, c', run, -⟩ := operand c rest proper ahead follow
    obtain ⟨f, failed, error⟩ := coerced_newline (below c.remaining) newline
    rw [withRules, error] at run
    cases run
  cases list : c.upcoming with
  | nil => rfl
  | cons t others => exact List.dropWhile_cons_of_neg (by simpa [Cursor.token, list] using head)

/-- Behind each operand of a chain stands an operator, or what the whole chain is in front of. -/
theorem follows (passes : start.Passes taken c)
    (ahead : c.upcoming = tokens ++ (chain links ++ rest))
    (stop : stops (rest[0]?.getD start.last).kind) :
    (∃ op : BinaryOp, (c.token tokens.length).kind = op.kind) ∨
      stops (c.token tokens.length).kind := by
  rw [Cursor.token_length ahead]
  cases links with
  | cons link links => exact .inl ⟨link.op, by simpa using link.kind_token⟩
  | nil =>
    cases rest with
    | cons t rest => exact .inr (by simpa using stop)
    | nil => exact .inr (by simpa [passes.kind_last] using stop)

/-- Newlines behind an operator are skipped up to its operand. -/
theorem skips_newlines (operand : IsOperand stops link.operand) (proper : start.Proper)
    (passes : start.Passes taken c) (ahead : c.upcoming = chain (link :: links) ++ rest)
    (stop : stops (rest[0]?.getD start.last).kind) :
    ∃ mid, skipNewlines ((c.receive 0).receive 0).advance = .ok () mid ∧
      (∃ taken, start.Passes taken mid) ∧ mid.upcoming = link.operand ++ (chain links ++ rest) := by
  have here : c.Proper := passes.proper proper
  have token : c.token 0 = link.token := by simp [Cursor.token, ahead]
  have going : (c.token 0).kind.isTerminal = false :=
    here.plain _ (by simp [token, ahead])
  have past : start.Passes (taken ++ [c.token 0]) ((c.receive 0).receive 0).advance := by
    simpa using Cursor.Passes.take (passes.receive 0) (by simpa using going)
  have going : ∀ k : Kind, decide (k = .newline) = true → k.isTerminal = false := by
    simp [Kind.isTerminal]
  obtain ⟨skipped, mid, run, further, behind⟩ := skipWhile_ok going (past.proper proper)
  refine ⟨mid, run, ⟨_, past.trans further⟩, behind.trans ?_⟩
  -- The operand does not begin with a newline of its own, so it is left as it is.
  have split : c.upcoming =
      (link.token :: link.newlines) ++ (link.operand ++ (chain links ++ rest)) := by
    simp [ahead]
  obtain ⟨front, reached, ahead_front⟩ := here.reaches split
  have kept := operand.dropWhile_newline (reached.proper here) ahead_front
    (follows (passes.trans reached) ahead_front stop)
  rw [ahead_front] at kept
  have blank : ∀ t ∈ link.newlines, decide (t.kind = .newline) = true := by
    simpa using link.blank
  calc ((c.receive 0).receive 0).advance.upcoming.dropWhile (fun t => t.kind = .newline)
    _ = (link.newlines ++ (link.operand ++ (chain links ++ rest))).dropWhile
          (fun t => t.kind = .newline) := by simp [ahead]
    _ = (link.operand ++ (chain links ++ rest)).dropWhile (fun t => t.kind = .newline) :=
      List.dropWhile_append_of_pos blank
    _ = link.operand ++ (chain links ++ rest) := kept

end Tokens

/-- What a turn of `binary` takes: an operator that binds tight enough, and its right side. -/
def operatorTurn (rules : Rules) (power : Nat) (lhs : Expr) : Parser (Turn Expr Expr) := do
  match binaryOp? (← kind) with
  | none => pure (.done lhs)
  | some (op, p) =>
    if p < power then pure (.done lhs)
    else
      let _ ← next
      skipNewlines
      let rhs ← rules.binary (p + 1)
      pure (.again ⟨lhs.span.through rhs.span, .binary op lhs rhs⟩)

theorem binary_eq (rules : Rules) (power : Nat) :
    binary rules power = coerced rules >>= iterate (operatorTurn rules power) :=
  rfl

section Turns

variable {rules : Rules} {left right : Expr} {op : BinaryOp}

theorem operatorTurn_stop (stop : binaryOp? (c.token 0).kind = none) :
    operatorTurn rules power left c = .ok (.done left) (c.receive 0) := by
  simp [operatorTurn, kind, kindAt, peekAt, bind, EStateM.bind, pure, EStateM.pure, stop]

theorem operatorTurn_weak (here : (c.token 0).kind = op.kind) (weak : op.power < power) :
    operatorTurn rules power left c = .ok (.done left) (c.receive 0) := by
  simp [operatorTurn, kind, kindAt, peekAt, bind, EStateM.bind, pure, EStateM.pure, here,
    binaryOp?_op_kind, weak]

theorem operatorTurn_again (here : (c.token 0).kind = op.kind) (tight : power ≤ op.power)
    (skipped : skipNewlines ((c.receive 0).receive 0).advance = .ok () mid)
    (read : rules.binary (op.power + 1) mid = .ok right c') :
    operatorTurn rules power left c =
      .ok (.again ⟨left.span.through right.span, .binary op left right⟩) c' := by
  simp [operatorTurn, kind, kindAt, peekAt, next, bind, EStateM.bind, pure, EStateM.pure, here,
    binaryOp?_op_kind, Nat.not_lt.mpr tight, skipped, read]

end Turns

/-- Of a chain, a grouping of the first operand and some links has been read, and the other links
are ahead. -/
structure ReadUpTo (start : Cursor) (first : List Token) (before behind : List Link)
    (rest : List Token) (g : Grouping) (c : Cursor) : Prop where
  passes : ∃ taken, start.Passes taken c
  ahead : c.upcoming = chain behind ++ rest
  first : start.ReadsOperand first (chain (before ++ behind) ++ rest) g.first
  links : ReadLinks start (chain behind ++ rest) before g.links
  bound : g.Bound

theorem goes_coerced (proper : c.Proper) : Goes c always (withRules coerced c) :=
  Advances.goes (fun _ => .withRules fun m => advances_coerced (advancing_below m)) proper

/-- An operand alone. -/
theorem ReadUpTo.operand (proper : start.Proper) (passes : start.Passes taken c)
    (ahead : c.upcoming = first ++ (chain links ++ rest))
    (run : withRules coerced c = .ok e c') (behind : c'.upcoming = chain links ++ rest) :
    ReadUpTo start first [] links rest (.operand e) c' := by
  have goes := goes_coerced (passes.proper proper)
  rw [run] at goes
  obtain ⟨further, passes', -⟩ := goes
  exact ⟨⟨_, passes.trans passes'⟩, behind, ⟨_, c, c', passes, ahead, run, behind⟩, .nil, .operand⟩

/-- An operator between what has been read in front of it and its right side. -/
theorem ReadUpTo.node (left : ReadUpTo start first before (link :: (more ++ behind)) rest lhs c)
    (right : ReadUpTo start link.operand more behind rest rhs c')
    (weaker : lhs.Root (link.op.power ≤ ·.power)) (tighter : rhs.Root (link.op.power < ·.power)) :
    ReadUpTo start first (before ++ link :: more) behind rest (.node link.op lhs rhs) c' := by
  refine ⟨right.passes, right.ahead, ?_, ?_, .node weaker tighter left.bound right.bound⟩
  · simpa [Grouping.first] using left.first
  · have operand :
        start.ReadsOperand link.operand (chain more ++ (chain behind ++ rest)) rhs.first := by
      simpa using right.first
    refine ReadLinks.append ?_ (.cons operand right.links)
    simpa using left.links

theorem ReadUpTo.receive (read : ReadUpTo start first before behind rest g c) (n : Nat) :
    ReadUpTo start first before behind rest g (c.receive n) := by
  obtain ⟨taken, passes⟩ := read.passes
  exact ⟨⟨taken, passes.receive n⟩, by simpa using read.ahead, read.first, read.links, read.bound⟩

/-- How reading operators of a power ends: with some more links read, and a root that binds tight
enough, in front of an operator that does not. -/
def EndsAt (start : Cursor) (first : List Token) (before links : List Link) (rest : List Token)
    (power : Nat) (r : EStateM.Result Fault Cursor Expr) : Prop :=
  ∃ more behind g c', r = .ok g.toExpr c' ∧ links = more ++ behind ∧
    ReadUpTo start first (before ++ more) behind rest g c' ∧ g.Root (power ≤ ·.power) ∧
    ∀ link ∈ behind.head?, link.op.power < power

theorem EndsAt.done (read : ReadUpTo start first before links rest g c)
    (tight : g.Root (power ≤ ·.power)) (weak : ∀ link ∈ links.head?, link.op.power < power) :
    EndsAt start first before links rest power (.ok g.toExpr (c.receive 0)) := by
  refine ⟨[], links, g, _, rfl, rfl, ?_, tight, weak⟩
  rw [List.append_nil]
  exact read.receive 0

theorem EndsAt.prepend {r : EStateM.Result Fault Cursor Expr}
    (h : EndsAt start first (before ++ more) behind rest power r) :
    EndsAt start first before (more ++ behind) rest power r := by
  obtain ⟨others, left, g, c', run, rfl, read, tight, weak⟩ := h
  exact ⟨more ++ others, left, g, c', run, by simp, by simpa using read, tight, weak⟩

/-- Chains of less than `n` links in front of `rest` are read, wherever they stand. -/
def ReadsChains (stops : Kind → Prop) (start : Cursor) (rest : List Token) (n : Nat) : Prop :=
  ∀ (tokens : List Token) (links : List Link) (power : Nat) (c : Cursor) (taken : List Token),
    links.length < n → (∀ operand ∈ tokens :: links.map Link.operand, IsOperand stops operand) →
    start.Passes taken c → c.upcoming = tokens ++ (chain links ++ rest) →
    EndsAt start tokens [] links rest power (full.binary power c)

section Chain

variable (proper : start.Proper) (stop : stops (rest[0]?.getD start.last).kind)

include proper stop

/-- A turn takes an operator that binds tight enough, and its right side with all that binds tighter
than it. The right side is a shorter chain. -/
theorem operatorTurn_node {n m : Nat} (shorter : ReadsChains stops start rest n)
    (fits : links.length < n)
    (operands : ∀ operand ∈ link.operand :: links.map Link.operand, IsOperand stops operand)
    (short : c.remaining < m) (read : ReadUpTo start first before (link :: links) rest lhs c)
    (tight : power ≤ link.op.power) (weaker : lhs.Root (link.op.power ≤ ·.power)) :
    ∃ more behind rhs c', links = more ++ behind ∧ c'.remaining < c.remaining ∧
      operatorTurn (below m) power lhs.toExpr c =
        .ok (.again (Grouping.node link.op lhs rhs).toExpr) c' ∧
      ReadUpTo start first (before ++ link :: more) behind rest (.node link.op lhs rhs) c' ∧
      ∀ next ∈ behind.head?, next.op.power ≤ link.op.power := by
  obtain ⟨taken, passes⟩ := read.passes
  have here : (c.token 0).kind = link.op.kind := by
    rw [← link.kind_token]
    simp [Cursor.token, read.ahead]
  obtain ⟨mid, skipped, ⟨further, passes'⟩, ahead⟩ :=
    skips_newlines (operands _ List.mem_cons_self) proper passes read.ahead stop
  obtain ⟨more, behind, rhs, c', run, rfl, right, tighter, stronger⟩ :=
    shorter link.operand links (link.op.power + 1) mid further fits operands passes' ahead
  rw [List.nil_append] at right
  -- The operator is taken, so there is less ahead, and less still behind the right side.
  have size : c.remaining = (chain (link :: (more ++ behind)) ++ rest).length := by
    rw [c.remaining_eq, read.ahead]
  have size_mid : mid.remaining = (link.operand ++ (chain (more ++ behind) ++ rest)).length := by
    rw [mid.remaining_eq, ahead]
  have size' : c'.remaining = (chain behind ++ rest).length := by
    rw [c'.remaining_eq, right.ahead]
  simp only [chain_cons, chain_append, List.length_append, List.length_cons] at size size_mid size'
  have right_run := (below_binary (show mid.remaining < m by omega)).trans run
  exact ⟨more, behind, rhs, c', rfl, by omega, operatorTurn_again here tight skipped right_run,
    .node read right weaker tighter, fun next mem => Nat.le_of_lt_succ (stronger next mem)⟩

variable (outside : ∀ k, stops k → binaryOp? k = none)

include outside

/-- The operators of a chain, a turn each. -/
theorem endsAt_operators {n m : Nat} {links before : List Link} {lhs : Grouping} {c : Cursor}
    (shorter : ReadsChains stops start rest n) (fits : links.length ≤ n)
    (operands : ∀ operand ∈ links.map Link.operand, IsOperand stops operand)
    (short : c.remaining < m) (read : ReadUpTo start first before links rest lhs c)
    (tight : lhs.Root (power ≤ ·.power))
    (next : ∀ link ∈ links.head?, lhs.Root (link.op.power ≤ ·.power)) :
    EndsAt start first before links rest power
      (iterate (operatorTurn (below m) power) lhs.toExpr c) := by
  induction size : links.length using Nat.strongRecOn generalizing links before lhs c with
  | ind k ih =>
    cases links with
    | nil =>
      obtain ⟨taken, passes⟩ := read.passes
      have last : c.token 0 = rest[0]?.getD c.last := by simp [Cursor.token, read.ahead]
      have none : binaryOp? (c.token 0).kind = none := by
        apply outside
        rw [last]
        cases rest with
        | nil => simpa [passes.kind_last] using stop
        | cons t rest => simpa using stop
      rw [iterate_done (operatorTurn_stop none)]
      exact .done read tight (by simp)
    | cons link links =>
      by_cases weak : link.op.power < power
      · have here : (c.token 0).kind = link.op.kind := by
          rw [← link.kind_token]
          simp [Cursor.token, read.ahead]
        rw [iterate_done (operatorTurn_weak here weak)]
        exact .done read tight (by simpa using weak)
      · have tight_op : power ≤ link.op.power := Nat.le_of_not_lt weak
        obtain ⟨more, behind, rhs, c', rfl, less, turn, node, next'⟩ :=
          operatorTurn_node proper stop shorter fits operands short read tight_op (next link rfl)
        simp only [List.length_cons, List.length_append] at fits size
        rw [iterate_again turn less, ← List.cons_append]
        apply EndsAt.prepend
        refine ih behind.length (by omega) (by omega) ?_ (by omega) node tight_op next' rfl
        intro operand mem
        apply operands
        rw [List.map_cons, List.map_append]
        exact List.mem_cons_of_mem _ (List.mem_append_right _ mem)

/-- A chain in front of `rest`, whatever it is made of. -/
theorem readsChains (n : Nat) : ReadsChains stops start rest n := by
  induction n with
  | zero => exact fun _ _ _ _ _ short => absurd short (Nat.not_lt_zero _)
  | succ n ih =>
    intro tokens links power c taken fits operands passes ahead
    have ⟨operand, others⟩ := List.forall_mem_cons.mp operands
    have here := passes.proper proper
    obtain ⟨e, c', run, behind⟩ := operand c _ here ahead (follows passes ahead stop)
    have read := ReadUpTo.operand proper passes ahead run behind
    have less : c'.remaining < c.remaining := by
      have goes := goes_coerced here
      rw [run] at goes
      obtain ⟨some, passes', taken_some⟩ := goes
      rw [passes'.remaining here]
      exact Nat.lt_add_of_pos_left (List.length_pos_iff.mpr (taken_some trivial))
    have first_read : full.binary power c =
        iterate (operatorTurn (below c.remaining) power) e c' := by
      show binary (below c.remaining) power c = _
      rw [binary_eq]
      simp only [bind, EStateM.bind, show coerced (below c.remaining) c = .ok e c' from run]
    rw [first_read]
    exact endsAt_operators proper stop outside ih (Nat.le_of_lt_succ fits) others less read trivial
      fun _ _ => trivial

end Chain

section Names

/-- The kinds that may go on with an expression: operators, and what stands behind an operand. -/
def Continues (k : Kind) : Prop :=
  (binaryOp? k).isSome ∨ k ∈ [.lbrace, .lparen, .lbracket, .dot, .asWord]

instance : DecidablePred Continues := fun _ => inferInstanceAs (Decidable (_ ∨ _))

theorem Cursor.kind_token_advance {t : Token} (ahead : c.upcoming = t :: rest) (n : Nat) :
    (c.advance.token n).kind = (c.token (n + 1)).kind := by
  have last := kind_last_advance c
  simp only [Cursor.token, upcoming_advance, ahead, List.tail_cons, List.getElem?_cons_succ]
  cases rest[n]? with
  | none => exact last
  | some t => rfl

/-- A name is taken where nothing goes on with it. -/
theorem primary_name (rules : Rules) {t : Token} (name : t.kind = .ident)
    (ahead : c.upcoming = t :: rest) (other : (c.token 1).kind ≠ .lbrace) :
    ∃ c', primary rules c = .ok ⟨t.span, .variable t.text⟩ c' ∧ c'.upcoming = rest ∧
      (c'.token 0).kind = (c.token 1).kind := by
  have token : c.token 0 = t := by simp [Cursor.token, ahead]
  refine ⟨((((c.receive 0).receive 1).receive 0).receive 0).advance, ?_, by simp [ahead], ?_⟩
  · simp [primary, kind, kindAt, peekAt, next, expectIdent, expect, eat, bind, EStateM.bind, pure,
      EStateM.pure, Literal.isKind, token, name, other]
  · have shown := Cursor.kind_token_advance (c := (((c.receive 0).receive 1).receive 0).receive 0)
      (by simpa using ahead) 0
    simpa using shown

/-- A name is an operand in front of what does not go on with it. -/
theorem isOperand_name {t : Token} (name : t.kind = .ident) : IsOperand (¬ Continues ·) [t] := by
  intro c rest proper ahead follow
  have plain : (c.token 1).kind ∉ [Kind.lbrace, .lparen, .lbracket, .dot, .asWord] := by
    obtain ⟨op, kind⟩ | other := follow
    · rw [show (c.token 1).kind = op.kind from kind]
      cases op <;> decide
    · exact fun mem => other (.inr mem)
  simp only [List.mem_cons, List.not_mem_nil, or_false, not_or] at plain
  obtain ⟨no_brace, no_paren, no_bracket, no_dot, no_as⟩ := plain
  have token : c.token 0 = t := by simp [Cursor.token, ahead]
  have ahead' : (c.receive 0).upcoming = t :: rest := by simpa using ahead
  obtain ⟨past, taken, behind, shown⟩ :=
    primary_name (below c.remaining) name ahead' (by simpa using no_brace)
  simp only [Cursor.token_receive] at shown
  have chained_eq : chained (below c.remaining) (c.receive 0) =
      .ok ⟨t.span, .variable t.text⟩ (past.receive 0) := by
    refine bind_ok taken (iterate_done ?_)
    simp [kind, kindAt, peekAt, bind, EStateM.bind, pure, EStateM.pure, shown]
  have unary_eq : unary (below c.remaining) c =
      .ok ⟨t.span, .variable t.text⟩ (past.receive 0) := by
    simp [unary, kind, kindAt, peekAt, bind, EStateM.bind, pure, EStateM.pure, token, name,
      unaryOp?, chained_eq]
  refine ⟨⟨t.span, .variable t.text⟩, (past.receive 0).receive 0,
    bind_ok unary_eq (iterate_done ?_), by simpa using behind⟩
  simp [ate, eat, kind, kindAt, peekAt, bind, EStateM.bind, pure, EStateM.pure, shown, no_as]

end Names

/-- Operands with operators between them, and newlines behind the operators, are read up to what
does not go on with an expression. They are grouped in their order, so that no operator has a left
side that binds weaker or a right side that does not bind tighter; and this is the only grouping of
them that does so. The kinds in front of which an operand ends are left open, as long as they are no
operators. -/
theorem expr_groups_by_power (outside : ∀ k, stops k → binaryOp? k = none)
    (operands : ∀ tokens ∈ first :: links.map Link.operand, IsOperand stops tokens)
    (proper : c.Proper) (ahead : c.upcoming = first ++ chain links ++ rest)
    (stop : stops (c.token (first ++ chain links).length).kind) :
    ∃ g c', full.expr c = .ok g.toExpr c' ∧ c'.upcoming = rest ∧
      c.ReadsOperand first (chain links ++ rest) g.first ∧ ReadLinks c rest links g.links ∧
      g.Bound ∧ ∀ other : Grouping, other.Bound → other.first = g.first →
        other.links = g.links → other = g := by
  rw [Cursor.token_length ahead] at stop
  rw [List.append_assoc] at ahead
  obtain ⟨more, behind, g, c', run, rfl, read, -, weak⟩ :=
    readsChains proper stop outside (links.length + 1) first links 1 c [] (Nat.lt_succ_self _)
      operands .stay ahead
  -- No operator binds weaker than the weakest one, so all of them have been read.
  have none : behind = [] := by
    cases behind with
    | nil => rfl
    | cons link behind =>
      have weaker := weak link rfl
      have power_pos : 1 ≤ link.op.power := by cases link.op <;> decide
      omega
  subst none
  refine ⟨g, c', run, by simpa using read.ahead, by simpa using read.first,
    by simpa using read.links, read.bound, ?_⟩
  exact fun other other_bound first links => read.bound.unique other_bound first links

/-- `- ⏎ b * c`, what stands behind `a`. -/
def minusProduct : List Link :=
  [⟨.sub, ⟨.minus, "-", default⟩, [⟨.newline, "", default⟩], [⟨.ident, "b", default⟩], rfl,
      by simp⟩,
    ⟨.mul, ⟨.star, "*", default⟩, [], [⟨.ident, "c", default⟩], rfl, nofun⟩]

/-- A product behind a minus, on a stream that is closed behind it. -/
theorem expr_groups_by_power_product :
    let c := Cursor.ofTokens (⟨.ident, "a", default⟩ :: chain minusProduct)
    c.Proper ∧ ∃ a b d c', full.expr c = .ok
        (Grouping.node .sub (.operand a) (.node .mul (.operand b) (.operand d))).toExpr c' ∧
      c'.upcoming = [] := by
  intro c
  have operands : ∀ tokens ∈ [⟨.ident, "a", default⟩] :: minusProduct.map Link.operand,
      IsOperand (¬ Continues ·) tokens := by
    simp only [minusProduct, List.map_cons, List.map_nil, List.forall_mem_cons]
    exact ⟨isOperand_name rfl, isOperand_name rfl, isOperand_name rfl, nofun⟩
  have proper : c.Proper := Cursor.proper_ofTokens _
  have outside : ∀ k, ¬ Continues k → binaryOp? k = none :=
    fun k other => by simpa using fun found => other (.inl found)
  have ahead : c.upcoming = [⟨.ident, "a", default⟩] ++ chain minusProduct ++ [] := rfl
  obtain ⟨g, c', run, behind, -, read, -, unique⟩ :=
    expr_groups_by_power outside operands proper ahead (by decide)
  have links : ∃ b d, g.links = [(.sub, b), (.mul, d)] := by
    generalize g.links = found at read
    cases read with
    | @cons _ _ b _ _ behind =>
      cases behind with
      | @cons _ _ d _ _ none =>
        cases none
        exact ⟨b, d, rfl⟩
  obtain ⟨b, d, links⟩ := links
  have tighter : BinaryOp.power .sub < BinaryOp.power .mul := by decide
  have product : (Grouping.node .mul (.operand b) (.operand d)).Bound :=
    .node trivial trivial .operand .operand
  have grouped := unique (.node .sub (.operand g.first) (.node .mul (.operand b) (.operand d)))
    (.node trivial tighter .operand product) rfl links.symm
  exact ⟨proper, g.first, b, d, c', by rw [grouped]; exact run, behind⟩

end Frontend.Grammar
