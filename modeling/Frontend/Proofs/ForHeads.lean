import Frontend.Proofs.ArrayElements
import Frontend.Proofs.Destructurings
import Frontend.Proofs.LooseStmts
import Frontend.Proofs.NestingExprs

/-!
What stands behind `for`. A look ahead that counts braces tells `x in xs` from a condition. It sees
every destructuring with `in` behind it; and where it sees one, no condition with a block can be
read, since an expression there ends in front of the same `in` or even before, and no statement
begins there. So of the two readings of a `for` the one that fails is never preferred.
-/
namespace Frontend.Grammar

open Grammar.Parser
open Token (Kind)

variable {c c' : Cursor} {rules : Rules}

section Braces

variable {tokens inner rest : List Token} {opening close : Token}

/-- Tokens that begin with braces which nest, and what stands behind these. -/
def Enclosed (tokens rest : List Token) : Prop :=
  ∃ opening inner close, opening.kind = .lbrace ∧ close.kind = .rbrace ∧
    braceDepth 0 inner = some 0 ∧ tokens = opening :: (inner ++ close :: rest)

/-- A look ahead that counts braces finds the end of a pair. -/
theorem bracesSize_closed (is_opening : opening.kind = .lbrace) (is_close : close.kind = .rbrace)
    (nested : braceDepth 0 inner = some 0) :
    bracesSize 0 (opening :: (inner ++ close :: rest)) = inner.length + 2 := by
  rw [bracesSize, if_pos is_opening, bracesSize_append nested, bracesSize,
    if_neg (by simp [is_close]), if_pos is_close, if_pos (Nat.le_refl _)]
  omega

/-- Where braces follow the name that a destructuring may begin with, what stands behind them
decides. -/
theorem thenIn_enclosed (enclosed : Enclosed (tokens.drop (nameEnd tokens)) rest) :
    ThenIn tokens ↔ firstKind rest = .inWord := by
  obtain ⟨opening, inner, close, is_opening, is_close, nested, behind⟩ := enclosed
  have stop : targetEnd tokens = nameEnd tokens + (inner.length + 2) := by
    unfold targetEnd
    rw [behind, bracesSize_closed is_opening is_close nested, if_pos]
    exact is_opening
  have left : tokens.drop (targetEnd tokens) = rest := by
    rw [stop, ← List.drop_drop, behind]
    simp
  unfold ThenIn
  rw [left]
  exact and_iff_right (by omega)

/-- Parts in braces, as they are read. -/
theorem enclosed_run {α : Type} {what what' : String} {list : Parser α} {a : α} {c₁ c₂ : Cursor}
    (nested : Nests 0 0 whatever list) (proper : c.Proper)
    (opens : expect .lbrace what c = .ok opening c₁) (run : list c₁ = .ok a c₂)
    (closes : expect .rbrace what' c₂ = .ok close c') : Enclosed c.upcoming c'.upcoming := by
  obtain ⟨is_opening, -, passes₁⟩ := expect_passes rfl opens
  have proper₁ := passes₁.proper proper
  have ends := nested c₁ proper₁ trivial
  rw [run] at ends
  obtain ⟨inner, passes₂, -, depth⟩ := ends
  have proper₂ := passes₂.proper proper₁
  obtain ⟨is_close, -, passes₃⟩ := expect_passes rfl closes
  refine ⟨c.token 0, inner, c₂.token 0, is_opening, is_close, depth, ?_⟩
  rw [passes₁.upcoming proper, passes₂.upcoming proper₁, passes₃.upcoming proper₂]
  rfl

/-- What a cursor has passed is dropped from what it had in front. -/
theorem Cursor.Passes.drop {taken : List Token} (passes : c.Passes taken c') (proper : c.Proper) :
    c.upcoming.drop taken.length = c'.upcoming := by
  rw [passes.upcoming proper, List.drop_left]

/-- A literal of a record or a tuple is a name, if there is one, and braces that nest. -/
theorem enclosed_recordOrTuple {e : Expr} (nesting : rules.Nesting) (proper : c.Proper)
    (run : recordOrTuple rules c = .ok e c') :
    Enclosed (c.upcoming.drop (if (c.token 0).kind = .ident then 1 else 0)) c'.upcoming := by
  obtain ⟨name, c₁, ate, run⟩ := bind_eq_ok.mp run
  obtain ⟨opening, c₂, opens, run⟩ := bind_eq_ok.mp run
  obtain ⟨fields, c₃, list, run⟩ := bind_eq_ok.mp run
  obtain ⟨close, c₄, closes, run⟩ := bind_eq_ok.mp run
  cases run
  have fields_nest : Nests 0 0 whatever (closedList .rbrace (literalField rules)) :=
    .closedList (nests_literalField nesting)
  obtain ⟨ident, -, passes⟩ | ⟨other, -, passes⟩ := eat_passes rfl ate
  · rw [if_pos ident]
    exact passes.drop proper ▸ enclosed_run fields_nest (passes.proper proper) opens list closes
  · rw [if_neg other]
    exact passes.drop proper ▸ enclosed_run fields_nest (passes.proper proper) opens list closes

/-- The fields of a destructuring stand in braces that nest, behind its name. -/
theorem enclosed_recordDestructuring {d : Destructuring} (nesting : rules.Nesting)
    (proper : c.Proper) (run : recordDestructuring rules c = .ok d c') :
    Enclosed (c.upcoming.drop (nameEnd c.upcoming)) c'.upcoming := by
  obtain ⟨found, c₁, named, run⟩ := bind_eq_ok.mp run
  obtain ⟨opening, c₂, opens, run⟩ := bind_eq_ok.mp run
  obtain ⟨fields, c₃, list, run⟩ := bind_eq_ok.mp run
  obtain ⟨close, c₄, closes, run⟩ := bind_eq_ok.mp run
  cases run
  obtain ⟨head, passes, size⟩ := recordHead_passes proper named
  have fields_nest : Nests 0 0 whatever
      (closedListWithRest .rbrace (fieldDestructuring rules) restBinder) :=
    .closedListWithRest (nests_fieldDestructuring nesting) nests_restBinder
  rw [← size, passes.drop proper]
  exact enclosed_run fields_nest (passes.proper proper) opens list closes

end Braces

/-- Where the readings of a `for` differ: an operand is not followed by this kind, and no statement
begins with it. -/
def EndsOperand (k : Kind) : Prop := k = .inWord ∨ k = .colonColon

section Runs

variable {σ β : Type} {turn : σ → Parser (Turn σ β)} {s : σ} {b : β}

/-- A repetition ends with a turn that is the last one. -/
theorem iterate_last (b' : β) {mid : Cursor} (run : iterate turn s c = .ok b c')
    (last : turn s c = .ok (.done b') mid) : c' = mid := by
  rw [iterate_done last] at run
  cases run
  rfl

/-- A repetition that comes to an end had a first turn. -/
theorem iterate_begins (run : iterate turn s c = .ok b c') : ∃ t mid, turn s c = .ok t mid := by
  cases first : turn s c with
  | ok t mid => exact ⟨t, mid, rfl⟩
  | error f mid =>
    rw [iterate_error first] at run
    cases run

theorem skipWhile_run {kinds : Kind → Bool} (other : kinds (c.token 0).kind = false) :
    skipWhile kinds c = .ok () (c.receive 0) := by
  apply iterate_done
  refine bind_eq_ok.mpr ⟨_, _, kind_run c, ?_⟩
  rw [other]
  rfl

end Runs

section Operands

variable {power : Nat} {e : Expr}

/-- Behind an operand that such a kind follows no part of an expression is read. -/
theorem binary_ends (plain : unaryOp? (c.token 0).kind = none)
    (operand : ∀ e mid, primary rules (c.receive 0) = .ok e mid → EndsOperand (mid.token 0).kind)
    (run : binary rules power c = .ok e c') : EndsOperand (c'.token 0).kind := by
  obtain ⟨e₃, c₁, run, operators⟩ := bind_eq_ok.mp run
  obtain ⟨e₂, c₂, run, types⟩ := bind_eq_ok.mp run
  obtain ⟨k, c₃, seen, run⟩ := bind_eq_ok.mp run
  obtain ⟨rfl, rfl⟩ := kind_eq_ok seen
  rw [plain] at run
  obtain ⟨e₁, mid, run, accesses⟩ := bind_eq_ok.mp run
  have ends := operand e₁ mid run
  obtain rfl : c₂ = mid.receive 0 := by
    refine iterate_last e₁ accesses (bind_eq_ok.mpr ⟨_, _, kind_run mid, ?_⟩)
    obtain here | here := ends <;> rw [here] <;> rfl
  have ends₂ : EndsOperand ((mid.receive 0).token 0).kind := by rwa [Cursor.token_receive]
  obtain rfl : c₁ = (mid.receive 0).receive 0 := by
    have other : ((mid.receive 0).token 0).kind ≠ .asWord := by
      obtain here | here := ends₂ <;> rw [here] <;> nofun
    exact iterate_last e₂ types (bind_eq_ok.mpr ⟨_, _, ate_run other, rfl⟩)
  have ends₁ : EndsOperand (((mid.receive 0).receive 0).token 0).kind := by
    rwa [Cursor.token_receive]
  obtain rfl : c' = ((mid.receive 0).receive 0).receive 0 := by
    refine iterate_last e₃ operators (bind_eq_ok.mpr ⟨_, _, kind_run _, ?_⟩)
    obtain here | here := ends₁ <;> rw [here] <;> rfl
  rwa [Cursor.token_receive]

/-- No expression begins with such a kind. -/
theorem binary_not_begins (run : binary rules power c = .ok e c') :
    ¬ EndsOperand (c.token 0).kind := by
  intro here
  obtain ⟨_, c₁, run, -⟩ := bind_eq_ok.mp run
  obtain ⟨_, c₂, run, -⟩ := bind_eq_ok.mp run
  obtain ⟨k, c₃, seen, run⟩ := bind_eq_ok.mp run
  obtain ⟨rfl, rfl⟩ := kind_eq_ok seen
  have plain : unaryOp? (c.token 0).kind = none := by
    obtain here | here := here <;> rw [here] <;> rfl
  rw [plain] at run
  obtain ⟨_, c₄, run, -⟩ := bind_eq_ok.mp run
  obtain ⟨k, c₅, seen, run⟩ := bind_eq_ok.mp run
  obtain ⟨rfl, rfl⟩ := kind_eq_ok seen
  rw [Cursor.token_receive] at run
  obtain here | here := here <;> rw [here] at run <;> cases run

/-- No statement begins with such a kind. -/
theorem statement_not_begins {s : Stmt} (run : statement rules c = .ok s c') :
    ¬ EndsOperand (c.token 0).kind := by
  intro here
  obtain ⟨k, c₁, seen, run⟩ := bind_eq_ok.mp run
  obtain ⟨rfl, rfl⟩ := kind_eq_ok seen
  have expr : exprStmt rules (c.receive 0) = .ok s c' := by
    obtain here | here := here <;> rwa [here] at run
  obtain ⟨_, c₂, run, -⟩ := bind_eq_ok.mp expr
  apply binary_not_begins run
  rwa [Cursor.token_receive]

/-- A rule for short streams yields what it yields by rules for shorter ones. -/
theorem of_forFewer {α : Type} {n : Nat} {p : (m : Nat) → m < n → Parser α} {a : α}
    (run : forFewer n p c = .ok a c') : ∃ m less, p m less c = .ok a c' := by
  unfold forFewer at run
  split at run
  next less => exact ⟨_, less, run⟩
  next => cases run

/-- Rules that yield what those for some short stream yield. -/
structure Rules.Grounded (rules : Rules) : Prop where
  expr : ∀ {c e c'}, rules.expr c = .ok e c' → ∃ m, Grammar.binary (below m) 1 c = .ok e c'
  destructuring : ∀ {c d c'}, rules.destructuring c = .ok d c' →
    ∃ m, Grammar.destructuring (below m) c = .ok d c'
  statement : ∀ {c s c'}, rules.statement c = .ok s c' →
    ∃ m, Grammar.statement (below m) c = .ok s c'

theorem grounded_below (n : Nat) : (below n).Grounded := by
  rw [below_eq]
  constructor
  · intro c e c' run
    obtain ⟨m, -, run⟩ := of_forFewer (p := fun m _ => binary (below m) 1) run
    exact ⟨m, run⟩
  · intro c d c' run
    obtain ⟨m, -, run⟩ := of_forFewer (p := fun m _ => destructuring (below m)) run
    exact ⟨m, run⟩
  · intro c s c' run
    obtain ⟨m, -, run⟩ := of_forFewer (p := fun m _ => statement (below m)) run
    exact ⟨m, run⟩

theorem grounded_full : full.Grounded :=
  ⟨fun run => ⟨_, run⟩, fun run => ⟨_, run⟩, fun run => ⟨_, run⟩⟩

/-- No block begins with such a kind. -/
theorem block_not_begins {stmts : List Stmt} (grounded : rules.Grounded)
    (run : block rules [.endWord] c = .ok stmts c') : ¬ EndsOperand (c.token 0).kind := by
  intro here
  obtain ⟨t, mid, turn⟩ := iterate_begins run
  obtain ⟨_, c₁, skip, turn⟩ := bind_eq_ok.mp turn
  have skipped : skipSeparators c = .ok () (c.receive 0) := by
    apply skipWhile_run
    obtain here | here := here <;> rw [here] <;> rfl
  rw [skipped] at skip
  cases skip
  obtain ⟨k, c₂, seen, turn⟩ := bind_eq_ok.mp turn
  obtain ⟨rfl, rfl⟩ := kind_eq_ok seen
  rw [Cursor.token_receive] at turn
  have open_ : (c.token 0).kind ∉ [Kind.endWord] := by
    obtain here | here := here <;> rw [here] <;> decide
  have going : ¬ (c.token 0).kind.isTerminal = true := by
    obtain here | here := here <;> rw [here] <;> decide
  rw [if_neg open_, if_neg going] at turn
  obtain ⟨s, c₃, run, -⟩ := bind_eq_ok.mp turn
  obtain ⟨m, run⟩ := grounded.statement run
  apply statement_not_begins run
  rwa [Cursor.token_receive, Cursor.token_receive]

end Operands

section Readings

theorem Cursor.Still.proper {d : Cursor} (still : c.Still d) (proper : c.Proper) : d.Proper :=
  ⟨still.upcoming ▸ proper.plain, still.last ▸ proper.ends⟩

/-- Without braces behind it, the name itself is followed by `in`. -/
theorem thenIn_bare (proper : c.Proper) (bare : (c.token (nameEnd c.upcoming)).kind ≠ .lbrace) :
    ThenIn c.upcoming ↔
      nameEnd c.upcoming ≠ 0 ∧ (c.token (nameEnd c.upcoming)).kind = .inWord := by
  have stop : targetEnd c.upcoming = nameEnd c.upcoming :=
    if_neg (mt (proper.kind_token (k := .lbrace) rfl _).mpr bare)
  rw [ThenIn, stop, proper.kind_token (k := .inWord) rfl]

/-- What is read as a destructuring with `in` behind it is seen by the look ahead. -/
theorem thenIn_of_destructuring {d : Destructuring} (nesting : rules.Nesting) (proper : c.Proper)
    (run : destructuring rules c = .ok d c') (next : (c'.token 0).kind = .inWord) :
    ThenIn c.upcoming := by
  have behind : c'.Proper := by
    have nests : Nests 0 0 whatever (destructuring rules) := nests_destructuring nesting
    have ends := nests c proper trivial
    rw [run] at ends
    obtain ⟨taken, passes, -⟩ := ends
    exact passes.proper proper
  have record : ∀ mid : Cursor, mid.Proper → mid.upcoming = c.upcoming →
      recordDestructuring rules mid = .ok d c' → ThenIn c.upcoming := by
    intro mid proper' same run
    have enclosed := enclosed_recordDestructuring nesting proper' run
    rw [same] at enclosed
    rw [thenIn_enclosed enclosed]
    exact (behind.kind_token (k := .inWord) rfl 0).mp next
  obtain ⟨k, c₁, seen, run⟩ := bind_eq_ok.mp run
  obtain ⟨rfl, rfl⟩ := kind_eq_ok seen
  generalize shown : (c.token 0).kind = kind at run
  split at run
  next =>
    obtain ⟨after, c₂, looked, run⟩ := bind_eq_ok.mp run
    cases looked
    rw [Cursor.token_receive, Cursor.token_receive] at run
    split at run
    · exact record _ ((proper.receive 0).receive 1) (by simp) run
    next plain =>
      obtain ⟨name, c₃, named, run⟩ := bind_eq_ok.mp run
      cases run
      obtain ⟨-, -, passes⟩ := expect_passes rfl named
      have second := passes.kind_token ((proper.receive 0).receive 1) 0
      simp only [Cursor.token_receive, List.length_singleton, next] at second
      have one : nameEnd c.upcoming = 1 := by
        rw [nameEnd_eq proper, if_pos shown, if_neg fun colons => plain (.inr colons)]
      rw [thenIn_bare proper (one ▸ fun brace => plain (.inl brace)), one]
      exact ⟨Nat.one_ne_zero, second.symm⟩
  · exact record _ (proper.receive 0) (by simp) run
  · cases run

/-- Where the look ahead sees a destructuring and `in`, an operand ends in front of the `in`, or in
front of the case of an enum. -/
theorem primary_ends {e : Expr} (nesting : rules.Nesting) (proper : c.Proper)
    (thenIn : ThenIn c.upcoming) (run : primary rules c = .ok e c') :
    EndsOperand (c'.token 0).kind := by
  have record : ∀ mid : Cursor, mid.Proper → c.Still mid →
      nameEnd c.upcoming = (if (c.token 0).kind = .ident then 1 else 0) →
      recordOrTuple rules mid = .ok e c' → EndsOperand (c'.token 0).kind := by
    intro mid proper' still named run
    have enclosed := enclosed_recordOrTuple nesting proper' run
    rw [still.upcoming, still.token, ← named] at enclosed
    exact .inl (kind_of_firstKind ((thenIn_enclosed enclosed).mp thenIn) nofun)
  have still : c.Still c := ⟨rfl, rfl⟩
  obtain ⟨k, c₁, seen, run⟩ := bind_eq_ok.mp run
  obtain ⟨rfl, rfl⟩ := kind_eq_ok seen
  have named := nameEnd_eq proper
  -- A name with braces and braces alone are a record over the same braces that the look ahead has
  -- passed; a name without braces is an operand of its own.
  by_cases ident : (c.token 0).kind = .ident
  · rw [if_pos ident] at named
    rw [ident, if_neg (by decide)] at run
    obtain ⟨after, c₂, looked, run⟩ := bind_eq_ok.mp run
    cases looked
    rw [Cursor.token_receive, Cursor.token_receive] at run
    by_cases brace : (c.token 1).kind = .lbrace
    · rw [if_pos brace] at run
      rw [if_neg (by rw [brace]; nofun)] at named
      exact record _ ((proper.receive 0).receive 1) ((still.receive 0).receive 1)
        (named.trans (if_pos ident).symm) run
    · rw [if_neg brace] at run
      obtain ⟨name, c₃, took, run⟩ := bind_eq_ok.mp run
      cases run
      obtain ⟨-, -, passes⟩ := expect_passes rfl took
      have second := passes.kind_token ((proper.receive 0).receive 1) 0
      simp only [Cursor.token_receive, List.length_singleton] at second
      rw [second]
      by_cases colons : (c.token 1).kind = .colonColon
      · exact .inr colons
      · rw [if_neg colons] at named
        exact .inl (named ▸ ((thenIn_bare proper (named ▸ brace)).mp thenIn).2)
  · rw [if_neg ident] at named
    by_cases brace : (c.token 0).kind = .lbrace
    · rw [brace, if_neg (by decide)] at run
      exact record _ (proper.receive 0) (still.receive 0) (named.trans (if_neg ident).symm) run
    · exact absurd named ((thenIn_bare proper (named ▸ brace)).mp thenIn).1

/-- A destructuring begins with a name or a brace. -/
theorem unaryOp?_of_thenIn (proper : c.Proper) (thenIn : ThenIn c.upcoming) :
    unaryOp? (c.token 0).kind = none := by
  by_cases ident : (c.token 0).kind = .ident
  · rw [ident]
    rfl
  have named : nameEnd c.upcoming = 0 := (nameEnd_eq proper).trans (if_neg ident)
  by_cases brace : (c.token 0).kind = .lbrace
  · rw [brace]
    rfl
  · exact absurd named ((thenIn_bare proper (named ▸ brace)).mp thenIn).1

/-- The reading of a `for` as a loop over a range. -/
def eachReading (rules : Rules) : Parser StmtForm := do
  let target ← rules.destructuring
  let _ ← expect .inWord "'in' of 'for' statement"
  let range ← rules.expr
  let body ← block rules [.endWord]
  pure (.forEach target range body)

/-- The reading of a `for` as a loop with a condition. -/
def whileReading (rules : Rules) : Parser StmtForm := do
  let cond ← rules.expr
  let body ← block rules [.endWord]
  pure (.whileTrue cond body)

theorem forBody_eq (rules : Rules) : forBody rules = destructuringThenIn >>= fun answer =>
    if answer = true then eachReading rules else whileReading rules :=
  rfl

/-- Where the look ahead sees a destructuring and `in`, no condition with a block can be read. -/
theorem whileReading_fails (grounded : rules.Grounded) (proper : c.Proper)
    (thenIn : ThenIn c.upcoming) : ∃ f c', whileReading rules c = .error f c' := by
  cases ends : whileReading rules c with
  | error f c' => exact ⟨f, c', rfl⟩
  | ok form c' =>
    obtain ⟨cond, mid, head, run⟩ := bind_eq_ok.mp ends
    obtain ⟨body, _, run, -⟩ := bind_eq_ok.mp run
    obtain ⟨m, head⟩ := grounded.expr head
    have operand : ∀ e mid, primary (below m) (c.receive 0) = .ok e mid →
        EndsOperand (mid.token 0).kind := fun e mid run =>
      primary_ends (nesting_below m) (proper.receive 0) (by simpa using thenIn) run
    have ended := binary_ends (unaryOp?_of_thenIn proper thenIn) operand head
    exact absurd ended (block_not_begins grounded run)

end Readings

/-- The look ahead of a `for` is exact. It sees every destructuring with `in` behind it, and where
it sees one, the tokens do not begin with a condition and a block; so the body of a `for` is read
whenever one of its two readings is there. Cursors on the same tokens may have received more or less
of them. -/
theorem destructuringThenIn_exact {c : Cursor} (proper : c.Proper) :
    ∃ answer c₀, destructuringThenIn c = .ok answer c₀ ∧ c.Still c₀ ∧
      (∀ d, c.Still d → ∀ target d', full.destructuring d = .ok target d' →
        (d'.token 0).kind = .inWord → answer = true) ∧
      (answer = true → ∀ d, c.Still d → ∃ f d', whileReading full d = .error f d') ∧
      ∀ rules, rules = full ∨ (∃ n, rules = below n) → ∀ form c',
        eachReading rules c₀ = .ok form c' ∨ whileReading rules c₀ = .ok form c' →
          forBody rules c = .ok form c' := by
  obtain ⟨c₀, still, looked⟩ := destructuringThenIn_eq proper
  refine ⟨_, c₀, looked, still, ?_, ?_, ?_⟩
  · intro d still target d' run next
    have thenIn := thenIn_of_destructuring (nesting_below _) (still.proper proper) run next
    rw [still.upcoming] at thenIn
    exact decide_eq_true thenIn
  · intro answer d still
    apply whileReading_fails grounded_full (still.proper proper)
    rw [still.upcoming]
    exact of_decide_eq_true answer
  · intro rules grammar form c' reading
    have grounded : rules.Grounded := by
      obtain rfl | ⟨n, rfl⟩ := grammar
      · exact grounded_full
      · exact grounded_below n
    rw [forBody_eq]
    refine bind_eq_ok.mpr ⟨_, c₀, looked, ?_⟩
    obtain each | cond := reading
    · obtain ⟨target, mid, head, run⟩ := bind_eq_ok.mp each
      obtain ⟨_, _, word, -⟩ := bind_eq_ok.mp run
      have next := (expect_passes rfl word).1
      obtain ⟨m, head⟩ := grounded.destructuring head
      have thenIn := thenIn_of_destructuring (nesting_below m) (still.proper proper) head next
      rw [still.upcoming] at thenIn
      rwa [if_pos (decide_eq_true thenIn)]
    · have other : ¬ ThenIn c.upcoming := by
        intro thenIn
        obtain ⟨f, d', failed⟩ :=
          whileReading_fails grounded (still.proper proper) (still.upcoming ▸ thenIn)
        rw [failed] at cond
        cases cond
      rwa [if_neg (by simpa using other)]

/-- A record in front of `in`. -/
theorem destructuringThenIn_exact_record :
    let at_ (n : Nat) : Span := ⟨⟨n, 1, n + 1⟩, ⟨n + 1, 1, n + 2⟩⟩
    let c := Cursor.ofTokens [⟨.lbrace, "\x7b", at_ 0⟩, ⟨.ident, "x", at_ 1⟩,
      ⟨.rbrace, "\x7d", at_ 2⟩, ⟨.inWord, "in", at_ 3⟩, ⟨.ident, "y", at_ 4⟩,
      ⟨.newline, "\n", at_ 5⟩, ⟨.endWord, "end", at_ 6⟩]
    c.Proper ∧ ∃ c₀ form c', destructuringThenIn c = .ok true c₀ ∧
      eachReading full c₀ = .ok form c' ∧ forBody full c = .ok form c' ∧
      ∃ f d', whileReading full c = .error f d' := by
  intro at_ c
  have proper : c.Proper := Cursor.proper_ofTokens _
  obtain ⟨target, d', run, next⟩ : ∃ target d', full.destructuring c = .ok target d' ∧
      (d'.token 0).kind = .inWord := ⟨_, _, by cbv, by decide⟩
  obtain ⟨mid, form, c', here, each⟩ : ∃ mid form c', destructuringThenIn c = .ok true mid ∧
      eachReading full mid = .ok form c' := ⟨_, _, _, by cbv, by cbv⟩
  obtain ⟨answer, c₀, looked, -, sees, fails, finds⟩ := destructuringThenIn_exact proper
  obtain rfl : answer = true := sees c ⟨rfl, rfl⟩ target d' run next
  rw [looked] at here
  cases here
  have found := finds full (.inl rfl) form c' (.inl each)
  exact ⟨proper, mid, form, c', looked, each, found, fails rfl c ⟨rfl, rfl⟩⟩

end Frontend.Grammar
