import Frontend.Grammar.Stmt
import Frontend.Proofs.ParsedTypes

/-!
Statements and expressions that the grammar yields are well formed, as long as the rules that they
call yield such trees. Promotion of a block keeps well-formed trees well formed, and what it puts
statements in front of is the value of a branch.
-/
namespace Frontend.Grammar

open Frontend.Grammar.Parser
open Token (Kind)

section Promotion

variable {fits : Literal → Prop}

/-- A block split into the statements in front and a value is the body of a branch. -/
theorem isBody_blockValue {parts : List Stmt × Expr} (lead_formed : ∀ s ∈ parts.1, s.Formed fits)
    (last_formed : parts.2.Formed fits) : (blockValue parts).IsBody fits := by
  obtain ⟨lead, value⟩ := parts
  cases lead with
  | nil => exact .plain last_formed
  | cons first rest => exact .seq (List.cons_ne_nil _ _) lead_formed last_formed

/-- What holds of the first parts of pairs holds of pairs with the same first parts. -/
theorem forall_fst_of_map_eq {α β γ : Type} {good : α → Prop} {xs : List (α × β)}
    {ys : List (α × γ)} (same : ys.map (·.1) = xs.map (·.1)) (h : ∀ x ∈ xs, good x.1) :
    ∀ y ∈ ys, good y.1 := by
  intro y mem
  have found : y.1 ∈ xs.map (·.1) := same ▸ List.mem_map_of_mem mem
  obtain ⟨x, x_mem, eq⟩ := List.mem_map.mp found
  exact eq ▸ h x x_mem

mutual

/-- A statement that has a value has a well-formed one. -/
theorem promote_formed : ∀ (s : Stmt) {e : Expr}, s.Formed fits → promote s = .ok e → e.Formed fits
  | ⟨_, .value e⟩, _, .value formed, h => by
    cases h
    exact formed
  | ⟨span, .ifThen cond thenBlock elseBlock⟩, _, .ifThen cond_formed then_formed else_formed, h =>
    by
    obtain ⟨then_, else_, then_run, else_run, rfl⟩ := promote_ifThen_eq_ok h
    obtain ⟨then_lead, then_last⟩ := promoteLast_formed _ thenBlock then_formed then_run
    obtain ⟨else_lead, else_last⟩ := promoteLast_formed _ elseBlock else_formed else_run
    exact .ifThen cond_formed (isBody_blockValue then_lead then_last)
      (isBody_blockValue else_lead else_last)
  | ⟨span, .switch cases elseBlock⟩, _, .switch nonempty conds blocks else_formed, h => by
    obtain ⟨values, else_, cases_run, else_run, rfl⟩ := promote_switch_eq_ok h
    obtain ⟨else_lead, else_last⟩ := promoteLast_formed _ elseBlock else_formed else_run
    obtain ⟨same, values⟩ := promoteCases_formed _ _ cases blocks cases_run
    refine .switch ?_ (forall_fst_of_map_eq same conds) values
      (isBody_blockValue else_lead else_last)
    rintro rfl
    exact nonempty (by simpa using same.symm)
  | ⟨span, .matchWith subject arms elseBlock⟩, _,
      .matchWith subject_formed nonempty patterns blocks else_formed, h => by
    obtain ⟨values, else_, arms_run, else_run, rfl⟩ := promote_matchWith_eq_ok h
    obtain ⟨else_lead, else_last⟩ := promoteLast_formed _ elseBlock else_formed else_run
    obtain ⟨same, values⟩ := promoteArms_formed _ _ arms blocks arms_run
    refine .matchWith subject_formed ?_ (forall_fst_of_map_eq same patterns) values
      (isBody_blockValue else_lead else_last)
    rintro rfl
    exact nonempty (by simpa using same.symm)

theorem promoteLast_formed (hint : Position) : ∀ (stmts : List Stmt) {parts : List Stmt × Expr},
    (∀ s ∈ stmts, s.Formed fits) → promoteLast hint stmts = .ok parts →
    (∀ s ∈ parts.1, s.Formed fits) ∧ parts.2.Formed fits
  | [], _, _, h => by cases h
  | [s], _, formed, h => by
    obtain ⟨value, run, rfl⟩ := promoteLast_single_eq_ok h
    exact ⟨nofun, promote_formed s (formed s (by simp)) run⟩
  | s :: next :: rest, _, formed, h => by
    obtain ⟨lead, value, run, rfl⟩ := promoteLast_cons_eq_ok h
    have ⟨first_formed, rest_formed⟩ := List.forall_mem_cons.mp formed
    obtain ⟨lead_formed, last_formed⟩ := promoteLast_formed hint (next :: rest) rest_formed run
    exact ⟨List.forall_mem_cons.mpr ⟨first_formed, lead_formed⟩, last_formed⟩

theorem promoteCases_formed (start : Position) (n : Nat) :
    ∀ (cases : List (Expr × List Stmt)) {values : List (Expr × Expr)},
    (∀ c ∈ cases, ∀ s ∈ c.2, s.Formed fits) → promoteCases start n cases = .ok values →
    values.map (·.1) = cases.map (·.1) ∧ ∀ c ∈ values, c.2.IsBody fits
  | [], _, _, h => by
    cases h
    exact ⟨rfl, nofun⟩
  | (cond, block) :: rest, _, formed, h => by
    obtain ⟨parts, values, run, rest_run, rfl⟩ := promoteCases_cons_eq_ok h
    have ⟨first_formed, rest_formed⟩ := List.forall_mem_cons.mp formed
    obtain ⟨lead, last⟩ := promoteLast_formed start block first_formed run
    obtain ⟨same, bodies⟩ := promoteCases_formed start (n + 1) rest rest_formed rest_run
    exact ⟨by simp [same], List.forall_mem_cons.mpr ⟨isBody_blockValue lead last, bodies⟩⟩

theorem promoteArms_formed (start : Position) (n : Nat) :
    ∀ (arms : List (Pattern × List Stmt)) {values : List (Pattern × Expr)},
    (∀ a ∈ arms, ∀ s ∈ a.2, s.Formed fits) → promoteArms start n arms = .ok values →
    values.map (·.1) = arms.map (·.1) ∧ ∀ a ∈ values, a.2.IsBody fits
  | [], _, _, h => by
    cases h
    exact ⟨rfl, nofun⟩
  | (pattern, block) :: rest, _, formed, h => by
    obtain ⟨parts, values, run, rest_run, rfl⟩ := promoteArms_cons_eq_ok h
    have ⟨first_formed, rest_formed⟩ := List.forall_mem_cons.mp formed
    obtain ⟨lead, last⟩ := promoteLast_formed start block first_formed run
    obtain ⟨same, bodies⟩ := promoteArms_formed start (n + 1) rest rest_formed rest_run
    exact ⟨by simp [same], List.forall_mem_cons.mpr ⟨isBody_blockValue lead last, bodies⟩⟩

end

/-- A block that has a value is the body of a branch. -/
theorem promoteBlock_isBody {hint : Position} {stmts : List Stmt} {e : Expr}
    (formed : ∀ s ∈ stmts, s.Formed fits) (h : promoteBlock hint stmts = .ok e) :
    e.IsBody fits := by
  obtain ⟨parts, run, rfl⟩ := promoteBlock_eq_ok h
  obtain ⟨lead, last⟩ := promoteLast_formed hint stmts formed run
  exact isBody_blockValue lead last

end Promotion

variable {rules : Rules}

theorem yields_block (sound : rules.Sound) {closers : List Kind} :
    Yields (block rules closers) fun stmts => ∀ s ∈ stmts, s.Formed Literal.Fits := by
  refine .iterate (fun stmts => ∀ s ∈ stmts, s.Formed Literal.Fits) nofun ?_
  intro stmts known
  refine .step fun _ => .step fun k => .ite (fun _ => .pure ?_) fun _ => ?_
  · simpa [Turn.Keeps] using known
  refine .ite (fun _ => .unexpected) fun _ => ?_
  refine sound.statement.bind fun s s_formed => .step fun k => ?_
  exact .ite (fun _ => .pure (List.forall_mem_cons.mpr ⟨s_formed, known⟩)) fun _ => .unexpected

theorem yields_elseBlock (sound : rules.Sound) :
    Yields (elseBlock rules) fun stmts => ∀ s ∈ stmts, s.Formed Literal.Fits :=
  .step fun _ => .ite (fun _ => yields_block sound) fun _ => .pure nofun

theorem yields_ifStmt (sound : rules.Sound) :
    Yields (ifStmt rules) (Stmt.Formed Literal.Fits) := by
  refine .step fun word => (sound.binary 1).bind fun cond cond_formed => .step fun _ => ?_
  refine (yields_block sound).bind fun thenBlock then_formed => ?_
  refine (yields_elseBlock sound).bind fun elseBlock else_formed => .step fun close => ?_
  exact .pure (.ifThen cond_formed then_formed else_formed)

/-- Branches that are good, one by one; there is at least one. -/
theorem yields_branches {α : Type} {word : Kind} {what : String} {branch : Parser α}
    {good : α → Prop} (each : Yields branch good) :
    Yields (branches word what branch) fun all => all ≠ [] ∧ ∀ b ∈ all, good b := by
  have found : Yields (iterate (fun found => do
      if ← ate word then
        let b ← branch
        pure (.again (b :: found))
      else pure (.done found.reverse)) []) fun all => ∀ b ∈ all, good b := by
    refine .iterate (fun found => ∀ b ∈ found, good b) nofun fun found known => ?_
    refine .step fun _ => .ite (fun _ => ?_) fun _ => .pure ?_
    · exact each.bind fun b b_good => .pure (List.forall_mem_cons.mpr ⟨b_good, known⟩)
    · simpa [Turn.Keeps] using known
  refine found.bind fun all all_good => .ite (fun _ => .unexpected) fun some => .pure ?_
  exact ⟨by simpa using some, all_good⟩

theorem yields_switchCase (sound : rules.Sound) : Yields (switchCase rules) fun c =>
    c.1.Formed Literal.Fits ∧ ∀ s ∈ c.2, s.Formed Literal.Fits := by
  refine (sound.binary 1).bind fun cond cond_formed => .step fun _ => ?_
  exact (yields_block sound).bind fun stmts formed => .pure ⟨cond_formed, formed⟩

theorem yields_switchStmt (sound : rules.Sound) :
    Yields (switchStmt rules) (Stmt.Formed Literal.Fits) := by
  refine .step fun word => .step fun _ => ?_
  refine (yields_branches (yields_switchCase sound)).bind fun cases ⟨nonempty, formed⟩ => ?_
  refine (yields_elseBlock sound).bind fun elseBlock else_formed => .step fun close => .pure ?_
  exact .switch nonempty (fun c mem => (formed c mem).1) (fun c mem => (formed c mem).2) else_formed

theorem yields_matchArm (sound : rules.Sound) : Yields (matchArm rules) fun a =>
    a.1.Formed Literal.Fits ∧ ∀ s ∈ a.2, s.Formed Literal.Fits := by
  refine sound.pattern.bind fun p p_formed => .step fun _ => ?_
  exact (yields_block sound).bind fun stmts formed => .pure ⟨p_formed, formed⟩

theorem yields_matchStmt (sound : rules.Sound) :
    Yields (matchStmt rules) (Stmt.Formed Literal.Fits) := by
  refine .step fun word => (sound.binary 1).bind fun subject subject_formed => .step fun _ => ?_
  refine (yields_branches (yields_matchArm sound)).bind fun arms ⟨nonempty, formed⟩ => ?_
  refine (yields_elseBlock sound).bind fun elseBlock else_formed => .step fun close => .pure ?_
  exact .matchWith subject_formed nonempty (fun a mem => (formed a mem).1)
    (fun a mem => (formed a mem).2) else_formed

theorem yields_literal (t : Token) (minus : Option Position) :
    Yields (literal t minus) (Expr.Formed Literal.Fits) := by
  unfold literal
  split
  next value read => exact .pure (.literal (Literal.read_fits read))
  next => exact .fail

theorem yields_blockBody (sound : rules.Sound) (hint : Position) :
    Yields (blockBody rules hint) (Expr.IsBody Literal.Fits) := by
  refine (yields_block sound).bind fun stmts formed => .step fun _ => .ofExcept fun e run => ?_
  exact promoteBlock_isBody formed run

/-- Parameters of which none has a type. -/
def Untyped (params : List Param) : Prop := ∀ p ∈ params, p.type = none

theorem yields_lambdaParams : Yields lambdaParams Untyped := by
  refine .step fun names => .pure fun p mem => ?_
  obtain ⟨name, -, rfl⟩ := List.mem_map.mp mem
  rfl

theorem yields_doBlock (sound : rules.Sound) :
    Yields (doBlock rules) (Expr.IsDoBlock Literal.Fits) := by
  refine .step fun word => .step fun ahead => ?_
  refine .ite_bind yields_lambdaParams nofun fun params untyped => ?_
  refine (yields_blockBody sound _).bind fun body formed => .step fun stop => ?_
  exact .pure (.lambda untyped formed)

theorem yields_namedArg (sound : rules.Sound) :
    Yields (namedArg rules) fun arg => arg.2.Formed Literal.Fits :=
  .step fun _ => .step fun _ => .step fun _ => (sound.binary 1).bind fun _ formed =>
    .pure formed

theorem yields_callEnd (sound : rules.Sound) : Yields (callEnd rules) fun found =>
    ∀ b, found.2 = some b → b.IsDoBlock Literal.Fits := by
  refine .step fun close => .step fun k => .ite (fun _ => ?_) fun _ => .pure nofun
  refine (yields_doBlock sound).bind fun body formed => .pure fun b eq => ?_
  obtain rfl := Option.some.inj eq
  exact formed

/-- A list in front of which neither its end nor a newline stands has an item. -/
theorem closedList_ne_nil {α : Type} {close : Kind} {item : List α → Parser α} {items : List α}
    {c c' : Cursor} (run : closedList close item c = .ok items c')
    (open_ : (c.token 0).kind ≠ close) (word : (c.token 0).kind ≠ .newline) : items ≠ [] := by
  obtain ⟨_, mid, skipped, run⟩ := bind_eq_ok.mp run
  have stays : skipNewlines c = .ok () (c.receive 0) := by
    refine iterate_done (bind_eq_ok.mpr ⟨_, c.receive 0, rfl, ?_⟩)
    rw [if_neg (by simpa using word)]
    rfl
  obtain rfl : mid = c.receive 0 := by rw [stays] at skipped; cases skipped; rfl
  refine iterate_ok (fun items c => items = [] → (c.token 0).kind ≠ close) (· ≠ [])
    (fun _ => by rwa [Cursor.token_receive]) (fun items c t c' known run => ?_) run
  obtain ⟨k, c₁, look, run⟩ := bind_eq_ok.mp run
  cases look
  rw [Cursor.token_receive] at run
  split at run
  next stop =>
    cases run
    exact fun empty => known (by simpa using empty) stop
  next =>
    obtain ⟨more, c₂, -, run⟩ := bind_eq_ok.mp run
    obtain ⟨_, c₃, -, run⟩ := bind_eq_ok.mp run
    obtain ⟨comma, c₄, -, run⟩ := bind_eq_ok.mp run
    split at run
    · obtain ⟨_, c₅, -, run⟩ := bind_eq_ok.mp run
      cases run
      exact fun empty => nomatch empty
    · cases run
      simp [Turn.Keeps]

theorem yields_call (sound : rules.Sound) {callee : Expr}
    (callee_formed : callee.Formed Literal.Fits) :
    Yields (call rules callee) (Expr.Formed Literal.Fits) := by
  have unnamed : Yields (closedList .rparen (fun _ => rules.expr) >>= fun args =>
      callEnd rules >>= fun last => pure ⟨⟨callee.span.start, last.1⟩, .call callee args last.2⟩)
      (Expr.Formed Literal.Fits) := by
    refine (Yields.closedList (sound.binary 1)).bind fun args args_formed => ?_
    exact (yields_callEnd sound).bind fun last block_formed =>
      .pure (.call callee_formed args_formed block_formed)
  have named : ∀ c e c', (c.token 0).kind = .ident →
      (closedList .rparen (fun _ => namedArg rules) >>= fun args => callEnd rules >>= fun last =>
        pure (⟨⟨callee.span.start, last.1⟩, .callNamed callee args last.2⟩ : Expr)) c = .ok e c' →
      e.Formed Literal.Fits := by
    intro c e c' word run
    obtain ⟨args, mid, args_run, run⟩ := bind_eq_ok.mp run
    have args_formed := Yields.closedList (yields_namedArg sound) c args mid args_run
    have nonempty := closedList_ne_nil args_run (by simp [word]) (by simp [word])
    refine ((yields_callEnd sound).bind fun last block_formed => .pure ?_) mid e c' run
    exact .callNamed callee_formed nonempty args_formed block_formed
  intro c e c' run
  unfold call at run
  obtain ⟨_, c₁, -, run⟩ := bind_eq_ok.mp run
  obtain ⟨_, c₂, -, run⟩ := bind_eq_ok.mp run
  obtain ⟨k, c₃, look, run⟩ := bind_eq_ok.mp run
  obtain ⟨rfl, rfl⟩ : (c₂.token 0).kind = k ∧ c₂.receive 0 = c₃ := by
    cases look
    exact ⟨by rw [Cursor.token_receive], rfl⟩
  dsimp only at run
  split at run
  next word =>
    obtain ⟨yes, c₄, look, run⟩ := bind_eq_ok.mp run
    obtain ⟨k, mid, look, yes_eq⟩ := bind_eq_ok.mp look
    cases yes_eq
    cases look
    split at run
    · exact named _ e c' (by simpa using word) run
    · exact unnamed _ e c' run
  · exact unnamed _ e c' run

theorem yields_indexAccess (sound : rules.Sound) {target : Expr}
    (target_formed : target.Formed Literal.Fits) :
    Yields (indexAccess rules target) (Expr.Formed Literal.Fits) := by
  refine .step fun _ => .step fun _ => (sound.binary 1).bind fun index index_formed => ?_
  exact .step fun _ => .step fun close => .pure (.index target_formed index_formed)

theorem yields_fieldAccess {target : Expr} (target_formed : target.Formed Literal.Fits) :
    Yields (fieldAccess target) (Expr.Formed Literal.Fits) :=
  .step fun _ => .step fun _ => .pure (.field target_formed)

/-- The fields of a literal: uniform, with well-formed values. -/
def GoodFields (fields : List (String × Expr)) : Prop :=
  Uniform fields ∧ ∀ f ∈ fields, f.2.Formed Literal.Fits

theorem yields_literalField (sound : rules.Sound) (fields : List (String × Expr))
    (good : GoodFields fields) :
    Yields (literalField rules fields) fun field => GoodFields (field :: fields) := by
  refine .step fun name => (yields_checkFieldName good.1).bind fun _ uniform => ?_
  refine .step fun _ => .step fun _ => (sound.binary 1).bind fun value formed => .pure ?_
  exact ⟨uniform value, by simpa [formed] using good.2⟩

theorem yields_recordOrTuple (sound : rules.Sound) :
    Yields (recordOrTuple rules) (Expr.Formed Literal.Fits) := by
  refine .step fun name => .step fun opening => ?_
  refine (Yields.closedList_of GoodFields ⟨.inl nofun, nofun⟩
    (yields_literalField sound)).bind fun fields good => .step fun close => .pure ?_
  have uniform : Uniform fields := by simpa using good.1.reverse
  have formed : ∀ f ∈ fields, f.2.Formed Literal.Fits := by simpa using good.2
  by_cases unnamed : areUnnamed fields = true
  · rw [if_pos unnamed]
    refine .tuple ?_ ?_
    · simpa using ne_nil_of_areUnnamed unnamed
    · intro e mem
      obtain ⟨f, f_mem, rfl⟩ := List.mem_map.mp mem
      exact formed f f_mem
  · rw [if_neg unnamed]
    exact .record (uniform.named unnamed) formed

theorem yields_arrayRest (sound : rules.Sound) {first : Expr}
    (first_formed : first.Formed Literal.Fits) :
    Yields (arrayRest rules first) fun elems => ∀ e ∈ elems, e.Formed Literal.Fits := by
  refine .iterate (fun elems => ∀ e ∈ elems, e.Formed Literal.Fits) (by simpa) ?_
  intro elems known
  have finished : ∀ e ∈ elems.reverse, e.Formed Literal.Fits := by simpa using known
  refine .step fun comma => .ite (fun _ => ?_) fun _ => .pure finished
  refine .step fun _ => .step fun k => .ite (fun _ => .pure finished) fun _ => ?_
  refine (sound.binary 1).bind fun e formed => .step fun _ => .pure ?_
  exact List.forall_mem_cons.mpr ⟨formed, known⟩

/-- Keys and values of a dictionary are well formed. -/
def GoodPair (pair : Expr × Expr) : Prop :=
  pair.1.Formed Literal.Fits ∧ pair.2.Formed Literal.Fits

theorem yields_dictRest (sound : rules.Sound) {first : Expr × Expr} (first_good : GoodPair first) :
    Yields (dictRest rules first) fun elems => ∀ kv ∈ elems, GoodPair kv := by
  refine .iterate (fun elems => ∀ kv ∈ elems, GoodPair kv) (by simpa) ?_
  intro elems known
  have finished : ∀ kv ∈ elems.reverse, GoodPair kv := by simpa using known
  refine .step fun comma => .ite (fun _ => ?_) fun _ => .pure finished
  refine .step fun _ => .step fun k => .ite (fun _ => .pure finished) fun _ => ?_
  refine (sound.binary 1).bind fun key key_formed => .step fun _ => .step fun _ => .step fun _ => ?_
  refine (sound.binary 1).bind fun value value_formed => .step fun _ => .pure ?_
  exact List.forall_mem_cons.mpr ⟨⟨key_formed, value_formed⟩, known⟩

theorem yields_elements (sound : rules.Sound) :
    Yields (elements rules) fun form => ∀ span, Expr.Formed Literal.Fits ⟨span, form⟩ := by
  refine (sound.binary 1).bind fun first first_formed => .step fun _ => .step fun arrow => ?_
  refine .ite (fun _ => ?_) fun _ => ?_
  · refine .step fun _ => (sound.binary 1).bind fun value value_formed => ?_
    refine (yields_dictRest sound ⟨first_formed, value_formed⟩).bind fun elems good => ?_
    exact .pure fun span => .dict (fun kv mem => (good kv mem).1) fun kv mem => (good kv mem).2
  · refine (yields_arrayRest sound first_formed).bind fun elems formed => ?_
    exact .pure fun span => .array formed

theorem yields_arrayOrDict (sound : rules.Sound) :
    Yields (arrayOrDict rules) (Expr.Formed Literal.Fits) := by
  refine .step fun opening => .step fun _ => .step fun arrow => .ite (fun _ => ?_) fun _ => ?_
  · exact .step fun _ => .step fun close => .pure (.dict nofun nofun)
  refine .step fun close => ?_
  cases close with
  | some close => exact .pure (.array nofun)
  | none =>
    refine (yields_elements sound).bind fun form formed => ?_
    exact .step fun _ => .step fun close => .pure (formed _)

theorem yields_lambdaBody (sound : rules.Sound) (hasParams : Bool) :
    Yields (lambdaBody rules hasParams) (Expr.IsBody Literal.Fits) := by
  have plain : Yields rules.expr (Expr.IsBody Literal.Fits) :=
    Yields.mono (sound.binary 1) fun e formed => .plain formed
  refine .step fun word => ?_
  cases word with
  | some word => exact yields_blockBody sound _
  | none => exact .ite (fun _ => .step fun _ => .step fun _ => plain) fun _ => plain

theorem yields_lambda (sound : rules.Sound) :
    Yields (lambda rules) (Expr.Formed Literal.Fits) := by
  refine .step fun arrow => .step fun hasParams => ?_
  refine .ite_bind yields_lambdaParams nofun fun params untyped => ?_
  refine (yields_lambdaBody sound hasParams).bind fun body formed => .step fun stop => ?_
  exact .pure (.lambda untyped formed)

theorem yields_parenthesized (sound : rules.Sound) :
    Yields (parenthesized rules) (Expr.Formed Literal.Fits) := by
  refine .step fun _ => .step fun _ => (sound.binary 1).bind fun e formed => ?_
  exact .step fun _ => .step fun _ => .pure formed

theorem yields_branchingValue {stmt : Parser Stmt} (h : Yields stmt (Stmt.Formed Literal.Fits)) :
    Yields (branchingValue stmt) (Expr.Formed Literal.Fits) :=
  h.bind fun s formed => .ofExcept fun _ run => promote_formed s formed run

theorem yields_primary (sound : rules.Sound) :
    Yields (primary rules) (Expr.Formed Literal.Fits) := by
  refine .step fun k => .ite (fun _ => .step fun t => yields_literal t _) fun _ => ?_
  split
  · refine .step fun after => .ite (fun _ => yields_recordOrTuple sound) fun _ => ?_
    exact .step fun name => .pure .variable
  · exact yields_recordOrTuple sound
  · exact yields_arrayOrDict sound
  · exact yields_parenthesized sound
  · exact yields_lambda sound
  · exact yields_branchingValue (yields_ifStmt sound)
  · exact yields_branchingValue (yields_switchStmt sound)
  · exact yields_branchingValue (yields_matchStmt sound)
  · exact .unexpected

theorem yields_chained (sound : rules.Sound) :
    Yields (chained rules) (Expr.Formed Literal.Fits) := by
  refine (yields_primary sound).bind fun operand formed => ?_
  refine .iterate (Expr.Formed Literal.Fits) formed fun e formed => .step fun k => ?_
  split
  · exact (yields_call sound formed).bind fun e formed => .pure formed
  · exact (yields_indexAccess sound formed).bind fun e formed => .pure formed
  · exact (yields_fieldAccess formed).bind fun e formed => .pure formed
  · exact .pure formed

theorem yields_prefixed (sound : rules.Sound) (op : UnaryOp) :
    Yields (prefixed rules op) (Expr.Formed Literal.Fits) :=
  .step fun _ => sound.unary.bind fun _ formed => .pure (.unary formed)

theorem yields_unary (sound : rules.Sound) :
    Yields (unary rules) (Expr.Formed Literal.Fits) := by
  refine .step fun k => ?_
  split
  · exact yields_chained sound
  · refine .step fun number => .ite (fun _ => ?_) fun _ => yields_prefixed sound _
    exact .step fun minus => .step fun t => yields_literal t _
  · exact yields_prefixed sound _

theorem yields_coerced (sound : rules.Sound) :
    Yields (coerced rules) (Expr.Formed Literal.Fits) := by
  refine (yields_unary sound).bind fun operand formed => ?_
  refine .iterate (Expr.Formed Literal.Fits) formed fun e formed => .step fun word => ?_
  refine .ite (fun _ => ?_) fun _ => .pure formed
  exact sound.typeExpr.bind fun t t_formed => .pure (.coerce formed t_formed)

theorem yields_binary (sound : rules.Sound) (power : Nat) :
    Yields (binary rules power) (Expr.Formed Literal.Fits) := by
  refine (yields_coerced sound).bind fun first formed => ?_
  refine .iterate (Expr.Formed Literal.Fits) formed fun lhs formed => .step fun k => ?_
  split
  · exact .pure formed
  · refine .ite (fun _ => .pure formed) fun _ => .step fun _ => .step fun _ => ?_
    exact (sound.binary _).bind fun rhs rhs_formed => .pure (.binary formed rhs_formed)

theorem yields_exprList (sound : rules.Sound) : Yields rules.exprList fun values =>
    values ≠ [] ∧ ∀ e ∈ values, e.Formed Literal.Fits :=
  .commaList (sound.binary 1)

theorem yields_declaration (sound : rules.Sound) :
    Yields (declaration rules) (Stmt.Formed Literal.Fits) := by
  refine .step fun word => (Yields.commaList sound.destructuring).bind
    fun targets targets_good => ?_
  refine .step fun _ => .step fun _ => (yields_exprList sound).bind fun values values_good => ?_
  exact .step fun stop => .pure
    (.declare targets_good.1 targets_good.2 values_good.1 values_good.2)

theorem yields_definition (sound : rules.Sound) :
    Yields (definition rules) (Stmt.Formed Literal.Fits) := by
  refine .step fun name => .step fun _ => .step fun _ => (sound.binary 1).bind
    fun value formed => ?_
  refine .pure (.declare (List.cons_ne_nil _ _) ?_ (List.cons_ne_nil _ _) ?_)
  · exact List.forall_mem_singleton.mpr .variable
  · exact List.forall_mem_singleton.mpr formed

theorem yields_assignment (sound : rules.Sound) :
    Yields (assignment rules) (Stmt.Formed Literal.Fits) := by
  refine .step fun first => (Yields.commaList (.any (p := expectIdent _))).bind fun names some => ?_
  refine .step fun _ => .step fun _ => (yields_exprList sound).bind fun values values_good => ?_
  exact .step fun stop => .pure (.assign (by simpa using some.1) values_good.1 values_good.2)

theorem formed_of_index {fits : Literal → Prop} {span : Span} {target index : Expr}
    (h : Expr.Formed fits ⟨span, .index target index⟩) :
    target.Formed fits ∧ index.Formed fits := by
  generalize eq : (⟨span, .index target index⟩ : Expr) = e at h
  cases h with
  | @literal _ value => cases value <;> cases eq
  | index target_formed index_formed => cases eq; exact ⟨target_formed, index_formed⟩
  | _ => cases eq

theorem yields_exprStmt (sound : rules.Sound) :
    Yields (exprStmt rules) (Stmt.Formed Literal.Fits) := by
  refine (yields_binary sound 1).bind fun e formed => .step fun assign => ?_
  refine .ite (fun _ => ?_) fun _ => .pure (.value formed)
  obtain ⟨span, form⟩ := e
  split
  next target index is_index =>
    obtain rfl := is_index
    obtain ⟨target_formed, index_formed⟩ := formed_of_index formed
    refine .step fun _ => (sound.binary 1).bind fun value value_formed => ?_
    exact .pure (.assignIndex target_formed index_formed value_formed)
  · exact .fail

theorem yields_retStmt (sound : rules.Sound) :
    Yields (retStmt rules) (Stmt.Formed Literal.Fits) := by
  refine .step fun word => .step fun k => ?_
  have some_values : Yields rules.exprList fun values => ∀ e ∈ values, e.Formed Literal.Fits :=
    (yields_exprList sound).mono fun values good => good.2
  have no_values : Yields (pure []) fun values : List Expr => ∀ e ∈ values, e.Formed Literal.Fits :=
    .pure nofun
  refine .ite (fun _ => no_values.bind ?_) fun _ => some_values.bind ?_
  all_goals exact fun values formed => .step fun stop => .pure (.ret formed)

theorem yields_forBody (sound : rules.Sound) :
    Yields (forBody rules) fun form => ∀ span, Stmt.Formed Literal.Fits ⟨span, form⟩ := by
  refine .step fun each => .ite (fun _ => ?_) fun _ => ?_
  · refine sound.destructuring.bind fun target target_formed => .step fun _ => ?_
    refine (sound.binary 1).bind fun range range_formed => ?_
    refine (yields_block sound).bind fun body body_formed => .pure fun span => ?_
    exact .forEach target_formed range_formed body_formed
  · refine (sound.binary 1).bind fun cond cond_formed => ?_
    refine (yields_block sound).bind fun body body_formed => .pure fun span => ?_
    exact .whileTrue cond_formed body_formed

theorem yields_forStmt (sound : rules.Sound) :
    Yields (forStmt rules) (Stmt.Formed Literal.Fits) :=
  .step fun _ => (yields_forBody sound).bind fun _ formed => .step fun _ => .pure (formed _)

theorem yields_statement (sound : rules.Sound) :
    Yields (statement rules) (Stmt.Formed Literal.Fits) := by
  refine .step fun k => ?_
  split
  · exact yields_declaration sound
  · exact yields_declaration sound
  · exact yields_retStmt sound
  · exact yields_ifStmt sound
  · exact yields_switchStmt sound
  · exact yields_matchStmt sound
  · exact yields_forStmt sound
  · refine .step fun after => ?_
    split
    · exact yields_definition sound
    · exact yields_assignment sound
    · exact yields_assignment sound
    · exact yields_exprStmt sound
  · exact yields_exprStmt sound

end Frontend.Grammar
