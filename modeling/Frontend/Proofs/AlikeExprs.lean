import Frontend.Grammar.Stmt
import Frontend.Proofs.AlikeBlocks

/-!
Expressions and statements are the same wherever their words stand. What is decided by a look ahead
is decided by words.
-/
namespace Frontend

/-- Where an expression stands is no part of what it is without places. -/
theorem Expr.bare_mk (span : Span) (form : ExprForm) :
    Expr.bare ⟨span, form⟩ = Expr.bare ⟨default, form⟩ := by
  cases form <;> rfl

/-- Where a statement stands is no part of what it is without places. -/
theorem Stmt.bare_mk (span : Span) (form : StmtForm) :
    Stmt.bare ⟨span, form⟩ = Stmt.bare ⟨default, form⟩ := by
  cases form <;> rfl

/-- Labels show no places. -/
theorem Expr.label_bare (e : Expr) : e.bare.form.label = e.form.label := by
  obtain ⟨_, form⟩ := e
  cases form with
  | record name fields => simp [Expr.bare, ExprForm.label, Function.comp_def]
  | lambda isDoBlock params body =>
    have names : ∀ p : Param, p.bare.name = p.name := fun ⟨_, _⟩ => by rw [Param.bare]
    simp [Expr.bare, ExprForm.label, Function.comp_def, names]
  | _ => simp [Expr.bare, ExprForm.label]

theorem Expr.form_index {e e' : Expr} {target index : Expr} (same : e.bare = e'.bare)
    (form : e.form = .index target index) : ∃ target' index',
      e'.form = .index target' index' ∧ target.bare = target'.bare ∧ index.bare = index'.bare := by
  obtain ⟨_, _⟩ := e
  obtain ⟨_, form'⟩ := e'
  subst form
  cases form' <;> simp [Expr.bare] at same
  next target' index' => exact ⟨target', index', rfl, same⟩

namespace Grammar

open Frontend.Grammar.Parser
open Token (Kind)

section Ahead

variable {ts us : List Token}

theorem identsThenSeparator_congr (same : ts.map Token.word = us.map Token.word) :
    identsThenSeparator ts = identsThenSeparator us := by
  induction ts using identsThenSeparator.induct generalizing us with
  | case1 =>
    obtain rfl := List.map_eq_nil_iff.mp same.symm
    rfl
  | case2 t =>
    obtain ⟨u, rfl, word⟩ := List.map_eq_singleton_iff.mp same.symm
    rw [identsThenSeparator, identsThenSeparator, show u.kind = t.kind from congrArg Prod.fst word]
  | case3 t after more other =>
    obtain ⟨u, _, rfl, word, rest⟩ := List.map_eq_cons_iff.mp same.symm
    obtain ⟨after', more', rfl, word', rest⟩ := List.map_eq_cons_iff.mp rest
    have kind : u.kind = t.kind := congrArg Prod.fst word
    rw [identsThenSeparator, identsThenSeparator, if_pos other, if_pos (kind ▸ other)]
  | case4 t after more ident comma answer n deeper ih =>
    obtain ⟨u, _, rfl, word, rest⟩ := List.map_eq_cons_iff.mp same.symm
    obtain ⟨after', more', rfl, word', rest⟩ := List.map_eq_cons_iff.mp rest
    have kind : u.kind = t.kind := congrArg Prod.fst word
    have kind' : after'.kind = after.kind := congrArg Prod.fst word'
    rw [identsThenSeparator, identsThenSeparator, kind, kind', ih rest.symm]
  | case5 t after more ident other =>
    obtain ⟨u, _, rfl, word, rest⟩ := List.map_eq_cons_iff.mp same.symm
    obtain ⟨after', more', rfl, word', rest⟩ := List.map_eq_cons_iff.mp rest
    have kind : u.kind = t.kind := congrArg Prod.fst word
    have kind' : after'.kind = after.kind := congrArg Prod.fst word'
    rw [identsThenSeparator, identsThenSeparator, kind, kind', if_neg other, if_neg other]

theorem bracesSize_congr {depth : Nat} (same : ts.map Token.word = us.map Token.word) :
    bracesSize depth ts = bracesSize depth us := by
  induction ts generalizing us depth with
  | nil =>
    obtain rfl := List.map_eq_nil_iff.mp same.symm
    rfl
  | cons t more ih =>
    obtain ⟨u, more', rfl, word, rest⟩ := List.map_eq_cons_iff.mp same.symm
    have kind : u.kind = t.kind := congrArg Prod.fst word
    simp only [bracesSize, kind, ih rest.symm]

end Ahead

theorem alike_doParamsAhead : Alike doParamsAhead doParamsAhead Eq :=
  .looking fun _ _ like => congrArg Prod.fst (identsThenSeparator_congr like.upcoming)

theorem alike_bracesEnd {n : Nat} : Alike (bracesEnd n) (bracesEnd n) Eq := by
  apply Alike.looking
  intro c d like
  have same := congrArg (List.drop n) like.upcoming
  rw [← List.map_drop, ← List.map_drop] at same
  rw [bracesSize_congr same]

variable {rules : Rules}

theorem alike_literal {kind : Kind} {text : String} {span span' : Span}
    {minus minus' : Option Position} (same : minus.isSome = minus'.isSome) :
    Alike (literal ⟨kind, text, span⟩ minus) (literal ⟨kind, text, span'⟩ minus') fun e e' =>
      e.bare = e'.bare := by
  simp only [literal, same]
  cases Literal.read kind minus'.isSome text with
  | error problem => exact .fail (.of_cause rfl rfl)
  | ok value =>
    apply Alike.pure
    cases value <;> rfl

theorem alike_blockBody (free : rules.Free) {hint hint' : Position} :
    Alike (blockBody rules hint) (blockBody rules hint') fun e e' => e.bare = e'.bare := by
  apply (alike_block free).bind
  intro stmts stmts' same
  apply Alike.expect.bind
  intro _ _ _
  exact alike_promoteBlock same

theorem alike_lambdaParams : Alike lambdaParams lambdaParams Eq := by
  have each : LayoutFree (expectIdent "parameter name") Token.text :=
    Alike.expectIdent.mono fun _ _ same => congrArg Prod.snd same
  apply (Alike.commaList each).bind
  intro names names' same
  apply Alike.pure
  simpa [Function.comp_def] using congrArg (List.map fun name => (⟨name, none⟩ : Param)) same

theorem alike_doBlock (free : rules.Free) : LayoutFree (doBlock rules) Expr.bare := by
  apply Alike.next.bind
  intro _ _ _
  apply alike_doParamsAhead.bind
  rintro ahead _ rfl
  apply Alike.ite_bind alike_lambdaParams (.pure rfl)
  rintro params _ rfl
  apply (alike_blockBody free).bind
  intro body body' same
  apply Alike.place.bind
  intro _ _ _
  apply Alike.pure
  simp [Expr.bare, same]

theorem alike_namedArg (free : rules.Free) :
    LayoutFree (namedArg rules) (Prod.map id Expr.bare) := by
  apply Alike.token_bind .expectIdent
  intro kind text span span'
  apply Alike.expect.bind
  intro _ _ _
  apply Alike.skipWhile.bind
  intro _ _ _
  apply (free.binary 1).bind
  intro value value' same
  apply Alike.pure
  simp [same]

theorem alike_callEnd (free : rules.Free) :
    LayoutFree (callEnd rules) (Option.map Expr.bare ·.2) := by
  apply Alike.expect.bind
  intro _ _ _
  apply Alike.kind_bind
  intro k
  apply Alike.ite
  · intro _
    apply (alike_doBlock free).bind
    intro body body' same
    apply Alike.pure
    simp [same]
  · intro _
    exact .pure rfl

theorem alike_call (free : rules.Free) {callee callee' : Expr}
    (callee_eq : callee.bare = callee'.bare) :
    Alike (call rules callee) (call rules callee') fun e e' => e.bare = e'.bare := by
  apply Alike.next.bind
  intro _ _ _
  apply Alike.skipWhile.bind
  intro _ _ _
  apply Alike.kind_bind
  intro k
  apply Alike.ite_bind (.kindAt_bind fun _ => .pure rfl) (.pure rfl)
  rintro named _ rfl
  apply Alike.ite
  · intro _
    apply Alike.bind (.closedList fun _ _ _ => alike_namedArg free)
    intro args args' args_eq
    apply (alike_callEnd free).bind
    rintro ⟨stop, body⟩ ⟨stop', body'⟩ body_eq
    apply Alike.pure
    simp [Expr.bare, callee_eq, args_eq, show body.map Expr.bare = body'.map Expr.bare from body_eq]
  · intro _
    apply Alike.bind (.closedList fun _ _ _ => free.binary 1)
    intro args args' args_eq
    apply (alike_callEnd free).bind
    rintro ⟨stop, body⟩ ⟨stop', body'⟩ body_eq
    apply Alike.pure
    simp [Expr.bare, callee_eq, args_eq, show body.map Expr.bare = body'.map Expr.bare from body_eq]

theorem alike_indexAccess (free : rules.Free) {target target' : Expr}
    (target_eq : target.bare = target'.bare) :
    Alike (indexAccess rules target) (indexAccess rules target') fun e e' => e.bare = e'.bare := by
  apply Alike.next.bind
  intro _ _ _
  apply Alike.skipWhile.bind
  intro _ _ _
  apply (free.binary 1).bind
  intro index index' index_eq
  apply Alike.skipWhile.bind
  intro _ _ _
  apply Alike.expect.bind
  intro _ _ _
  apply Alike.pure
  simp [Expr.bare, target_eq, index_eq]

theorem alike_fieldAccess {target target' : Expr} (target_eq : target.bare = target'.bare) :
    Alike (fieldAccess target) (fieldAccess target') fun e e' => e.bare = e'.bare := by
  apply Alike.next.bind
  intro _ _ _
  apply Alike.token_bind .expectIdent
  intro kind text span span'
  apply Alike.pure
  simp [Expr.bare, target_eq]

theorem alike_literalField (free : rules.Free) {fields fields' : List (String × Expr)}
    (same : fields.map (Prod.map id Expr.bare) = fields'.map (Prod.map id Expr.bare)) :
    Alike (literalField rules fields) (literalField rules fields') fun a b =>
      Prod.map id Expr.bare a = Prod.map id Expr.bare b := by
  apply Alike.token_bind .expectIdent
  intro kind text span span'
  apply (alike_checkFieldName (names_eq same)).bind
  intro _ _ _
  apply Alike.expect.bind
  intro _ _ _
  apply Alike.skipWhile.bind
  intro _ _ _
  apply (free.binary 1).bind
  intro value value' value_eq
  apply Alike.pure
  simp [value_eq]

theorem alike_recordOrTuple (free : rules.Free) : LayoutFree (recordOrTuple rules) Expr.bare := by
  have braces : ∀ name name' : Option Token, name.map (·.text) = name'.map (·.text) →
      Alike (do
        let opening ← expect .lbrace "'\x7b'"
        let fields ← closedList .rbrace (literalField rules)
        let close ← expect .rbrace "'\x7d' closing literal"
        let head := name.map (·.text)
        let form := if areUnnamed fields then .tuple head (fields.map (·.2)) else .record head fields
        pure (⟨(name.getD opening).span.through close.span, form⟩ : Expr)) (do
        let opening ← expect .lbrace "'\x7b'"
        let fields ← closedList .rbrace (literalField rules)
        let close ← expect .rbrace "'\x7d' closing literal"
        let head := name'.map (·.text)
        let form := if areUnnamed fields then .tuple head (fields.map (·.2)) else .record head fields
        pure (⟨(name'.getD opening).span.through close.span, form⟩ : Expr)) fun e e' =>
        e.bare = e'.bare := by
    intro name name' head_eq
    apply Alike.expect.bind
    intro _ _ _
    apply Alike.bind (.closedList fun _ _ same => alike_literalField free same)
    intro fields fields' same
    apply Alike.expect.bind
    intro _ _ _
    apply Alike.pure
    rw [areUnnamed_eq (names_eq same), head_eq]
    by_cases unnamed : areUnnamed fields' = true
    · simp only [if_pos unnamed, Expr.bare, Expr.bareAll_eq, contents_eq same]
    · simp only [if_neg unnamed, Expr.bare, Expr.bareFields_eq, same]
  apply Alike.eat_bind
  · intro t u same
    exact braces (some t) (some u) (congrArg (fun w : Kind × String => some w.2) same)
  · exact braces none none rfl

theorem alike_arrayRest (free : rules.Free) {first first' : Expr}
    (first_eq : first.bare = first'.bare) :
    Alike (arrayRest rules first) (arrayRest rules first') fun es es' =>
      es.map Expr.bare = es'.map Expr.bare := by
  apply Alike.iterate fun es es' => es.map Expr.bare = es'.map Expr.bare
  · simp [first_eq]
  intro elems elems' known
  apply Alike.ate_ite
  · apply Alike.skipWhile.bind
    intro _ _ _
    apply Alike.kind_bind
    intro k
    apply Alike.ite
    · intro _
      apply Alike.pure
      simp [Turn.Alike, known]
    intro _
    apply (free.binary 1).bind
    intro e e' same
    apply Alike.skipWhile.bind
    intro _ _ _
    apply Alike.pure
    simp [Turn.Alike, same, known]
  · apply Alike.pure
    simp [Turn.Alike, known]

theorem alike_dictRest (free : rules.Free) {first first' : Expr × Expr}
    (first_eq : Prod.map Expr.bare Expr.bare first = Prod.map Expr.bare Expr.bare first') :
    Alike (dictRest rules first) (dictRest rules first') fun kvs kvs' =>
      kvs.map (Prod.map Expr.bare Expr.bare) = kvs'.map (Prod.map Expr.bare Expr.bare) := by
  apply Alike.iterate fun kvs kvs' =>
    kvs.map (Prod.map Expr.bare Expr.bare) = kvs'.map (Prod.map Expr.bare Expr.bare)
  · simp [first_eq]
  intro elems elems' known
  apply Alike.ate_ite
  · apply Alike.skipWhile.bind
    intro _ _ _
    apply Alike.kind_bind
    intro k
    apply Alike.ite
    · intro _
      apply Alike.pure
      simp [Turn.Alike, known]
    intro _
    apply (free.binary 1).bind
    intro key key' key_eq
    apply Alike.skipWhile.bind
    intro _ _ _
    apply Alike.expect.bind
    intro _ _ _
    apply Alike.skipWhile.bind
    intro _ _ _
    apply (free.binary 1).bind
    intro value value' value_eq
    apply Alike.skipWhile.bind
    intro _ _ _
    apply Alike.pure
    simp [Turn.Alike, key_eq, value_eq, known]
  · apply Alike.pure
    simp [Turn.Alike, known]

theorem alike_elements (free : rules.Free) :
    LayoutFree (elements rules) fun form => Expr.bare ⟨default, form⟩ := by
  apply (free.binary 1).bind
  intro first first' first_eq
  apply Alike.skipWhile.bind
  intro _ _ _
  apply Alike.ate_ite
  · apply Alike.skipWhile.bind
    intro _ _ _
    apply (free.binary 1).bind
    intro value value' value_eq
    apply Alike.bind (alike_dictRest free (by simp [first_eq, value_eq]))
    intro elems elems' same
    apply Alike.pure
    simp [Expr.bare, same]
  · apply (alike_arrayRest free first_eq).bind
    intro elems elems' same
    apply Alike.pure
    simp [Expr.bare, same]

theorem alike_arrayOrDict (free : rules.Free) : LayoutFree (arrayOrDict rules) Expr.bare := by
  apply Alike.next.bind
  intro _ _ _
  apply Alike.skipWhile.bind
  intro _ _ _
  apply Alike.ate_ite
  · apply Alike.skipWhile.bind
    intro _ _ _
    apply Alike.expect.bind
    intro _ _ _
    exact .pure rfl
  apply Alike.eat_bind
  · intro _ _ _
    exact .pure rfl
  · apply (alike_elements free).bind
    intro form form' same
    apply Alike.skipWhile.bind
    intro _ _ _
    apply Alike.expect.bind
    intro _ _ _
    exact .pure ((Expr.bare_mk _ form).trans (same.trans (Expr.bare_mk _ form').symm))

theorem alike_lambdaParamsAhead : Alike lambdaParamsAhead lambdaParamsAhead Eq := by
  apply Alike.kind_bind
  intro k
  apply Alike.ite
  · intro _
    apply Alike.kindAt_bind
    intro after
    exact .pure rfl
  · intro _
    exact .pure rfl

theorem alike_lambdaBody (free : rules.Free) {hasParams : Bool} :
    LayoutFree (lambdaBody rules hasParams) Expr.bare := by
  apply Alike.eat_bind
  · intro _ _ _
    exact alike_blockBody free
  apply Alike.ite
  · intro _
    apply Alike.expect.bind
    intro _ _ _
    apply Alike.skipWhile.bind
    intro _ _ _
    exact free.binary 1
  · intro _
    exact free.binary 1

theorem alike_lambda (free : rules.Free) : LayoutFree (lambda rules) Expr.bare := by
  apply Alike.next.bind
  intro _ _ _
  apply alike_lambdaParamsAhead.bind
  rintro hasParams _ rfl
  apply Alike.ite_bind alike_lambdaParams (.pure rfl)
  rintro params _ rfl
  apply (alike_lambdaBody free).bind
  intro body body' same
  apply Alike.place.bind
  intro _ _ _
  apply Alike.pure
  simp [Expr.bare, same]

theorem alike_parenthesized (free : rules.Free) : LayoutFree (parenthesized rules) Expr.bare := by
  apply Alike.next.bind
  intro _ _ _
  apply Alike.skipWhile.bind
  intro _ _ _
  apply (free.binary 1).bind
  intro e e' same
  apply Alike.skipWhile.bind
  intro _ _ _
  apply Alike.expect.bind
  intro _ _ _
  exact .pure same

theorem alike_branchingValue {stmt : Parser Stmt} (h : LayoutFree stmt Stmt.bare) :
    LayoutFree (branchingValue stmt) Expr.bare := by
  apply h.bind
  intro s s' same
  exact alike_promote same

theorem alike_primary (free : rules.Free) : LayoutFree (primary rules) Expr.bare := by
  apply Alike.kind_bind
  intro k
  apply Alike.ite
  · intro _
    apply Alike.token_bind .next
    intro kind text span span'
    exact alike_literal rfl
  intro _
  split
  · apply Alike.kindAt_bind
    intro after
    apply Alike.ite
    · intro _
      exact alike_recordOrTuple free
    · intro _
      apply Alike.token_bind .expectIdent
      intro kind text span span'
      exact .pure rfl
  · exact alike_recordOrTuple free
  · exact alike_arrayOrDict free
  · exact alike_parenthesized free
  · exact alike_lambda free
  · exact alike_branchingValue (alike_ifStmt free)
  · exact alike_branchingValue (alike_switchStmt free)
  · exact alike_branchingValue (alike_matchStmt free)
  · exact .unexpected

theorem alike_chained (free : rules.Free) : LayoutFree (chained rules) Expr.bare := by
  apply (alike_primary free).bind
  intro operand operand' operand_eq
  apply Alike.iterate fun e e' => e.bare = e'.bare
  · exact operand_eq
  intro e e' known
  apply Alike.kind_bind
  intro k
  split
  · apply (alike_call free known).bind
    intro e e' same
    exact .pure same
  · apply (alike_indexAccess free known).bind
    intro e e' same
    exact .pure same
  · apply (alike_fieldAccess known).bind
    intro e e' same
    exact .pure same
  · exact .pure known

theorem alike_negativeLiteralAhead : Alike negativeLiteralAhead negativeLiteralAhead Eq := by
  apply Alike.kindAt_bind
  intro k
  apply Alike.ite
  · intro _
    apply Alike.kindAt_bind
    intro after
    exact .pure rfl
  · intro _
    exact .pure rfl

theorem alike_prefixed (free : rules.Free) (op : UnaryOp) :
    LayoutFree (prefixed rules op) Expr.bare := by
  apply Alike.next.bind
  intro _ _ _
  apply free.unary.bind
  intro operand operand' same
  apply Alike.pure
  simp [Expr.bare, same]

theorem alike_unary (free : rules.Free) : LayoutFree (unary rules) Expr.bare := by
  apply Alike.kind_bind
  intro k
  split
  · exact alike_chained free
  · apply alike_negativeLiteralAhead.bind
    rintro ahead _ rfl
    apply Alike.ite
    · intro _
      apply Alike.next.bind
      intro _ _ _
      apply Alike.token_bind .next
      intro kind text span span'
      exact alike_literal rfl
    · intro _
      exact alike_prefixed free .neg
  · exact alike_prefixed free _

theorem alike_coerced (free : rules.Free) : LayoutFree (coerced rules) Expr.bare := by
  apply (alike_unary free).bind
  intro operand operand' operand_eq
  apply Alike.iterate fun e e' => e.bare = e'.bare
  · exact operand_eq
  intro e e' known
  apply Alike.ate_ite
  · apply free.typeExpr.bind
    intro t t' same
    apply Alike.pure
    simp [Turn.Alike, Expr.bare, same, known]
  · exact .pure known

theorem alike_binary (free : rules.Free) (power : Nat) :
    LayoutFree (binary rules power) Expr.bare := by
  apply (alike_coerced free).bind
  intro first first' first_eq
  apply Alike.iterate fun e e' => e.bare = e'.bare
  · exact first_eq
  intro lhs lhs' known
  apply Alike.kind_bind
  intro k
  split
  · exact .pure known
  next op p _ =>
    apply Alike.ite
    · intro _
      exact .pure known
    intro _
    apply Alike.next.bind
    intro _ _ _
    apply Alike.skipWhile.bind
    intro _ _ _
    apply (free.binary (p + 1)).bind
    intro rhs rhs' same
    apply Alike.pure
    simp [Turn.Alike, Expr.bare, same, known]

theorem alike_exprList (free : rules.Free) : LayoutFree rules.exprList (List.map Expr.bare) :=
  .commaList (free.binary 1)

theorem alike_declaration (free : rules.Free) : LayoutFree (declaration rules) Stmt.bare := by
  apply Alike.token_bind .next
  intro word text span span'
  apply (Alike.commaList free.destructuring).bind
  intro targets targets' targets_eq
  apply Alike.expect.bind
  intro _ _ _
  apply Alike.skipWhile.bind
  intro _ _ _
  apply (alike_exprList free).bind
  intro values values' values_eq
  apply Alike.place.bind
  intro _ _ _
  apply Alike.pure
  simp [Stmt.bare, targets_eq, values_eq]

theorem alike_definition (free : rules.Free) : LayoutFree (definition rules) Stmt.bare := by
  apply Alike.token_bind .expectIdent
  intro kind text span span'
  apply Alike.next.bind
  intro _ _ _
  apply Alike.skipWhile.bind
  intro _ _ _
  apply (free.binary 1).bind
  intro value value' same
  apply Alike.pure
  simp [Stmt.bare, Destructuring.bare, same]

theorem alike_assignment (free : rules.Free) : LayoutFree (assignment rules) Stmt.bare := by
  have each : LayoutFree (expectIdent "variable name") Token.text :=
    Alike.expectIdent.mono fun _ _ same => congrArg Prod.snd same
  apply (Alike.peekAt 0).bind
  intro _ _ _
  apply (Alike.commaList each).bind
  intro names names' names_eq
  apply Alike.expect.bind
  intro _ _ _
  apply Alike.skipWhile.bind
  intro _ _ _
  apply (alike_exprList free).bind
  intro values values' values_eq
  apply Alike.place.bind
  intro _ _ _
  apply Alike.pure
  simp only [Stmt.bare, Expr.bareAll_eq, values_eq, names_eq]

theorem alike_exprStmt (free : rules.Free) : LayoutFree (exprStmt rules) Stmt.bare := by
  apply (alike_binary free 1).bind
  intro e e' same
  apply Alike.ate_ite
  · split
    next target index form =>
      obtain ⟨_, _, form', target_eq, index_eq⟩ := Expr.form_index same form
      rw [form']
      apply Alike.skipWhile.bind
      intro _ _ _
      apply (free.binary 1).bind
      intro value value' value_eq
      apply Alike.pure
      simp [Stmt.bare, target_eq, index_eq, value_eq]
    next form other =>
      split
      next target index form' =>
        obtain ⟨_, _, form, _⟩ := Expr.form_index same.symm form'
        exact (other _ _ form).elim
      next =>
        have label : e.form.label = e'.form.label := by rw [← e.label_bare, same, e'.label_bare]
        exact .fail (.of_cause (congrArg Cause.notAssignable label) rfl)
  · apply Alike.pure
    simp [Stmt.ofExpr, Stmt.bare, same]

theorem alike_retStmt (free : rules.Free) : LayoutFree (retStmt rules) Stmt.bare := by
  apply Alike.next.bind
  intro _ _ _
  apply Alike.kind_bind
  intro k
  have none : LayoutFree (pure []) (List.map Expr.bare) := .pure rfl
  apply none.ite_bind (alike_exprList free)
  intro values values' same
  apply Alike.place.bind
  intro _ _ _
  apply Alike.pure
  simp [Stmt.bare, same]

theorem alike_destructuringThenIn : Alike destructuringThenIn destructuringThenIn Eq := by
  have answer : ∀ stop, Alike (if stop = 0 then pure false else do
      let after ← kindAt stop
      pure (after = .inWord)) (if stop = 0 then pure false else do
      let after ← kindAt stop
      pure (after = .inWord)) Eq :=
    fun stop => .ite (fun _ => .pure rfl) fun _ => .kindAt_bind fun _ => .pure rfl
  have stops : ∀ nameEnd, LayoutFree (do
      let stop ← if (← kindAt nameEnd) = .lbrace then bracesEnd nameEnd else pure nameEnd
      if stop = 0 then pure false else do
        let after ← kindAt stop
        pure (after = .inWord : Bool)) id := by
    intro nameEnd
    apply Alike.kindAt_bind
    intro k
    apply Alike.ite_bind alike_bracesEnd (.pure rfl)
    rintro stop _ rfl
    exact answer stop
  apply Alike.kindAt_bind
  intro k
  apply Alike.ite
  · intro _
    apply Alike.kindAt_bind
    intro after
    exact .ite (fun _ => stops 3) fun _ => stops 1
  · intro _
    exact stops 0

theorem alike_forBody (free : rules.Free) :
    LayoutFree (forBody rules) fun form => Stmt.bare ⟨default, form⟩ := by
  apply alike_destructuringThenIn.bind
  rintro each _ rfl
  apply Alike.ite
  · intro _
    apply free.destructuring.bind
    intro target target' target_eq
    apply Alike.expect.bind
    intro _ _ _
    apply (free.binary 1).bind
    intro range range' range_eq
    apply (alike_block free).bind
    intro body body' body_eq
    apply Alike.pure
    simp [Stmt.bare, target_eq, range_eq, body_eq]
  · intro _
    apply (free.binary 1).bind
    intro cond cond' cond_eq
    apply (alike_block free).bind
    intro body body' body_eq
    apply Alike.pure
    simp [Stmt.bare, cond_eq, body_eq]

theorem alike_forStmt (free : rules.Free) : LayoutFree (forStmt rules) Stmt.bare := by
  apply Alike.next.bind
  intro _ _ _
  apply (alike_forBody free).bind
  intro form form' same
  apply Alike.expect.bind
  intro _ _ _
  exact .pure ((Stmt.bare_mk _ form).trans (same.trans (Stmt.bare_mk _ form').symm))

theorem alike_statement (free : rules.Free) : LayoutFree (statement rules) Stmt.bare := by
  apply Alike.kind_bind
  intro k
  split
  · exact alike_declaration free
  · exact alike_declaration free
  · exact alike_retStmt free
  · exact alike_ifStmt free
  · exact alike_switchStmt free
  · exact alike_matchStmt free
  · exact alike_forStmt free
  · apply Alike.kindAt_bind
    intro after
    split
    · exact alike_definition free
    · exact alike_assignment free
    · exact alike_assignment free
    · exact alike_exprStmt free
  · exact alike_exprStmt free

end Grammar

end Frontend
