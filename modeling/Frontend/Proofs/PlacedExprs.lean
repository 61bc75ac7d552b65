import Frontend.Grammar.Stmt
import Frontend.Proofs.PlacedBlocks

/-!
Expressions and statements that the grammar yields stand in their source in order, as long as what
the rules yield that they call does.
-/
namespace Frontend.Grammar

open Frontend.Grammar.Parser
open Node (Row)
open Token (Kind)

variable {good : Position → Prop} {lo : Nat} {seen : Token → Prop} {rules : Rules}

/-- A literal over the stretch of its token, or from a minus in front of it on. -/
theorem covers_literal {t : Token} {minus : Option Position} {from_ : Nat}
    (lies : Span.Lies good from_ ⟨minus.getD t.span.start, t.span.stop⟩ lo) :
    Covers good lo seen (literal t minus) fun e hi => Row good from_ [.expr e] hi := by
  unfold literal
  split
  next value _ =>
    apply Covers.pure
    cases value <;> exact .leaf lies rfl
  · exact .fail_across lies

theorem covers_blockBody (placed : rules.Placed good) {hint : Position} (hint_good : good hint)
    (early : hint.offset ≤ lo) :
    Covers good lo seen (blockBody rules hint) fun e hi => Row good lo [.expr e] hi := by
  apply Covers.bind (covers_block placed)
  intro stmts _ le row
  apply Covers.bind (.expect (by decide))
  intro _ _ le' _
  have row := row.upper le'
  have early := Nat.le_trans early (Nat.le_trans le le')
  exact .ofSettled (settles_promoteBlock hint_good row)
    (settles_promoteBlock early (row.early (Nat.le_refl _)))

/-- Parameters without types are no nodes. -/
theorem covers_lambdaParams : Covers good lo seen lambdaParams fun params _ =>
    Node.ofParams params = [] := by
  apply Covers.bind (.commaList (fun _ _ => True) (fun _ _ _ _ _ => trivial) _ _)
  · intro names _ _ _
    apply Covers.pure
    simp [Node.ofParams, Node.maybe]
  · exact .mono .expectIdent fun _ _ _ => trivial
  · exact fun _ _ _ => .mono .expectIdent fun _ _ _ => trivial

theorem covers_doBlock (placed : rules.Placed good) (more : ∀ t, seen t → t.kind ≠ .eof) :
    Covers good lo seen (doBlock rules) fun e hi => Row good lo [.expr e] hi := by
  apply Covers.bind (.next more)
  intro word mid _ ⟨_, word_lies⟩
  apply Covers.look_bind (.receiving _ _)
  intro ahead
  have finish : ∀ params mid' {seen}, mid ≤ mid' → Node.ofParams params = [] →
      Covers good mid' seen (do
        let body ← blockBody rules word.span.start
        let stop ← place
        pure (⟨⟨word.span.start, stop⟩, .lambda true params body⟩ : Expr)) fun e hi =>
        Row good lo [.expr e] hi := by
    intro params mid' seen le no_nodes
    have early := Nat.le_trans (Nat.le_of_lt word_lies.begins) le
    apply Covers.bind (covers_blockBody placed word_lies.start_good early)
    intro body hi _ row
    apply Covers.place_bind
    intro stop stop_good here
    subst here
    apply Covers.pure
    apply Row.fromWord word_lies _ stop_good (Nat.le_refl _) rfl
    simpa [Node.children, Node.ofExpr, no_nodes] using row.lower le
  apply Covers.ite
  · intro _
    apply Covers.bind covers_lambdaParams
    intro params mid' le no_nodes
    exact finish params mid' le no_nodes
  · intro _
    exact finish [] mid (Nat.le_refl _) rfl

theorem covers_namedArg (placed : rules.Placed good) :
    Covers good lo seen (namedArg rules) fun arg hi => Row good lo [.expr arg.2] hi := by
  apply Covers.bind .expectIdent
  intro name _ le _
  apply Covers.bind (.expect (by decide))
  intro _ _ le' _
  apply Covers.bind .skipWhile
  intro _ _ le'' _
  apply Covers.bind (placed.binary 1)
  intro value hi _ row
  exact .pure (row.lower (by omega))

/-- A call stops at its closing parenthesis or at the block behind it, which is a node. -/
theorem covers_callEnd (placed : rules.Placed good) :
    Covers good lo seen (callEnd rules) fun found hi =>
      good found.1 ∧ found.1.offset ≤ hi ∧
        Row good lo (Node.maybe .expr found.2) found.1.offset := by
  apply Covers.bind (.expect (by decide))
  intro close mid le ⟨_, close_lies⟩
  apply Covers.kind_bind
  intro k
  apply Covers.ite
  · intro is_do
    subst is_do
    apply Covers.bind (covers_doBlock placed (by simp +contextual))
    intro body hi _ row
    have upto : Row good lo ([] ++ [.expr body]) hi := row.lower le
    exact .pure ⟨row.lies.stop_good, row.lies.upper, upto.uptoLast⟩
  · intro _
    exact .pure ⟨close_lies.stop_good, close_lies.upper, .nil close_lies.reaches⟩

/-- The rest of a call, named arguments or not: what it is built of is the callee, the values of the
arguments and the block. -/
theorem covers_arguments (placed : rules.Placed good) {callee : Expr} {from_ : Nat}
    {item : List α → Parser α} (value : α → Expr) (build : List α → Option Expr → ExprForm)
    (callee_row : Row good from_ [.expr callee] lo)
    (each : ∀ before lo, Covers good lo anything (item before) fun a hi =>
      Row good lo [.expr (value a)] hi)
    (children : ∀ span args body, (Node.expr ⟨span, build args body⟩).children =
      [.expr callee] ++ (args.map (fun a => .expr (value a)) ++ Node.maybe .expr body)) :
    Covers good lo seen (do
      let args ← closedList .rparen item
      let (stop, body) ← callEnd rules
      pure (⟨⟨callee.span.start, stop⟩, build args body⟩ : Expr)) fun e hi =>
      Row good from_ [.expr e] hi := by
  apply Covers.bind (.closedList_row (fun a => [.expr (value a)]) each)
  intro args _ _ args_row
  apply Covers.bind (covers_callEnd placed)
  rintro ⟨stop, body⟩ hi _ ⟨stop_good, upper, body_row⟩
  apply Covers.pure
  rw [← List.map_eq_flatMap] at args_row
  have row := callee_row.append (args_row.append body_row)
  rw [← children ⟨callee.span.start, stop⟩] at row
  exact .fromChild row (by rw [children]; rfl) stop_good upper rfl

theorem covers_call (placed : rules.Placed good) {callee : Expr} {from_ : Nat}
    (callee_row : Row good from_ [.expr callee] lo) :
    Covers good lo seen (call rules callee) fun e hi => Row good from_ [.expr e] hi := by
  apply Covers.bind .next_any
  intro _ _ le _
  apply Covers.bind .skipWhile
  intro _ mid le' _
  have callee_row := callee_row.upper (Nat.le_trans le le')
  apply Covers.kind_bind
  intro k
  apply Covers.ite
  · intro _
    apply Covers.look_bind (.bind (.kindAt 1) fun _ => .pure)
    intro is_named
    apply Covers.ite
    · intro _
      apply covers_arguments placed Prod.snd (.callNamed callee) callee_row
      · exact fun _ _ => covers_namedArg placed
      · exact fun _ _ _ => rfl
    · intro _
      apply covers_arguments placed id (.call callee) callee_row
      · exact fun _ _ => placed.binary 1
      · exact fun _ _ _ => rfl
  · intro _
    apply covers_arguments placed id (.call callee) callee_row
    · exact fun _ _ => placed.binary 1
    · exact fun _ _ _ => rfl

theorem covers_indexAccess (placed : rules.Placed good) {target : Expr} {from_ : Nat}
    (target_row : Row good from_ [.expr target] lo) :
    Covers good lo seen (indexAccess rules target) fun e hi => Row good from_ [.expr e] hi := by
  apply Covers.bind .next_any
  intro _ _ le _
  apply Covers.bind .skipWhile
  intro _ _ le' _
  apply Covers.bind (placed.binary 1)
  intro index _ _ index_row
  apply Covers.bind .skipWhile
  intro _ _ le'' _
  apply Covers.bind (.expect (by decide))
  intro close hi _ ⟨_, close_lies⟩
  apply Covers.pure
  have children := (target_row.upper (Nat.le_trans le le')).append (index_row.upper le'')
  exact .fromChild (children.upper close_lies.reaches) rfl close_lies.stop_good close_lies.upper rfl

theorem covers_fieldAccess {target : Expr} {from_ : Nat}
    (target_row : Row good from_ [.expr target] lo) :
    Covers good lo seen (fieldAccess target) fun e hi => Row good from_ [.expr e] hi := by
  apply Covers.bind .next_any
  intro _ _ le _
  apply Covers.bind .expectIdent
  intro name hi _ ⟨_, lies⟩
  apply Covers.pure
  have children := (target_row.upper le).upper lies.reaches
  exact .fromChild children rfl lies.stop_good lies.upper rfl

theorem covers_literalField (placed : rules.Placed good) (fields : List (String × Expr)) :
    Covers good lo seen (literalField rules fields) fun field hi =>
      Row good lo [.expr field.2] hi := by
  apply Covers.bind .expectIdent
  intro name _ le ⟨_, name_lies⟩
  apply Covers.bind (covers_checkFieldName name_lies)
  intro _ _ le' _
  apply Covers.bind (.expect (by decide))
  intro _ _ le'' _
  apply Covers.bind .skipWhile
  intro _ _ le₃ _
  apply Covers.bind (placed.binary 1)
  intro value hi _ row
  exact .pure (row.lower (by omega))

/-- The values of fields are children both of a record and of a tuple. -/
theorem children_fieldsExpr {span : Span} (name : Option String) (fields : List (String × Expr)) :
    (Node.expr ⟨span, if areUnnamed fields then .tuple name (fields.map (·.2))
      else .record name fields⟩).children = fields.flatMap fun f => [.expr f.2] := by
  rw [← List.map_eq_flatMap]
  by_cases unnamed : areUnnamed fields = true
  · simp [unnamed, Node.children, Node.ofExpr]
  · simp [unnamed, Node.children, Node.ofExpr]

theorem covers_recordOrTuple (placed : rules.Placed good) :
    Covers good lo seen (recordOrTuple rules) fun e hi => Row good lo [.expr e] hi := by
  have braces : ∀ (name : Option Token) {mid : Nat} {seen : Token → Prop},
      (∀ opening : Token, ∀ hi, opening.span.Lies good mid hi →
        (name.getD opening).span.Lies good lo hi) →
      Covers good mid seen (do
        let opening ← expect .lbrace "'\x7b'"
        let fields ← closedList .rbrace (literalField rules)
        let close ← expect .rbrace "'\x7d' closing literal"
        let head := name.map (·.text)
        let form := if areUnnamed fields then .tuple head (fields.map (·.2)) else .record head fields
        pure (⟨(name.getD opening).span.through close.span, form⟩ : Expr)) fun e hi =>
        Row good lo [.expr e] hi := by
    intro name mid seen first_lies
    apply Covers.bind (.expect (by decide))
    intro opening _ _ ⟨_, opening_lies⟩
    apply Covers.bind (.closedList_row (fun f => [.expr f.2]) fun fields _ =>
      covers_literalField placed fields)
    intro fields _ _ row
    apply Covers.bind (.expect (by decide))
    intro close hi _ ⟨_, close_lies⟩
    apply Covers.pure
    apply Row.enclosed (first_lies opening _ opening_lies) _ close_lies rfl
    rwa [children_fieldsExpr]
  apply Covers.eat_bind (by decide)
  · intro name mid _ _ name_lies
    exact braces (some name) fun opening hi lies =>
      name_lies.mono (Nat.le_refl _) (Nat.le_of_lt lies.order)
  · exact braces none fun opening hi lies => lies

theorem covers_arrayRest (placed : rules.Placed good) {first : Expr} {from_ : Nat}
    (first_row : Row good from_ [.expr first] lo) :
    Covers good lo seen (arrayRest rules first) fun elems hi =>
      Row good from_ (elems.map .expr) hi := by
  apply Covers.iterate (fun elems hi => Row good from_ (elems.reverse.map .expr) hi)
  · exact first_row
  intro elems mid row
  apply Covers.ate_ite (by decide)
  · intro mid' less
    apply Covers.bind .skipWhile
    intro _ _ le _
    have le := Nat.le_trans (Nat.le_of_lt less) le
    apply Covers.kind_bind
    intro k
    apply Covers.ite
    · intro _
      exact .pure (row.upper le)
    intro _
    apply Covers.bind (placed.binary 1)
    intro e _ _ e_row
    apply Covers.bind .skipWhile
    intro _ hi le' _
    apply Covers.pure
    simpa [Turn.Keeps] using (row.upper le).append (e_row.upper le')
  · exact .pure row

theorem covers_dictRest (placed : rules.Placed good) {first : Expr × Expr} {from_ : Nat}
    (first_row : Row good from_ [.expr first.1, .expr first.2] lo) :
    Covers good lo seen (dictRest rules first) fun elems hi =>
      Row good from_ (elems.flatMap fun kv => [.expr kv.1, .expr kv.2]) hi := by
  apply Covers.iterate fun elems hi =>
    Row good from_ (elems.reverse.flatMap fun kv => [.expr kv.1, .expr kv.2]) hi
  · exact first_row
  intro elems mid row
  apply Covers.ate_ite (by decide)
  · intro mid' less
    apply Covers.bind .skipWhile
    intro _ _ le _
    have le := Nat.le_trans (Nat.le_of_lt less) le
    apply Covers.kind_bind
    intro k
    apply Covers.ite
    · intro _
      exact .pure (row.upper le)
    intro _
    apply Covers.bind (placed.binary 1)
    intro key _ _ key_row
    apply Covers.bind .skipWhile
    intro _ _ le₁ _
    apply Covers.bind (.expect (by decide))
    intro _ _ le₂ _
    apply Covers.bind .skipWhile
    intro _ _ le₃ _
    apply Covers.bind (placed.binary 1)
    intro value _ _ value_row
    apply Covers.bind .skipWhile
    intro _ hi le₄ _
    apply Covers.pure
    have pair := (key_row.upper (by omega)).append (value_row.upper le₄)
    simpa [Turn.Keeps] using (row.upper le).append pair
  · exact .pure row

theorem covers_elements (placed : rules.Placed good) :
    Covers good lo seen (elements rules) fun form hi => Row good lo (Node.ofExpr form) hi := by
  apply Covers.bind (placed.binary 1)
  intro first _ _ first_row
  apply Covers.bind .skipWhile
  intro _ mid le _
  have first_row := first_row.upper le
  apply Covers.ate_ite (by decide)
  · intro _ less
    apply Covers.bind .skipWhile
    intro _ _ le' _
    apply Covers.bind (placed.binary 1)
    intro value _ _ value_row
    have le' := Nat.le_trans (Nat.le_of_lt less) le'
    apply Covers.bind (covers_dictRest placed ((first_row.upper le').append value_row))
    intro elems hi _ row
    exact .pure row
  · apply Covers.bind (covers_arrayRest placed first_row)
    intro elems hi _ row
    exact .pure row

theorem covers_arrayOrDict (placed : rules.Placed good) (more : ∀ t, seen t → t.kind ≠ .eof) :
    Covers good lo seen (arrayOrDict rules) fun e hi => Row good lo [.expr e] hi := by
  apply Covers.bind (.next more)
  intro opening _ _ ⟨_, opening_lies⟩
  apply Covers.bind .skipWhile
  intro _ mid le _
  apply Covers.ate_ite (by decide)
  · intro _ less
    apply Covers.bind .skipWhile
    intro _ _ le' _
    apply Covers.bind (.expect (by decide))
    intro close hi _ ⟨_, close_lies⟩
    exact .pure (.leaf (opening_lies.through close_lies (by omega)) rfl)
  apply Covers.eat_bind (by decide)
  · intro close hi _ _ close_lies
    exact .pure (.leaf (opening_lies.through close_lies le) rfl)
  · apply Covers.bind (covers_elements placed)
    intro form _ _ row
    apply Covers.bind .skipWhile
    intro _ _ le' _
    apply Covers.bind (.expect (by decide))
    intro close hi _ ⟨_, close_lies⟩
    exact .pure (.enclosed opening_lies ((row.lower le).upper le') close_lies rfl)

theorem covers_lambdaBody (placed : rules.Placed good) (hasParams : Bool) :
    Covers good lo seen (lambdaBody rules hasParams) fun e hi => Row good lo [.expr e] hi := by
  apply Covers.eat_bind (by decide)
  · intro word mid _ _ word_lies
    apply (covers_blockBody placed word_lies.start_good (Nat.le_of_lt word_lies.begins)).mono
    intro e hi row
    exact row.lower (Nat.le_of_lt word_lies.order)
  apply Covers.ite
  · intro _
    apply Covers.bind (.expect (by decide))
    intro _ _ le _
    apply Covers.bind .skipWhile
    intro _ _ le' _
    apply (placed.binary 1).mono
    intro e hi row
    exact row.lower (Nat.le_trans le le')
  · intro _
    exact placed.binary 1

theorem looks_lambdaParamsAhead : Looks lambdaParamsAhead := by
  apply Looks.bind (.kindAt 0)
  intro k
  exact .ite (.bind (.kindAt 1) fun _ => .pure) .pure

theorem covers_lambda (placed : rules.Placed good) (more : ∀ t, seen t → t.kind ≠ .eof) :
    Covers good lo seen (lambda rules) fun e hi => Row good lo [.expr e] hi := by
  apply Covers.bind (.next more)
  intro arrow mid _ ⟨_, arrow_lies⟩
  apply Covers.look_bind looks_lambdaParamsAhead
  intro hasParams
  have finish : ∀ params mid' {seen}, mid ≤ mid' → Node.ofParams params = [] →
      Covers good mid' seen (do
        let body ← lambdaBody rules hasParams
        let stop ← place
        pure (⟨⟨arrow.span.start, stop⟩, .lambda false params body⟩ : Expr)) fun e hi =>
        Row good lo [.expr e] hi := by
    intro params mid' seen le no_nodes
    apply Covers.bind (covers_lambdaBody placed hasParams)
    intro body hi _ row
    apply Covers.place_bind
    intro stop stop_good here
    subst here
    apply Covers.pure
    apply Row.fromWord arrow_lies _ stop_good (Nat.le_refl _) rfl
    simpa [Node.children, Node.ofExpr, no_nodes] using row.lower le
  apply Covers.ite
  · intro _
    apply Covers.bind covers_lambdaParams
    intro params mid' le no_nodes
    exact finish params mid' le no_nodes
  · intro _
    exact finish [] mid (Nat.le_refl _) rfl

theorem covers_parenthesized (placed : rules.Placed good) :
    Covers good lo seen (parenthesized rules) fun e hi => Row good lo [.expr e] hi := by
  apply Covers.bind .next_any
  intro _ _ le _
  apply Covers.bind .skipWhile
  intro _ _ le' _
  apply Covers.bind (placed.binary 1)
  intro e _ _ row
  apply Covers.bind .skipWhile
  intro _ _ le'' _
  apply Covers.bind (.expect (by decide))
  intro _ hi le₃ _
  exact .pure ((row.lower (Nat.le_trans le le')).upper (Nat.le_trans le'' le₃))

theorem covers_branchingValue {stmt : Parser Stmt}
    (h : Covers good lo seen stmt fun s hi => Row good lo [.stmt s] hi) :
    Covers good lo seen (branchingValue stmt) fun e hi => Row good lo [.expr e] hi := by
  apply Covers.bind h
  intro s hi _ row
  exact .ofSettled (settles_promote s row) (settles_promote s (row.early (Nat.le_refl _)))

theorem covers_primary (placed : rules.Placed good) :
    Covers good lo seen (primary rules) fun e hi => Row good lo [.expr e] hi := by
  apply Covers.kind_bind
  intro k
  apply Covers.ite
  · intro is_literal
    have more : ∀ t, seen t ∧ t.kind = k → t.kind ≠ .eof := fun t known =>
      known.2 ▸ ne_eof_of_isKind is_literal
    apply Covers.bind (.next more)
    intro t hi _ ⟨_, lies⟩
    exact covers_literal lies
  intro _
  split
  · apply Covers.look_bind (.kindAt 1)
    intro after
    apply Covers.ite
    · intro _
      exact covers_recordOrTuple placed
    · intro _
      apply Covers.bind .expectIdent
      intro name hi _ ⟨_, lies⟩
      exact .pure (.leaf lies rfl)
  · exact covers_recordOrTuple placed
  · exact covers_arrayOrDict placed (by simp +contextual)
  · exact covers_parenthesized placed
  · exact covers_lambda placed (by simp +contextual)
  · exact covers_branchingValue (covers_ifStmt placed (by simp +contextual))
  · exact covers_branchingValue (covers_switchStmt placed (by simp +contextual))
  · exact covers_branchingValue (covers_matchStmt placed (by simp +contextual))
  · exact .unexpected

theorem covers_chained (placed : rules.Placed good) :
    Covers good lo seen (chained rules) fun e hi => Row good lo [.expr e] hi := by
  apply Covers.bind (covers_primary placed)
  intro operand _ _ row
  apply Covers.iterate (fun e hi => Row good lo [.expr e] hi) row
  intro e mid row
  apply Covers.kind_bind
  intro k
  split
  · apply Covers.bind (covers_call placed row)
    intro e hi _ row
    exact .pure row
  · apply Covers.bind (covers_indexAccess placed row)
    intro e hi _ row
    exact .pure row
  · apply Covers.bind (covers_fieldAccess row)
    intro e hi _ row
    exact .pure row
  · exact .pure row

theorem looks_negativeLiteralAhead : Looks negativeLiteralAhead := by
  apply Looks.bind (.kindAt 1)
  intro k
  exact .ite (.bind (.kindAt 2) fun _ => .pure) .pure

theorem covers_prefixed (placed : rules.Placed good) (op : UnaryOp)
    (more : ∀ t, seen t → t.kind ≠ .eof) :
    Covers good lo seen (prefixed rules op) fun e hi => Row good lo [.expr e] hi := by
  apply Covers.bind (.next more)
  intro t _ _ ⟨_, lies⟩
  apply Covers.bind placed.unary
  intro operand hi _ row
  exact .pure (.uptoChild lies row rfl rfl)

theorem covers_unary (placed : rules.Placed good) :
    Covers good lo seen (unary rules) fun e hi => Row good lo [.expr e] hi := by
  apply Covers.kind_bind
  intro k
  have more : ∀ op, unaryOp? k = some op → ∀ t, seen t ∧ t.kind = k → t.kind ≠ .eof := by
    rintro op is_op t ⟨-, rfl⟩ eof
    rw [eof] at is_op
    cases is_op
  split
  · exact covers_chained placed
  next minus =>
    apply Covers.look_bind looks_negativeLiteralAhead
    intro is_literal
    apply Covers.ite
    · intro _
      apply Covers.bind (.next (more _ minus))
      intro minus mid _ ⟨_, minus_lies⟩
      apply Covers.bind .next_any
      intro t hi _ ⟨stop_good, lower, upper⟩
      have wide := Nat.lt_of_lt_of_le minus_lies.begins lower
      exact covers_literal ⟨minus_lies.start_good, stop_good, minus_lies.lower, wide, upper⟩
    · intro _
      exact covers_prefixed placed .neg (more _ minus)
  next op _ is_op =>
    exact covers_prefixed placed op (more _ is_op)

theorem covers_coerced (placed : rules.Placed good) :
    Covers good lo seen (coerced rules) fun e hi => Row good lo [.expr e] hi := by
  apply Covers.bind (covers_unary placed)
  intro operand _ _ row
  apply Covers.iterate (fun e hi => Row good lo [.expr e] hi) row
  intro e mid row
  apply Covers.ate_ite (by decide)
  · intro mid' less
    apply Covers.bind placed.typeExpr
    intro t hi _ t_row
    have children := (row.upper (Nat.le_of_lt less)).append t_row
    exact .pure (.spanning children rfl rfl rfl)
  · exact .pure row

theorem covers_binary (placed : rules.Placed good) (power : Nat) :
    Covers good lo seen (binary rules power) fun e hi => Row good lo [.expr e] hi := by
  apply Covers.bind (covers_coerced placed)
  intro first _ _ row
  apply Covers.iterate (fun e hi => Row good lo [.expr e] hi) row
  intro lhs mid row
  apply Covers.kind_bind
  intro k
  split
  · exact .pure row
  apply Covers.ite
  · intro _
    exact .pure row
  intro _
  apply Covers.bind .next_any
  intro _ _ le _
  apply Covers.bind .skipWhile
  intro _ _ le' _
  apply Covers.bind (placed.binary _)
  intro rhs hi _ rhs_row
  have children := (row.upper (Nat.le_trans le le')).append rhs_row
  exact .pure (.spanning children rfl rfl rfl)

theorem covers_exprList (placed : rules.Placed good) :
    Covers good lo seen rules.exprList fun values hi => Row good lo (values.map .expr) hi := by
  apply (Covers.commaList_row (fun e => [.expr e]) fun _ => placed.binary 1).mono
  intro values hi row
  rwa [← List.map_eq_flatMap] at row

theorem covers_declaration (placed : rules.Placed good) (more : ∀ t, seen t → t.kind ≠ .eof) :
    Covers good lo seen (declaration rules) fun s hi => Row good lo [.stmt s] hi := by
  apply Covers.bind (.next more)
  intro word _ _ ⟨_, word_lies⟩
  apply Covers.bind (.commaList_row (fun d => [.destructuring d]) fun _ => placed.destructuring)
  intro targets _ _ targets_row
  apply Covers.bind (.expect (by decide))
  intro _ _ le _
  apply Covers.bind .skipWhile
  intro _ _ le' _
  apply Covers.bind (covers_exprList placed)
  intro values hi _ values_row
  apply Covers.place_bind
  intro stop stop_good here
  subst here
  apply Covers.pure
  rw [← List.map_eq_flatMap] at targets_row
  have children := (targets_row.upper (Nat.le_trans le le')).append values_row
  exact .fromWord word_lies children stop_good (Nat.le_refl _) rfl

theorem covers_definition (placed : rules.Placed good) :
    Covers good lo seen (definition rules) fun s hi => Row good lo [.stmt s] hi := by
  apply Covers.bind .expectIdent
  intro name mid _ ⟨_, name_lies⟩
  apply Covers.bind .next_any
  intro _ _ le _
  apply Covers.bind .skipWhile
  intro _ _ le' _
  apply Covers.bind (placed.binary 1)
  intro value hi _ value_row
  apply Covers.pure
  have name_row : Row good lo [.destructuring (.variable name.span name.text)] mid :=
    .leaf name_lies rfl
  have children := name_row.append (value_row.lower (Nat.le_trans le le'))
  exact .spanning children rfl rfl rfl

theorem covers_assignment (placed : rules.Placed good) :
    Covers good lo seen (assignment rules) fun s hi => Row good lo [.stmt s] hi := by
  apply Covers.peek_bind
  intro first _ first_good lower
  -- The first name is the token that was looked at, so the names end behind its start.
  have names : Covers good lo (· = first) (commaList (expectIdent "variable name")) fun _ hi =>
      first.span.start.offset < hi := by
    apply Covers.commaList (fun _ hi => first.span.start.offset < hi)
    · intro _ _ _ le less
      exact Nat.lt_of_lt_of_le less le
    · apply Covers.mono .expectIdent
      rintro _ hi ⟨⟨rfl, _⟩, lies⟩
      exact lies.begins
    · intro _ _ less
      apply Covers.mono .expectIdent
      intro _ hi ⟨_, lies⟩
      exact Nat.lt_trans less lies.order
  apply Covers.bind names
  intro names _ _ before
  apply Covers.bind (.expect (by decide))
  intro _ _ le _
  apply Covers.bind .skipWhile
  intro _ _ le' _
  apply Covers.bind (covers_exprList placed)
  intro values hi _ row
  apply Covers.place_bind
  intro stop stop_good here
  subst here
  apply Covers.pure
  exact .between first_good stop_good lower before (row.lower (Nat.le_trans le le'))
    (Nat.le_refl _) rfl

/-- An expression is a statement over its own stretch. -/
theorem row_ofExpr {e : Expr} {hi : Nat} (row : Row good lo [.expr e] hi) :
    Row good lo [.stmt (.ofExpr e)] hi :=
  .spanning row rfl rfl rfl

theorem covers_exprStmt (placed : rules.Placed good) :
    Covers good lo seen (exprStmt rules) fun s hi => Row good lo [.stmt s] hi := by
  apply Covers.bind (covers_binary placed 1)
  intro e mid _ row
  apply Covers.ate_ite (by decide)
  · intro _ less
    split
    next target index is_index =>
      apply Covers.bind .skipWhile
      intro _ _ le _
      apply Covers.bind (placed.binary 1)
      intro value hi _ value_row
      apply Covers.pure
      have le := Nat.le_trans (Nat.le_of_lt less) le
      have inside : Row good e.span.start.offset [.expr target, .expr index] mid := by
        have children : Node.ofExpr e.form = [.expr target, .expr index] := by rw [is_index]; rfl
        exact children ▸ row.inside.upper row.lies.upper
      have children := ((inside.upper le).append value_row).uptoLast
      exact .one (row.lies.through value_row.lies le) children
    · exact .fail_across (row.lies.mono (Nat.le_refl _) (Nat.le_of_lt less))
  · exact .pure (row_ofExpr row)

theorem covers_retStmt (placed : rules.Placed good) (more : ∀ t, seen t → t.kind ≠ .eof) :
    Covers good lo seen (retStmt rules) fun s hi => Row good lo [.stmt s] hi := by
  apply Covers.bind (.next more)
  intro word mid _ ⟨_, word_lies⟩
  have finish : ∀ values mid' {seen}, Row good mid (values.map .expr) mid' →
      Covers good mid' seen (do
        let stop ← place
        pure (⟨⟨word.span.start, stop⟩, .ret values⟩ : Stmt)) fun s hi =>
        Row good lo [.stmt s] hi := by
    intro values mid' seen row
    apply Covers.place_bind
    intro stop stop_good here
    subst here
    exact .pure (.fromWord word_lies row stop_good (Nat.le_refl _) rfl)
  apply Covers.kind_bind
  intro k
  apply Covers.ite
  · intro _
    exact finish [] mid (.nil (Nat.le_refl _))
  · intro _
    apply Covers.bind (covers_exprList placed)
    intro values mid' _ row
    exact finish values mid' row

theorem looks_destructuringThenIn : Looks destructuringThenIn := by
  have answer : ∀ stop, Looks (if stop = 0 then pure false else do
      let after ← kindAt stop
      pure (after = .inWord)) :=
    fun stop => .ite .pure (.bind (.kindAt stop) fun _ => .pure)
  have stops : ∀ nameEnd, Looks (do
      let stop ← if (← kindAt nameEnd) = .lbrace then bracesEnd nameEnd else pure nameEnd
      if stop = 0 then pure false else do
        let after ← kindAt stop
        pure (after = .inWord : Bool)) := by
    intro nameEnd
    apply Looks.bind (.kindAt nameEnd)
    intro k
    exact .ite (.bind (.receiving _ _) answer) (answer nameEnd)
  apply Looks.bind (.kindAt 0)
  intro k
  apply Looks.ite
  · apply Looks.bind (.kindAt 1)
    intro after
    exact .ite (stops 3) (stops 1)
  · exact stops 0

theorem covers_forBody (placed : rules.Placed good) :
    Covers good lo seen (forBody rules) fun form hi => Row good lo (Node.ofStmt form) hi := by
  apply Covers.look_bind looks_destructuringThenIn
  intro each
  apply Covers.ite
  · intro _
    apply Covers.bind placed.destructuring
    intro target _ _ target_row
    apply Covers.bind (.expect (by decide))
    intro _ _ le _
    apply Covers.bind (placed.binary 1)
    intro range _ _ range_row
    apply Covers.bind (covers_block placed)
    intro body hi _ body_row
    exact .pure ((target_row.upper le).append (range_row.append body_row))
  · intro _
    apply Covers.bind (placed.binary 1)
    intro cond _ _ cond_row
    apply Covers.bind (covers_block placed)
    intro body hi _ body_row
    exact .pure (cond_row.append body_row)

theorem covers_forStmt (placed : rules.Placed good) (more : ∀ t, seen t → t.kind ≠ .eof) :
    Covers good lo seen (forStmt rules) fun s hi => Row good lo [.stmt s] hi := by
  apply Covers.bind (.next more)
  intro word _ _ ⟨_, word_lies⟩
  apply Covers.bind (covers_forBody placed)
  intro form _ _ row
  apply Covers.bind (.expect (by decide))
  intro close hi _ ⟨_, close_lies⟩
  exact .pure (.enclosed word_lies row close_lies rfl)

theorem covers_statement (placed : rules.Placed good) :
    Covers good lo seen (statement rules) fun s hi => Row good lo [.stmt s] hi := by
  apply Covers.kind_bind
  intro k
  split
  · exact covers_declaration placed (by simp +contextual)
  · exact covers_declaration placed (by simp +contextual)
  · exact covers_retStmt placed (by simp +contextual)
  · exact covers_ifStmt placed (by simp +contextual)
  · exact covers_switchStmt placed (by simp +contextual)
  · exact covers_matchStmt placed (by simp +contextual)
  · exact covers_forStmt placed (by simp +contextual)
  · apply Covers.look_bind (.kindAt 1)
    intro after
    split
    · exact covers_definition placed
    · exact covers_assignment placed
    · exact covers_assignment placed
    · exact covers_exprStmt placed
  · exact covers_exprStmt placed

end Frontend.Grammar
