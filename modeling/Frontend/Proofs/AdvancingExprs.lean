import Frontend.Grammar.Stmt
import Frontend.Proofs.AdvancingBlocks

/-!
Expressions and statements take a token each and never stall, as long as the rules that they call do
so on what is left of the stream. Where a rule has looked past the next token, what it has seen
there tells that the tokens it takes are no terminal ones.
-/
namespace Frontend.Grammar

open Frontend.Grammar.Parser
open Token (Kind)

variable {n : Nat} {ahead : List Token → Prop} {rules : Rules}

theorem advances_literal {t : Token} {minus : Option Position} :
    Advances n ahead never (literal t minus) := by
  unfold literal
  split
  · exact .pure id
  · exact .fail nofun

theorem advances_blockBody (advancing : rules.Advancing n) {hint : Position} :
    Advances n ahead never (blockBody rules hint) := by
  apply (advances_block advancing).bind
  intro stmts
  apply Advances.start (.expect rfl)
  intro _
  exact .ofExcept (spoken_promoteBlock hint stmts)

theorem advances_lambdaParams : Advances n ahead always lambdaParams := by
  apply Advances.start (.commaList .expectIdent)
  exact fun _ => .pure id

theorem advances_doBlock (advancing : rules.Advancing n)
    (some : ∀ tokens, ahead tokens → tokens ≠ []) :
    Advances n ahead always (doBlock rules) := by
  have looked : Advances n whatever never doParamsAhead := .looking fun _ => id
  apply Advances.start (.next some)
  intro word
  apply looked.bind
  intro found
  apply Advances.ite_bind advances_lambdaParams.lax (.pure id)
  intro params
  apply (advances_blockBody advancing).bind
  intro body
  apply Advances.place.bind
  exact fun _ => .pure id

theorem advances_namedArg (advancing : rules.Advancing n) :
    Advances n ahead always (namedArg rules) := by
  apply Advances.start .expectIdent
  intro name
  apply Advances.start (.expect rfl)
  intro _
  apply Advances.skipNewlines.bind
  intro _
  apply advancing.expr.bind
  exact fun _ => .pure id

theorem advances_callEnd (advancing : rules.Advancing n) :
    Advances n ahead always (callEnd rules) := by
  apply Advances.start (.expect rfl)
  intro close
  apply Advances.kind_bind
  intro k
  apply Advances.ite
  · rintro rfl
    apply (advances_doBlock advancing fun _ here => here.2.ne_nil rfl).bind
    exact fun _ => .pure id
  · exact fun _ => .pure id

theorem advances_call (advancing : rules.Advancing n) {callee : Expr}
    (some : ∀ tokens, ahead tokens → tokens ≠ []) :
    Advances n ahead always (call rules callee) := by
  apply Advances.start (.next some)
  intro _
  apply Advances.skipNewlines.bind
  intro _
  apply Advances.kind_bind
  intro k
  apply Advances.ite_bind (.kindAt_bind fun _ => .pure id) (.pure id)
  intro found
  apply Advances.ite
  · intro _
    apply Advances.bind (.closedList fun _ => advances_namedArg advancing)
    intro args
    apply (advances_callEnd advancing).bind
    exact fun _ => .pure id
  · intro _
    apply Advances.bind (.closedList fun _ => advancing.expr)
    intro args
    apply (advances_callEnd advancing).bind
    exact fun _ => .pure id

theorem advances_indexAccess (advancing : rules.Advancing n) {target : Expr}
    (some : ∀ tokens, ahead tokens → tokens ≠ []) :
    Advances n ahead always (indexAccess rules target) := by
  apply Advances.start (.next some)
  intro _
  apply Advances.skipNewlines.bind
  intro _
  apply advancing.expr.bind
  intro index
  apply Advances.skipNewlines.bind
  intro _
  apply Advances.start (.expect rfl)
  exact fun _ => .pure id

theorem advances_fieldAccess {target : Expr} (some : ∀ tokens, ahead tokens → tokens ≠ []) :
    Advances n ahead always (fieldAccess target) := by
  apply Advances.start (.next some)
  intro _
  apply Advances.start .expectIdent
  exact fun _ => .pure id

theorem advances_literalField (advancing : rules.Advancing n) (fields : List (String × Expr)) :
    Advances n ahead always (literalField rules fields) := by
  apply Advances.start .expectIdent
  intro name
  apply advances_checkFieldName.bind
  intro _
  apply Advances.start (.expect rfl)
  intro _
  apply Advances.skipNewlines.bind
  intro _
  apply advancing.expr.bind
  exact fun _ => .pure id

theorem advances_recordOrTuple (advancing : rules.Advancing n) :
    Advances (n + 1) ahead always (recordOrTuple rules) := by
  have fields : ∀ (name : Option Token) (opening : Token), Advances n whatever never (do
      let fields ← closedList .rbrace (literalField rules)
      let close ← expect .rbrace "'\x7d' closing literal"
      let head := name.map (·.text)
      let form := if areUnnamed fields then .tuple head (fields.map (·.2)) else .record head fields
      pure (⟨(name.getD opening).span.through close.span, form⟩ : Expr)) := by
    intro name opening
    apply Advances.bind (.closedList (advances_literalField advancing))
    intro fields
    apply Advances.start (.expect rfl)
    exact fun _ => .pure id
  apply Advances.eat_bind rfl
  · intro name
    apply Advances.start (.expect rfl)
    exact fun opening => fields (some name) opening
  · apply Advances.first (.expect rfl)
    exact fun opening => fields none opening

theorem advances_arrayRest (advancing : rules.Advancing n) {first : Expr} :
    Advances n ahead never (arrayRest rules first) := by
  apply Advances.iterate
  intro elems
  apply Advances.ate_ite rfl
  · apply Advances.skipNewlines.bind
    intro _
    apply Advances.kind_bind
    intro k
    apply Advances.ite
    · exact fun _ => .pure id
    intro _
    apply advancing.expr.bind
    intro e
    apply Advances.skipNewlines.bind
    exact fun _ => .pure id
  · exact .pure id

theorem advances_dictRest (advancing : rules.Advancing n) {first : Expr × Expr} :
    Advances n ahead never (dictRest rules first) := by
  apply Advances.iterate
  intro elems
  apply Advances.ate_ite rfl
  · apply Advances.skipNewlines.bind
    intro _
    apply Advances.kind_bind
    intro k
    apply Advances.ite
    · exact fun _ => .pure id
    intro _
    apply advancing.expr.bind
    intro key
    apply Advances.skipNewlines.bind
    intro _
    apply Advances.start (.expect rfl)
    intro _
    apply Advances.skipNewlines.bind
    intro _
    apply advancing.expr.bind
    intro value
    apply Advances.skipNewlines.bind
    exact fun _ => .pure id
  · exact .pure id

theorem advances_elements (advancing : rules.Advancing n) :
    Advances n ahead always (elements rules) := by
  apply advancing.expr.start
  intro first
  apply Advances.skipNewlines.bind
  intro _
  apply Advances.ate_ite rfl
  · apply Advances.skipNewlines.bind
    intro _
    apply advancing.expr.bind
    intro value
    apply (advances_dictRest advancing).bind
    exact fun _ => .pure id
  · apply (advances_arrayRest advancing).bind
    exact fun _ => .pure id

theorem advances_arrayOrDict (advancing : rules.Advancing n)
    (some : ∀ tokens, ahead tokens → tokens ≠ []) :
    Advances (n + 1) ahead always (arrayOrDict rules) := by
  apply Advances.first (.next some)
  intro opening
  apply Advances.skipNewlines.bind
  intro _
  apply Advances.ate_ite rfl
  · apply Advances.skipNewlines.bind
    intro _
    apply Advances.start (.expect rfl)
    exact fun _ => .pure id
  have closing : Advances n whatever never (eat .rbracket) := .eat rfl
  apply closing.bind
  rintro (_ | close)
  · apply (advances_elements advancing).bind
    intro form
    apply Advances.skipNewlines.bind
    intro _
    apply Advances.start (.expect rfl)
    exact fun _ => .pure id
  · exact .pure id

theorem advances_lambdaParamsAhead : Advances n ahead never lambdaParamsAhead := by
  apply Advances.kind_bind
  intro k
  apply Advances.ite
  · intro _
    apply Advances.kindAt_bind
    exact fun _ => .pure id
  · exact fun _ => .pure id

theorem advances_lambdaBody (advancing : rules.Advancing n) {hasParams : Bool} :
    Advances n ahead never (lambdaBody rules hasParams) := by
  have opening : Advances n ahead never (eat .doWord) := .eat rfl
  apply opening.bind
  rintro (_ | word)
  · apply Advances.ite
    · intro _
      apply Advances.start (.expect rfl)
      intro _
      apply Advances.skipNewlines.bind
      exact fun _ => advancing.expr.lax
    · exact fun _ => advancing.expr.lax
  · exact advances_blockBody advancing

theorem advances_lambda (advancing : rules.Advancing n)
    (some : ∀ tokens, ahead tokens → tokens ≠ []) :
    Advances (n + 1) ahead always (lambda rules) := by
  apply Advances.first (.next some)
  intro arrow
  apply advances_lambdaParamsAhead.bind
  intro hasParams
  apply Advances.ite_bind advances_lambdaParams.lax (.pure id)
  intro params
  apply (advances_lambdaBody advancing).bind
  intro body
  apply Advances.place.bind
  exact fun _ => .pure id

theorem advances_parenthesized (advancing : rules.Advancing n)
    (some : ∀ tokens, ahead tokens → tokens ≠ []) :
    Advances (n + 1) ahead always (parenthesized rules) := by
  apply Advances.first (.next some)
  intro _
  apply Advances.skipNewlines.bind
  intro _
  apply advancing.expr.bind
  intro e
  apply Advances.skipNewlines.bind
  intro _
  apply Advances.start (.expect rfl)
  exact fun _ => .pure id

theorem advances_branchingValue {stmt : Parser Stmt} (h : Advances n ahead always stmt) :
    Advances n ahead always (branchingValue stmt) :=
  h.start fun s => .ofExcept (spoken_promote s)

theorem advances_primary (advancing : rules.Advancing n) :
    Advances (n + 1) ahead always (primary rules) := by
  apply Advances.kind_bind
  intro k
  apply Advances.ite
  · intro literal
    apply (Advances.next_seen (going_of_isKind literal)).start
    exact fun _ => advances_literal
  intro _
  split
  · apply Advances.kindAt_bind
    intro after
    apply Advances.ite
    · exact fun _ => advances_recordOrTuple advancing
    · intro _
      apply Advances.start .expectIdent
      exact fun _ => .pure id
  · exact advances_recordOrTuple advancing
  · exact advances_arrayOrDict advancing (some_of_showing rfl)
  · exact advances_parenthesized advancing (some_of_showing rfl)
  · exact advances_lambda advancing (some_of_showing rfl)
  · exact advances_branchingValue (advances_ifStmt advancing (some_of_showing rfl))
  · exact advances_branchingValue (advances_switchStmt advancing (some_of_showing rfl))
  · exact advances_branchingValue (advances_matchStmt advancing (some_of_showing rfl))
  · exact .unexpected

theorem advances_chained (advancing : rules.Advancing n) :
    Advances (n + 1) ahead always (chained rules) := by
  apply (advances_primary advancing).first
  intro operand
  apply Advances.iterate
  intro e
  apply Advances.kind_bind
  intro k
  split
  · apply (advances_call advancing (some_of_showing rfl)).start
    exact fun _ => .pure id
  · apply (advances_indexAccess advancing (some_of_showing rfl)).start
    exact fun _ => .pure id
  · apply (advances_fieldAccess (some_of_showing rfl)).start
    exact fun _ => .pure id
  · exact .pure id

theorem advances_prefixed (advancing : rules.Advancing n)
    (some : ∀ tokens, ahead tokens → tokens ≠ []) {op : UnaryOp} :
    Advances (n + 1) ahead always (prefixed rules op) := by
  apply Advances.first (.next some)
  intro t
  apply advancing.unary.bind
  exact fun _ => .pure id

/-- Only behind a literal at the second place a minus belongs to it. -/
theorem advances_negativeLiteralAhead_bind {β : Type} {k : Bool → Parser β} {final : β → Prop}
    (yes : ∀ kind, Kind.isTerminal kind = false →
      Advances n (fun tokens => ahead tokens ∧ Showing 1 kind tokens) final (k true))
    (no : Advances n ahead final (k false)) :
    Advances n ahead final (negativeLiteralAhead >>= k) := by
  unfold negativeLiteralAhead
  rw [bind_assoc]
  apply Advances.kindAt_bind
  intro kind
  by_cases number : kind = .int ∨ kind = .float
  · have going : kind.isTerminal = false := by
      obtain rfl | rfl := number
      · rfl
      · rfl
    rw [if_pos number, bind_assoc]
    apply Advances.kindAt_bind
    intro after
    rw [pure_bind]
    by_cases belongs : (after != .lparen && after != .lbracket && after != .dot) = true
    · rw [belongs]
      exact (yes kind going).forget fun _ here => here.1
    · rw [Bool.not_eq_true] at belongs
      rw [belongs]
      exact no.forget fun _ here => here.1.1
  · rw [if_neg number, pure_bind]
    exact no.forget fun _ here => here.1

theorem advances_unary (advancing : rules.Advancing n) :
    Advances (n + 1) ahead always (unary rules) := by
  apply Advances.kind_bind
  intro k
  cases op : unaryOp? k with
  | none => exact advances_chained advancing
  | some op' =>
    have going : k.isTerminal = false := by
      cases k <;> first | rfl | cases op
    cases op' with
    | neg =>
      apply advances_negativeLiteralAhead_bind
      · intro kind number
        apply Advances.next_bind
        · exact fun tokens here => here.1.2.ne_nil going
        intro minus
        have behind : ∀ tokens, (ahead (minus :: tokens) ∧ Showing 0 k (minus :: tokens)) ∧
            Showing 1 kind (minus :: tokens) → tokens ≠ [] :=
          fun tokens here => here.2.tail_ne_nil number
        apply (Advances.next behind).start
        exact fun _ => advances_literal
      · exact advances_prefixed advancing (some_of_showing going)
    | pos => exact advances_prefixed advancing (some_of_showing going)
    | not => exact advances_prefixed advancing (some_of_showing going)

theorem advances_coerced (advancing : rules.Advancing n) :
    Advances (n + 1) ahead always (coerced rules) := by
  apply (advances_unary advancing).first
  intro operand
  apply Advances.iterate
  intro e
  apply Advances.ate_ite rfl
  · exact advancing.typeExpr.bind fun _ => .pure id
  · exact .pure id

theorem advances_binary (advancing : rules.Advancing n) (power : Nat) :
    Advances (n + 1) ahead always (binary rules power) := by
  apply (advances_coerced advancing).first
  intro first
  apply Advances.iterate
  intro lhs
  apply Advances.kind_bind
  intro k
  cases op : binaryOp? k with
  | none => exact .pure id
  | some found =>
    have going : k.isTerminal = false := by
      cases k <;> first | rfl | cases op
    apply Advances.ite
    · exact fun _ => .pure id
    intro _
    apply (Advances.next_seen going).start
    intro _
    apply Advances.skipNewlines.bind
    intro _
    apply (advancing.binary _).bind
    exact fun _ => .pure id

theorem advances_exprList (advancing : rules.Advancing n) :
    Advances n ahead always rules.exprList :=
  .commaList advancing.expr

theorem advances_declaration (advancing : rules.Advancing n)
    (some : ∀ tokens, ahead tokens → tokens ≠ []) :
    Advances (n + 1) ahead always (declaration rules) := by
  apply Advances.first (.next some)
  intro word
  apply Advances.start (.commaList advancing.destructuring)
  intro targets
  apply Advances.start (.expect rfl)
  intro _
  apply Advances.skipNewlines.bind
  intro _
  apply (advances_exprList advancing).bind
  intro values
  apply Advances.place.bind
  exact fun _ => .pure id

/-- The second token has been seen to be there. -/
theorem advances_definition (advancing : rules.Advancing n)
    (seen : ∀ tokens, ahead tokens → Showing 1 .define tokens) :
    Advances (n + 1) ahead always (definition rules) := by
  apply Advances.expect_bind rfl
  intro name
  have behind : ∀ tokens, ahead (name :: tokens) → tokens ≠ [] :=
    fun tokens here => (seen _ here).tail_ne_nil rfl
  apply (Advances.next behind).start
  intro _
  apply Advances.skipNewlines.bind
  intro _
  apply advancing.expr.bind
  exact fun _ => .pure id

theorem advances_assignment (advancing : rules.Advancing n) :
    Advances (n + 1) ahead always (assignment rules) := by
  have names : ∀ first : Token, Advances (n + 1) whatever always (do
      let names ← commaList (expectIdent "variable name")
      let _ ← expect .assign "'=' in assignment"
      skipNewlines
      let values ← rules.exprList
      let stop ← place
      pure (⟨⟨first.span.start, stop⟩, .assign (names.map (·.text)) values⟩ : Stmt)) := by
    intro first
    apply Advances.first (.commaList .expectIdent)
    intro names
    apply Advances.start (.expect rfl)
    intro _
    apply Advances.skipNewlines.bind
    intro _
    apply (advances_exprList advancing).bind
    intro values
    apply Advances.place.bind
    exact fun _ => .pure id
  exact Advances.peekAt.bind names

theorem advances_exprStmt (advancing : rules.Advancing n) :
    Advances (n + 1) ahead always (exprStmt rules) := by
  apply (advances_binary advancing 1).first
  intro e
  apply Advances.ate_ite rfl
  · split
    · apply Advances.skipNewlines.bind
      intro _
      apply advancing.expr.bind
      exact fun _ => .pure id
    · exact .fail nofun
  · exact .pure id

theorem advances_retStmt (advancing : rules.Advancing n)
    (some : ∀ tokens, ahead tokens → tokens ≠ []) :
    Advances (n + 1) ahead always (retStmt rules) := by
  apply Advances.first (.next some)
  intro word
  apply Advances.kind_bind
  intro k
  apply Advances.ite_bind (.pure id) (advances_exprList advancing).lax
  intro values
  apply Advances.place.bind
  exact fun _ => .pure id

theorem advances_destructuringThenIn : Advances n ahead never destructuringThenIn := by
  have stops : ∀ nameEnd, Advances n whatever never (do
      let stop ← if (← kindAt nameEnd) = .lbrace then bracesEnd nameEnd else pure nameEnd
      if stop = 0 then pure false else do
        let after ← kindAt stop
        pure (after = .inWord : Bool)) := by
    intro nameEnd
    apply Advances.kindAt_bind
    intro k
    have braces : Advances n (fun tokens => whatever tokens ∧ Showing nameEnd k tokens) never
        (bracesEnd nameEnd) := .looking fun _ => id
    apply braces.ite_bind (.pure id)
    intro stop
    apply Advances.ite
    · exact fun _ => .pure id
    · exact fun _ => .kindAt_bind fun _ => .pure id
  apply Advances.kindAt_bind
  intro k
  apply Advances.ite
  · intro _
    apply Advances.kindAt_bind
    intro after
    exact Advances.ite_bind (.pure id) (.pure id) stops
  · intro _
    exact (stops 0).forget fun _ _ => trivial

theorem advances_forBody (advancing : rules.Advancing n) :
    Advances n ahead never (forBody rules) := by
  apply advances_destructuringThenIn.bind
  intro found
  apply Advances.ite
  · intro _
    apply advancing.destructuring.bind
    intro target
    apply Advances.start (.expect rfl)
    intro _
    apply advancing.expr.bind
    intro range
    apply (advances_block advancing).bind
    exact fun _ => .pure id
  · intro _
    apply advancing.expr.bind
    intro cond
    apply (advances_block advancing).bind
    exact fun _ => .pure id

theorem advances_forStmt (advancing : rules.Advancing n)
    (some : ∀ tokens, ahead tokens → tokens ≠ []) :
    Advances (n + 1) ahead always (forStmt rules) := by
  apply Advances.first (.next some)
  intro word
  apply (advances_forBody advancing).bind
  intro form
  apply Advances.start (.expect rfl)
  exact fun _ => .pure id

theorem advances_statement (advancing : rules.Advancing n) :
    Advances (n + 1) ahead always (statement rules) := by
  apply Advances.kind_bind
  intro k
  split
  · exact advances_declaration advancing (some_of_showing rfl)
  · exact advances_declaration advancing (some_of_showing rfl)
  · exact advances_retStmt advancing (some_of_showing rfl)
  · exact advances_ifStmt advancing (some_of_showing rfl)
  · exact advances_switchStmt advancing (some_of_showing rfl)
  · exact advances_matchStmt advancing (some_of_showing rfl)
  · exact advances_forStmt advancing (some_of_showing rfl)
  · apply Advances.kindAt_bind
    intro after
    split
    · exact advances_definition advancing fun _ here => here.2
    · exact advances_assignment advancing
    · exact advances_assignment advancing
    · exact advances_exprStmt advancing
  · exact advances_exprStmt advancing

end Frontend.Grammar
