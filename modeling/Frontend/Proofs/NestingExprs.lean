import Frontend.Grammar.Full
import Frontend.Proofs.NestingTypes

/-!
Blocks, expressions and statements take no word that begins a declaration, and close the braces that
they open, as long as the rules that they call do so.
-/
namespace Frontend.Grammar

open Frontend.Grammar.Parser
open Token (Kind)

variable {d : Nat} {ahead : List Token → Prop} {rules : Rules}

/-- What is seen at the second place of some tokens is seen at the first one behind their head. -/
theorem Showing.tail {k : Kind} {t : Token} {tokens : List Token} (h : Showing 1 k (t :: tokens)) :
    Showing 0 k tokens :=
  ⟨fun going => Nat.lt_of_succ_lt_succ (h.some going), fun u found => h.kind u found⟩

theorem nests_block (nesting : rules.Nesting) {closers : List Kind} :
    Nests d d ahead (block rules closers) := by
  apply Nests.iterate
  intro stmts
  apply Nests.skipSeparators.bind
  intro _
  apply Nests.kind_bind
  intro k
  apply Nests.ite
  · exact fun _ => .pure
  intro _
  apply Nests.ite
  · exact fun _ => .unexpected
  intro _
  apply nesting.statement.bind
  intro s
  apply Nests.kind_bind
  intro k
  apply Nests.ite
  · exact fun _ => .pure
  · exact fun _ => .unexpected

theorem nests_elseBlock (nesting : rules.Nesting) : Nests d d ahead (elseBlock rules) := by
  apply Nests.ate_ite rfl
  · exact nests_block nesting
  · exact .pure

theorem nests_thenOrSeparator {what : String} : Nests d d ahead (thenOrSeparator what) := by
  apply Nests.ate_ite rfl
  · exact .pure
  apply Nests.kind_bind
  intro k
  apply Nests.ite
  · exact fun _ => .pure
  · exact fun _ => .unexpected

theorem nests_ifStmt (nesting : rules.Nesting)
    (seen : ∀ tokens, ahead tokens → Showing 0 .ifWord tokens) :
    Nests d d ahead (ifStmt rules) := by
  apply (Nests.next seen rfl).bind
  intro word
  apply nesting.expr.bind
  intro cond
  apply nests_thenOrSeparator.bind
  intro _
  apply (nests_block nesting).bind
  intro thenBlock
  apply (nests_elseBlock nesting).bind
  intro elseBlock
  apply (Nests.expect rfl).bind
  exact fun _ => .pure

theorem nests_branches {α : Type} {word : Kind} {what : String} {branch : Parser α}
    (inner : isInner word = true) (each : Nests d d whatever branch) :
    Nests d d ahead (branches word what branch) := by
  have found : Nests d d ahead (iterate (fun found => do
      if ← ate word then
        let b ← branch
        pure (.again (b :: found))
      else pure (.done found.reverse)) []) := by
    apply Nests.iterate
    intro found
    apply Nests.ate_ite inner
    · exact each.bind fun _ => .pure
    · exact .pure
  apply found.bind
  intro all
  apply Nests.ite
  · exact fun _ => .unexpected
  · exact fun _ => .pure

theorem nests_switchCase (nesting : rules.Nesting) : Nests d d ahead (switchCase rules) := by
  apply nesting.expr.bind
  intro cond
  apply nests_thenOrSeparator.bind
  intro _
  apply (nests_block nesting).bind
  exact fun _ => .pure

theorem nests_switchStmt (nesting : rules.Nesting)
    (seen : ∀ tokens, ahead tokens → Showing 0 .switchWord tokens) :
    Nests d d ahead (switchStmt rules) := by
  apply (Nests.next seen rfl).bind
  intro word
  apply Nests.skipSeparators.bind
  intro _
  apply (nests_branches rfl (nests_switchCase nesting)).bind
  intro cases
  apply (nests_elseBlock nesting).bind
  intro elseBlock
  apply (Nests.expect rfl).bind
  exact fun _ => .pure

theorem nests_matchArm (nesting : rules.Nesting) : Nests d d ahead (matchArm rules) := by
  apply nesting.pattern.bind
  intro p
  apply nests_thenOrSeparator.bind
  intro _
  apply (nests_block nesting).bind
  exact fun _ => .pure

theorem nests_matchStmt (nesting : rules.Nesting)
    (seen : ∀ tokens, ahead tokens → Showing 0 .matchWord tokens) :
    Nests d d ahead (matchStmt rules) := by
  apply (Nests.next seen rfl).bind
  intro word
  apply nesting.expr.bind
  intro subject
  apply Nests.skipSeparators.bind
  intro _
  apply (nests_branches rfl (nests_matchArm nesting)).bind
  intro arms
  apply (nests_elseBlock nesting).bind
  intro elseBlock
  apply (Nests.expect rfl).bind
  exact fun _ => .pure

theorem nests_literal {t : Token} {minus : Option Position} :
    Nests d d ahead (literal t minus) := by
  unfold literal
  split
  · exact .pure
  · exact .fail

theorem nests_blockBody (nesting : rules.Nesting) {hint : Position} :
    Nests d d ahead (blockBody rules hint) := by
  apply (nests_block nesting).bind
  intro stmts
  apply (Nests.expect rfl).bind
  intro _
  exact .ofExcept

theorem nests_lambdaParams : Nests d d ahead lambdaParams := by
  apply Nests.bind (.commaList .expectIdent)
  exact fun _ => .pure

theorem nests_doBlock (nesting : rules.Nesting)
    (seen : ∀ tokens, ahead tokens → Showing 0 .doWord tokens) :
    Nests d d ahead (doBlock rules) := by
  have looked : Nests d d whatever doParamsAhead := .looking
  apply (Nests.next seen rfl).bind
  intro word
  apply looked.bind
  intro found
  apply Nests.ite_bind nests_lambdaParams .pure
  intro params
  apply (nests_blockBody nesting).bind
  intro body
  apply Nests.place.bind
  exact fun _ => .pure

theorem nests_namedArg (nesting : rules.Nesting) : Nests d d ahead (namedArg rules) := by
  apply Nests.expectIdent.bind
  intro name
  apply (Nests.expect rfl).bind
  intro _
  apply Nests.skipNewlines.bind
  intro _
  apply nesting.expr.bind
  exact fun _ => .pure

theorem nests_callEnd (nesting : rules.Nesting) : Nests d d ahead (callEnd rules) := by
  apply (Nests.expect rfl).bind
  intro close
  apply Nests.kind_bind
  intro k
  apply Nests.ite
  · rintro rfl
    apply (nests_doBlock nesting fun _ here => here.2).bind
    exact fun _ => .pure
  · exact fun _ => .pure

theorem nests_call (nesting : rules.Nesting) {callee : Expr}
    (seen : ∀ tokens, ahead tokens → Showing 0 .lparen tokens) :
    Nests d d ahead (call rules callee) := by
  apply (Nests.next seen rfl).bind
  intro _
  apply Nests.skipNewlines.bind
  intro _
  apply Nests.kind_bind
  intro k
  apply Nests.ite_bind (.kindAt_bind fun _ => .pure) .pure
  intro found
  apply Nests.ite
  · intro _
    apply Nests.bind (.closedList fun _ => nests_namedArg nesting)
    intro args
    apply (nests_callEnd nesting).bind
    exact fun _ => .pure
  · intro _
    apply Nests.bind (.closedList fun _ => nesting.expr)
    intro args
    apply (nests_callEnd nesting).bind
    exact fun _ => .pure

theorem nests_indexAccess (nesting : rules.Nesting) {target : Expr}
    (seen : ∀ tokens, ahead tokens → Showing 0 .lbracket tokens) :
    Nests d d ahead (indexAccess rules target) := by
  apply (Nests.next seen rfl).bind
  intro _
  apply Nests.skipNewlines.bind
  intro _
  apply nesting.expr.bind
  intro index
  apply Nests.skipNewlines.bind
  intro _
  apply (Nests.expect rfl).bind
  exact fun _ => .pure

theorem nests_fieldAccess {target : Expr} (seen : ∀ tokens, ahead tokens → Showing 0 .dot tokens) :
    Nests d d ahead (fieldAccess target) := by
  apply (Nests.next seen rfl).bind
  intro _
  apply Nests.expectIdent.bind
  exact fun _ => .pure

theorem nests_literalField (nesting : rules.Nesting) (fields : List (String × Expr)) :
    Nests d d ahead (literalField rules fields) := by
  apply Nests.expectIdent.bind
  intro name
  apply nests_checkFieldName.bind
  intro _
  apply (Nests.expect rfl).bind
  intro _
  apply Nests.skipNewlines.bind
  intro _
  apply nesting.expr.bind
  exact fun _ => .pure

theorem nests_recordOrTuple (nesting : rules.Nesting) : Nests d d ahead (recordOrTuple rules) := by
  apply (Nests.eat rfl).bind
  intro name
  apply Nests.opening_bind
  intro opening
  apply Nests.bind (.closedList (nests_literalField nesting))
  intro fields
  apply Nests.closing_bind
  exact fun _ => .pure

theorem nests_arrayRest (nesting : rules.Nesting) {first : Expr} :
    Nests d d ahead (arrayRest rules first) := by
  apply Nests.iterate
  intro elems
  apply Nests.ate_ite rfl
  · apply Nests.skipNewlines.bind
    intro _
    apply Nests.kind_bind
    intro k
    apply Nests.ite
    · exact fun _ => .pure
    intro _
    apply nesting.expr.bind
    intro e
    apply Nests.skipNewlines.bind
    exact fun _ => .pure
  · exact .pure

theorem nests_dictRest (nesting : rules.Nesting) {first : Expr × Expr} :
    Nests d d ahead (dictRest rules first) := by
  apply Nests.iterate
  intro elems
  apply Nests.ate_ite rfl
  · apply Nests.skipNewlines.bind
    intro _
    apply Nests.kind_bind
    intro k
    apply Nests.ite
    · exact fun _ => .pure
    intro _
    apply nesting.expr.bind
    intro key
    apply Nests.skipNewlines.bind
    intro _
    apply (Nests.expect rfl).bind
    intro _
    apply Nests.skipNewlines.bind
    intro _
    apply nesting.expr.bind
    intro value
    apply Nests.skipNewlines.bind
    exact fun _ => .pure
  · exact .pure

theorem nests_elements (nesting : rules.Nesting) : Nests d d ahead (elements rules) := by
  apply nesting.expr.bind
  intro first
  apply Nests.skipNewlines.bind
  intro _
  apply Nests.ate_ite rfl
  · apply Nests.skipNewlines.bind
    intro _
    apply nesting.expr.bind
    intro value
    apply (nests_dictRest nesting).bind
    exact fun _ => .pure
  · apply (nests_arrayRest nesting).bind
    exact fun _ => .pure

theorem nests_arrayOrDict (nesting : rules.Nesting)
    (seen : ∀ tokens, ahead tokens → Showing 0 .lbracket tokens) :
    Nests d d ahead (arrayOrDict rules) := by
  apply (Nests.next seen rfl).bind
  intro opening
  apply Nests.skipNewlines.bind
  intro _
  apply Nests.ate_ite rfl
  · apply Nests.skipNewlines.bind
    intro _
    apply (Nests.expect rfl).bind
    exact fun _ => .pure
  have closing : Nests d d whatever (eat .rbracket) := .eat rfl
  apply closing.bind
  rintro (_ | close)
  · apply (nests_elements nesting).bind
    intro form
    apply Nests.skipNewlines.bind
    intro _
    apply (Nests.expect rfl).bind
    exact fun _ => .pure
  · exact .pure

theorem nests_lambdaParamsAhead : Nests d d ahead lambdaParamsAhead := by
  apply Nests.kind_bind
  intro k
  apply Nests.ite
  · intro _
    apply Nests.kindAt_bind
    exact fun _ => .pure
  · exact fun _ => .pure

theorem nests_lambdaBody (nesting : rules.Nesting) {hasParams : Bool} :
    Nests d d ahead (lambdaBody rules hasParams) := by
  have opening : Nests d d ahead (eat .doWord) := .eat rfl
  apply opening.bind
  rintro (_ | word)
  · apply Nests.ite
    · intro _
      apply (Nests.expect rfl).bind
      intro _
      apply Nests.skipNewlines.bind
      exact fun _ => nesting.expr
    · exact fun _ => nesting.expr
  · exact nests_blockBody nesting

theorem nests_lambda (nesting : rules.Nesting)
    (seen : ∀ tokens, ahead tokens → Showing 0 .arrow tokens) :
    Nests d d ahead (lambda rules) := by
  apply (Nests.next seen rfl).bind
  intro arrow
  apply nests_lambdaParamsAhead.bind
  intro hasParams
  apply Nests.ite_bind nests_lambdaParams .pure
  intro params
  apply (nests_lambdaBody nesting).bind
  intro body
  apply Nests.place.bind
  exact fun _ => .pure

theorem nests_parenthesized (nesting : rules.Nesting)
    (seen : ∀ tokens, ahead tokens → Showing 0 .lparen tokens) :
    Nests d d ahead (parenthesized rules) := by
  apply (Nests.next seen rfl).bind
  intro _
  apply Nests.skipNewlines.bind
  intro _
  apply nesting.expr.bind
  intro e
  apply Nests.skipNewlines.bind
  intro _
  apply (Nests.expect rfl).bind
  exact fun _ => .pure

theorem nests_branchingValue {stmt : Parser Stmt} (h : Nests d d ahead stmt) :
    Nests d d ahead (branchingValue stmt) :=
  h.bind fun _ => .ofExcept

theorem nests_primary (nesting : rules.Nesting) : Nests d d ahead (primary rules) := by
  apply Nests.kind_bind
  intro k
  apply Nests.ite
  · intro literal
    apply (Nests.next_seen (isInner_of_isKind literal)).bind
    exact fun _ => nests_literal
  intro _
  split
  · apply Nests.kindAt_bind
    intro after
    apply Nests.ite
    · exact fun _ => nests_recordOrTuple nesting
    · intro _
      apply Nests.expectIdent.bind
      exact fun _ => .pure
  · exact nests_recordOrTuple nesting
  · exact nests_arrayOrDict nesting fun _ here => here.2
  · exact nests_parenthesized nesting fun _ here => here.2
  · exact nests_lambda nesting fun _ here => here.2
  · exact nests_branchingValue (nests_ifStmt nesting fun _ here => here.2)
  · exact nests_branchingValue (nests_switchStmt nesting fun _ here => here.2)
  · exact nests_branchingValue (nests_matchStmt nesting fun _ here => here.2)
  · exact .unexpected

theorem nests_chained (nesting : rules.Nesting) : Nests d d ahead (chained rules) := by
  apply (nests_primary nesting).bind
  intro operand
  apply Nests.iterate
  intro e
  apply Nests.kind_bind
  intro k
  split
  · apply (nests_call nesting fun _ here => here.2).bind
    exact fun _ => .pure
  · apply (nests_indexAccess nesting fun _ here => here.2).bind
    exact fun _ => .pure
  · apply (nests_fieldAccess fun _ here => here.2).bind
    exact fun _ => .pure
  · exact .pure

theorem nests_prefixed (nesting : rules.Nesting) {op : UnaryOp} {word : Kind}
    (inner : isInner word = true) (seen : ∀ tokens, ahead tokens → Showing 0 word tokens) :
    Nests d d ahead (prefixed rules op) := by
  apply (Nests.next seen inner).bind
  intro t
  apply nesting.unary.bind
  exact fun _ => .pure

/-- Only behind a number at the second place a minus belongs to it. -/
theorem nests_negativeLiteralAhead_bind {β : Type} {k : Bool → Parser β}
    (yes : ∀ kind, isInner kind = true →
      Nests d d (fun tokens => ahead tokens ∧ Showing 1 kind tokens) (k true))
    (no : Nests d d ahead (k false)) : Nests d d ahead (negativeLiteralAhead >>= k) := by
  unfold negativeLiteralAhead
  rw [bind_assoc]
  apply Nests.kindAt_bind
  intro kind
  by_cases number : kind = .int ∨ kind = .float
  · rw [if_pos number, bind_assoc]
    apply Nests.kindAt_bind
    intro after
    rw [pure_bind]
    by_cases belongs : (after != .lparen && after != .lbracket && after != .dot) = true
    · rw [belongs]
      exact (yes kind (isInner_of_number number)).forget fun _ here => here.1
    · rw [Bool.not_eq_true] at belongs
      rw [belongs]
      exact no.forget fun _ here => here.1.1
  · rw [if_neg number, pure_bind]
    exact no.forget fun _ here => here.1

theorem isInner_of_unaryOp {k : Kind} {op : UnaryOp} (h : unaryOp? k = some op) :
    isInner k = true := by
  cases k <;> first | rfl | cases h

theorem isInner_of_binaryOp {k : Kind} {op : BinaryOp × Nat} (h : binaryOp? k = some op) :
    isInner k = true := by
  cases k <;> first | rfl | cases h

theorem nests_unary (nesting : rules.Nesting) : Nests d d ahead (unary rules) := by
  apply Nests.kind_bind
  intro k
  cases op : unaryOp? k with
  | none => exact nests_chained nesting
  | some op' =>
    have inner := isInner_of_unaryOp op
    have prefixed : ∀ op, Nests d d (fun tokens => ahead tokens ∧ Showing 0 k tokens)
        (prefixed rules op) := fun op => nests_prefixed nesting inner fun _ here => here.2
    cases op' with
    | neg =>
      apply nests_negativeLiteralAhead_bind
      · intro kind number
        apply Nests.next_bind (fun _ here => here.1.2) (going_of_isInner inner)
          (beginsToplevel_of_isInner inner) (braceStep_of_isInner inner)
        intro minus _
        apply (Nests.next (fun _ here => here.2.tail) number).bind
        exact fun _ => nests_literal
      · exact prefixed .neg
    | pos => exact prefixed .pos
    | not => exact prefixed .not

theorem nests_coerced (nesting : rules.Nesting) : Nests d d ahead (coerced rules) := by
  apply (nests_unary nesting).bind
  intro operand
  apply Nests.iterate
  intro e
  apply Nests.ate_ite rfl
  · exact nesting.typeExpr.bind fun _ => .pure
  · exact .pure

theorem nests_binary (nesting : rules.Nesting) (power : Nat) :
    Nests d d ahead (binary rules power) := by
  apply (nests_coerced nesting).bind
  intro first
  apply Nests.iterate
  intro lhs
  apply Nests.kind_bind
  intro k
  cases op : binaryOp? k with
  | none => exact .pure
  | some found =>
    apply Nests.ite
    · exact fun _ => .pure
    intro _
    apply (Nests.next_seen (isInner_of_binaryOp op)).bind
    intro _
    apply Nests.skipNewlines.bind
    intro _
    apply (nesting.binary _).bind
    exact fun _ => .pure

theorem nests_exprList (nesting : rules.Nesting) : Nests d d ahead rules.exprList :=
  .commaList nesting.expr

theorem nests_declaration (nesting : rules.Nesting) {word : Kind} (inner : isInner word = true)
    (seen : ∀ tokens, ahead tokens → Showing 0 word tokens) :
    Nests d d ahead (declaration rules) := by
  apply (Nests.next seen inner).bind
  intro word
  apply Nests.bind (.commaList nesting.destructuring)
  intro targets
  apply (Nests.expect rfl).bind
  intro _
  apply Nests.skipNewlines.bind
  intro _
  apply (nests_exprList nesting).bind
  intro values
  apply Nests.place.bind
  exact fun _ => .pure

theorem nests_definition (nesting : rules.Nesting)
    (seen : ∀ tokens, ahead tokens → Showing 1 .define tokens) :
    Nests d d ahead (definition rules) := by
  apply Nests.expect_bind rfl rfl rfl
  intro name
  apply (Nests.next (fun _ here => (seen _ here).tail) rfl).bind
  intro _
  apply Nests.skipNewlines.bind
  intro _
  apply nesting.expr.bind
  exact fun _ => .pure

theorem nests_assignment (nesting : rules.Nesting) : Nests d d ahead (assignment rules) := by
  have names : ∀ first : Token, Nests d d whatever (do
      let names ← commaList (expectIdent "variable name")
      let _ ← expect .assign "'=' in assignment"
      skipNewlines
      let values ← rules.exprList
      let stop ← place
      pure (⟨⟨first.span.start, stop⟩, .assign (names.map (·.text)) values⟩ : Stmt)) := by
    intro first
    apply Nests.bind (.commaList .expectIdent)
    intro names
    apply (Nests.expect rfl).bind
    intro _
    apply Nests.skipNewlines.bind
    intro _
    apply (nests_exprList nesting).bind
    intro values
    apply Nests.place.bind
    exact fun _ => .pure
  exact Nests.peekAt.bind names

theorem nests_exprStmt (nesting : rules.Nesting) : Nests d d ahead (exprStmt rules) := by
  apply (nests_binary nesting 1).bind
  intro e
  apply Nests.ate_ite rfl
  · split
    · apply Nests.skipNewlines.bind
      intro _
      apply nesting.expr.bind
      exact fun _ => .pure
    · exact .fail
  · exact .pure

theorem nests_retStmt (nesting : rules.Nesting)
    (seen : ∀ tokens, ahead tokens → Showing 0 .retWord tokens) :
    Nests d d ahead (retStmt rules) := by
  apply (Nests.next seen rfl).bind
  intro word
  apply Nests.kind_bind
  intro k
  apply Nests.ite_bind .pure (nests_exprList nesting)
  intro values
  apply Nests.place.bind
  exact fun _ => .pure

theorem nests_destructuringThenIn : Nests d d ahead destructuringThenIn := by
  have stops : ∀ nameEnd, Nests d d whatever (do
      let stop ← if (← kindAt nameEnd) = .lbrace then bracesEnd nameEnd else pure nameEnd
      if stop = 0 then pure false else do
        let after ← kindAt stop
        pure (after = .inWord : Bool)) := by
    intro nameEnd
    apply Nests.kindAt_bind
    intro k
    have braces : Nests d d (fun tokens => whatever tokens ∧ Showing nameEnd k tokens)
        (bracesEnd nameEnd) := .looking
    apply braces.ite_bind .pure
    intro stop
    apply Nests.ite
    · exact fun _ => .pure
    · exact fun _ => .kindAt_bind fun _ => .pure
  apply Nests.kindAt_bind
  intro k
  apply Nests.ite
  · intro _
    apply Nests.kindAt_bind
    intro after
    exact Nests.ite_bind .pure .pure stops
  · intro _
    exact (stops 0).forget fun _ _ => trivial

theorem nests_forBody (nesting : rules.Nesting) : Nests d d ahead (forBody rules) := by
  apply nests_destructuringThenIn.bind
  intro found
  apply Nests.ite
  · intro _
    apply nesting.destructuring.bind
    intro target
    apply (Nests.expect rfl).bind
    intro _
    apply nesting.expr.bind
    intro range
    apply (nests_block nesting).bind
    exact fun _ => .pure
  · intro _
    apply nesting.expr.bind
    intro cond
    apply (nests_block nesting).bind
    exact fun _ => .pure

theorem nests_forStmt (nesting : rules.Nesting)
    (seen : ∀ tokens, ahead tokens → Showing 0 .forWord tokens) :
    Nests d d ahead (forStmt rules) := by
  apply (Nests.next seen rfl).bind
  intro word
  apply (nests_forBody nesting).bind
  intro form
  apply (Nests.expect rfl).bind
  exact fun _ => .pure

theorem nests_statement (nesting : rules.Nesting) : Nests d d ahead (statement rules) := by
  apply Nests.kind_bind
  intro k
  split
  · exact nests_declaration nesting rfl fun _ here => here.2
  · exact nests_declaration nesting rfl fun _ here => here.2
  · exact nests_retStmt nesting fun _ here => here.2
  · exact nests_ifStmt nesting fun _ here => here.2
  · exact nests_switchStmt nesting fun _ here => here.2
  · exact nests_matchStmt nesting fun _ here => here.2
  · exact nests_forStmt nesting fun _ here => here.2
  · apply Nests.kindAt_bind
    intro after
    split
    · exact nests_definition nesting fun _ here => here.2
    · exact nests_assignment nesting
    · exact nests_assignment nesting
    · exact nests_exprStmt nesting
  · exact nests_exprStmt nesting

theorem nesting_below (n : Nat) : (below n).Nesting := by
  induction n using Nat.strongRecOn with
  | ind n ih =>
    rw [below_eq]
    constructor
    · exact fun power => .forFewer fun m less => nests_binary (ih m less) power
    · exact .forFewer fun m less => nests_unary (ih m less)
    · exact .forFewer fun m less => nests_typeExpr (ih m less)
    · exact .forFewer fun m less => nests_pattern (ih m less)
    · exact .forFewer fun m less => nests_destructuring (ih m less)
    · exact .forFewer fun m less => nests_statement (ih m less)

/-- The rules for all streams stay inside a declaration, and leave as many braces open as there
were. -/
theorem nesting_full : full.Nesting where
  binary power := .withRules (p := fun rules => binary rules power) fun m =>
    nests_binary (nesting_below m) power
  unary := .withRules fun m => nests_unary (nesting_below m)
  typeExpr := .withRules fun m => nests_typeExpr (nesting_below m)
  pattern := .withRules fun m => nests_pattern (nesting_below m)
  destructuring := .withRules fun m => nests_destructuring (nesting_below m)
  statement := .withRules fun m => nests_statement (nesting_below m)

end Frontend.Grammar
