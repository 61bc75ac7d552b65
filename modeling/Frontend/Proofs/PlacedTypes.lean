import Frontend.Grammar.TypeExpr
import Frontend.Grammar.Pattern
import Frontend.Proofs.Covers

/-!
Types, patterns and destructurings that the grammar yields stand in their source in order, as long
as what the rules yield that they call does.
-/
namespace Frontend.Grammar

open Frontend.Grammar.Parser
open Node (Row)
open Token (Kind)

/-- Rules that yield trees that stand in order. -/
structure Rules.Placed (good : Position → Prop) (rules : Rules) : Prop where
  binary : ∀ power {lo seen}, Covers good lo seen (rules.binary power) fun e hi =>
    Row good lo [.expr e] hi
  unary : ∀ {lo seen}, Covers good lo seen rules.unary fun e hi => Row good lo [.expr e] hi
  typeExpr : ∀ {lo seen}, Covers good lo seen rules.typeExpr fun t hi => Row good lo [.type t] hi
  pattern : ∀ {lo seen}, Covers good lo seen rules.pattern fun p hi => Row good lo [.pattern p] hi
  destructuring : ∀ {lo seen}, Covers good lo seen rules.destructuring fun d hi =>
    Row good lo [.destructuring d] hi
  statement : ∀ {lo seen}, Covers good lo seen rules.statement fun s hi => Row good lo [.stmt s] hi

variable {good : Position → Prop} {lo : Nat} {seen : Token → Prop} {rules : Rules}

theorem covers_namedType (placed : rules.Placed good) :
    Covers good lo seen (namedType rules) fun t hi => Row good lo [.type t] hi := by
  apply Covers.bind .expectIdent
  intro name mid _ ⟨_, name_lies⟩
  apply Covers.ite
  · intro _
    exact .pure (.leaf name_lies rfl)
  intro _
  apply Covers.kind_bind
  intro k
  split
  · apply Covers.bind .next_any
    intro _ _ le _
    apply Covers.bind .expectIdent
    intro member hi _ ⟨_, member_lies⟩
    exact .pure (.leaf (name_lies.through member_lies le) rfl)
  · apply Covers.bind .next_any
    intro _ _ le _
    apply Covers.bind (.closedList_row (fun t => [.type t]) fun _ _ => placed.typeExpr)
    intro args _ _ args_row
    apply Covers.bind (.expect (by decide))
    intro close hi _ ⟨_, close_lies⟩
    apply Covers.pure
    apply Row.enclosed name_lies _ close_lies rfl
    rw [← List.map_eq_flatMap] at args_row
    exact args_row.lower le
  · exact .pure (.leaf name_lies rfl)

theorem covers_checkFieldName {α : Type} {form : FieldSyntax} {fields : List (String × α)}
    {name : Token} {from_ : Nat} (lies : name.span.Lies good from_ lo) :
    Covers good lo seen (checkFieldName form fields name) fun _ _ => True := by
  unfold checkFieldName
  split
  · exact .pure trivial
  apply Covers.ite
  · intro _
    exact .fail_across lies
  intro _
  apply Covers.ite
  · intro _
    exact .fail_across lies
  · intro _
    exact .pure trivial

theorem covers_typeField (placed : rules.Placed good) (fields : List (String × TypeExpr)) :
    Covers good lo seen (typeField rules fields) fun field hi => Row good lo [.type field.2] hi := by
  apply Covers.bind .expectIdent
  intro name _ le ⟨_, name_lies⟩
  apply Covers.bind (covers_checkFieldName name_lies)
  intro _ _ le' _
  apply Covers.bind (.expect (by decide))
  intro _ _ le'' _
  apply Covers.bind .skipWhile
  intro _ _ le₃ _
  apply Covers.bind placed.typeExpr
  intro type hi _ type_row
  apply Covers.pure
  exact type_row.lower (by omega)

/-- The types of fields are children both of a record type and of a tuple type. -/
theorem children_fieldsType {span : Span} (fields : List (String × TypeExpr)) :
    (Node.type ⟨span, if areUnnamed fields then .tuple (fields.map (·.2)) else .record fields⟩
      ).children = fields.flatMap fun f => [.type f.2] := by
  rw [← List.map_eq_flatMap]
  by_cases unnamed : areUnnamed fields = true
  · simp [unnamed, Node.children, Node.ofType]
  · simp [unnamed, Node.children, Node.ofType]

theorem covers_recordOrTupleType (placed : rules.Placed good) :
    Covers good lo seen (recordOrTupleType rules) fun t hi => Row good lo [.type t] hi := by
  apply Covers.bind (.expect (by decide))
  intro opening _ _ ⟨_, opening_lies⟩
  apply Covers.bind (.closedList_row (fun f => [.type f.2]) fun fields _ =>
    covers_typeField placed fields)
  intro fields _ _ fields_row
  apply Covers.bind (.expect (by decide))
  intro close hi _ ⟨_, close_lies⟩
  apply Covers.pure
  apply Row.enclosed opening_lies _ close_lies rfl
  rwa [children_fieldsType]

theorem covers_functionType (placed : rules.Placed good) (more : ∀ t, seen t → t.kind ≠ .eof) :
    Covers good lo seen (functionType rules) fun t hi => Row good lo [.type t] hi := by
  apply Covers.bind (.next more)
  intro opening _ _ ⟨_, opening_lies⟩
  apply Covers.bind (.closedList_row (fun t => [.type t]) fun _ _ => placed.typeExpr)
  intro params _ _ params_row
  apply Covers.bind (.expect (by decide))
  intro _ _ le _
  apply Covers.bind (.expect (by decide))
  intro _ _ le' _
  apply Covers.bind placed.typeExpr
  intro result hi _ result_row
  apply Covers.pure
  rw [← List.map_eq_flatMap] at params_row
  have children := params_row.append (result_row.lower (Nat.le_trans le le'))
  exact .uptoChild opening_lies children List.getLast?_concat rfl

theorem covers_typeOf (placed : rules.Placed good) (more : ∀ t, seen t → t.kind ≠ .eof) :
    Covers good lo seen (typeOf rules) fun t hi => Row good lo [.type t] hi := by
  apply Covers.bind (.next more)
  intro word _ _ ⟨_, word_lies⟩
  apply Covers.bind (.expect (by decide))
  intro _ _ le _
  apply Covers.bind .skipWhile
  intro _ _ le' _
  apply Covers.bind (placed.binary 1)
  intro value _ _ value_row
  apply Covers.bind .skipWhile
  intro _ _ le'' _
  apply Covers.bind (.expect (by decide))
  intro close hi _ ⟨_, close_lies⟩
  apply Covers.pure
  have children := (value_row.lower (Nat.le_trans le le')).upper le''
  exact .enclosed word_lies children close_lies rfl

theorem covers_typeExpr (placed : rules.Placed good) :
    Covers good lo seen (typeExpr rules) fun t hi => Row good lo [.type t] hi := by
  apply Covers.kind_bind
  intro k
  split
  · exact covers_namedType placed
  · exact covers_recordOrTupleType placed
  · exact covers_functionType placed (by simp +contextual)
  · exact covers_typeOf placed (by simp +contextual)
  · exact .unexpected

/-- A literal pattern over the stretch of its token, or from a minus in front of it on. -/
theorem covers_literalPattern {t : Token} {minus : Option Position} {from_ : Nat}
    (lies : Span.Lies good from_ ⟨minus.getD t.span.start, t.span.stop⟩ lo) :
    Covers good lo seen (literalPattern t minus) fun p hi => Row good from_ [.pattern p] hi := by
  unfold literalPattern
  split
  next value _ =>
    apply Covers.pure
    cases value <;> exact .leaf lies rfl
  · exact .fail_across lies

/-- In front of a name a record begins where the name does; otherwise nothing is taken. -/
theorem recordHead_bind {β : Type} {k : Option Position × RecordHead → Parser β}
    {final : β → Nat → Prop}
    (named : ∀ p head hi, good p → lo ≤ p.offset → p.offset < hi →
      Covers good hi anything (k (some p, head)) final)
    (bare : ∀ head, Covers good lo (fun t => seen t ∧ t.kind ≠ .ident) (k (none, head)) final) :
    Covers good lo seen (recordHead >>= k) final := by
  unfold recordHead
  rw [bind_assoc]
  apply Covers.kind_bind
  intro kind
  by_cases ident : kind = .ident
  · rw [if_pos ident]
    have head : Covers good lo (fun t => seen t ∧ t.kind = kind) (do
        let name ← expectIdent "record name"
        if ← ate .colonColon then
          let member ← expectIdent "enum case name after '::'"
          pure (some name.span.start, (⟨some name.text, some member.text⟩ : RecordHead))
        else pure (some name.span.start, ⟨some name.text, none⟩)) fun found hi =>
        ∃ p, found.1 = some p ∧ good p ∧ lo ≤ p.offset ∧ p.offset < hi := by
      apply Covers.bind .expectIdent
      intro name hi _ ⟨_, lies⟩
      apply Covers.ate_ite (by decide)
      · intro hi' less
        apply Covers.bind .expectIdent
        intro member hi'' le _
        apply Covers.pure
        exact ⟨_, rfl, lies.start_good, lies.lower,
          Nat.lt_of_lt_of_le (Nat.lt_trans lies.begins less) le⟩
      · exact .pure ⟨_, rfl, lies.start_good, lies.lower, lies.begins⟩
    apply Covers.bind head
    rintro ⟨_, head⟩ hi _ ⟨p, rfl, p_good, lower, upper⟩
    exact named p head hi p_good lower upper
  · rw [if_neg ident, pure_bind]
    exact (bare _).forget fun t known => ⟨known.1, known.2 ▸ ident⟩

theorem covers_restBinder (more : ∀ t, seen t → t.kind ≠ .eof) :
    Covers good lo seen restBinder fun found hi => found.1.Lies good lo hi := by
  apply Covers.bind (.next more)
  intro dots _ _ ⟨_, dots_lies⟩
  apply Covers.eat_bind (by decide)
  · intro name hi _ _ name_lies
    exact .pure (dots_lies.through name_lies (Nat.le_refl _))
  · exact .pure dots_lies

theorem covers_fieldPattern (placed : rules.Placed good) :
    Covers good lo seen (fieldPattern rules) fun field hi =>
      Row good lo (Node.maybe .pattern field.2) hi := by
  apply Covers.bind .expectIdent
  intro name mid le _
  apply Covers.ate_ite (by decide)
  · intro mid' less
    apply Covers.bind .skipWhile
    intro _ _ le' _
    apply Covers.bind placed.pattern
    intro p hi _ row
    have row : Row good lo [.pattern p] hi := row.lower (by omega)
    split
    · apply Covers.ite
      · intro _
        exact .fail_across row.lies
      · intro _
        exact .pure row
    · exact .pure row
  · exact .pure (.nil le)

/-- What stands behind the rest of a record or an array becomes a node. -/
theorem maybe_map {α ρ : Type} (node : α → Node) (f : ρ → α) (x : Option ρ) :
    Node.maybe node (x.map f) = Node.maybe (fun r => node (f r)) x := by
  cases x <;> rfl

theorem covers_restPattern (lo : Nat) :
    Covers good lo (fun t => t.kind = .ellipsis) restBinder fun r hi =>
      Row good lo [.pattern (.rest r.1 r.2)] hi :=
  (covers_restBinder (by simp +contextual)).mono fun _ _ lies => .leaf lies rfl

/-- The part of a record pattern behind its opening brace. -/
theorem covers_recordPattern_braces (placed : rules.Placed good) (head : RecordHead)
    {first : Position} {mid : Nat} (first_good : good first) (lower : lo ≤ first.offset)
    (upper : first.offset < mid) :
    Covers good mid seen (do
      let (fields, rest) ← closedListWithRest .rbrace (fieldPattern rules) restBinder
      let close ← expect .rbrace "'\x7d' closing record pattern"
      pure (Pattern.record ⟨first, close.span.stop⟩ head fields (rest.map fun r => .rest r.1 r.2)))
      fun p hi => Row good lo [.pattern p] hi := by
  apply Covers.bind (.closedListWithRest_row (fun f => Node.maybe .pattern f.2)
    (fun r => .pattern (.rest r.1 r.2)) (fun _ => covers_fieldPattern placed) covers_restPattern)
  intro (fields, rest) _ _ row
  apply Covers.bind (.expect (by decide))
  intro close hi _ ⟨_, close_lies⟩
  apply Covers.pure
  rw [← maybe_map] at row
  exact .between first_good close_lies.stop_good lower upper (row.upper close_lies.reaches)
    close_lies.upper rfl

theorem covers_recordPattern (placed : rules.Placed good)
    (begins : ∀ t, seen t → t.kind = .ident ∨ t.kind = .lbrace) :
    Covers good lo seen (recordPattern rules) fun p hi => Row good lo [.pattern p] hi := by
  apply recordHead_bind
  · intro p head mid p_good lower upper
    apply Covers.eat_bind (by decide)
    · intro opening hi _ _ lies
      exact covers_recordPattern_braces placed head p_good lower (Nat.lt_trans upper lies.order)
    · apply Covers.place_bind
      intro stop stop_good here
      apply Covers.pure
      subst here
      exact .leaf ⟨p_good, stop_good, lower, upper, Nat.le_refl _⟩ rfl
  · intro head
    apply Covers.eat_bind (by decide)
    · intro opening hi _ _ lies
      exact covers_recordPattern_braces placed head lies.start_good lies.lower lies.begins
    · apply Covers.absurd
      rintro t ⟨⟨known, no_name⟩, no_brace⟩
      exact (begins t known).elim no_name no_brace

theorem covers_arrayPattern (placed : rules.Placed good) (more : ∀ t, seen t → t.kind ≠ .eof) :
    Covers good lo seen (arrayPattern rules) fun p hi => Row good lo [.pattern p] hi := by
  apply Covers.bind (.next more)
  intro opening _ _ ⟨_, opening_lies⟩
  apply Covers.bind (.closedListWithRest_row (fun p => [.pattern p])
    (fun r => .pattern (.rest r.1 r.2)) (fun _ => placed.pattern) covers_restPattern)
  intro (elems, rest) _ _ row
  apply Covers.bind (.expect (by decide))
  intro close hi _ ⟨_, close_lies⟩
  apply Covers.pure
  rw [← maybe_map, ← List.map_eq_flatMap] at row
  exact .enclosed opening_lies row close_lies rfl

theorem covers_negativePattern (more : ∀ t, seen t → t.kind ≠ .eof) :
    Covers good lo seen negativePattern fun p hi => Row good lo [.pattern p] hi := by
  apply Covers.bind (.next more)
  intro minus mid _ ⟨_, minus_lies⟩
  apply Covers.kind_bind
  intro k
  apply Covers.ite
  · intro number
    have real : ∀ t, anything t ∧ t.kind = k → t.kind ≠ .eof := by
      rintro t ⟨-, rfl⟩ eof
      simp [eof] at number
    apply Covers.bind (.next real)
    intro t hi _ ⟨_, lies⟩
    exact covers_literalPattern (minus_lies.through lies (Nat.le_refl _))
  · intro _
    exact .unexpected

/-- The words that are literals are no end of a file. -/
theorem ne_eof_of_isKind {k : Kind} (h : Literal.isKind k) : k ≠ .eof := by
  rintro rfl
  cases h

theorem covers_pattern (placed : rules.Placed good) :
    Covers good lo seen (pattern rules) fun p hi => Row good lo [.pattern p] hi := by
  apply Covers.kind_bind
  intro k
  apply Covers.ite
  · intro is_literal
    have more : ∀ t, seen t ∧ t.kind = k → t.kind ≠ .eof := fun t known =>
      known.2 ▸ ne_eof_of_isKind is_literal
    apply Covers.bind (.next more)
    intro t hi _ ⟨_, lies⟩
    exact covers_literalPattern lies
  intro _
  split
  · exact covers_negativePattern (by simp +contextual)
  · apply Covers.look_bind (.kindAt 1)
    intro after
    apply Covers.ite
    · intro _
      exact covers_recordPattern placed (by simp +contextual)
    · intro _
      apply Covers.bind .expectIdent
      intro name hi _ ⟨_, lies⟩
      exact .pure (.leaf lies rfl)
  · exact covers_recordPattern placed (by simp +contextual)
  · exact covers_arrayPattern placed (by simp +contextual)
  · exact .unexpected

theorem covers_fieldDestructuring (placed : rules.Placed good) :
    Covers good lo seen (fieldDestructuring rules) fun field hi =>
      Row good lo (Node.maybe .destructuring field.2) hi := by
  apply Covers.bind .expectIdent
  intro name mid le _
  apply Covers.ate_ite (by decide)
  · intro mid' less
    apply Covers.bind .skipWhile
    intro _ _ le' _
    apply Covers.bind placed.destructuring
    intro d hi _ row
    have row : Row good lo [.destructuring d] hi := row.lower (by omega)
    split
    · apply Covers.ite
      · intro _
        exact .fail_across row.lies
      · intro _
        exact .pure row
    · exact .pure row
  · exact .pure (.nil le)

theorem covers_restDestructuring (lo : Nat) :
    Covers good lo (fun t => t.kind = .ellipsis) restBinder fun r hi =>
      Row good lo [.destructuring (.rest r.1 r.2)] hi :=
  (covers_restBinder (by simp +contextual)).mono fun _ _ lies => .leaf lies rfl

/-- The part of a record destructuring behind its opening brace. -/
theorem covers_recordDestructuring_braces (placed : rules.Placed good) (head : RecordHead)
    {first : Position} {mid : Nat} (first_good : good first) (lower : lo ≤ first.offset)
    (upper : first.offset < mid) :
    Covers good mid seen (do
      let (fields, rest) ← closedListWithRest .rbrace (fieldDestructuring rules) restBinder
      let close ← expect .rbrace "'\x7d' closing record destructuring"
      let span := ⟨first, close.span.stop⟩
      pure (Destructuring.record span head fields (rest.map fun r => .rest r.1 r.2)))
      fun d hi => Row good lo [.destructuring d] hi := by
  apply Covers.bind (.closedListWithRest_row (fun f => Node.maybe .destructuring f.2)
    (fun r => .destructuring (.rest r.1 r.2)) (fun _ => covers_fieldDestructuring placed)
    covers_restDestructuring)
  intro (fields, rest) _ _ row
  apply Covers.bind (.expect (by decide))
  intro close hi _ ⟨_, close_lies⟩
  apply Covers.pure
  rw [← maybe_map] at row
  exact .between first_good close_lies.stop_good lower upper (row.upper close_lies.reaches)
    close_lies.upper rfl

theorem covers_recordDestructuring (placed : rules.Placed good) :
    Covers good lo seen (recordDestructuring rules) fun d hi => Row good lo [.destructuring d] hi := by
  apply recordHead_bind
  · intro p head mid p_good lower upper
    apply Covers.bind (.expect (by decide))
    intro opening hi _ ⟨_, lies⟩
    exact covers_recordDestructuring_braces placed head p_good lower (Nat.lt_trans upper lies.order)
  · intro head
    apply Covers.bind (.expect (by decide))
    intro opening hi _ ⟨_, lies⟩
    exact covers_recordDestructuring_braces placed head lies.start_good lies.lower lies.begins

theorem covers_destructuring (placed : rules.Placed good) :
    Covers good lo seen (destructuring rules) fun d hi => Row good lo [.destructuring d] hi := by
  apply Covers.kind_bind
  intro k
  split
  · apply Covers.look_bind (.kindAt 1)
    intro after
    apply Covers.ite
    · intro _
      exact covers_recordDestructuring placed
    · intro _
      apply Covers.bind .expectIdent
      intro name hi _ ⟨_, lies⟩
      exact .pure (.leaf lies rfl)
  · exact covers_recordDestructuring placed
  · exact .unexpected

end Frontend.Grammar
