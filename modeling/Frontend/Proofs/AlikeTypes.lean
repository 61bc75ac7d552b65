import Frontend.Grammar.TypeExpr
import Frontend.Grammar.Pattern
import Frontend.Proofs.Alike
import Frontend.Proofs.Bare

/-!
Types, patterns and destructurings are the same wherever their words stand, as long as what the
rules yield that they call is.
-/
namespace Frontend.Grammar

open Frontend.Grammar.Parser
open Token (Kind)

/-- Rules that yield the same wherever the words stand. -/
structure Rules.Free (rules : Rules) : Prop where
  binary : ∀ power, LayoutFree (rules.binary power) Expr.bare
  unary : LayoutFree rules.unary Expr.bare
  typeExpr : LayoutFree rules.typeExpr TypeExpr.bare
  pattern : LayoutFree rules.pattern Pattern.bare
  destructuring : LayoutFree rules.destructuring Destructuring.bare
  statement : LayoutFree rules.statement Stmt.bare

variable {rules : Rules}

theorem alike_namedType (free : rules.Free) : LayoutFree (namedType rules) TypeExpr.bare := by
  apply Alike.token_bind .expectIdent
  intro kind text span span'
  apply Alike.ite
  · intro _
    exact .pure rfl
  intro _
  apply Alike.kind_bind
  intro k
  split
  · apply Alike.next.bind
    intro _ _ _
    apply Alike.token_bind .expectIdent
    intro kind member span span'
    exact .pure rfl
  · apply Alike.next.bind
    intro _ _ _
    apply Alike.bind (.closedList fun _ _ _ => free.typeExpr)
    intro args args' same
    apply Alike.expect.bind
    intro _ _ _
    apply Alike.pure
    simp [TypeExpr.bare, same]
  · exact .pure rfl

section Fields

variable {α : Type} {f : α → α} {fields fields' : List (String × α)}

/-- Fields that are the same up to places have the same names. -/
theorem names_eq (same : fields.map (Prod.map id f) = fields'.map (Prod.map id f)) :
    fields.map (·.1) = fields'.map (·.1) := by
  simpa [Function.comp_def] using congrArg (List.map Prod.fst) same

/-- Fields that are the same up to places have the same contents up to places. -/
theorem contents_eq (same : fields.map (Prod.map id f) = fields'.map (Prod.map id f)) :
    (fields.map (·.2)).map f = (fields'.map (·.2)).map f := by
  simpa [Function.comp_def] using congrArg (List.map Prod.snd) same

theorem areUnnamed_eq (names : fields.map (·.1) = fields'.map (·.1)) :
    areUnnamed fields = areUnnamed fields' := by
  have first := congrArg List.head? names
  simp only [List.head?_map] at first
  unfold areUnnamed
  cases h : fields.head? <;> cases h' : fields'.head? <;> simp_all

theorem alike_checkFieldName {form : FieldSyntax} {kind : Kind} {text : String} {span span' : Span}
    (names : fields.map (·.1) = fields'.map (·.1)) :
    Alike (checkFieldName form fields ⟨kind, text, span⟩)
      (checkFieldName form fields' ⟨kind, text, span'⟩) fun _ _ => True := by
  have size : fields.length = fields'.length := by simpa using congrArg List.length names
  have last : (fields.getLast?).map (·.1) = (fields'.getLast?).map (·.1) := by
    simpa using congrArg List.getLast? names
  unfold checkFieldName
  cases h : fields.getLast? with
  | none =>
    rw [h] at last
    rw [Option.map_eq_none_iff.mp last.symm]
    exact .pure trivial
  | some field =>
    rw [h] at last
    obtain ⟨⟨first', _⟩, h', first_eq⟩ := Option.map_eq_some_iff.mp last.symm
    obtain ⟨first, _⟩ := field
    obtain rfl : first' = first := first_eq
    rw [h', size]
    apply Alike.ite
    · intro _
      exact .fail (.of_cause rfl rfl)
    intro _
    apply Alike.ite
    · intro _
      exact .fail (.of_cause rfl rfl)
    · intro _
      exact .pure trivial

end Fields

theorem alike_typeField (free : rules.Free) {fields fields' : List (String × TypeExpr)}
    (same : fields.map (Prod.map id TypeExpr.bare) = fields'.map (Prod.map id TypeExpr.bare)) :
    Alike (typeField rules fields) (typeField rules fields') fun a b =>
      Prod.map id TypeExpr.bare a = Prod.map id TypeExpr.bare b := by
  apply Alike.token_bind .expectIdent
  intro kind text span span'
  apply (alike_checkFieldName (names_eq same)).bind
  intro _ _ _
  apply Alike.expect.bind
  intro _ _ _
  apply Alike.skipWhile.bind
  intro _ _ _
  apply free.typeExpr.bind
  intro type type' type_eq
  apply Alike.pure
  simp [type_eq]

theorem alike_recordOrTupleType (free : rules.Free) :
    LayoutFree (recordOrTupleType rules) TypeExpr.bare := by
  apply Alike.expect.bind
  intro _ _ _
  apply Alike.bind (.closedList fun _ _ same => alike_typeField free same)
  intro fields fields' same
  apply Alike.expect.bind
  intro _ _ _
  apply Alike.pure
  rw [areUnnamed_eq (names_eq same)]
  by_cases unnamed : areUnnamed fields' = true
  · simp only [if_pos unnamed, TypeExpr.bare, TypeExpr.bareAll_eq, contents_eq same]
  · simp only [if_neg unnamed, TypeExpr.bare, TypeExpr.bareFields_eq, same]

theorem alike_functionType (free : rules.Free) :
    LayoutFree (functionType rules) TypeExpr.bare := by
  apply Alike.next.bind
  intro _ _ _
  apply Alike.bind (.closedList fun _ _ _ => free.typeExpr)
  intro params params' params_eq
  apply Alike.expect.bind
  intro _ _ _
  apply Alike.expect.bind
  intro _ _ _
  apply free.typeExpr.bind
  intro result result' result_eq
  apply Alike.pure
  simp [TypeExpr.bare, params_eq, result_eq]

theorem alike_typeOf (free : rules.Free) : LayoutFree (typeOf rules) TypeExpr.bare := by
  apply Alike.next.bind
  intro _ _ _
  apply Alike.expect.bind
  intro _ _ _
  apply Alike.skipWhile.bind
  intro _ _ _
  apply (free.binary 1).bind
  intro value value' same
  apply Alike.skipWhile.bind
  intro _ _ _
  apply Alike.expect.bind
  intro _ _ _
  apply Alike.pure
  simp [TypeExpr.bare, same]

theorem alike_typeExpr (free : rules.Free) : LayoutFree (typeExpr rules) TypeExpr.bare := by
  apply Alike.kind_bind
  intro k
  split
  · exact alike_namedType free
  · exact alike_recordOrTupleType free
  · exact alike_functionType free
  · exact alike_typeOf free
  · exact .unexpected

theorem alike_literalPattern {kind : Kind} {text : String} {span span' : Span}
    {minus minus' : Option Position} (same : minus.isSome = minus'.isSome) :
    Alike (literalPattern ⟨kind, text, span⟩ minus) (literalPattern ⟨kind, text, span'⟩ minus')
      fun p q => p.bare = q.bare := by
  simp only [literalPattern, same]
  cases Literal.read kind minus'.isSome text with
  | error problem => exact .fail (.of_cause rfl rfl)
  | ok value =>
    apply Alike.pure
    cases value <;> rfl

theorem alike_recordHead : LayoutFree recordHead (·.2) := by
  apply Alike.kind_bind
  intro k
  apply Alike.ite
  · intro _
    apply Alike.token_bind .expectIdent
    intro kind text span span'
    apply Alike.ate_ite
    · apply Alike.token_bind .expectIdent
      intro kind' member _ _
      exact .pure rfl
    · exact .pure rfl
  · intro _
    exact .pure rfl

theorem alike_restBinder : LayoutFree restBinder (·.2) := by
  apply Alike.next.bind
  intro _ _ _
  apply Alike.eat_bind
  · intro t u same
    exact .pure (congrArg (fun w => some w.2) same)
  · exact .pure rfl

theorem Pattern.eq_variable {p : Pattern} {span : Span} {name : String}
    (h : p.bare = .variable span name) : ∃ span', p = .variable span' name := by
  cases p <;> simp [Pattern.bare] at h
  next span' _ => exact ⟨span', by rw [h.2]⟩

theorem alike_fieldPattern (free : rules.Free) :
    LayoutFree (fieldPattern rules) (Prod.map id (Option.map Pattern.bare)) := by
  apply Alike.token_bind .expectIdent
  intro kind text span span'
  apply Alike.ate_ite
  · apply Alike.skipWhile.bind
    intro _ _ _
    apply free.pattern.bind
    intro p p' same
    split
    next span bound =>
      obtain ⟨span', rfl⟩ := Pattern.eq_variable same.symm
      apply Alike.ite
      · intro _
        exact .fail (.of_cause rfl rfl)
      · intro _
        exact .pure rfl
    next other =>
      split
      next span' bound =>
        obtain ⟨span, rfl⟩ := Pattern.eq_variable same
        exact (other span bound rfl).elim
      next =>
        apply Alike.pure
        simp [same]
  · exact .pure rfl

/-- Only the name of a rest is left without places. -/
theorem bare_restPattern (rest : Option (Span × Option String)) :
    (rest.map fun r => Pattern.rest r.1 r.2).map Pattern.bare =
      (rest.map (·.2)).map (Pattern.rest default) := by
  cases rest <;> rfl

theorem alike_recordPattern (free : rules.Free) :
    LayoutFree (recordPattern rules) Pattern.bare := by
  apply alike_recordHead.bind
  rintro ⟨start, head⟩ ⟨start', _⟩ rfl
  apply Alike.eat_bind
  · intro _ _ _
    apply Alike.bind (.closedListWithRest (alike_fieldPattern free) alike_restBinder)
    rintro ⟨fields, rest⟩ ⟨fields', rest'⟩ ⟨fields_eq, rest_eq⟩
    apply Alike.expect.bind
    intro _ _ _
    apply Alike.pure
    simp only [Pattern.bare, Pattern.bareFields_eq, Pattern.bareOption_eq, bare_restPattern]
    rw [fields_eq, rest_eq]
  · apply Alike.place.bind
    intro _ _ _
    exact .pure rfl

theorem alike_arrayPattern (free : rules.Free) :
    LayoutFree (arrayPattern rules) Pattern.bare := by
  apply Alike.next.bind
  intro _ _ _
  apply Alike.bind (.closedListWithRest free.pattern alike_restBinder)
  rintro ⟨elems, rest⟩ ⟨elems', rest'⟩ ⟨elems_eq, rest_eq⟩
  apply Alike.expect.bind
  intro _ _ _
  apply Alike.pure
  simp only [Pattern.bare, Pattern.bareAll_eq, Pattern.bareOption_eq, bare_restPattern]
  rw [elems_eq, rest_eq]

theorem alike_negativePattern : LayoutFree negativePattern Pattern.bare := by
  apply Alike.next.bind
  intro _ _ _
  apply Alike.kind_bind
  intro k
  apply Alike.ite
  · intro _
    apply Alike.token_bind .next
    intro kind text span span'
    exact alike_literalPattern rfl
  · intro _
    exact .unexpected

theorem alike_pattern (free : rules.Free) : LayoutFree (pattern rules) Pattern.bare := by
  apply Alike.kind_bind
  intro k
  apply Alike.ite
  · intro _
    apply Alike.token_bind .next
    intro kind text span span'
    exact alike_literalPattern rfl
  intro _
  split
  · exact alike_negativePattern
  · apply Alike.kindAt_bind
    intro after
    apply Alike.ite
    · intro _
      exact alike_recordPattern free
    · intro _
      apply Alike.token_bind .expectIdent
      intro kind text span span'
      exact .pure rfl
  · exact alike_recordPattern free
  · exact alike_arrayPattern free
  · exact .unexpected

theorem Destructuring.eq_variable {d : Destructuring} {span : Span} {name : String}
    (h : d.bare = .variable span name) : ∃ span', d = .variable span' name := by
  cases d <;> simp [Destructuring.bare] at h
  next span' _ => exact ⟨span', by rw [h.2]⟩

theorem alike_fieldDestructuring (free : rules.Free) :
    LayoutFree (fieldDestructuring rules) (Prod.map id (Option.map Destructuring.bare)) := by
  apply Alike.token_bind .expectIdent
  intro kind text span span'
  apply Alike.ate_ite
  · apply Alike.skipWhile.bind
    intro _ _ _
    apply free.destructuring.bind
    intro d d' same
    split
    next span bound =>
      obtain ⟨span', rfl⟩ := Destructuring.eq_variable same.symm
      apply Alike.ite
      · intro _
        exact .fail (.of_cause rfl rfl)
      · intro _
        exact .pure rfl
    next other =>
      split
      next span' bound =>
        obtain ⟨span, rfl⟩ := Destructuring.eq_variable same
        exact (other span bound rfl).elim
      next =>
        apply Alike.pure
        simp [same]
  · exact .pure rfl

/-- Only the name of a rest is left without places. -/
theorem bare_restDestructuring (rest : Option (Span × Option String)) :
    (rest.map fun r => Destructuring.rest r.1 r.2).map Destructuring.bare =
      (rest.map (·.2)).map (Destructuring.rest default) := by
  cases rest <;> rfl

theorem alike_recordDestructuring (free : rules.Free) :
    LayoutFree (recordDestructuring rules) Destructuring.bare := by
  apply alike_recordHead.bind
  rintro ⟨start, head⟩ ⟨start', _⟩ rfl
  apply Alike.expect.bind
  intro _ _ _
  apply Alike.bind (.closedListWithRest (alike_fieldDestructuring free) alike_restBinder)
  rintro ⟨fields, rest⟩ ⟨fields', rest'⟩ ⟨fields_eq, rest_eq⟩
  apply Alike.expect.bind
  intro _ _ _
  apply Alike.pure
  simp only [Destructuring.bare, Destructuring.bareFields_eq, Destructuring.bareOption_eq,
    bare_restDestructuring]
  rw [fields_eq, rest_eq]

theorem alike_destructuring (free : rules.Free) :
    LayoutFree (destructuring rules) Destructuring.bare := by
  apply Alike.kind_bind
  intro k
  split
  · apply Alike.kindAt_bind
    intro after
    apply Alike.ite
    · intro _
      exact alike_recordDestructuring free
    · intro _
      apply Alike.token_bind .expectIdent
      intro kind text span span'
      exact .pure rfl
  · exact alike_recordDestructuring free
  · exact .unexpected

end Frontend.Grammar
