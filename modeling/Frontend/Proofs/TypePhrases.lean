import Frontend.Proofs.AdvancingFiles
import Frontend.Proofs.ParsedTypes
import Frontend.Proofs.Phrases

/-!
The types that are read. `IsType` is the grammar of types, with the tokens in front of a type and
behind it; a type is read where the grammar has one, it is the one that the grammar has, and nothing
else is. Types of expressions are left out: in front of no `typeof` there are none.
-/
namespace Frontend.Grammar

open Frontend.Grammar.Parser
open Token (Kind)

/-- A field: a name and what stands behind its colon. -/
inductive FieldOf {α : Type} (item : Phrase α) : Phrase (String × α)
  | intro {name colon : Token} {behind start rest : List Token} {a : α}
      (ident : name.kind = .ident) (is_colon : colon.kind = .colon)
      (lines : Newlines behind start) (value : item start a rest) :
      FieldOf item (name :: colon :: behind) (name.text, a) rest

/-- A type. Names that stand alone are those in front of no `::` and no brace. Fields are those of a
tuple if none of them has a name, and those of a record if all of them have one. -/
inductive IsType : Phrase TypeExpr
  | typeVariable {name : Token} {rest : List Token} (ident : name.kind = .ident)
      (marked : NamesVariable name.text) :
      IsType (name :: rest) ⟨name.span, .variable name.text⟩ rest
  | named {name : Token} {rest : List Token} (ident : name.kind = .ident)
      (plain : ¬ NamesVariable name.text)
      (alone : Lacking .colonColon rest ∧ Lacking .lbrace rest) :
      IsType (name :: rest) ⟨name.span, .named name.text⟩ rest
  | case {name colons member : Token} {rest : List Token} (ident : name.kind = .ident)
      (plain : ¬ NamesVariable name.text) (is_colons : colons.kind = .colonColon)
      (member_ident : member.kind = .ident) :
      IsType (name :: colons :: member :: rest)
        ⟨name.span.through member.span, .case name.text member.text⟩ rest
  | instantiate {name opening close : Token} {behind start rest : List Token}
      {args : List TypeExpr} (ident : name.kind = .ident) (plain : ¬ NamesVariable name.text)
      (is_opening : opening.kind = .lbrace) (lines : Newlines behind start)
      (row : ItemRow IsType start args (close :: rest)) (is_close : close.kind = .rbrace) :
      IsType (name :: opening :: behind)
        ⟨name.span.through close.span, .instantiate name.text args⟩ rest
  | tuple {opening close : Token} {behind start rest : List Token}
      {fields : List (String × TypeExpr)} (is_opening : opening.kind = .lbrace)
      (lines : Newlines behind start) (row : ItemRow (FieldOf IsType) start fields (close :: rest))
      (is_close : close.kind = .rbrace) (some : fields ≠ []) (unnamed : ∀ f ∈ fields, f.1 = "_") :
      IsType (opening :: behind)
        ⟨opening.span.through close.span, .tuple (fields.map (·.2))⟩ rest
  | record {opening close : Token} {behind start rest : List Token}
      {fields : List (String × TypeExpr)} (is_opening : opening.kind = .lbrace)
      (lines : Newlines behind start) (row : ItemRow (FieldOf IsType) start fields (close :: rest))
      (is_close : close.kind = .rbrace) (named : ∀ f ∈ fields, f.1 ≠ "_") :
      IsType (opening :: behind) ⟨opening.span.through close.span, .record fields⟩ rest
  | function {opening close arrow : Token} {behind start between rest : List Token}
      {params : List TypeExpr} {result : TypeExpr} (is_opening : opening.kind = .lparen)
      (lines : Newlines behind start)
      (row : ItemRow IsType start params (close :: arrow :: between))
      (is_close : close.kind = .rparen) (is_arrow : arrow.kind = .arrow) (value : IsType between result rest) :
      IsType (opening :: behind) ⟨opening.span.through result.span, .function params result⟩ rest

variable {n : Nat} {c : Cursor} {rules : Rules} {tokens behind rest : List Token}
  {name opening : Token} {t : TypeExpr} {α : Type}

section Forms

/-- How types begin. -/
theorem IsType.begins (h : IsType tokens t rest) : ∃ first more, tokens = first :: more ∧
    (first.kind = .ident ∨ first.kind = .lbrace ∨ first.kind = .lparen) := by
  cases h with
  | typeVariable ident => exact ⟨_, _, rfl, .inl ident⟩
  | named ident => exact ⟨_, _, rfl, .inl ident⟩
  | case ident => exact ⟨_, _, rfl, .inl ident⟩
  | instantiate ident => exact ⟨_, _, rfl, .inl ident⟩
  | tuple is_opening => exact ⟨_, _, rfl, .inr (.inl is_opening)⟩
  | record is_opening => exact ⟨_, _, rfl, .inr (.inl is_opening)⟩
  | function is_opening => exact ⟨_, _, rfl, .inr (.inr is_opening)⟩

/-- No newline is ahead of a type. -/
theorem IsType.lacking (h : IsType tokens t rest) : Lacking .newline tokens := by
  obtain ⟨first, more, rfl, starts⟩ := h.begins
  apply lacking_cons.mpr
  obtain starts | starts | starts := starts <;> simp [starts]

theorem isType_marked (ident : name.kind = .ident) (marked : NamesVariable name.text) :
    IsType (name :: behind) t rest ↔ t = ⟨name.span, .variable name.text⟩ ∧ rest = behind := by
  constructor
  · intro h
    cases h with
    | typeVariable => exact ⟨rfl, rfl⟩
    | _ => simp_all
  · rintro ⟨rfl, rfl⟩
    exact .typeVariable ident marked

section Plain

variable {second : Token} (ident : name.kind = .ident) (plain : ¬ NamesVariable name.text)

include ident plain

theorem isType_named (alone : Lacking .colonColon behind ∧ Lacking .lbrace behind) :
    IsType (name :: behind) t rest ↔ t = ⟨name.span, .named name.text⟩ ∧ rest = behind := by
  constructor
  · intro h
    cases h with
    | named => exact ⟨rfl, rfl⟩
    | _ => simp_all
  · rintro ⟨rfl, rfl⟩
    exact .named ident plain alone

theorem isType_case (is_colons : second.kind = .colonColon) :
    IsType (name :: second :: behind) t rest ↔ ∃ member, behind = member :: rest ∧
      member.kind = .ident ∧
      t = ⟨name.span.through member.span, .case name.text member.text⟩ := by
  constructor
  · intro h
    cases h with
    | case _ _ _ member_ident => exact ⟨_, rfl, member_ident, rfl⟩
    | _ => simp_all
  · rintro ⟨member, rfl, member_ident, rfl⟩
    exact .case ident plain is_colons member_ident

theorem isType_instantiate (is_opening : second.kind = .lbrace) :
    IsType (name :: second :: behind) t rest ↔ ∃ start args close, Newlines behind start ∧
      ItemRow IsType start args (close :: rest) ∧ close.kind = .rbrace ∧
      t = ⟨name.span.through close.span, .instantiate name.text args⟩ := by
  constructor
  · intro h
    cases h with
    | instantiate _ _ _ lines row is_close => exact ⟨_, _, _, lines, row, is_close, rfl⟩
    | _ => simp_all
  · rintro ⟨start, args, close, lines, row, is_close, rfl⟩
    exact .instantiate ident plain is_opening lines row is_close

end Plain

theorem areUnnamed_iff {fields : List (String × α)} (uniform : Uniform fields) :
    areUnnamed fields = true ↔ fields ≠ [] ∧ ∀ f ∈ fields, f.1 = "_" := by
  constructor
  · intro unnamed
    obtain ⟨f, more, rfl⟩ := List.exists_cons_of_ne_nil (ne_nil_of_areUnnamed unnamed)
    refine ⟨List.cons_ne_nil _ _, uniform.resolve_right fun named => ?_⟩
    exact named f (.head _) (by simpa [areUnnamed] using unnamed)
  · rintro ⟨some, all⟩
    by_contra other
    obtain ⟨f, fields, rfl⟩ := List.exists_cons_of_ne_nil some
    exact uniform.named other f (.head _) (all f (.head _))

/-- Braces are those of a tuple or of a record, which the first field tells. -/
theorem isType_braces (is_opening : opening.kind = .lbrace) :
    IsType (opening :: behind) t rest ↔ ∃ start fields close,
      Newlines behind start ∧ ItemRow (FieldOf IsType) start fields (close :: rest) ∧
      close.kind = .rbrace ∧ Uniform fields ∧
      t = ⟨opening.span.through close.span,
        if areUnnamed fields then .tuple (fields.map (·.2)) else .record fields⟩ := by
  constructor
  · intro h
    cases h with
    | @tuple _ close _ start _ fields _ lines row is_close some unnamed =>
      have uniform : Uniform fields := .inl unnamed
      have tuple : areUnnamed fields = true := (areUnnamed_iff uniform).mpr ⟨some, unnamed⟩
      exact ⟨start, fields, close, lines, row, is_close, uniform, by rw [if_pos tuple]⟩
    | @record _ close _ start _ fields _ lines row is_close named =>
      have uniform : Uniform fields := .inr named
      have record : ¬ areUnnamed fields = true := by
        intro unnamed
        obtain ⟨some, all⟩ := (areUnnamed_iff uniform).mp unnamed
        obtain ⟨f, more, rfl⟩ := List.exists_cons_of_ne_nil some
        exact named f (.head _) (all f (.head _))
      exact ⟨start, fields, close, lines, row, is_close, uniform, by rw [if_neg record]⟩
    | _ => simp_all
  · rintro ⟨start, fields, close, lines, row, is_close, uniform, rfl⟩
    by_cases unnamed : areUnnamed fields = true
    · obtain ⟨some, all⟩ := (areUnnamed_iff uniform).mp unnamed
      rw [if_pos unnamed]
      exact .tuple is_opening lines row is_close some all
    · rw [if_neg unnamed]
      exact .record is_opening lines row is_close (uniform.named unnamed)

theorem isType_parens (is_opening : opening.kind = .lparen) :
    IsType (opening :: behind) t rest ↔ ∃ start params close arrow between result,
      Newlines behind start ∧ ItemRow IsType start params (close :: arrow :: between) ∧
      close.kind = .rparen ∧ arrow.kind = .arrow ∧ IsType between result rest ∧
      t = ⟨opening.span.through result.span, .function params result⟩ := by
  constructor
  · intro h
    cases h with
    | function _ lines row is_close is_arrow value =>
      exact ⟨_, _, _, _, _, _, lines, row, is_close, is_arrow, value, rfl⟩
    | _ => simp_all
  · rintro ⟨start, params, close, arrow, between, result, lines, row, is_close, is_arrow, value,
      rfl⟩
    exact .function is_opening lines row is_close is_arrow value

end Forms

section Lists

variable {close : Kind}

/-- Types in a list of them. -/
theorem typeItems (types : Admits n rules.typeExpr IsType) (advancing : rules.Advancing n)
    (closes : close = .rbrace ∨ close = .rparen) :
    ListItems n close (fun _ => rules.typeExpr) IsType fun _ => True := by
  constructor
  · obtain rfl | rfl := closes <;> rfl
  · obtain rfl | rfl := closes <;> decide
  · intro tokens t rest type
    obtain ⟨first, more, rfl, starts⟩ := type.begins
    refine ⟨first, more, rfl, ?_⟩
    obtain rfl | rfl := closes <;> obtain starts | starts | starts := starts <;> simp [starts]
  · trivial
  · exact fun _ _ _ => trivial
  · exact fun _ => advancing.typeExpr
  · exact fun _ _ => types.congr fun _ _ _ => (and_iff_left trivial).symm

/-- A name passes the check if it is one as the first of the fields is. -/
theorem admits_checkFieldName {form : FieldSyntax} {fields : List (String × α)} (name : Token) :
    Admits n (checkFieldName form fields name) fun tokens _ rest =>
      rest = tokens ∧ ∀ f, fields.getLast? = some f → (f.1 = "_" ↔ name.text = "_") := by
  unfold checkFieldName
  split
  next none => exact Admits.pure.congr fun _ _ _ => by simp [none]
  next first _ last =>
    simp only [last, Option.some.injEq, forall_eq']
    split_ifs with mixed mixed'
    · exact Admits.fail.congr fun _ _ _ => by simp [mixed]
    · exact Admits.fail.congr fun _ _ _ => by simp [mixed']
    · have agree : first = "_" ↔ name.text = "_" := by tauto
      exact Admits.pure.congr fun _ _ _ => by simp [agree]

theorem admits_typeField (types : Admits n rules.typeExpr IsType)
    {fields : List (String × TypeExpr)} (uniform : Uniform fields) :
    Admits n (typeField rules fields) fun tokens field rest =>
      FieldOf IsType tokens field rest ∧ Uniform (field :: fields) := by
  refine ((Admits.expect rfl).bind fun name => (admits_checkFieldName name).bind fun _ =>
    (Admits.expect rfl).bind fun _ => Admits.skipNewlines.bind fun _ => types.bind fun _ =>
      .pure).congr ?_
  intro tokens field rest
  constructor
  · rintro ⟨name, _, ⟨rfl, ident⟩, -, _, ⟨rfl, agree⟩, colon, _, ⟨rfl, is_colon⟩, -, start,
      ⟨lines, -⟩, type, _, value, rfl, rfl⟩
    exact ⟨.intro ident is_colon lines value, (uniform_cons_iff uniform).mpr agree⟩
  · rintro ⟨⟨ident, is_colon, lines, value⟩, agree⟩
    exact ⟨_, _, ⟨rfl, ident⟩, (), _, ⟨rfl, (uniform_cons_iff uniform).mp agree⟩, _, _,
      ⟨rfl, is_colon⟩, (), _, ⟨lines, value.lacking⟩, _, _, value, rfl, rfl⟩

/-- Fields in braces. -/
theorem fieldItems (types : Admits n rules.typeExpr IsType) (advancing : rules.Advancing n) :
    ListItems n .rbrace (typeField rules) (FieldOf IsType) Uniform := by
  constructor
  · rfl
  · decide
  · rintro _ _ _ ⟨ident⟩
    exact ⟨_, _, rfl, by simp [ident]⟩
  · exact .inl nofun
  · rintro f fields (all | all)
    · exact .inl (List.forall_mem_cons.mp all).2
    · exact .inr (List.forall_mem_cons.mp all).2
  · exact advances_typeField advancing
  · exact fun fields uniform => admits_typeField types uniform

end Lists

section Parsers

variable (types : Admits n rules.typeExpr IsType) (advancing : rules.Advancing n)

include types advancing

theorem admits_namedType (typeless : c.Typeless) (short : c.remaining < n + 1)
    (shown : (c.token 0).kind = .ident) : AdmitsAt c (namedType rules) IsType := by
  apply Admits.expect_bind rfl typeless short shown
  intro name ident
  split
  next marked => exact Admits.pure.congr fun _ _ _ => (isType_marked ident marked).symm
  next plain =>
    apply Admits.kind_bind
    intro c typeless short
    split
    next shown =>
      apply Admits.next_bind rfl typeless (Nat.lt_succ_of_lt short) shown
      intro colons is_colons
      refine ((Admits.expect rfl).bind fun _ => .pure).congr fun tokens t rest => ?_
      rw [isType_case ident plain is_colons]
      constructor
      · rintro ⟨member, _, ⟨rfl, member_ident⟩, rfl, rfl⟩
        exact ⟨member, rfl, member_ident, rfl⟩
      · rintro ⟨member, rfl, member_ident, rfl⟩
        exact ⟨member, _, ⟨rfl, member_ident⟩, rfl, rfl⟩
    next shown =>
      apply Admits.next_bind rfl typeless (Nat.lt_succ_of_lt short) shown
      intro opening is_opening
      refine ((typeItems types advancing (.inl rfl)).closed_bind fun _ _ => .pure).congr
        fun tokens t rest => ?_
      rw [isType_instantiate ident plain is_opening]
      constructor
      · rintro ⟨start, args, close, _, lines, row, is_close, -, rfl, rfl⟩
        exact ⟨start, args, close, lines, row, is_close, rfl⟩
      · rintro ⟨start, args, close, lines, row, is_close, rfl⟩
        exact ⟨start, args, close, _, lines, row, is_close, trivial, rfl, rfl⟩
    next no_colons no_brace =>
      have shown := typeless.proper.showing 0
      have alone : Lacking .colonColon c.upcoming ∧ Lacking .lbrace c.upcoming :=
        ⟨shown.lacking no_colons, shown.lacking no_brace⟩
      exact AdmitsAt.pure.congr fun _ _ => (isType_named ident plain alone).symm

theorem admits_recordOrTupleType (typeless : c.Typeless) (short : c.remaining < n + 1)
    (shown : (c.token 0).kind = .lbrace) : AdmitsAt c (recordOrTupleType rules) IsType := by
  apply Admits.expect_bind rfl typeless short shown
  intro opening is_opening
  refine ((fieldItems types advancing).closed_bind fun _ _ => .pure).congr fun tokens t rest => ?_
  rw [isType_braces is_opening]
  constructor
  · rintro ⟨start, fields, close, _, lines, row, is_close, uniform, rfl, rfl⟩
    exact ⟨start, fields, close, lines, row, is_close, by simpa using uniform.reverse, rfl⟩
  · rintro ⟨start, fields, close, lines, row, is_close, uniform, rfl⟩
    exact ⟨start, fields, close, _, lines, row, is_close, uniform.reverse, rfl, rfl⟩

theorem admits_functionType (typeless : c.Typeless) (short : c.remaining < n + 1)
    (shown : (c.token 0).kind = .lparen) : AdmitsAt c (functionType rules) IsType := by
  apply Admits.next_bind rfl typeless short shown
  intro opening is_opening
  refine ((typeItems types advancing (.inr rfl)).closed_bind fun _ _ => (Admits.expect rfl).bind
    fun _ => types.bind fun _ => .pure).congr fun tokens t rest => ?_
  rw [isType_parens is_opening]
  constructor
  · rintro ⟨start, params, close, _, lines, row, is_close, -, arrow, between, ⟨rfl, is_arrow⟩,
      result, _, value, rfl, rfl⟩
    exact ⟨start, params, close, arrow, between, result, lines, row, is_close, is_arrow, value, rfl⟩
  · rintro ⟨start, params, close, arrow, between, result, lines, row, is_close, is_arrow, value,
      rfl⟩
    exact ⟨start, params, close, _, lines, row, is_close, trivial, arrow, between, ⟨rfl, is_arrow⟩,
      result, _, value, rfl, rfl⟩

/-- Types are those of the grammar as long as shorter ones are. -/
theorem admits_typeExpr : Admits (n + 1) (typeExpr rules) IsType := by
  apply Admits.kind_bind
  intro c typeless short
  split
  next shown => exact admits_namedType types advancing typeless short shown
  next shown => exact admits_recordOrTupleType types advancing typeless short shown
  next shown => exact admits_functionType types advancing typeless short shown
  next shown =>
    obtain ⟨t, rest, ahead, same⟩ := typeless.proper.upcoming_of_kind shown rfl
    exact absurd same (typeless.free t (by simp [ahead]))
  next no_ident no_brace no_paren _ =>
    have fails : ∀ t c', unexpected (α := TypeExpr) "type" c ≠ .ok t c' := by
      intro t c' run
      obtain ⟨_, _, _, failed⟩ := bind_eq_ok.mp run
      cases failed
    refine (AdmitsAt.of_fails fails).congr fun t rest => ?_
    constructor
    · exact False.elim
    · intro type
      obtain ⟨first, more, ahead, starts⟩ := type.begins
      have here := Cursor.token_of_upcoming ahead
      obtain starts | starts | starts := starts <;> simp_all

end Parsers

/-- The types of short streams are those of the grammar. -/
theorem admits_below (n : Nat) : Admits n (below n).typeExpr IsType := by
  induction n using Nat.strongRecOn with
  | ind n ih =>
    -- What a type has inside is read by the rules for streams shorter than the one ahead.
    intro c typeless short
    have admits := admits_typeExpr (ih c.remaining short) (advancing_below c.remaining)
    apply (admits c typeless (Nat.lt_succ_self _)).of_run
    rw [below_eq]
    exact forFewer_apply (p := fun m _ => typeExpr (below m)) short

/-- From every point of a stream without a `typeof`, the tokens that are passed and the type that is
read are those of a type of the grammar, and every such type is read there. -/
theorem types_exact (c : Cursor) (proper : c.Proper)
    (free : ∀ t ∈ c.upcoming, t.kind ≠ .typeofWord) :
    (∀ taken t, (∃ c', full.typeExpr c = .ok t c' ∧ c.Passes taken c') ↔
      ∃ rest, c.upcoming = taken ++ rest ∧ IsType (taken ++ rest) t rest) ∧
    ∀ t c', full.typeExpr c = .ok t c' → ∃ taken, c.Passes taken c' := by
  have admits : AdmitsAt c full.typeExpr IsType :=
    (admits_typeExpr (admits_below c.remaining) (advancing_below c.remaining) c ⟨proper, free⟩
      (Nat.lt_succ_self _)).of_run rfl
  refine ⟨fun taken t => ?_, admits.passes⟩
  constructor
  · rintro ⟨c', run, passes⟩
    have whole := passes.upcoming proper
    exact ⟨c'.upcoming, whole, whole ▸ admits.sound t c' run⟩
  · rintro ⟨rest, whole, type⟩
    obtain ⟨c', run, rfl⟩ := admits.complete t rest (whole ▸ type)
    obtain ⟨taken', passes⟩ := admits.passes t c' run
    have same : taken' = taken :=
      List.append_cancel_right ((passes.upcoming proper).symm.trans whole)
    exact ⟨c', run, same ▸ passes⟩

/-- A function type, with a comma and a newline behind its last parameter. -/
theorem types_exact_function :
    let word (kind : Kind) (text : String) : Token := ⟨kind, text, default⟩
    let tokens := [word .lparen "(", word .ident "T", word .comma ",", word .newline "\n",
      word .rparen ")", word .arrow "->", word .ident "'a"]
    let c := Cursor.ofTokens tokens
    let t : TypeExpr := ⟨default, .function [⟨default, .named "T"⟩] ⟨default, .variable "'a"⟩⟩
    ∃ c', full.typeExpr c = .ok t c' ∧ c.Passes tokens c' := by
  intro word tokens c t
  have plain : ¬ NamesVariable "T" := by unfold NamesVariable; decide
  have marked : NamesVariable "'a" := by unfold NamesVariable; decide
  have param : IsType (tokens.drop 1) ⟨default, .named "T"⟩ (tokens.drop 2) :=
    .named rfl plain (by simp [word])
  have result : IsType (tokens.drop 6) ⟨default, .variable "'a"⟩ [] := .typeVariable rfl marked
  have row : ItemRow IsType (tokens.drop 1) [⟨default, .named "T"⟩] (tokens.drop 4) :=
    .more param (.refl _) rfl ⟨[word .newline "\n"], rfl, by simp [word]⟩ .none
  have type : IsType tokens t [] := .function rfl (.refl _) row rfl rfl result
  exact ((types_exact c (Cursor.proper_ofTokens _) (by decide)).1 tokens t).mpr ⟨[], rfl, type⟩

end Frontend.Grammar
