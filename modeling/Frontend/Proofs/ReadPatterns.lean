import Frontend.Proofs.Bare
import Frontend.Proofs.Reads
import Frontend.Proofs.SpelledLiterals

/-!
Patterns and destructurings are read as what they are spelled from, up to the places where they
stand.
-/
namespace Frontend

@[simp] theorem bare_toPattern (span : Span) (value : Literal) :
    (value.toPattern span).bare = value.toPattern default := by
  cases value <;> rfl

@[simp] theorem words_toPattern (span : Span) (value : Literal) :
    (value.toPattern span).words = value.words := by
  cases value <;> rfl

/-- A field of a record pattern. -/
def Pattern.fieldItem : String × Option Pattern → Spelling
  | (name, none) => (ident name :: ·)
  | (name, some p) => fieldWords name p.words

theorem Pattern.fieldItems_eq (fields : List (String × Option Pattern)) :
    fieldItems fields = fields.map fieldItem :=
  eq_map_of_cons rfl (fun | (_, none), _ => rfl | (_, some _), _ => rfl) fields

theorem Pattern.items_eq (elems : List Pattern) : items elems = elems.map words :=
  eq_map_of_cons rfl (fun _ _ => rfl) elems

/-- A field of a record destructuring. -/
def Destructuring.fieldItem : String × Option Destructuring → Spelling
  | (name, none) => (ident name :: ·)
  | (name, some d) => fieldWords name d.words

theorem Destructuring.fieldItems_eq (fields : List (String × Option Destructuring)) :
    fieldItems fields = fields.map fieldItem :=
  eq_map_of_cons rfl (fun | (_, none), _ => rfl | (_, some _), _ => rfl) fields

open Grammar

/-- A destructuring that is read as what it is, up to the places where it stands. -/
structure Destructuring.Legible (d : Destructuring) : Prop where
  begins : ∀ k, Begins (d.words k)
  takes : ∀ n k, Ends k →
    Takes (n + 1) (destructuring (below n)) (d.words k) k fun d' => d'.bare = d.bare

/-- A pattern that is read as what it is, up to the places where it stands. -/
structure Pattern.Legible (p : Pattern) : Prop where
  begins : ∀ k, Begins (p.words k)
  takes : ∀ n k, Ends k →
    Takes (n + 1) (pattern (below n)) (p.words k) k fun p' => p'.bare = p.bare

namespace Grammar

open Frontend.Grammar.Parser
open Token (Kind)

variable {n : Nat} {k o : List Word}

/-- The head of a record stands in front of its brace. -/
theorem begins_head (head : RecordHead) : Begins (head.words (spelled .lbrace :: o)) := by
  obtain ⟨_ | name, case⟩ := head
  · exact begins_cons (by decide)
  · cases case <;> exact begins_cons (by decide)

theorem Reads.recordHead {head : RecordHead} (formed : head.Formed) :
    Reads n recordHead (head.words (spelled .lbrace :: o)) (spelled .lbrace :: o)
      fun found => found.2 = head := by
  refine Reads.kind.bind fun k here => ?_
  obtain ⟨_ | name, case⟩ := head
  · obtain rfl : k = .lbrace := here
    obtain rfl : case = none := by simpa [RecordHead.Formed] using formed
    exact .pure rfl
  · cases case with
    | none =>
      obtain rfl : k = .ident := here
      refine (Takes.expect rfl).reads.bind fun t word => ?_
      refine (Reads.ate_other (by simp)).bind fun colons none => ?_
      rw [none]
      exact .pure (by rw [text_of_word word])
    | some case =>
      obtain rfl : k = .ident := here
      refine (Takes.expect rfl).reads.bind fun t word => ?_
      refine (Takes.ate rfl).reads.bind fun colons there => ?_
      rw [there]
      refine (Takes.expect rfl).reads.bind fun t' word' => .pure ?_
      rw [text_of_word word, text_of_word word']

theorem Takes.restBinder {name : Option String} (ends : headKind o ≠ .ident) :
    Takes n restBinder (restWords name o) o fun found => found.2 = name := by
  refine Takes.next.bind fun dots _ => ?_
  cases name with
  | none =>
    refine (Reads.eat_other ends).bind fun found none => ?_
    rw [none]
    exact .pure rfl
  | some name =>
    refine (Takes.eat rfl).reads.bind fun found there => ?_
    obtain ⟨t, rfl, word⟩ := there
    exact .pure (by rw [text_of_word word])

theorem Takes.below_destructuring {d : Destructuring} (legible : d.Legible) (ends : Ends k) :
    Takes n (below n).destructuring (d.words k) k fun d' => d'.bare = d.bare := by
  rw [below_eq n]
  exact .forFewer fun m _ => legible.takes m k ends

theorem Takes.below_pattern {p : Pattern} (legible : p.Legible) (ends : Ends k) :
    Takes n (below n).pattern (p.words k) k fun p' => p'.bare = p.bare := by
  rw [below_eq n]
  exact .forFewer fun m _ => legible.takes m k ends

/-- A rest of a destructuring is the last item between the braces. -/
theorem restItems_destructuring {others : Option Destructuring}
    (rest : ∀ d, others = some d → ∃ span name, d = .rest span name) :
    ∃ binder : Option (Option String),
      Destructuring.restItems others = (binder.map restWords).toList ∧
      others.map Destructuring.bare = binder.map (.rest default) := by
  cases others with
  | none => exact ⟨none, rfl, rfl⟩
  | some d =>
    obtain ⟨span, name, rfl⟩ := rest d rfl
    exact ⟨some name, rfl, rfl⟩

theorem Takes.fieldDestructuring {field : String × Option Destructuring}
    (legible : ∀ d, field.2 = some d → d.Legible)
    (named : ∀ d, field.2 = some d → d.KeepsName) (ends : Ends k) :
    Takes n (fieldDestructuring (below n)) (Destructuring.fieldItem field k) k fun field' =>
      Prod.map id (Option.map Destructuring.bare) field' =
        Prod.map id (Option.map Destructuring.bare) field := by
  obtain ⟨name, _ | d⟩ := field
  · refine (Takes.expect rfl).bind fun t word => ?_
    refine (Reads.ate_other (ends.ne (by decide))).bind fun colon none => ?_
    rw [none]
    exact .pure (by rw [text_of_word word])
  · refine (Takes.expect rfl).bind fun t word => (Takes.ate rfl).reads.bind fun colon there => ?_
    rw [there, text_of_word word]
    refine (Reads.skipNewlines (((legible d rfl).begins _).ne (by decide))).bind fun _ _ => ?_
    refine (Takes.below_destructuring (legible d rfl) ends).reads.bind fun d' eq => ?_
    split
    next span bound =>
      have plain : bound = "_" := by
        cases d with
        | «variable» span' name' => cases eq; exact named _ rfl span' _ rfl
        | record => cases eq
        | rest => cases eq
      rw [if_neg (by simp [plain])]
      exact .pure (by simp [← eq])
    · exact .pure (by simp [eq])

theorem begins_fieldDestructuring (field : String × Option Destructuring) :
    Begins (Destructuring.fieldItem field k) := by
  obtain ⟨name, _ | d⟩ := field <;> exact begins_cons (by decide)

theorem Takes.recordDestructuring (span : Span) {head : RecordHead}
    {fields : List (String × Option Destructuring)} {others : Option Destructuring}
    (head_formed : head.Formed)
    (legible : ∀ f ∈ fields, ∀ d, f.2 = some d → d.Legible)
    (named : ∀ f ∈ fields, ∀ d, f.2 = some d → d.KeepsName)
    (rest : ∀ d, others = some d → ∃ span name, d = .rest span name) :
    Takes (n + 1) (recordDestructuring (below n))
      ((Destructuring.record span head fields others).words k) k fun d' =>
      d'.bare = (Destructuring.record span head fields others).bare := by
  obtain ⟨binder, binder_items, binder_bare⟩ := restItems_destructuring rest
  rw [Destructuring.words, Destructuring.fieldItems_eq, binder_items]
  have list : Reads n (closedListWithRest .rbrace (Grammar.fieldDestructuring (below n))
      Grammar.restBinder) (listed (fields.map Destructuring.fieldItem ++
        (binder.map restWords).toList) (spelled .rbrace :: k)) (spelled .rbrace :: k) fun found =>
      found.1.map (Prod.map id (Option.map Destructuring.bare)) =
        fields.map (Prod.map id (Option.map Destructuring.bare)) ∧ found.2.map (·.2) = binder := by
    refine .closedListWithRest rfl (by decide) (by decide) (fun f mem k follows => ?_)
      (fun f _ k => begins_fieldDestructuring f) fun name _ => .restBinder (by simp)
    exact .fieldDestructuring (legible f mem) (named f mem) (follows.ends (ends_cons (by decide)))
  refine .after (.recordHead head_formed) fun (start, head') head_eq => ?_
  refine .first (.expect rfl) fun opening _ => list.bind fun (fields', rest') ⟨same, last⟩ => ?_
  refine (Takes.expect rfl).reads.bind fun close _ => .pure ?_
  subst head_eq
  have rest_eq : (rest'.map fun r => Destructuring.rest r.1 r.2).map Destructuring.bare =
      others.map Destructuring.bare := by
    rw [binder_bare, ← last]
    cases rest' <;> rfl
  simp [Destructuring.bare, same, rest_eq]

theorem legible_record_destructuring {span : Span} {head : RecordHead}
    {fields : List (String × Option Destructuring)} {others : Option Destructuring}
    (head_formed : head.Formed)
    (legible : ∀ f ∈ fields, ∀ d, f.2 = some d → d.Legible)
    (named : ∀ f ∈ fields, ∀ d, f.2 = some d → d.KeepsName)
    (rest : ∀ d, others = some d → ∃ span name, d = .rest span name) :
    (Destructuring.record span head fields others).Legible := by
  refine ⟨fun k => begins_head _, fun n k ends => ?_⟩
  have record := Takes.recordDestructuring span (n := n) (k := k) head_formed legible named rest
  refine .after .kind fun k' here => ?_
  obtain ⟨_ | name, case⟩ := head
  · obtain rfl : k' = .lbrace := here
    exact record
  · cases case with
    | none =>
      obtain rfl : k' = .ident := here
      refine .after (.kindAt 1) fun after here => ?_
      rw [if_pos (.inl here)]
      exact record
    | some case =>
      obtain rfl : k' = .ident := here
      refine .after (.kindAt 1) fun after here => ?_
      rw [if_pos (.inr here)]
      exact record

/-- Every destructuring is read as what it is. -/
theorem legible_destructuring {d : Destructuring} (formed : d.Formed) : d.Legible := by
  induction formed with
  | «variable» =>
    refine ⟨fun k => begins_cons (by decide), fun n k ends => ?_⟩
    refine .after .kind fun k' here => ?_
    obtain rfl : k' = .ident := here
    refine .after (.kindAt 1) fun after here => ?_
    obtain rfl : after = headKind k := here
    have no_brace : headKind k ≠ .lbrace := ends.ne (by decide)
    have no_case : headKind k ≠ .colonColon := ends.ne (by decide)
    rw [if_neg (by simp [no_brace, no_case])]
    refine .first (.expect rfl) fun t word => .pure ?_
    rw [text_of_word word]
    rfl
  | record head_formed _ named rest legible =>
    exact legible_record_destructuring head_formed legible named rest

/-- A rest of a pattern is the last item between the braces or brackets. -/
theorem restItems_pattern {others : Option Pattern}
    (rest : ∀ p, others = some p → ∃ span name, p = .rest span name) :
    ∃ binder : Option (Option String),
      Pattern.restItems others = (binder.map restWords).toList ∧
      others.map Pattern.bare = binder.map (.rest default) := by
  cases others with
  | none => exact ⟨none, rfl, rfl⟩
  | some p =>
    obtain ⟨span, name, rfl⟩ := rest p rfl
    exact ⟨some name, rfl, rfl⟩

theorem begins_literal {value : Literal} (spelled : value.Spelled) : Begins (value.words k) := by
  cases value with
  | int value => cases value <;> exact begins_cons (by decide)
  | float => exact spelled.elim
  | _ => exact begins_cons (by decide)

theorem begins_fieldPattern (field : String × Option Pattern) :
    Begins (Pattern.fieldItem field k) := by
  obtain ⟨name, _ | p⟩ := field <;> exact begins_cons (by decide)

theorem Reads.literalPattern {t : Token} {minus : Option Position} {value : Literal}
    (read : Literal.read t.kind minus.isSome t.text = .ok value) {span : Span} :
    Reads n (literalPattern t minus) k k fun p => p.bare = (value.toPattern span).bare := by
  unfold Grammar.literalPattern
  rw [read]
  exact .pure (by simp)

/-- A literal that is one word. -/
theorem Takes.literal_pattern {kind : Kind} {text : String} {value : Literal} {span : Span}
    (literal : Literal.isKind kind = true) (read : Literal.read kind false text = .ok value) :
    Takes (n + 1) (pattern (below n)) ((kind, text) :: k) k fun p =>
      p.bare = (value.toPattern span).bare := by
  refine .after .kind fun kind' here => ?_
  obtain rfl : kind' = kind := here
  rw [if_pos literal]
  refine .first .next fun t word => .literalPattern ?_
  rw [kind_of_word word, text_of_word word]
  exact read

theorem legible_literal_pattern {span : Span} {value : Literal} (spelled : value.Spelled) :
    (value.toPattern span).Legible := by
  refine ⟨fun k => words_toPattern span value ▸ begins_literal spelled, fun n k ends => ?_⟩
  rw [words_toPattern]
  cases value with
  | int value =>
    obtain ⟨lower, upper⟩ : -2 ^ 63 ≤ value ∧ value < 2 ^ 63 := spelled
    cases value with
    | ofNat value =>
      rw [Int.ofNat_eq_natCast] at upper
      exact .literal_pattern rfl (Literal.read_int (by omega))
    | negSucc value =>
      refine .after .kind fun kind here => ?_
      obtain rfl : kind = .minus := here
      refine .first .next fun minus _ => Reads.kind.bind fun kind here => ?_
      rw [if_pos (.inl here)]
      refine Takes.next.reads.bind fun t word => .literalPattern ?_
      rw [kind_of_word word, text_of_word word]
      exact Literal.read_int_neg (by omega)
  | uint value => exact .literal_pattern rfl (Literal.read_uint spelled)
  | bool value => exact .literal_pattern rfl (Literal.read_bool value)
  | string text => exact .literal_pattern rfl (Literal.read_string text)
  | float => exact spelled.elim

theorem Takes.fieldPattern {field : String × Option Pattern}
    (legible : ∀ p, field.2 = some p → p.Legible)
    (named : ∀ p, field.2 = some p → p.KeepsName) (ends : Ends k) :
    Takes n (fieldPattern (below n)) (Pattern.fieldItem field k) k fun field' =>
      Prod.map id (Option.map Pattern.bare) field' =
        Prod.map id (Option.map Pattern.bare) field := by
  obtain ⟨name, _ | p⟩ := field
  · refine (Takes.expect rfl).bind fun t word => ?_
    refine (Reads.ate_other (ends.ne (by decide))).bind fun colon none => ?_
    rw [none]
    exact .pure (by rw [text_of_word word])
  · refine (Takes.expect rfl).bind fun t word => (Takes.ate rfl).reads.bind fun colon there => ?_
    rw [there, text_of_word word]
    refine (Reads.skipNewlines (((legible p rfl).begins _).ne (by decide))).bind fun _ _ => ?_
    refine (Takes.below_pattern (legible p rfl) ends).reads.bind fun p' eq => ?_
    split
    next span bound =>
      have plain : bound = "_" := by
        cases p <;> cases eq
        exact named _ rfl _ _ rfl
      rw [if_neg (by simp [plain])]
      exact .pure (by simp [← eq])
    · exact .pure (by simp [eq])

section Record

variable {span : Span} {head : RecordHead} {fields : List (String × Option Pattern)}
  {others : Option Pattern}

theorem Takes.recordPattern (span : Span) (head_formed : head.Formed)
    (legible : ∀ f ∈ fields, ∀ p, f.2 = some p → p.Legible)
    (named : ∀ f ∈ fields, ∀ p, f.2 = some p → p.KeepsName)
    (rest : ∀ p, others = some p → ∃ span name, p = .rest span name) :
    Takes (n + 1) (recordPattern (below n)) ((Pattern.record span head fields others).words k) k
      fun p => p.bare = (Pattern.record span head fields others).bare := by
  obtain ⟨binder, binder_items, binder_bare⟩ := restItems_pattern rest
  rw [Pattern.words, Pattern.fieldItems_eq, binder_items]
  have list : Reads n (closedListWithRest .rbrace (Grammar.fieldPattern (below n))
      Grammar.restBinder) (listed (fields.map Pattern.fieldItem ++
        (binder.map restWords).toList) (spelled .rbrace :: k)) (spelled .rbrace :: k) fun found =>
      found.1.map (Prod.map id (Option.map Pattern.bare)) =
        fields.map (Prod.map id (Option.map Pattern.bare)) ∧ found.2.map (·.2) = binder := by
    refine .closedListWithRest rfl (by decide) (by decide) (fun f mem k follows => ?_)
      (fun f _ k => begins_fieldPattern f) fun name _ => .restBinder (by simp)
    exact .fieldPattern (legible f mem) (named f mem) (follows.ends (ends_cons (by decide)))
  refine .after (.recordHead head_formed) fun (start, head') head_eq => ?_
  refine .first (.eat rfl) fun found ⟨opening, there, _⟩ => ?_
  subst there
  refine list.bind fun (fields', rest') ⟨same, last⟩ => ?_
  refine (Takes.expect rfl).reads.bind fun close _ => .pure ?_
  subst head_eq
  have rest_eq : (rest'.map fun r => Pattern.rest r.1 r.2).map Pattern.bare =
      others.map Pattern.bare := by
    rw [binder_bare, ← last]
    cases rest' <;> rfl
  simp [Pattern.bare, same, rest_eq]

theorem legible_record_pattern (head_formed : head.Formed)
    (legible : ∀ f ∈ fields, ∀ p, f.2 = some p → p.Legible)
    (named : ∀ f ∈ fields, ∀ p, f.2 = some p → p.KeepsName)
    (rest : ∀ p, others = some p → ∃ span name, p = .rest span name) :
    (Pattern.record span head fields others).Legible := by
  refine ⟨fun k => begins_head _, fun n k ends => ?_⟩
  have record := Takes.recordPattern span (n := n) (k := k) head_formed legible named rest
  refine .after .kind fun k' here => ?_
  obtain ⟨_ | name, case⟩ := head
  · obtain rfl : k' = .lbrace := here
    exact record
  · cases case with
    | none =>
      obtain rfl : k' = .ident := here
      refine .after (.kindAt 1) fun after here => ?_
      rw [if_pos (.inl here)]
      exact record
    | some case =>
      obtain rfl : k' = .ident := here
      refine .after (.kindAt 1) fun after here => ?_
      rw [if_pos (.inr here)]
      exact record

end Record

theorem legible_array_pattern {span : Span} {elems : List Pattern} {others : Option Pattern}
    (legible : ∀ p ∈ elems, p.Legible)
    (rest : ∀ p, others = some p → ∃ span name, p = .rest span name) :
    (Pattern.array span elems others).Legible := by
  refine ⟨fun k => begins_cons (by decide), fun n k ends => ?_⟩
  obtain ⟨binder, binder_items, binder_bare⟩ := restItems_pattern rest
  rw [Pattern.words, Pattern.items_eq, binder_items]
  have list : Reads n (closedListWithRest .rbracket (below n).pattern Grammar.restBinder)
      (listed (elems.map Pattern.words ++ (binder.map restWords).toList)
        (spelled .rbracket :: k)) (spelled .rbracket :: k) fun found =>
      found.1.map Pattern.bare = elems.map Pattern.bare ∧ found.2.map (·.2) = binder := by
    refine .closedListWithRest rfl (by decide) (by decide) (fun p mem k follows => ?_)
      (fun p mem => (legible p mem).begins) fun name _ => .restBinder (by simp)
    exact .below_pattern (legible p mem) (follows.ends (ends_cons (by decide)))
  refine .after .kind fun k' here => ?_
  obtain rfl : k' = .lbracket := here
  refine .first .next fun opening _ => list.bind fun (elems', rest') ⟨same, last⟩ => ?_
  refine (Takes.expect rfl).reads.bind fun close _ => .pure ?_
  have rest_eq : (rest'.map fun r => Pattern.rest r.1 r.2).map Pattern.bare =
      others.map Pattern.bare := by
    rw [binder_bare, ← last]
    cases rest' <;> rfl
  simp [Pattern.bare, same, rest_eq]

/-- Every pattern is read as what it is. -/
theorem legible_pattern {p : Pattern} (formed : p.Formed Literal.Spelled) : p.Legible := by
  induction formed with
  | literal spelled => exact legible_literal_pattern spelled
  | «variable» =>
    refine ⟨fun k => begins_cons (by decide), fun n k ends => ?_⟩
    refine .after .kind fun k' here => ?_
    obtain rfl : k' = .ident := here
    refine .after (.kindAt 1) fun after here => ?_
    obtain rfl : after = headKind k := here
    have no_brace : headKind k ≠ .lbrace := ends.ne (by decide)
    have no_case : headKind k ≠ .colonColon := ends.ne (by decide)
    rw [if_neg (by simp [no_brace, no_case])]
    refine .first (.expect rfl) fun t word => .pure ?_
    rw [text_of_word word]
    rfl
  | record head_formed _ named rest legible =>
    exact legible_record_pattern head_formed legible named rest
  | array _ rest legible => exact legible_array_pattern legible rest

end Grammar

end Frontend
