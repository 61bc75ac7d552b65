import Frontend.Proofs.ReadBranches

/-!
Fields in braces, and each form of a type, are read as what they are spelled from, as long as their
parts are.
-/
namespace Frontend

theorem TypeExpr.items_eq (types : List TypeExpr) : items types = types.map words :=
  eq_map_of_cons rfl (fun _ _ => rfl) types

/-- A field of a record type. -/
def TypeExpr.fieldItem (field : String × TypeExpr) : Spelling := fieldWords field.1 field.2.words

theorem TypeExpr.fieldItems_eq (fields : List (String × TypeExpr)) :
    fieldItems fields = fields.map fieldItem :=
  eq_map_of_cons rfl (fun _ _ => rfl) fields

/-- Elements of a tuple as fields without a name. -/
def unnamed {α : Type} (elems : List α) : List (String × α) := elems.map ("_", ·)

namespace Grammar

open Frontend.Grammar.Parser
open Token (Kind)

variable {n : Nat} {k o : List Word} {span : Span}

section Fields

variable {α : Type} {form : FieldSyntax} {fields : List (String × α)} {name : Token}

/-- Fields of one sort pass the check of their names. -/
theorem Reads.checkFieldName (agree : ∀ f ∈ fields, f.1 = "_" ↔ name.text = "_") :
    Reads n (checkFieldName form fields name) k k fun _ => True := by
  unfold Grammar.checkFieldName
  split
  · exact .pure trivial
  next first value last =>
    have same := agree _ (List.mem_of_getLast? last)
    rw [if_neg (fun h => h.2 (same.mp h.1)), if_neg (fun h => h.1 (same.mpr h.2))]
    exact .pure trivial

/-- Fields of the same names belong to the same sort of braces. -/
theorem areUnnamed_congr {β : Type} {value : α → β} {fields' : List (String × α)}
    (same : fields'.map (Prod.map id value) = fields.map (Prod.map id value)) :
    areUnnamed fields' = areUnnamed fields := by
  cases fields with
  | nil =>
    obtain rfl : fields' = [] := by simpa using same
    rfl
  | cons f fields =>
    obtain ⟨f', rest, rfl, first, -⟩ := List.map_eq_cons_iff.mp same
    have name_eq : f'.1 = f.1 := (Prod.ext_iff.mp first).1
    simp [areUnnamed, name_eq]

theorem areUnnamed_of_named (named : ∀ f ∈ fields, f.1 ≠ "_") : areUnnamed fields = false := by
  cases fields with
  | nil => rfl
  | cons f fields => simpa [areUnnamed] using named f (by simp)

theorem areUnnamed_unnamed {elems : List α} (some : elems ≠ []) :
    areUnnamed (unnamed elems) = true := by
  cases elems with
  | nil => exact absurd rfl some
  | cons a elems => rfl

/-- The values of unnamed fields. -/
theorem map_of_unnamed {β : Type} {value : α → β} {fields' : List (String × α)} {elems : List α}
    (same : fields'.map (Prod.map id value) = (unnamed elems).map (Prod.map id value)) :
    (fields'.map (·.2)).map value = elems.map value := by
  have values := congrArg (List.map Prod.snd) same
  simpa [unnamed, Function.comp_def] using values

/-- A field with a name and a colon in front of its value. -/
theorem Takes.field {value : Parser α} {words : Spelling} {good : α → Prop}
    {before : List (String × α)}
    {what what' : String} {name : String} (agree : ∀ f ∈ before, f.1 = "_" ↔ name = "_")
    (begins : Begins (words k)) (takes : Takes n value (words k) k good) :
    Takes n (do
      let token ← expectIdent what
      Grammar.checkFieldName form before token
      let _ ← Parser.expect .colon what'
      skipNewlines
      let a ← value
      pure (token.text, a)) (fieldWords name words k) k fun f => f.1 = name ∧ good f.2 := by
  refine (Takes.expect rfl).bind fun token word => ?_
  have text := text_of_word word
  refine (Reads.checkFieldName (by rwa [text])).bind fun _ _ => ?_
  refine (Takes.expect rfl).reads.bind
    fun _ _ => (Reads.skipNewlines (begins.ne (by decide))).bind fun _ _ => ?_
  exact takes.reads.bind fun a a_good => .pure ⟨text, a_good⟩

end Fields

section Types

theorem begins_type (t : TypeExpr) : Begins (t.words k) := by
  obtain ⟨span, form⟩ := t
  cases form <;> exact begins_cons (by decide)

theorem legible_named {name : String} (plain : ¬ NamesVariable name) :
    (TypeExpr.mk span (.named name)).Legible := by
  refine ⟨fun k => begins_type _, fun n k ends => .after .kind fun kind here => ?_⟩
  obtain rfl : kind = .ident := here
  unfold NamesVariable at plain
  refine .first (.expect rfl) fun t word => ?_
  rw [text_of_word word, if_neg plain]
  refine Reads.kind.bind fun kind here => ?_
  split
  · exact absurd here.symm (ends.ne (by decide))
  · exact absurd here.symm (ends.ne (by decide))
  · exact .pure rfl

theorem legible_variable_type {name : String} (marked : NamesVariable name) :
    (TypeExpr.mk span (.variable name)).Legible := by
  refine ⟨fun k => begins_type _, fun n k ends => .after .kind fun kind here => ?_⟩
  obtain rfl : kind = .ident := here
  unfold NamesVariable at marked
  refine .first (.expect rfl) fun t word => ?_
  rw [text_of_word word, if_pos marked]
  exact .pure rfl

theorem legible_case {name case : String} (plain : ¬ NamesVariable name) :
    (TypeExpr.mk span (.case name case)).Legible := by
  refine ⟨fun k => begins_type _, fun n k ends => .after .kind fun kind here => ?_⟩
  obtain rfl : kind = .ident := here
  unfold NamesVariable at plain
  refine .first (.expect rfl) fun t word => ?_
  rw [text_of_word word, if_neg plain]
  refine Reads.kind.bind fun kind here => ?_
  obtain rfl : kind = .colonColon := here
  refine Takes.next.reads.bind fun _ _ => (Takes.expect rfl).reads.bind fun t' word' => .pure ?_
  rw [text_of_word word']
  rfl

/-- Types between commas, up to a closing word. -/
theorem Reads.types {types : List TypeExpr} {close : Kind} (legible : ∀ t ∈ types, t.Legible)
    (closes : close ∉ starters ∧ close ∈ enders ∧ close ≠ .comma ∧ close ≠ .newline) :
    Reads n (Parser.closedList close fun _ => (below n).typeExpr)
      (listed (types.map TypeExpr.words) (spelled close :: k)) (spelled close :: k)
      fun types' => types'.map TypeExpr.bare = types.map TypeExpr.bare := by
  refine .closedList rfl closes.1 closes.2.2 (fun t mem _ follows => ?_) fun t mem =>
    (legible t mem).begins
  exact .below_type (legible t mem) (follows.ends closes.2.1)

theorem legible_instantiate {name : String} {args : List TypeExpr} (plain : ¬ NamesVariable name)
    (legible : ∀ t ∈ args, t.Legible) : (TypeExpr.mk span (.instantiate name args)).Legible := by
  refine ⟨fun k => begins_type _, fun n k ends => ?_⟩
  rw [TypeExpr.words, TypeExpr.items_eq]
  refine .after .kind fun kind here => ?_
  obtain rfl : kind = .ident := here
  unfold NamesVariable at plain
  refine .first (.expect rfl) fun t word => ?_
  rw [text_of_word word, if_neg plain]
  refine Reads.kind.bind fun kind here => ?_
  obtain rfl : kind = .lbrace := here
  refine Takes.next.reads.bind fun _ _ => (Reads.types legible (by decide)).bind
    fun args' same => ?_
  refine (Takes.expect rfl).reads.bind fun close _ => .pure ?_
  simp [TypeExpr.bare, same]

/-- The fields of a type in braces, which have names all together or none at all. -/
theorem Takes.recordOrTupleType {rules : Rules} (reads : rules.Read n)
    {fields : List (String × TypeExpr)}
    (legible : ∀ f ∈ fields, f.2.Legible) (sort : Bool)
    (agree : ∀ f ∈ fields, f.1 = "_" ↔ sort = true) :
    Takes (n + 1) (recordOrTupleType rules)
      (spelled .lbrace :: listed (fields.map TypeExpr.fieldItem) (spelled .rbrace :: k)) k
      fun t => ∃ fields', t.form = (if areUnnamed fields then .tuple (fields'.map (·.2))
        else .record fields') ∧
        fields'.map (Prod.map id TypeExpr.bare) = fields.map (Prod.map id TypeExpr.bare) := by
  have list : Reads n (Parser.closedList .rbrace (typeField rules))
      (listed (fields.map TypeExpr.fieldItem) (spelled .rbrace :: k)) (spelled .rbrace :: k)
      fun fields' => fields'.map (Prod.map id TypeExpr.bare) =
        fields.map (Prod.map id TypeExpr.bare) := by
    refine .closedList_of (fun before => ∀ f ∈ before, f.1 = "_" ↔ sort = true)
      (by simp) rfl (by decide) (by decide) (fun f mem before known k follows => ?_)
      fun f _ k => begins_cons (by decide)
    refine (Takes.field (fun g g_mem => (known g g_mem).trans (agree f mem).symm)
      ((legible f mem).begins k)
      (reads.type _ _ (legible f mem) (follows.ends (ends_cons (by decide))))).mono
      fun f' ⟨name, same⟩ => ⟨?_, ?_⟩
    · simp [Prod.map, name, same]
    · refine List.forall_mem_cons.mpr ⟨?_, known⟩
      rw [name]
      exact agree f mem
  refine .first (.expect rfl) fun opening _ => list.bind fun fields' same => ?_
  refine (Takes.expect rfl).reads.bind fun close _ => .pure ⟨fields', ?_, same⟩
  rw [areUnnamed_congr same]

/-- A record type, whatever follows. -/
theorem Takes.recordType {rules : Rules} (reads : rules.Read n)
    {fields : List (String × TypeExpr)} (named : ∀ f ∈ fields, f.1 ≠ "_")
    (legible : ∀ f ∈ fields, f.2.Legible) :
    Takes (n + 1) (Grammar.recordOrTupleType rules)
      ((TypeExpr.mk span (.record fields)).words k) k
      fun t => t.bare = (TypeExpr.mk span (.record fields)).bare := by
  rw [TypeExpr.words, TypeExpr.fieldItems_eq]
  refine (Takes.recordOrTupleType reads legible false (by simpa using named)).mono ?_
  rintro ⟨span', form⟩ ⟨fields', form_eq, same⟩
  rw [areUnnamed_of_named named] at form_eq
  obtain rfl : form = .record fields' := form_eq
  simp [TypeExpr.bare, same]

theorem unnamed_items (elems : List TypeExpr) :
    (TypeExpr.items elems).map (fieldWords "_") = (unnamed elems).map TypeExpr.fieldItem := by
  rw [TypeExpr.items_eq, unnamed, List.map_map, List.map_map]
  rfl

/-- A tuple type, whatever follows. -/
theorem Takes.tupleType {rules : Rules} (reads : rules.Read n) {elems : List TypeExpr}
    (some : elems ≠ [])
    (legible : ∀ t ∈ elems, t.Legible) :
    Takes (n + 1) (Grammar.recordOrTupleType rules)
      ((TypeExpr.mk span (.tuple elems)).words k) k
      fun t => t.bare = (TypeExpr.mk span (.tuple elems)).bare := by
  rw [TypeExpr.words, unnamed_items]
  refine (Takes.recordOrTupleType reads (by simpa [unnamed] using legible) true
    (by simp [unnamed])).mono ?_
  rintro ⟨span', form⟩ ⟨fields', form_eq, same⟩
  rw [areUnnamed_unnamed some] at form_eq
  obtain rfl : form = .tuple (fields'.map (·.2)) := form_eq
  rw [TypeExpr.bare, TypeExpr.bare, TypeExpr.bareAll_eq, TypeExpr.bareAll_eq, map_of_unnamed same]

theorem legible_record_type {fields : List (String × TypeExpr)} (named : ∀ f ∈ fields, f.1 ≠ "_")
    (legible : ∀ f ∈ fields, f.2.Legible) : (TypeExpr.mk span (.record fields)).Legible := by
  refine ⟨fun k => begins_type _, fun n k ends => .after .kind fun kind here => ?_⟩
  obtain rfl : kind = .lbrace := here
  exact .recordType (reads_below n) named legible

theorem legible_tuple_type {elems : List TypeExpr} (some : elems ≠ [])
    (legible : ∀ t ∈ elems, t.Legible) : (TypeExpr.mk span (.tuple elems)).Legible := by
  refine ⟨fun k => begins_type _, fun n k ends => .after .kind fun kind here => ?_⟩
  obtain rfl : kind = .lbrace := here
  exact .tupleType (reads_below n) some legible

theorem legible_function_type {params : List TypeExpr} {result : TypeExpr}
    (legible : ∀ t ∈ params, t.Legible) (result_legible : result.Legible) :
    (TypeExpr.mk span (.function params result)).Legible := by
  refine ⟨fun k => begins_type _, fun n k ends => ?_⟩
  rw [TypeExpr.words, TypeExpr.items_eq]
  refine .after .kind fun kind here => ?_
  obtain rfl : kind = .lparen := here
  refine .first .next fun opening _ => (Reads.types legible (by decide)).bind fun params' same => ?_
  refine (Takes.expect rfl).reads.bind fun _ _ => (Takes.expect rfl).reads.bind fun _ _ => ?_
  refine (Takes.below_type result_legible ends).reads.bind fun result' result_same => .pure ?_
  simp [TypeExpr.bare, same, result_same]

theorem legible_typeOf {value : Expr} (legible : value.Legible) :
    (TypeExpr.mk span (.typeOf value)).Legible := by
  refine ⟨fun k => begins_type _, fun n k ends => .after .kind fun kind here => ?_⟩
  obtain rfl : kind = .typeofWord := here
  refine .first .next fun word _ => (Takes.expect rfl).reads.bind fun _ _ => ?_
  refine (Reads.skipNewlines (by simp [parens])).bind fun _ _ => ?_
  refine (Takes.below_expr legible (ends_cons (by decide))).reads.bind fun value' same => ?_
  refine (Reads.skipNewlines (by simp)).bind fun _ _ => ?_
  refine (Takes.expect rfl).reads.bind fun close _ => .pure ?_
  simp [TypeExpr.bare, same]

end Types

end Grammar

end Frontend
