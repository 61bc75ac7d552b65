import Frontend.Grammar.Pattern
import Frontend.Grammar.TypeExpr
import Frontend.Proofs.Namings

/-!
The names of patterns, destructurings and types, as long as the rules that they call find trees with
good names.
-/
namespace Frontend.Grammar

open Frontend.Grammar.Parser

variable {good : String → Prop} {rules : Rules}

/-- Rules that find trees with good names. -/
structure Rules.Naming (good : String → Prop) (rules : Rules) : Prop where
  binary : ∀ power, Finds good (rules.binary power) fun e => Node.Named good (.expr e)
  unary : Finds good rules.unary fun e => Node.Named good (.expr e)
  typeExpr : Finds good rules.typeExpr fun t => Node.Named good (.type t)
  pattern : Finds good rules.pattern fun p => Node.Named good (.pattern p)
  destructuring : Finds good rules.destructuring fun d => Node.Named good (.destructuring d)
  statement : Finds good rules.statement fun s => Node.Named good (.stmt s)

/-- Fields have good names, and so has what belongs to them, if anything does. -/
def NamedFields {α : Type} (good : String → Prop) (node : α → Node)
    (fields : List (String × Option α)) : Prop :=
  ∀ f ∈ fields, good f.1 ∧ ∀ a, f.2 = some a → Node.Named good (node a)

namespace NamedFields

variable {α : Type} {node : α → Node} {fields : List (String × Option α)}

theorem names (known : NamedFields good node fields) : ∀ name ∈ fields.map (·.1), good name :=
  List.forall_mem_map.mpr fun f mem => (known f mem).1

theorem below (known : NamedFields good node fields) :
    ∀ m ∈ fields.flatMap fun f => Node.maybe node f.2, Node.Named good m := by
  intro m mem
  obtain ⟨f, f_mem, below⟩ := List.mem_flatMap.mp mem
  obtain ⟨a, eq, rfl⟩ := Node.mem_maybe.mp below
  exact (known f f_mem).2 a eq

end NamedFields

theorem named_maybe {α : Type} {node : α → Node} {x : Option α}
    (known : ∀ a, x = some a → Node.Named good (node a)) :
    ∀ m ∈ Node.maybe node x, Node.Named good m := by
  intro m mem
  obtain ⟨a, eq, rfl⟩ := Node.mem_maybe.mp mem
  exact known a eq

section Patterns

theorem finds_literalPattern (t : Token) (minus : Option Position) :
    Finds good (literalPattern t minus) fun p => Node.Named good (.pattern p) := by
  unfold literalPattern
  split
  next value read => cases value <;> exact .pure (.intro nofun nofun)
  next => exact .fail

theorem finds_recordHead :
    Finds good recordHead fun found => ∀ name ∈ found.2.names, good name := by
  refine .step fun k => .ite (fun _ => ?_) fun _ => .pure nofun
  refine Finds.expectIdent.bind fun name name_good => .step fun case => .ite (fun _ => ?_) fun _ => ?_
  · refine Finds.expectIdent.bind fun member member_good => .pure ?_
    exact List.forall_mem_cons.mpr ⟨name_good, List.forall_mem_singleton.mpr member_good⟩
  · exact .pure (List.forall_mem_singleton.mpr name_good)

theorem finds_restBinder :
    Finds good restBinder fun found => ∀ name ∈ found.2.toList, good name := by
  refine .step fun dots => Finds.eat.bind fun found known => ?_
  cases found with
  | none => exact .pure nofun
  | some t => exact .pure (List.forall_mem_singleton.mpr (known t rfl))

theorem finds_fieldPattern (sound : rules.Naming good) :
    Finds good (fieldPattern rules) fun f =>
      good f.1 ∧ ∀ p, f.2 = some p → Node.Named good (.pattern p) := by
  refine Finds.expectIdent.bind fun name name_good => .step fun colon => .ite (fun _ => ?_) fun _ => ?_
  · refine .step fun _ => sound.pattern.bind fun p named => ?_
    have field : good name.text ∧ ∀ q, some p = some q → Node.Named good (.pattern q) :=
      ⟨name_good, fun q eq => Option.some.inj eq ▸ named⟩
    split
    · exact .ite (fun _ => .fail) fun _ => .pure field
    · exact .pure field
  · exact .pure ⟨name_good, nofun⟩

/-- A rest with a good name, where one may stand. -/
theorem named_restPattern {rest : Option (Span × Option String)}
    (known : ∀ r, rest = some r → ∀ name ∈ r.2.toList, good name) :
    ∀ p, rest.map (fun r => Pattern.rest r.1 r.2) = some p → Node.Named good (.pattern p) := by
  intro p eq
  obtain ⟨r, there, rfl⟩ := Option.map_eq_some_iff.mp eq
  exact .intro (known r there) nofun

theorem finds_recordPattern (sound : rules.Naming good) :
    Finds good (recordPattern rules) fun p => Node.Named good (.pattern p) := by
  refine finds_recordHead.bind fun (start, head) head_good => .step fun opening => ?_
  split
  · exact .step fun stop => .pure (.intro (List.forall_mem_append.mpr ⟨head_good, nofun⟩) nofun)
  · refine (Finds.closedListWithRest (finds_fieldPattern sound) finds_restBinder).bind
      fun (fields, rest) ⟨known, others⟩ => .step fun close => .pure ?_
    have fields_good : NamedFields good .pattern fields := known
    exact .intro (List.forall_mem_append.mpr ⟨head_good, fields_good.names⟩)
      (List.forall_mem_append.mpr ⟨fields_good.below, named_maybe (named_restPattern others)⟩)

theorem finds_arrayPattern (sound : rules.Naming good) :
    Finds good (arrayPattern rules) fun p => Node.Named good (.pattern p) := by
  refine .step fun opening => (Finds.closedListWithRest sound.pattern finds_restBinder).bind
    fun (elems, rest) ⟨known, others⟩ => .step fun close => .pure (.intro nofun ?_)
  exact List.forall_mem_append.mpr
    ⟨List.forall_mem_map.mpr known, named_maybe (named_restPattern others)⟩

theorem finds_negativePattern :
    Finds good negativePattern fun p => Node.Named good (.pattern p) :=
  .step fun _ => .step fun _ => .ite (fun _ => .step fun t => finds_literalPattern t _)
    fun _ => .unexpected

theorem finds_pattern (sound : rules.Naming good) :
    Finds good (pattern rules) fun p => Node.Named good (.pattern p) := by
  refine .step fun k => .ite (fun _ => .step fun t => finds_literalPattern t none) fun _ => ?_
  split
  · exact finds_negativePattern
  · refine .step fun after => .ite (fun _ => finds_recordPattern sound) fun _ => ?_
    exact Finds.expectIdent.bind fun name name_good =>
      .pure (.intro (List.forall_mem_singleton.mpr name_good) nofun)
  · exact finds_recordPattern sound
  · exact finds_arrayPattern sound
  · exact .unexpected

end Patterns

section Destructurings

theorem finds_fieldDestructuring (sound : rules.Naming good) :
    Finds good (fieldDestructuring rules) fun f =>
      good f.1 ∧ ∀ d, f.2 = some d → Node.Named good (.destructuring d) := by
  refine Finds.expectIdent.bind fun name name_good => .step fun colon => .ite (fun _ => ?_) fun _ => ?_
  · refine .step fun _ => sound.destructuring.bind fun d named => ?_
    have field : good name.text ∧ ∀ e, some d = some e → Node.Named good (.destructuring e) :=
      ⟨name_good, fun e eq => Option.some.inj eq ▸ named⟩
    split
    · exact .ite (fun _ => .fail) fun _ => .pure field
    · exact .pure field
  · exact .pure ⟨name_good, nofun⟩

theorem finds_recordDestructuring (sound : rules.Naming good) :
    Finds good (recordDestructuring rules) fun d => Node.Named good (.destructuring d) := by
  refine finds_recordHead.bind fun (start, head) head_good => .step fun opening => ?_
  refine (Finds.closedListWithRest (finds_fieldDestructuring sound) finds_restBinder).bind
    fun (fields, rest) ⟨known, others⟩ => .step fun close => .pure ?_
  have fields_good : NamedFields good .destructuring fields := known
  refine .intro (List.forall_mem_append.mpr ⟨head_good, fields_good.names⟩)
    (List.forall_mem_append.mpr ⟨fields_good.below, named_maybe fun d eq => ?_⟩)
  obtain ⟨r, there, rfl⟩ := Option.map_eq_some_iff.mp eq
  exact .intro (others r there) nofun

theorem finds_destructuring (sound : rules.Naming good) :
    Finds good (destructuring rules) fun d => Node.Named good (.destructuring d) := by
  refine .step fun k => ?_
  split
  · refine .step fun after => .ite (fun _ => finds_recordDestructuring sound) fun _ => ?_
    exact Finds.expectIdent.bind fun name name_good =>
      .pure (.intro (List.forall_mem_singleton.mpr name_good) nofun)
  · exact finds_recordDestructuring sound
  · exact .unexpected

end Destructurings

section Types

instance steady_checkFieldName {α : Type} {form : FieldSyntax} {fields : List (String × α)}
    {name : Token} : Steady (checkFieldName form fields name) := by
  unfold checkFieldName
  split <;> infer_instance

theorem finds_namedType (sound : rules.Naming good) :
    Finds good (namedType rules) fun t => Node.Named good (.type t) := by
  refine Finds.expectIdent.bind fun name name_good => ?_
  have own := List.forall_mem_singleton.mpr name_good
  refine .ite (fun _ => .pure (.intro own nofun)) fun _ => .step fun k => ?_
  split
  · refine .step fun _ => Finds.expectIdent.bind fun member member_good => .pure (.intro ?_ nofun)
    exact List.forall_mem_cons.mpr ⟨name_good, List.forall_mem_singleton.mpr member_good⟩
  · refine .step fun _ => (Finds.closedList fun _ => sound.typeExpr).bind fun args named => ?_
    exact .step fun close => .pure (.intro own (List.forall_mem_map.mpr named))
  · exact .pure (.intro own nofun)

theorem finds_typeField (sound : rules.Naming good) (before : List (String × TypeExpr)) :
    Finds good (typeField rules before) fun f => good f.1 ∧ Node.Named good (.type f.2) :=
  Finds.expectIdent.bind fun _ name_good => .step fun _ => .step fun _ => .step fun _ =>
    sound.typeExpr.bind fun _ named => .pure ⟨name_good, named⟩

theorem finds_recordOrTupleType (sound : rules.Naming good) :
    Finds good (recordOrTupleType rules) fun t => Node.Named good (.type t) := by
  refine .step fun opening => (Finds.closedList (finds_typeField sound)).bind
    fun fields known => .step fun close => .pure ?_
  split
  · refine .intro nofun (List.forall_mem_map.mpr fun t mem => ?_)
    obtain ⟨f, f_mem, rfl⟩ := List.mem_map.mp mem
    exact (known f f_mem).2
  · exact .intro (List.forall_mem_map.mpr fun f mem => (known f mem).1)
      (List.forall_mem_map.mpr fun f mem => (known f mem).2)

theorem finds_functionType (sound : rules.Naming good) :
    Finds good (functionType rules) fun t => Node.Named good (.type t) := by
  refine .step fun opening => (Finds.closedList fun _ => sound.typeExpr).bind fun params known => ?_
  refine .step fun _ => .step fun _ => sound.typeExpr.bind fun result named => .pure ?_
  exact .intro nofun (List.forall_mem_append.mpr
    ⟨List.forall_mem_map.mpr known, List.forall_mem_singleton.mpr named⟩)

theorem finds_typeOf (sound : rules.Naming good) :
    Finds good (typeOf rules) fun t => Node.Named good (.type t) := by
  refine .step fun word => .step fun _ => .step fun _ => (sound.binary 1).bind fun value named => ?_
  exact .step fun _ => .step fun close =>
    .pure (.intro nofun (List.forall_mem_singleton.mpr named))

theorem finds_typeExpr (sound : rules.Naming good) :
    Finds good (typeExpr rules) fun t => Node.Named good (.type t) := by
  refine .step fun k => ?_
  split
  · exact finds_namedType sound
  · exact finds_recordOrTupleType sound
  · exact finds_functionType sound
  · exact finds_typeOf sound
  · exact .unexpected

end Types

end Frontend.Grammar
