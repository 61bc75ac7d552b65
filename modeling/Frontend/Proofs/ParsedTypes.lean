import Frontend.Grammar.TypeExpr
import Frontend.Grammar.Pattern
import Frontend.Proofs.Formed
import Frontend.Proofs.Yields

/-!
Patterns, destructurings and types that the grammar yields are well formed, as long as the rules
that they call yield such trees. Fields in braces have names all together or none at all.
-/
namespace Frontend

namespace Literal

/-- What every step of a fold keeps holds at its end. -/
theorem foldlM_keeps {σ α ε : Type} {step : σ → α → Except ε σ} (inv : σ → Prop)
    (steps : ∀ s a s', inv s → step s a = .ok s' → inv s') {list : List α} {s s' : σ}
    (start : inv s) (h : list.foldlM step s = .ok s') : inv s' := by
  induction list generalizing s with
  | nil =>
    cases h
    exact start
  | cons a list ih =>
    rw [List.foldlM_cons] at h
    cases first : step s a with
    | error e => rw [first] at h; cases h
    | ok mid =>
      rw [first] at h
      exact ih (steps s a mid start first) h

theorem boundedDigits_lt {base : Nat} {digits : List Char} {n : Nat}
    (h : boundedDigits base digits = .ok n) : n < naturalLimit := by
  unfold boundedDigits at h
  split at h
  · cases h
  · refine foldlM_keeps ((· < naturalLimit)) (fun m c m' _ step => ?_) (by decide) h
    split at step
    · cases step
    · split at step
      next less => cases step; exact less
      next => cases step

theorem natural_lt {text : List Char} {n : Nat} (h : natural text = .ok n) : n < naturalLimit := by
  unfold natural at h
  split at h <;> exact boundedDigits_lt h

theorem integer_fits {negative : Bool} {text : List Char} {value : Int}
    (h : integer negative text = .ok value) : (Literal.int value).Fits := by
  unfold integer at h
  cases read : natural text with
  | error problem => rw [read] at h; cases h
  | ok n =>
    rw [read] at h
    change (if negative then _ else _) = _ at h
    have limit : Nat.pow 2 63 = 2 ^ 63 := rfl
    split at h <;> split at h <;> cases h <;> constructor <;> omega

/-- What a literal is read as is a value that it may have. -/
theorem read_fits {kind : Token.Kind} {negative : Bool} {text : String} {value : Literal}
    (h : read kind negative text = .ok value) : value.Fits := by
  unfold read at h
  split at h
  · cases read : integer negative text.toList with
    | error problem => rw [read] at h; cases h
    | ok n => rw [read] at h; cases h; exact integer_fits read
  · cases read : unsigned text.toList with
    | error problem => rw [read] at h; cases h
    | ok n => rw [read] at h; cases h; exact natural_lt read
  · cases read : decimal negative text.toList with
    | error problem => rw [read] at h; cases h
    | ok x => rw [read] at h; cases h; trivial
  · cases read : unquote text.toList with
    | error problem => rw [read] at h; cases h
    | ok text => rw [read] at h; cases h; trivial
  · cases h; trivial

end Literal

namespace Grammar

open Frontend.Grammar.Parser

/-- Rules that yield trees of the grammar only. -/
structure Rules.Sound (rules : Rules) : Prop where
  binary : ∀ power, Yields (rules.binary power) (Expr.Formed Literal.Fits)
  unary : Yields rules.unary (Expr.Formed Literal.Fits)
  typeExpr : Yields rules.typeExpr (TypeExpr.Formed Literal.Fits)
  pattern : Yields rules.pattern (Pattern.Formed Literal.Fits)
  destructuring : Yields rules.destructuring Destructuring.Formed
  statement : Yields rules.statement (Stmt.Formed Literal.Fits)

variable {rules : Rules}

theorem yields_literalPattern (t : Token) (minus : Option Position) :
    Yields (literalPattern t minus) (Pattern.Formed Literal.Fits) := by
  unfold literalPattern
  split
  next value read => exact .pure (.literal (Literal.read_fits read))
  next => exact .fail

theorem yields_recordHead : Yields recordHead fun found => found.2.Formed := by
  refine .step fun k => .ite (fun _ => ?_) fun _ => .pure nofun
  refine .step fun name => .step fun colons => .ite (fun _ => ?_) fun _ => .pure nofun
  exact .step fun member => .pure fun _ => rfl

/-- What is found behind dots becomes a rest and nothing else. -/
theorem rest_of_map {α ρ : Type} {rest : ρ → α} {found : Option ρ} {a : α}
    (h : found.map rest = some a) : ∃ r, a = rest r := by
  cases found with
  | none => cases h
  | some r => exact ⟨r, (Option.some.inj h).symm⟩

/-- A field of a record pattern, with the pattern that it is matched with. -/
def GoodFieldPattern (field : String × Option Pattern) : Prop :=
  ∀ p, field.2 = some p → p.Formed Literal.Fits ∧ p.KeepsName

theorem yields_fieldPattern (sound : rules.Sound) :
    Yields (fieldPattern rules) GoodFieldPattern := by
  refine .step fun name => .step fun colon => .ite (fun _ => ?_) fun _ => .pure nofun
  refine .step fun _ => sound.pattern.bind fun p formed => ?_
  split
  next span bound =>
    refine .ite (fun _ => .fail) fun plain => .pure fun p eq => ?_
    obtain rfl := Option.some.inj eq
    exact ⟨formed, fun _ _ same => by cases same; simpa using plain⟩
  next other =>
    refine .pure fun p' eq => ?_
    obtain rfl := Option.some.inj eq
    exact ⟨formed, fun span name same => absurd same (other span name)⟩

theorem yields_recordPattern (sound : rules.Sound) :
    Yields (recordPattern rules) (Pattern.Formed Literal.Fits) := by
  refine yields_recordHead.bind fun (start, head) head_formed => .step fun opening => ?_
  cases opening with
  | none => exact .step fun stop => .pure (.record head_formed (by simp) (by simp) nofun)
  | some opening =>
    refine (Yields.closedListWithRest (yields_fieldPattern sound)).bind ?_
    intro (fields, rest) fields_good
    refine .step fun close => .pure (.record head_formed ?_ ?_ ?_)
    · exact fun f mem p eq => (fields_good f mem p eq).1
    · exact fun f mem p eq => (fields_good f mem p eq).2
    · exact fun p eq => (rest_of_map eq).elim fun r same => ⟨_, _, same⟩

theorem yields_arrayPattern (sound : rules.Sound) :
    Yields (arrayPattern rules) (Pattern.Formed Literal.Fits) := by
  refine .step fun opening => (Yields.closedListWithRest sound.pattern).bind ?_
  intro (elems, rest) elems_formed
  refine .step fun close => .pure (.array elems_formed ?_)
  exact fun p eq => (rest_of_map eq).elim fun r same => ⟨_, _, same⟩

theorem yields_negativePattern : Yields negativePattern (Pattern.Formed Literal.Fits) := by
  refine .step fun minus => .step fun k => .ite (fun _ => ?_) fun _ => .unexpected
  exact .step fun t => yields_literalPattern t _

theorem yields_pattern (sound : rules.Sound) :
    Yields (pattern rules) (Pattern.Formed Literal.Fits) := by
  refine .step fun k => .ite (fun _ => .step fun t => yields_literalPattern t _) fun _ => ?_
  split
  · exact yields_negativePattern
  · refine .step fun after => .ite (fun _ => yields_recordPattern sound) fun _ => ?_
    exact .step fun name => .pure .variable
  · exact yields_recordPattern sound
  · exact yields_arrayPattern sound
  · exact .unexpected

/-- A field of a record destructuring, with what it is destructured into. -/
def GoodFieldDestructuring (field : String × Option Destructuring) : Prop :=
  ∀ d, field.2 = some d → d.Formed ∧ d.KeepsName

theorem yields_fieldDestructuring (sound : rules.Sound) :
    Yields (fieldDestructuring rules) GoodFieldDestructuring := by
  refine .step fun name => .step fun colon => .ite (fun _ => ?_) fun _ => .pure nofun
  refine .step fun _ => sound.destructuring.bind fun d formed => ?_
  split
  next span bound =>
    refine .ite (fun _ => .fail) fun plain => .pure fun d eq => ?_
    obtain rfl := Option.some.inj eq
    exact ⟨formed, fun _ _ same => by cases same; simpa using plain⟩
  next other =>
    refine .pure fun d' eq => ?_
    obtain rfl := Option.some.inj eq
    exact ⟨formed, fun span name same => absurd same (other span name)⟩

theorem yields_recordDestructuring (sound : rules.Sound) :
    Yields (recordDestructuring rules) Destructuring.Formed := by
  refine yields_recordHead.bind fun (start, head) head_formed => .step fun opening => ?_
  refine (Yields.closedListWithRest (yields_fieldDestructuring sound)).bind ?_
  intro (fields, rest) fields_good
  refine .step fun close => .pure (.record head_formed ?_ ?_ ?_)
  · exact fun f mem d eq => (fields_good f mem d eq).1
  · exact fun f mem d eq => (fields_good f mem d eq).2
  · exact fun d eq => (rest_of_map eq).elim fun r same => ⟨_, _, same⟩

theorem yields_destructuring (sound : rules.Sound) :
    Yields (destructuring rules) Destructuring.Formed := by
  refine .step fun k => ?_
  split
  · refine .step fun after => .ite (fun _ => yields_recordDestructuring sound) fun _ => ?_
    exact .step fun name => .pure .variable
  · exact yields_recordDestructuring sound
  · exact .unexpected

/-- Fields that have names all together, or none at all. -/
def Uniform {α : Type} (fields : List (String × α)) : Prop :=
  (∀ f ∈ fields, f.1 = "_") ∨ ∀ f ∈ fields, f.1 ≠ "_"

theorem Uniform.reverse {α : Type} {fields : List (String × α)} (h : Uniform fields) :
    Uniform fields.reverse := by
  simpa [Uniform] using h

/-- A name goes with uniform fields if it is one as the first of them is. -/
theorem uniform_cons_iff {α : Type} {fields : List (String × α)} (uniform : Uniform fields)
    {name : String} {a : α} : Uniform ((name, a) :: fields) ↔
      ∀ f, fields.getLast? = some f → (f.1 = "_" ↔ name = "_") := by
  constructor
  · rintro (all | all) f last
    · have f_unnamed := all f (.tail _ (List.mem_of_getLast? last))
      exact iff_of_true f_unnamed (all _ (.head _))
    · have f_named := all f (.tail _ (List.mem_of_getLast? last))
      exact iff_of_false f_named (all _ (.head _))
  · intro agree
    cases last : fields.getLast? with
    | none =>
      obtain rfl := List.getLast?_eq_none_iff.mp last
      by_cases unnamed : name = "_"
      · exact .inl (by simpa using unnamed)
      · exact .inr (by simpa using unnamed)
    | some f =>
      have mem := List.mem_of_getLast? last
      obtain all | all := uniform
      · exact .inl (List.forall_mem_cons.mpr ⟨(agree f last).mp (all f mem), all⟩)
      · exact .inr (List.forall_mem_cons.mpr ⟨fun same => all f mem ((agree f last).mpr same), all⟩)

/-- A field whose name passes the check keeps fields uniform. -/
theorem yields_checkFieldName {α : Type} {form : FieldSyntax} {fields : List (String × α)}
    {name : Token} (uniform : Uniform fields) :
    Yields (checkFieldName form fields name) fun _ => ∀ a, Uniform ((name.text, a) :: fields) := by
  simp only [uniform_cons_iff uniform]
  unfold checkFieldName
  split
  next none => exact .pure fun a => by simp [none]
  next first a last =>
    refine .ite (fun _ => .fail) fun agree => .ite (fun _ => .fail) fun agree' => .pure fun _ => ?_
    rw [last]
    rintro _ ⟨⟩
    by_cases unnamed : first = "_"
    · exact iff_of_true unnamed (by simpa [unnamed] using agree)
    · exact iff_of_false unnamed (by simpa [unnamed] using agree')

theorem Uniform.named {α : Type} {fields : List (String × α)} (uniform : Uniform fields)
    (h : ¬ areUnnamed fields = true) : ∀ f ∈ fields, f.1 ≠ "_" := by
  refine uniform.elim (fun all => ?_) id
  cases fields with
  | nil => nofun
  | cons f fields => exact absurd (by simpa [areUnnamed] using all f (by simp)) h

theorem ne_nil_of_areUnnamed {α : Type} {fields : List (String × α)}
    (h : areUnnamed fields = true) : fields ≠ [] := by
  rintro rfl
  cases h

theorem yields_namedType (sound : rules.Sound) :
    Yields (namedType rules) (TypeExpr.Formed Literal.Fits) := by
  refine .step fun name => .ite (fun marked => .pure (.variable marked)) fun plain => ?_
  refine .step fun k => ?_
  split
  · exact .step fun _ => .step fun member => .pure (.case plain)
  · refine .step fun _ => (Yields.closedList sound.typeExpr).bind fun args args_formed => ?_
    exact .step fun close => .pure (.instantiate plain args_formed)
  · exact .pure (.named plain)

/-- The fields of a type: uniform, with well-formed types. -/
def GoodTypeFields (fields : List (String × TypeExpr)) : Prop :=
  Uniform fields ∧ ∀ f ∈ fields, f.2.Formed Literal.Fits

theorem yields_typeField (sound : rules.Sound) (fields : List (String × TypeExpr))
    (good : GoodTypeFields fields) :
    Yields (typeField rules fields) fun field => GoodTypeFields (field :: fields) := by
  refine .step fun name => (yields_checkFieldName good.1).bind fun _ uniform => ?_
  refine .step fun _ => .step fun _ => sound.typeExpr.bind fun type formed => .pure ?_
  exact ⟨uniform type, by simpa [formed] using good.2⟩

/-- A type in braces is well formed, and it has fields. -/
theorem yields_recordOrTupleType (sound : rules.Sound) :
    Yields (recordOrTupleType rules) fun t => t.Formed Literal.Fits ∧ t.IsPayload := by
  refine .step fun opening => ?_
  refine (Yields.closedList_of GoodTypeFields ⟨.inl nofun, nofun⟩
    (yields_typeField sound)).bind fun fields good => .step fun close => .pure ?_
  have uniform : Uniform fields := by simpa using good.1.reverse
  have formed : ∀ f ∈ fields, f.2.Formed Literal.Fits := by simpa using good.2
  by_cases unnamed : areUnnamed fields = true
  · rw [if_pos unnamed]
    refine ⟨.tuple ?_ ?_, .inr ⟨_, rfl⟩⟩
    · simpa using ne_nil_of_areUnnamed unnamed
    · intro t mem
      obtain ⟨f, f_mem, rfl⟩ := List.mem_map.mp mem
      exact formed f f_mem
  · rw [if_neg unnamed]
    exact ⟨.record (uniform.named unnamed) formed, .inl ⟨_, rfl⟩⟩

theorem yields_functionType (sound : rules.Sound) :
    Yields (functionType rules) (TypeExpr.Formed Literal.Fits) := by
  refine .step fun opening => (Yields.closedList sound.typeExpr).bind fun params formed => ?_
  refine .step fun _ => .step fun _ => sound.typeExpr.bind fun result result_formed => ?_
  exact .pure (.function formed result_formed)

theorem yields_typeOf (sound : rules.Sound) :
    Yields (typeOf rules) (TypeExpr.Formed Literal.Fits) := by
  refine .step fun word => .step fun _ => .step fun _ => ?_
  refine (sound.binary 1).bind fun value formed => ?_
  exact .step fun _ => .step fun close => .pure (.typeOf formed)

theorem yields_typeExpr (sound : rules.Sound) :
    Yields (typeExpr rules) (TypeExpr.Formed Literal.Fits) := by
  refine .step fun k => ?_
  split
  · exact yields_namedType sound
  · exact (yields_recordOrTupleType sound).mono fun t good => good.1
  · exact yields_functionType sound
  · exact yields_typeOf sound
  · exact .unexpected

end Grammar

end Frontend
