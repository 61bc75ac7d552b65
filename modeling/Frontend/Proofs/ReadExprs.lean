import Frontend.Proofs.ReadTypes

/-!
Each form of an expression is read as what it is spelled from, as long as its parts are.
-/
namespace Frontend

open Grammar

/-- A `do` block with a legible body. -/
inductive Expr.LegibleDo : Expr → Prop
  | lambda {span : Span} {params : List Param} {body : Expr}
      (untyped : ∀ p ∈ params, p.type = none) (legible : body.LegibleBody) :
      LegibleDo ⟨span, .lambda true params body⟩

theorem Expr.items_eq (elems : List Expr) : items elems = elems.map words :=
  eq_map_of_cons rfl (fun _ _ => rfl) elems

/-- A field of a record literal, or a named argument. -/
def Expr.fieldItem (field : String × Expr) : Spelling := fieldWords field.1 field.2.words

theorem Expr.fieldItems_eq (fields : List (String × Expr)) :
    fieldItems fields = fields.map fieldItem :=
  eq_map_of_cons rfl (fun _ _ => rfl) fields

/-- A key and its value. -/
def Expr.pairItem (pair : Expr × Expr) : Spelling :=
  fun k => pair.1.words (spelled .fatArrow :: pair.2.words k)

theorem Expr.pairItems_eq (pairs : List (Expr × Expr)) : pairItems pairs = pairs.map pairItem :=
  eq_map_of_cons rfl (fun _ _ => rfl) pairs

@[simp] theorem bare_toExpr (span : Span) (value : Literal) :
    (Expr.mk span value.toExpr).bare = ⟨default, value.toExpr⟩ := by
  cases value <;> rfl

theorem inner_toExpr (span : Span) (value : Literal) (k : List Word) :
    (Expr.mk span value.toExpr).inner k = value.words k := by
  cases value <;> rfl

namespace Grammar

open Frontend.Grammar.Parser
open Token (Kind)

variable {n : Nat} {k o : List Word} {span : Span}

section Atoms

theorem Reads.literal {t : Token} {minus : Option Position} {value : Literal}
    (read : Literal.read t.kind minus.isSome t.text = .ok value) :
    Reads n (literal t minus) k k fun e => e.bare = (Expr.mk span value.toExpr).bare := by
  unfold Grammar.literal
  rw [read]
  exact .pure (by simp)

/-- A literal that is one word is a primary. -/
theorem Takes.literal_primary {kind : Kind} {text : String} {value : Literal}
    (literal : Literal.isKind kind = true) (read : Literal.read kind false text = .ok value) :
    Takes (n + 1) (Grammar.primary (below n)) ((kind, text) :: k) k fun e =>
      e.bare = (Expr.mk span value.toExpr).bare := by
  refine .after .kind fun kind' here => ?_
  obtain rfl : kind' = kind := here
  rw [if_pos literal]
  refine .first .next fun t word => .literal ?_
  rw [kind_of_word word, text_of_word word]
  exact read

/-- A minus belongs to the number behind it, unless something is done with the number first. -/
theorem Takes.negative_unary (span : Span) {m : Nat} (less : m < 2 ^ 63)
    (stop : headKind k ∉ chainers) :
    Takes (n + 1) (Grammar.unary (below n)) (spelled .minus :: (.int, (m + 1).repr) :: k) k
      fun e => e.bare = (Expr.mk span (Literal.int (.negSucc m)).toExpr).bare := by
  refine .after .kind fun kind here => ?_
  obtain rfl : kind = .minus := here
  have ahead : Reads (n + 1) negativeLiteralAhead (spelled .minus :: (.int, (m + 1).repr) :: k)
      (spelled .minus :: (.int, (m + 1).repr) :: k) (· = true) := by
    refine (Reads.kindAt 1).bind fun kind here => ?_
    rw [if_pos (.inl here)]
    refine (Reads.kindAt 2).bind fun after here => .pure ?_
    obtain rfl : after = headKind k := here
    simpa [chainers, and_assoc] using stop
  refine .after ahead fun yes there => ?_
  rw [if_pos there]
  refine .first .next fun minus _ => Takes.next.reads.bind fun t word => .literal ?_
  rw [kind_of_word word, text_of_word word]
  exact Literal.read_int_neg less

theorem legible_literal {value : Literal} (spelled : value.Spelled) :
    (Expr.mk span value.toExpr).Legible := by
  refine ⟨fun k => inner_toExpr span value k ▸ begins_literal spelled, fun n k => ?_⟩
  rw [inner_toExpr]
  cases value with
  | int value =>
    obtain ⟨lower, upper⟩ : -2 ^ 63 ≤ value ∧ value < 2 ^ 63 := spelled
    cases value with
    | ofNat value =>
      rw [Int.ofNat_eq_natCast] at upper
      exact .binary_of_primary (.literal_primary rfl (Literal.read_int (by omega))) rfl
        (ends_cons (by decide))
    | negSucc value =>
      have unary := Takes.negative_unary span (n := n) (m := value)
        (k := Frontend.spelled .rparen :: k) (by omega) (by simp [chainers])
      exact (unary.coerced (by simp)).binary rfl
  | uint value =>
    exact .binary_of_primary (.literal_primary rfl (Literal.read_uint spelled)) rfl
      (ends_cons (by decide))
  | bool value =>
    exact .binary_of_primary (.literal_primary rfl (Literal.read_bool value)) rfl
      (ends_cons (by decide))
  | string text =>
    exact .binary_of_primary (.literal_primary rfl (Literal.read_string text)) rfl
      (ends_cons (by decide))
  | float => exact spelled.elim

theorem legible_variable {name : String} : (Expr.mk span (.variable name)).Legible := by
  refine ⟨fun k => begins_cons (by decide), fun n k => ?_⟩
  refine .binary_of_primary ?_ rfl (ends_cons (by decide))
  refine .after .kind fun kind here => ?_
  obtain rfl : kind = .ident := here
  refine .after (.kindAt 1) fun after here => ?_
  obtain rfl : after = .rparen := here
  rw [if_neg (by decide)]
  refine .first (.expect rfl) fun t word => .pure ?_
  rw [text_of_word word]
  rfl

end Atoms

section Lists

section Arrays

variable {X : Type} {spelling : X → Spelling} {value : X → Expr} {items : List X}

/-- Items are read as the elements of an array, each in front of what is left of them. -/
def ReadAsElements (n : Nat) (spelling : X → Spelling) (value : X → Expr) (items : List X)
    (o : List Word) : Prop :=
  ∀ x more, x :: more <:+ items →
    headKind (spelling x (behindCommas (more.map spelling) o)) ∉ [.newline, .fatArrow, .rbracket] ∧
      Takes n (below n).expr (spelling x (behindCommas (more.map spelling) o))
        (behindCommas (more.map spelling) o) fun e => e.bare = (value x).bare

theorem behindCommas_ne {items : List Spelling} {kind : Kind} (close : headKind o ≠ kind)
    (comma : kind ≠ .comma) : headKind (behindCommas items o) ≠ kind := by
  cases items with
  | nil => exact close
  | cons item items => exact Ne.symm comma

/-- The elements of an array behind the first one. -/
theorem Reads.arrayRest {first : Expr}
    (read : ReadAsElements n spelling value items (spelled .rbracket :: k)) :
    Reads n (arrayRest (below n) first)
      (behindCommas (items.map spelling) (spelled .rbracket :: k)) (spelled .rbracket :: k)
      fun elems => elems.map Expr.bare = first.bare :: items.map (value · |>.bare) := by
  refine (Reads.iterate_suffixes Expr.bare (value · |>.bare)
    (fun items => behindCommas (items.map spelling) (spelled .rbracket :: k))
    (fun before => ?_) (fun x more before suffix => ?_) [first]).mono
    fun all same => by simpa using same
  · refine (Reads.ate_other (by simp [behindCommas])).bind fun comma none => ?_
    rw [none]
    exact .pure rfl
  · obtain ⟨begins, takes⟩ := read x more suffix
    simp only [List.mem_cons, List.not_mem_nil, or_false, not_or] at begins
    refine (Takes.ate rfl).bind fun comma there => ?_
    rw [there]
    refine (Reads.skipNewlines begins.1).bind fun _ _ => ?_
    refine Reads.kind.bind fun kind here => ?_
    rw [if_neg (by rw [here]; exact begins.2.2)]
    refine takes.reads.bind fun e same => ?_
    have plain : headKind (behindCommas (more.map spelling) (spelled .rbracket :: k)) ≠ .newline :=
      behindCommas_ne (by simp) (by decide)
    exact (Reads.skipNewlines plain).bind fun _ _ => .pure ⟨e, rfl, same⟩

/-- An array of some elements. -/
theorem Takes.array (some : items ≠ [])
    (read : ReadAsElements n spelling value items (spelled .rbracket :: k)) :
    Takes (n + 1) (arrayOrDict (below n))
      (spelled .lbracket :: listed (items.map spelling) (spelled .rbracket :: k)) k
      fun e => ∃ span elems, e = ⟨span, .array elems⟩ ∧
        elems.map Expr.bare = items.map (value · |>.bare) := by
  refine .first .next fun opening _ => ?_
  obtain ⟨x, items, rfl⟩ := List.exists_cons_of_ne_nil some
  obtain ⟨begins, takes⟩ := read x items (List.suffix_refl _)
  have rest : ReadAsElements n spelling value items (spelled .rbracket :: k) :=
    fun y more suffix => read y more (suffix.trans (List.suffix_cons x items))
  simp only [List.mem_cons, List.not_mem_nil, or_false, not_or] at begins
  refine (Reads.skipNewlines begins.1).bind fun _ _ => ?_
  refine (Reads.ate_other begins.2.1).bind fun arrow none => ?_
  rw [none]
  refine (Reads.eat_other begins.2.2).bind fun found none => ?_
  rw [none]
  refine Reads.bind (m := spelled .rbracket :: k)
    (P := fun form => ∃ elems, form = .array elems ∧
      elems.map Expr.bare = (x :: items).map (value · |>.bare)) ?_ ?_
  · refine takes.reads.bind fun first first_same => ?_
    refine (Reads.skipNewlines (behindCommas_ne (by simp) (by decide))).bind fun _ _ => ?_
    refine (Reads.ate_other (behindCommas_ne (by simp) (by decide))).bind fun arrow none => ?_
    rw [none]
    refine (Reads.arrayRest rest).bind fun elems same => .pure ⟨elems, rfl, ?_⟩
    rw [same, first_same, List.map_cons]
  · rintro form ⟨elems, rfl, same⟩
    refine (Reads.skipNewlines (by simp)).bind fun _ _ => ?_
    exact (Takes.expect rfl).reads.bind fun close _ => .pure ⟨_, elems, rfl, same⟩

end Arrays

/-- The pairs of a dictionary behind the first one. -/
theorem Reads.dictRest {first : Expr × Expr} {pairs : List (Expr × Expr)}
    (keys_legible : ∀ kv ∈ pairs, kv.1.Legible) (values_legible : ∀ kv ∈ pairs, kv.2.Legible) :
    Reads n (dictRest (below n) first)
      (behindCommas (pairs.map Expr.pairItem) (spelled .rbracket :: k)) (spelled .rbracket :: k)
      fun pairs' => pairs'.map (Prod.map Expr.bare Expr.bare) =
        Prod.map Expr.bare Expr.bare first :: pairs.map (Prod.map Expr.bare Expr.bare) := by
  refine (Reads.iterate_list (Prod.map Expr.bare Expr.bare)
    (Prod.map Expr.bare Expr.bare)
    (fun pairs => behindCommas (pairs.map Expr.pairItem) (spelled .rbracket :: k))
    (fun before => ?_) (fun kv mem more before => ?_) [first]).mono
    fun all same => by simpa using same
  · refine (Reads.ate_other (by simp [behindCommas])).bind fun comma none => ?_
    rw [none]
    exact .pure rfl
  · refine (Takes.ate rfl).bind fun comma there => ?_
    rw [there]
    refine (Reads.skipNewlines (by simp [Expr.pairItem, Expr.words, parens])).bind fun _ _ => ?_
    refine Reads.kind.bind fun kind here => ?_
    rw [if_neg (by rw [here]; simp [Expr.pairItem, Expr.words, parens])]
    have follows := follows_behindCommas (o := spelled .rbracket :: k) (more.map Expr.pairItem)
    refine (Takes.below_expr (keys_legible kv mem) (ends_cons (by decide))).reads.bind
      fun key key_same => ?_
    refine (Reads.skipNewlines (by simp)).bind fun _ _ => (Takes.expect rfl).reads.bind
      fun _ _ => ?_
    refine (Reads.skipNewlines (by simp [Expr.words, parens])).bind fun _ _ => ?_
    refine (Takes.below_expr (values_legible kv mem)
      (follows.ends (ends_cons (by decide)))).reads.bind ?_
    refine fun value value_same => ?_
    have plain : headKind (behindCommas (more.map Expr.pairItem) (spelled .rbracket :: k)) ≠
        .newline := by
      cases more <;> simp [behindCommas]
    refine (Reads.skipNewlines plain).bind fun _ _ => .pure ⟨(key, value), rfl, ?_⟩
    simp [Prod.map, key_same, value_same]

theorem legible_array {elems : List Expr} (legible : ∀ e ∈ elems, e.Legible) :
    (Expr.mk span (.array elems)).Legible := by
  refine ⟨fun k => begins_cons (by decide), fun n k => ?_⟩
  refine .binary_of_primary ?_ rfl (ends_cons (by decide))
  rw [Expr.inner, Expr.items_eq]
  refine .after .kind fun kind here => ?_
  obtain rfl : kind = .lbracket := here
  cases elems with
  | nil =>
    refine .first .next fun opening _ => ?_
    refine (Reads.skipNewlines (by simp [listed])).bind fun _ _ => ?_
    refine (Reads.ate_other (by simp [listed])).bind fun arrow none => ?_
    rw [none]
    refine (Takes.eat rfl).reads.bind ?_
    rintro found ⟨close, there, _⟩
    rw [there]
    exact .pure rfl
  | cons e elems =>
    have read : ReadAsElements n Expr.words id (e :: elems)
        (spelled .rbracket :: spelled .rparen :: k) := by
      intro e more suffix
      have follows := follows_behindCommas (o := spelled .rbracket :: spelled .rparen :: k)
        (more.map Expr.words)
      exact ⟨by simp [Expr.words, parens],
        .below_expr (legible e (suffix.subset List.mem_cons_self))
          (follows.ends (ends_cons (by decide)))⟩
    refine (Takes.array (List.cons_ne_nil e elems) read).mono ?_
    rintro _ ⟨span, elems', rfl, same⟩
    simpa [Expr.bare] using same

theorem inner_dict_cons {pair : Expr × Expr} {pairs : List (Expr × Expr)} :
    (Expr.mk span (.dict (pair :: pairs))).inner k = spelled .lbracket ::
      pair.1.words (spelled .fatArrow :: pair.2.words
        (behindCommas (pairs.map Expr.pairItem) (spelled .rbracket :: k))) := by
  rw [Expr.inner, Expr.pairItems_eq]
  · rfl
  · intro eq
    cases eq

theorem legible_dict {pairs : List (Expr × Expr)} (keys_legible : ∀ kv ∈ pairs, kv.1.Legible)
    (values_legible : ∀ kv ∈ pairs, kv.2.Legible) : (Expr.mk span (.dict pairs)).Legible := by
  cases pairs with
  | nil =>
    refine ⟨fun k => begins_cons (by decide), fun n k => ?_⟩
    refine .binary_of_primary ?_ rfl (ends_cons (by decide))
    refine .after .kind fun kind here => ?_
    obtain rfl : kind = .lbracket := here
    refine .first .next fun opening _ => ?_
    refine (Reads.skipNewlines (by simp)).bind fun _ _ => (Takes.ate rfl).reads.bind ?_
    refine fun arrow there => ?_
    rw [there]
    refine (Reads.skipNewlines (by simp)).bind fun _ _ => ?_
    exact (Takes.expect rfl).reads.bind fun close _ => .pure rfl
  | cons pair pairs =>
    obtain ⟨key_legible, keys_legible⟩ := List.forall_mem_cons.mp keys_legible
    obtain ⟨value_legible, values_legible⟩ := List.forall_mem_cons.mp values_legible
    refine ⟨fun k => inner_dict_cons ▸ begins_cons (by decide), fun n k => ?_⟩
    refine .binary_of_primary ?_ rfl (ends_cons (by decide))
    rw [inner_dict_cons]
    have ends : Ends (behindCommas (pairs.map Expr.pairItem)
        (spelled .rbracket :: spelled .rparen :: k)) :=
      (follows_behindCommas _).ends (ends_cons (by decide))
    refine .after .kind fun kind here => ?_
    obtain rfl : kind = .lbracket := here
    refine .first .next fun opening _ => ?_
    refine (Reads.skipNewlines (by simp [Expr.words, parens])).bind fun _ _ => ?_
    refine (Reads.ate_other (by simp [Expr.words, parens])).bind fun arrow none => ?_
    rw [none]
    refine (Reads.eat_other (by simp [Expr.words, parens])).bind fun found none => ?_
    rw [none]
    refine Reads.bind (m := spelled .rbracket :: spelled .rparen :: k)
      (P := fun form => ∃ pairs', form = .dict pairs' ∧
        pairs'.map (Prod.map Expr.bare Expr.bare) =
          (pair :: pairs).map (Prod.map Expr.bare Expr.bare)) ?_ ?_
    · refine (Takes.below_expr key_legible (ends_cons (by decide))).reads.bind
        fun key key_same => ?_
      refine (Reads.skipNewlines (by simp)).bind fun _ _ => (Takes.ate rfl).reads.bind ?_
      refine fun arrow there => ?_
      rw [there]
      refine (Reads.skipNewlines (by simp [Expr.words, parens])).bind fun _ _ => ?_
      refine (Takes.below_expr value_legible ends).reads.bind fun value value_same => ?_
      refine (Reads.dictRest keys_legible values_legible).bind fun pairs' same => ?_
      refine .pure ⟨pairs', rfl, ?_⟩
      rw [same, List.map_cons, Prod.map, Prod.map, key_same, value_same]
    · rintro form ⟨pairs', rfl, same⟩
      refine (Reads.skipNewlines (by simp)).bind fun _ _ => ?_
      refine (Takes.expect rfl).reads.bind fun close _ => .pure ?_
      simp [Expr.bare, same]

end Lists

section Operators

theorem legible_unary {op : UnaryOp} {operand : Expr} (legible : operand.Legible) :
    (Expr.mk span (.unary op operand)).Legible := by
  have starts : ∀ k, Begins (spelled op.kind :: k) := by
    intro k
    cases op <;> exact begins_cons (by decide)
  refine ⟨fun k => starts _, fun n k => ?_⟩
  have prefixed : ∀ op, Takes (n + 1) (prefixed (below n) op)
      ((Expr.mk span (.unary op operand)).inner (spelled .rparen :: k)) (spelled .rparen :: k)
      fun e => e.bare = (Expr.mk span (.unary op operand)).bare := by
    refine fun op => .first .next fun t _ => ?_
    refine (Takes.below_unary legible (ends_cons (by decide))).reads.bind
      fun operand' same => .pure ?_
    simp [Expr.bare, same]
  have unary : Takes (n + 1) (Grammar.unary (below n))
      ((Expr.mk span (.unary op operand)).inner (spelled .rparen :: k)) (spelled .rparen :: k)
      fun e => e.bare = (Expr.mk span (.unary op operand)).bare := by
    refine .after .kind fun kind here => ?_
    cases op with
    | neg =>
      obtain rfl : kind = .minus := here
      refine .after (m := (Expr.mk span (.unary .neg operand)).inner (spelled .rparen :: k))
        (P := (· = false)) ?_ fun ahead none => ?_
      · refine (Reads.kindAt 1).bind fun kind here => ?_
        obtain rfl : kind = .lparen := here
        exact .pure rfl
      · rw [none]
        exact prefixed .neg
    | pos =>
      obtain rfl : kind = .plus := here
      exact prefixed .pos
    | not =>
      obtain rfl : kind = .not := here
      exact prefixed .not
  exact (unary.coerced (by simp)).binary rfl

theorem binaryOp?_kind (op : BinaryOp) : ∃ p, 1 ≤ p ∧ binaryOp? op.kind = some (op, p) := by
  cases op <;> exact ⟨_, by decide, rfl⟩

theorem kind_binaryOp (op : BinaryOp) : op.kind ∉ chainers ∧ op.kind ≠ .asWord := by
  cases op <;> decide

theorem legible_binary {op : BinaryOp} {lhs rhs : Expr} (lhs_legible : lhs.Legible)
    (rhs_legible : rhs.Legible) : (Expr.mk span (.binary op lhs rhs)).Legible := by
  refine ⟨fun k => begins_cons (by decide), fun n k => ?_⟩
  obtain ⟨p, binds, found⟩ := binaryOp?_kind op
  have words : (Expr.mk span (.binary op lhs rhs)).inner (spelled .rparen :: k) =
      lhs.words (spelled op.kind :: rhs.words (spelled .rparen :: k)) := rfl
  rw [words]
  have first : Takes (n + 1) (Grammar.coerced (below n))
      (lhs.words (spelled op.kind :: rhs.words (spelled .rparen :: k)))
      (spelled op.kind :: rhs.words (spelled .rparen :: k)) fun e => e.bare = lhs.bare :=
    (((Takes.primary (k := spelled op.kind :: _) lhs_legible).chained
      (kind_binaryOp op).1).unary rfl).coerced (kind_binaryOp op).2
  refine .first first fun lhs' lhs_same => Takes.reads (.iterate_again
    (m := spelled .rparen :: k)
    (fun e => e.bare = (Expr.mk span (.binary op lhs rhs)).bare) ?_ fun e same => ?_)
  · refine .after .kind fun kind here => ?_
    obtain rfl : kind = op.kind := here
    rw [found]
    dsimp only
    rw [if_neg (show ¬ p < 1 by omega)]
    refine Takes.next.bind fun _ _ => ?_
    refine (Reads.skipNewlines (by simp [Expr.words, parens])).bind fun _ _ => ?_
    refine (Takes.below_binary rhs_legible (ends_cons (by decide))).reads.bind
      fun rhs' rhs_same => .pure ?_
    exact ⟨_, rfl, by simp [Expr.bare, lhs_same, rhs_same]⟩
  · refine .iterate_done (Reads.kind.bind fun kind here => ?_)
    obtain rfl : kind = .rparen := here
    exact .pure ⟨e, rfl, same⟩

/-- An expression that is taken as a type. -/
theorem legible_coerce {value : Expr} {type : TypeExpr} (value_legible : value.Legible)
    (type_legible : type.Legible) : (Expr.mk span (.coerce value type)).Legible := by
  refine ⟨fun k => begins_cons (by decide), fun n k => ?_⟩
  have words : (Expr.mk span (.coerce value type)).inner (spelled .rparen :: k) =
      value.words (spelled .asWord :: type.words (spelled .rparen :: k)) := rfl
  rw [words]
  have operand : Takes (n + 1) (Grammar.unary (below n))
      (value.words (spelled .asWord :: type.words (spelled .rparen :: k)))
      (spelled .asWord :: type.words (spelled .rparen :: k)) fun e => e.bare = value.bare :=
    ((Takes.primary value_legible).chained (by simp [chainers])).unary rfl
  refine Takes.binary (.first operand fun value' value_same => Takes.reads (.iterate_again
    (m := spelled .rparen :: k)
    (fun e => e.bare = (Expr.mk span (.coerce value type)).bare) ?_ fun e same => ?_)) rfl
  · refine (Takes.ate rfl).bind fun word there => ?_
    rw [there]
    refine (Takes.below_type type_legible (ends_cons (by decide))).reads.bind
      fun type' type_same => .pure ?_
    exact ⟨_, rfl, by simp [Expr.bare, value_same, type_same]⟩
  · refine .iterate_done ((Reads.ate_other (by simp)).bind fun word none => ?_)
    rw [none]
    exact .pure ⟨e, rfl, same⟩

end Operators

section Braces

theorem Reads.literalFields {fields : List (String × Expr)} (legible : ∀ f ∈ fields, f.2.Legible)
    (sort : Bool) (agree : ∀ f ∈ fields, f.1 = "_" ↔ sort = true) :
    Reads n (Parser.closedList .rbrace (literalField (below n)))
      (listed (fields.map Expr.fieldItem) (spelled .rbrace :: k)) (spelled .rbrace :: k)
      fun fields' => fields'.map (Prod.map id Expr.bare) = fields.map (Prod.map id Expr.bare) := by
  refine .closedList_of (fun before => ∀ f ∈ before, f.1 = "_" ↔ sort = true)
    (by simp) rfl (by decide) (by decide) (fun f mem before known k follows => ?_)
    fun f _ k => begins_cons (by decide)
  have begins : Begins (f.2.words k) := (begins_cons (by decide))
  refine (Takes.field (fun g g_mem => (known g g_mem).trans (agree f mem).symm) begins
    (.below_expr (legible f mem) (follows.ends (ends_cons (by decide))))).mono
    fun f' ⟨name, same⟩ => ⟨?_, ?_⟩
  · simp [Prod.map, name, same]
  · refine List.forall_mem_cons.mpr ⟨?_, known⟩
    rw [name]
    exact agree f mem

/-- Fields in braces, with a name in front or without, which have names all together or none at
all. -/
theorem Takes.recordOrTuple {name : Option String} {fields : List (String × Expr)}
    (legible : ∀ f ∈ fields, f.2.Legible) (sort : Bool)
    (agree : ∀ f ∈ fields, f.1 = "_" ↔ sort = true) :
    Takes (n + 1) (Grammar.primary (below n)) ((name.map ident).toList ++
      spelled .lbrace :: listed (fields.map Expr.fieldItem) (spelled .rbrace :: k)) k
      fun e => ∃ fields', e.form = (if areUnnamed fields then .tuple name (fields'.map (·.2))
        else .record name fields') ∧
        fields'.map (Prod.map id Expr.bare) = fields.map (Prod.map id Expr.bare) := by
  have list := Reads.literalFields (n := n) (k := k) legible sort agree
  refine .after .kind fun kind here => ?_
  cases name with
  | none =>
    obtain rfl : kind = .lbrace := here
    refine .after (.eat_other (by simp)) fun found none => ?_
    rw [none]
    refine .first (.expect rfl) fun opening _ => list.bind fun fields' same => ?_
    refine (Takes.expect rfl).reads.bind fun close _ => .pure ⟨fields', ?_, same⟩
    rw [areUnnamed_congr same]
    rfl
  | some name =>
    obtain rfl : kind = .ident := here
    refine .after (.kindAt 1) fun after here => ?_
    obtain rfl : after = .lbrace := here
    rw [if_pos rfl]
    refine .first (.eat rfl) fun found ⟨t, there, word⟩ => ?_
    rw [there]
    refine (Takes.expect rfl).reads.bind fun opening _ => list.bind fun fields' same => ?_
    refine (Takes.expect rfl).reads.bind fun close _ => .pure ⟨fields', ?_, same⟩
    rw [areUnnamed_congr same, Option.map_some, text_of_word word]

theorem begins_braces (name : Option String) :
    Begins ((name.map ident).toList ++ spelled .lbrace :: k) := by
  cases name <;> exact begins_cons (by decide)

theorem unaryOp?_braces (name : Option String) :
    unaryOp? (headKind ((name.map ident).toList ++ spelled .lbrace :: k)) = none := by
  cases name <;> rfl

theorem legible_record {name : Option String} {fields : List (String × Expr)}
    (named : ∀ f ∈ fields, f.1 ≠ "_") (legible : ∀ f ∈ fields, f.2.Legible) :
    (Expr.mk span (.record name fields)).Legible := by
  refine ⟨fun k => begins_braces name, fun n k => ?_⟩
  rw [Expr.inner, Expr.fieldItems_eq]
  refine .binary_of_primary ?_ (unaryOp?_braces name) (ends_cons (by decide))
  refine (Takes.recordOrTuple legible false (by simpa using named)).mono ?_
  rintro ⟨span', form⟩ ⟨fields', form_eq, same⟩
  rw [areUnnamed_of_named named] at form_eq
  obtain rfl : form = .record name fields' := form_eq
  simp [Expr.bare, same]

theorem unnamed_expr_items (elems : List Expr) :
    (Expr.items elems).map (fieldWords "_") = (unnamed elems).map Expr.fieldItem := by
  rw [Expr.items_eq, unnamed, List.map_map, List.map_map]
  rfl

theorem legible_tuple {name : Option String} {elems : List Expr} (some : elems ≠ [])
    (legible : ∀ e ∈ elems, e.Legible) : (Expr.mk span (.tuple name elems)).Legible := by
  refine ⟨fun k => begins_braces name, fun n k => ?_⟩
  rw [Expr.inner, unnamed_expr_items]
  refine .binary_of_primary ?_ (unaryOp?_braces name) (ends_cons (by decide))
  refine (Takes.recordOrTuple (by simpa [unnamed] using legible) true (by simp [unnamed])).mono ?_
  rintro ⟨span', form⟩ ⟨fields', form_eq, same⟩
  rw [areUnnamed_unnamed some] at form_eq
  obtain rfl : form = .tuple name (fields'.map (·.2)) := form_eq
  rw [Expr.bare, Expr.bare, Expr.bareAll_eq, Expr.bareAll_eq, map_of_unnamed same]

end Braces

section Accesses

/-- An access by index, in front of anything that does not go on with it. -/
theorem Takes.index (span : Span) {target index : Expr} (target_legible : target.Legible)
    (index_legible : index.Legible) (stop : headKind k ∉ chainers) :
    Takes (n + 1) (Grammar.chained (below n)) ((Expr.mk span (.index target index)).inner k) k
      fun e => e.bare = (Expr.mk span (.index target index)).bare := by
  refine .first (.primary target_legible) fun target' target_same => Takes.reads (.iterate_again
    (fun e => e.bare = (Expr.mk span (.index target index)).bare) ?_
    fun e same => (Reads.chain_end stop).mono fun _ eq => eq ▸ same)
  refine .after .kind fun kind here => ?_
  obtain rfl : kind = .lbracket := here
  refine Takes.bind (m := k) (P := fun e => e.bare = (Expr.mk span (.index target index)).bare)
    ?_ fun e same => .pure ⟨e, rfl, same⟩
  refine Takes.next.bind fun _ _ => (Reads.skipNewlines (by simp [parens])).bind fun _ _ => ?_
  refine (Takes.below_expr index_legible (ends_cons (by decide))).reads.bind
    fun index' index_same => ?_
  refine (Reads.skipNewlines (by simp)).bind fun _ _ => ?_
  refine (Takes.expect rfl).reads.bind fun close _ => .pure ?_
  simp [Expr.bare, target_same, index_same]

theorem legible_index {target index : Expr} (target_legible : target.Legible)
    (index_legible : index.Legible) : (Expr.mk span (.index target index)).Legible :=
  ⟨fun _ => begins_cons (by decide), fun _ _ => .binary_of_chained
    (.index _ target_legible index_legible (by simp [chainers])) rfl (ends_cons (by decide))⟩

theorem legible_field {target : Expr} {name : String} (target_legible : target.Legible) :
    (Expr.mk span (.field target name)).Legible := by
  refine ⟨fun k => begins_cons (by decide), fun n k => ?_⟩
  refine .binary_of_chained ?_ rfl (ends_cons (by decide))
  refine .first (.primary target_legible) fun target' target_same => Takes.reads (.iterate_again
    (m := spelled .rparen :: k)
    (fun e => e.bare = (Expr.mk span (.field target name)).bare) ?_
    fun e same => (Reads.chain_end (by simp [chainers])).mono fun _ eq => eq ▸ same)
  refine .after .kind fun kind here => ?_
  obtain rfl : kind = .dot := here
  refine Takes.bind (m := spelled .rparen :: k)
    (P := fun e => e.bare = (Expr.mk span (.field target name)).bare) ?_
    fun e same => .pure ⟨e, rfl, same⟩
  refine Takes.next.bind fun _ _ => (Takes.expect rfl).reads.bind fun t word => .pure ?_
  simp [Expr.bare, target_same, text_of_word word]

end Accesses

end Grammar

end Frontend
