import Frontend.Grammar.TypeExpr
import Frontend.Proofs.AlikeTypes
import Frontend.Proofs.LooseLists

/-!
Types are the same on looser streams, as long as what the rules yield that they call is. A type may
be the result of a function; then it ends where the head of the function does.
-/
namespace Frontend.Grammar

open Token (Kind)
open Frontend.Grammar.Parser Context

/-- The result of a function is read up to here, or to a name that no more of it follows. -/
def Head.Ends (h : Head) (k : Kind) : Prop :=
  h = .done ∨ h = .resultName ∧ k ≠ .colonColon ∧ k ≠ .lbrace

/-- Where a type stands: behind the colon of the result of a function, or anywhere else. -/
def Hosts (place : Head → Frame) : Prop :=
  place = .head ∨ ∃ f, (∀ h, f ≠ .head h) ∧ place = fun _ => f

/-- An operand, or a statement that begins with one, may begin here. -/
structure Starts (stack : List Frame) (ph : Phase) (v : View) : Prop where
  plain : Plain stack
  clear : Clear ph v
  other : ph ≠ .case
  /-- Behind an operand it begins on the same line only if it does not go on with the operand. -/
  apart : ph.isEnd = true → stack.head? = some .block ∧ binaryOp? (v 0).1 = none

/-- Rules that yield the same on looser streams. -/
structure Rules.Match (gap : ℤ) (rules rules' : Rules) : Prop where
  binary : ∀ (power) {stack ph v}, Starts stack ph v →
    Matches gap ⟨stack, ph⟩ v (rules.binary power) (rules'.binary power) fun e e' y w =>
      e.bare = e'.bare ∧ Stays stack Phase.isEnd y ∧
        ∀ op p, binaryOp? (w 0).1 = some (op, p) → p < power
  unary : ∀ {stack ph v}, Starts stack ph v →
    Matches gap ⟨stack, ph⟩ v rules.unary rules'.unary fun e e' y _ =>
      e.bare = e'.bare ∧ Stays stack Phase.isEnd y
  typeExpr : ∀ {place stack ph v}, Hosts place → Clear ph v → ph ≠ .case →
    Matches gap ⟨place .result :: stack, ph⟩ v rules.typeExpr rules'.typeExpr fun t t' y w =>
      t.bare = t'.bare ∧ ∃ h, h.Ends (w 0).1 ∧ Stays (place h :: stack) Phase.isEnd y
  pattern : ∀ {stack ph v}, Plain stack → Clear ph v → ph ≠ .case →
    ph.isEnd = false →
    Matches gap ⟨stack, ph⟩ v rules.pattern rules'.pattern fun p p' y _ =>
      p.bare = p'.bare ∧ Stays stack Phase.isEnd y
  destructuring : ∀ {stack ph v}, Plain stack → Clear ph v → ph ≠ .case →
    Matches gap ⟨stack, ph⟩ v rules.destructuring rules'.destructuring fun d d' y _ =>
      d.bare = d'.bare ∧ Stays stack Phase.isEnd y
  statement : ∀ {stack ph v}, Starts (.block :: stack) ph v →
    Matches gap ⟨.block :: stack, ph⟩ v rules.statement rules'.statement fun s s' y _ =>
      s.bare = s'.bare ∧ Stays (.block :: stack) Phase.isQuiet y

variable {gap : ℤ} {rules rules' : Rules} {stack : List Frame} {ph : Phase} {v : View}
  {place : Head → Frame} {f : Frame}

section Places

variable {h h' : Head} {t : Token}

theorem Hosts.other (other : ∀ h, f ≠ .head h) : Hosts fun _ => f := .inr ⟨f, other, rfl⟩

/-- A token that belongs to a type is one that the head of a function goes on with. -/
theorem Hosts.step (hosts : Hosts place) (next : h.next t = some h') :
    (⟨place h :: stack, ph⟩ : Context).step t =
      (⟨place h' :: stack, ph⟩ : Context).take t.kind := by
  obtain rfl | ⟨f, other, rfl⟩ := hosts
  · simp only [Context.step, next]
  · exact step_plain (.cons other)

end Places

/-- A name may be all of a result, but a type variable always is. -/
theorem Head.next_result_ident (text : String) (span : Span) :
    Head.result.next ⟨.ident, text, span⟩ =
      some (if text.toList.head? = some '\'' then done else resultName) :=
  (apply_ite some _ _ _).symm

theorem phase_ident : ((⟨stack, ph⟩ : Context).phaseAfter .ident).isEnd = true := by
  simp only [phaseAfter]
  split <;> rfl

theorem stays_ident (stack : List Frame) (ph : Phase) :
    Stays stack Phase.isEnd ((⟨stack, ph⟩ : Context).take .ident) :=
  ⟨_, rfl, phase_ident⟩

/-- An operand may begin where something has to follow, behind the line ends there. -/
theorem Plain.starts_open (plain : Plain stack) (opened : ph.isOpen = true) (level : v.Level) :
    Starts stack ph v where
  plain := plain
  clear := .inr level
  other := Phase.ne_case_of_isOpen opened
  apart ended := by simp [Phase.isEnd_of_isOpen opened] at ended

/-- Behind an opening bracket or a comma in brackets an operand may begin. -/
theorem Inside.starts {close : Kind} (inside : Inside close stack f) (opened : ph.isOpen = true)
    (same : (v 0).1 = (v 0).2) : Starts (f :: stack) ph v :=
  inside.plain.starts_open opened (.inl same)

/-- An operand may begin where one is due. -/
theorem Inside.starts_fresh {close : Kind} (inside : Inside close stack f)
    (rests : (⟨f :: stack, .fresh⟩ : Context).Rests ph) (same : (v 0).1 = (v 0).2) :
    Starts (f :: stack) ph v where
  plain := inside.plain
  clear := .of_eq same
  other := Phase.ne_case_of_isQuiet (rests.isQuiet rfl)
  apart ended := absurd ended (rests.begins rfl)

namespace Matches

variable {γ δ : Type} {final : γ → δ → Context → View → Prop} {kind : Kind} {h : Head}
  {g : String → Head}

/-- Both runs take the token that a type has to go on with. -/
theorem expect_place {what : String} {k : Token → Parser γ} {l : Token → Parser δ}
    (hosts : Hosts place) (clear : Clear ph v) (accepts : ph ≠ .case ∨ kind = .ident)
    (solid : isSolid kind = true) (pause : isPause kind = false)
    (next : ∀ text span, h.next ⟨kind, text, span⟩ = some (g text))
    (then_ : ∀ text span span', Matches gap ((⟨place (g text) :: stack, ph⟩ : Context).take kind)
      v.tail (k ⟨kind, text, span⟩) (l ⟨kind, text, span'⟩) final) :
    Matches gap ⟨place h :: stack, ph⟩ v (expect kind what >>= k) (expect kind what >>= l)
      final := by
  apply Matches.level clear
  intro level
  apply Matches.expect_step (level.agree pause).mp solid accepts
  rintro ⟨_, text, span⟩ ⟨_, _, span'⟩ same rfl
  obtain ⟨rfl, rfl⟩ := Prod.mk.inj same
  rw [hosts.step (next text span)]
  exact then_ text span span'

/-- Both runs take the token that is next in a type. -/
theorem next_place {k : Token → Parser γ} {l : Token → Parser δ} (hosts : Hosts place)
    (shown : v 0 = (kind, kind)) (other : ph ≠ .case) (solid : isSolid kind = true)
    (next : ∀ text span, h.next ⟨kind, text, span⟩ = some (g text))
    (then_ : ∀ t u text, Matches gap ((⟨place (g text) :: stack, ph⟩ : Context).take kind)
      v.tail (k t) (l u) final) :
    Matches gap ⟨place h :: stack, ph⟩ v (Parser.next >>= k) (Parser.next >>= l) final := by
  apply Matches.next_step shown solid (.inl other)
  rintro ⟨_, text, span⟩ u _ rfl
  rw [hosts.step (next text span)]
  exact then_ _ _ text

/-- Both runs take a name. -/
theorem name_bind {what : String} {k : Token → Parser γ} {l : Token → Parser δ}
    (plain : Plain stack) (clear : Clear ph v)
    (then_ : ∀ name name' ph', name.text = name'.text → ph'.isEnd = true →
      Matches gap ⟨stack, ph'⟩ v.tail (k name) (l name') final) :
    Matches gap ⟨stack, ph⟩ v (expectIdent what >>= k) (expectIdent what >>= l) final := by
  apply expect_clear plain clear (.inr rfl) rfl rfl
  intro name name' same
  obtain ⟨ph', took, ended⟩ := stays_ident stack ph
  rw [took]
  exact then_ name name' ph' (congrArg Prod.snd same) ended

/-- Both runs take the colon behind a name inside of brackets, and skip line ends. -/
theorem colon_bind {close : Kind} {what : String} {k : Unit → Parser γ} {l : Unit → Parser δ}
    (inside : Inside close stack f) (ended : ph.isEnd = true)
    (then_ : ∀ ph' w, (⟨f :: stack, .fresh⟩ : Context).Rests ph' → (w 0).1 = (w 0).2 →
      Matches gap ⟨f :: stack, ph'⟩ w (k ()) (l ()) final) :
    Matches gap ⟨f :: stack, ph⟩ v (expect .colon what >>= fun _ => skipNewlines >>= k)
      (expect .colon what >>= fun _ => skipNewlines >>= l) final := by
  have quiet := Phase.isQuiet_of_isEnd ended
  apply expect_clear inside.plain (.of_isQuiet quiet) (.inl (Phase.ne_case_of_isQuiet quiet)) rfl rfl
  intro _ _ _
  exact skipInside_bind inside (by nofun) then_

end Matches

/-- A type in brackets. -/
theorem Rules.Match.typeInside (free : rules.Match gap rules') {close : Kind}
    (inside : Inside close stack f) (clear : Clear ph v) (other : ph ≠ .case) :
    Matches gap ⟨f :: stack, ph⟩ v rules.typeExpr rules'.typeExpr fun t t' y _ =>
      t.bare = t'.bare ∧ Stays (f :: stack) Phase.isEnd y := by
  have plain : ∀ h, f ≠ .head h := by
    rintro h rfl
    cases inside.1
  refine (free.typeExpr (.other plain) clear other).mono ?_
  rintro t t' y w ⟨same, h, -, stays⟩
  exact ⟨same, stays⟩

theorem matches_namedType (free : rules.Match gap rules') (hosts : Hosts place) (clear : Clear ph v)
    (other : ph ≠ .case) :
    Matches gap ⟨place .result :: stack, ph⟩ v (namedType rules) (namedType rules') fun t t' y w =>
      t.bare = t'.bare ∧ ∃ h, h.Ends (w 0).1 ∧ Stays (place h :: stack) Phase.isEnd y := by
  apply Matches.expect_place hosts clear (.inl other) rfl rfl Head.next_result_ident
  intro text span span'
  apply Matches.ite Iff.rfl
  · intro variable_
    apply Matches.pure
    rw [if_pos variable_]
    exact ⟨rfl, .done, .inl rfl, stays_ident _ _⟩
  intro constant
  rw [if_neg constant]
  obtain ⟨ph, took, ended⟩ := stays_ident (place .resultName :: stack) ph
  rw [took]
  have quiet := Phase.isQuiet_of_isEnd ended
  have other := Phase.ne_case_of_isQuiet quiet
  apply Matches.kind_cases (.of_isQuiet quiet)
  · intro k shown
    split
    · apply Matches.next_place (g := fun _ => .resultCase) hosts shown other rfl (fun _ _ => rfl)
      intro _ _ _
      apply Matches.expect_place (g := fun _ => .done) hosts (.inl (by constructor <;> nofun))
        (.inr rfl) rfl rfl (fun _ _ => rfl)
      intro member _ _
      apply Matches.pure
      exact ⟨rfl, .done, .inl rfl, stays_ident _ _⟩
    · apply Matches.next_place (g := fun _ => .done) hosts shown other rfl (fun _ _ => rfl)
      intro _ _ _
      have inside : Inside .rbrace (place .done :: stack) .braces := ⟨rfl, nofun⟩
      apply (Matches.closedList inside fun _ _ _ _ _ _ inside opened same =>
        free.typeInside inside (.of_eq same) (Phase.ne_case_of_isOpen opened)).bind
      rintro args args' _ w ⟨args_eq, same, f, ph, rfl, inside, other⟩
      apply Matches.close_bind inside same other
      intro _ _
      apply Matches.pure
      exact ⟨by simp [TypeExpr.bare, args_eq], .done, .inl rfl, .ended, rfl, rfl⟩
    · apply Matches.pure
      refine ⟨rfl, .resultName, .inr ⟨rfl, ?_, ?_⟩, ph, rfl, ended⟩ <;> simp_all
  · intro i j shown pause pause'
    split
    · cases pause
    · cases pause
    · split
      · cases pause'
      · cases pause'
      · apply Matches.pure
        refine ⟨rfl, .resultName, .inr ⟨rfl, ?_, ?_⟩, ph, rfl, ended⟩ <;> simp_all

theorem matches_checkFieldName {α γ : Type} {x : Context} {show_ : α → γ}
    {fields fields' : List (String × α)} {form : FieldSyntax} {name name' : Token}
    (same : fields.map (Prod.map id show_) = fields'.map (Prod.map id show_))
    (text : name.text = name'.text) :
    Matches gap x v (checkFieldName form fields name) (checkFieldName form fields' name')
      fun _ _ y w => y = x ∧ w = v := by
  have last := congrArg (Option.map Prod.fst) (congrArg List.getLast? same)
  simp only [List.getLast?_map, Option.map_map] at last
  unfold checkFieldName
  cases found : fields.getLast? with
  | none =>
    rw [found] at last
    rw [Option.map_eq_none_iff.mp last.symm]
    exact .pure ⟨rfl, rfl⟩
  | some field =>
    rw [found] at last
    obtain ⟨⟨first', _⟩, found', first_eq⟩ := Option.map_eq_some_iff.mp last.symm
    obtain ⟨first, _⟩ := field
    obtain rfl : first' = first := first_eq
    rw [found']
    apply Matches.ite (by rw [text])
    · intro _
      exact .fail
    intro _
    apply Matches.ite (by rw [text])
    · intro _
      exact .fail
    · intro _
      exact .pure ⟨rfl, rfl⟩

theorem matches_typeField (free : rules.Match gap rules')
    {fields fields' : List (String × TypeExpr)}
    (same : fields.map (Prod.map id TypeExpr.bare) = fields'.map (Prod.map id TypeExpr.bare))
    (inside : Inside .rbrace stack f) (level : (v 0).1 = (v 0).2) :
    Matches gap ⟨f :: stack, ph⟩ v (typeField rules fields) (typeField rules' fields')
      fun a b y _ => Prod.map id TypeExpr.bare a = Prod.map id TypeExpr.bare b ∧
        Stays (f :: stack) Phase.isEnd y := by
  apply Matches.name_bind inside.plain (.of_eq level)
  intro name name' ph text ended
  apply (matches_checkFieldName same text).bind
  rintro _ _ _ _ ⟨rfl, rfl⟩
  apply Matches.colon_bind inside ended
  intro ph w rests level
  apply (free.typeInside inside (.of_eq level) (Phase.ne_case_of_isQuiet (rests.isQuiet rfl))).bind
  rintro type type' y w ⟨type_eq, stays⟩
  apply Matches.pure
  exact ⟨by simp [type_eq, text], stays⟩

theorem matches_recordOrTupleType (free : rules.Match gap rules') (hosts : Hosts place)
    (clear : Clear ph v) (other : ph ≠ .case) :
    Matches gap ⟨place .result :: stack, ph⟩ v (recordOrTupleType rules) (recordOrTupleType rules')
      fun t t' y _ => t.bare = t'.bare ∧ Stays (place .done :: stack) Phase.isEnd y := by
  apply Matches.expect_place (g := fun _ => .done) hosts clear (.inl other) rfl rfl (fun _ _ => rfl)
  intro _ _ _
  have inside : Inside .rbrace (place .done :: stack) .braces := ⟨rfl, nofun⟩
  apply (Matches.closedList inside fun _ _ _ _ _ same inside _ level =>
    matches_typeField free same inside level).bind
  rintro fields fields' _ w ⟨same, level, f, ph, rfl, inside, other⟩
  apply Matches.close_bind inside level other
  intro _ _
  apply Matches.pure
  refine ⟨?_, .ended, rfl, rfl⟩
  rw [areUnnamed_eq (names_eq same)]
  by_cases unnamed : areUnnamed fields' = true
  · simp only [if_pos unnamed, TypeExpr.bare, TypeExpr.bareAll_eq, contents_eq same]
  · simp only [if_neg unnamed, TypeExpr.bare, TypeExpr.bareFields_eq, same]

theorem matches_functionType (free : rules.Match gap rules') (hosts : Hosts place)
    (shown : v 0 = (.lparen, .lparen)) (other : ph ≠ .case) :
    Matches gap ⟨place .result :: stack, ph⟩ v (functionType rules) (functionType rules')
      fun t t' y w => t.bare = t'.bare ∧
        ∃ h, h.Ends (w 0).1 ∧ Stays (place h :: stack) Phase.isEnd y := by
  apply Matches.next_place (g := fun _ => .resultArrow) hosts shown other rfl (fun _ _ => rfl)
  intro _ _ _
  have inside : Inside .rparen (place .resultArrow :: stack) .parens := ⟨rfl, nofun⟩
  apply (Matches.closedList inside fun _ _ _ _ _ _ inside opened same =>
    free.typeInside inside (.of_eq same) (Phase.ne_case_of_isOpen opened)).bind
  rintro params params' _ w ⟨params_eq, same, f, ph, rfl, inside, other⟩
  apply Matches.close_bind inside same other
  intro _ _
  apply Matches.expect_place (g := fun _ => .result) hosts (.of_isQuiet (by rfl))
    (.inl (by nofun)) rfl rfl (fun _ _ => rfl)
  intro _ _ _
  apply (free.typeExpr hosts (.of_isQuiet (by rfl)) (by nofun)).bind
  rintro result result' y w ⟨result_eq, ends⟩
  apply Matches.pure
  exact ⟨by simp [TypeExpr.bare, params_eq, result_eq], ends⟩

theorem matches_typeOf (free : rules.Match gap rules') (hosts : Hosts place)
    (shown : v 0 = (.typeofWord, .typeofWord)) (other : ph ≠ .case) :
    Matches gap ⟨place .result :: stack, ph⟩ v (typeOf rules) (typeOf rules')
      fun t t' y w => t.bare = t'.bare ∧
        ∃ h, h.Ends (w 0).1 ∧ Stays (place h :: stack) Phase.isEnd y := by
  apply Matches.next_place (g := fun _ => .resultTypeof) hosts shown other rfl (fun _ _ => rfl)
  intro _ _ _
  apply Matches.expect_place (g := fun _ => .done) hosts (.of_isQuiet (by rfl))
    (.inl (by nofun)) rfl rfl (fun _ _ => rfl)
  intro _ _ _
  have inside : Inside .rparen (place .done :: stack) .parens := ⟨rfl, nofun⟩
  apply Matches.skipInside_bind inside (by nofun)
  intro ph w rests same
  obtain rfl := rests.eq_of_isOpen rfl
  apply (free.binary 1 (inside.starts (by rfl) same)).bind
  rintro value value' _ w ⟨value_eq, ⟨ph, rfl, ended⟩, -⟩
  have quiet := Phase.isQuiet_of_isEnd ended
  apply Matches.skipInside_bind inside (Phase.ne_case_of_isQuiet quiet)
  intro ph' w rests same
  apply Matches.close_bind inside same (Phase.ne_case_of_isQuiet (rests.isQuiet quiet))
  intro _ _
  apply Matches.pure
  exact ⟨by simp [TypeExpr.bare, value_eq], .done, .inl rfl, .closed, rfl, rfl⟩

theorem matches_typeExpr (free : rules.Match gap rules') (hosts : Hosts place) (clear : Clear ph v)
    (other : ph ≠ .case) :
    Matches gap ⟨place .result :: stack, ph⟩ v (typeExpr rules) (typeExpr rules') fun t t' y w =>
      t.bare = t'.bare ∧ ∃ h, h.Ends (w 0).1 ∧ Stays (place h :: stack) Phase.isEnd y := by
  apply Matches.kind_cases clear
  · intro k shown
    split
    · exact matches_namedType free hosts clear other
    · refine (matches_recordOrTupleType free hosts clear other).mono ?_
      rintro t t' y w ⟨same, stays⟩
      exact ⟨same, .done, .inl rfl, stays⟩
    · exact matches_functionType free hosts shown other
    · exact matches_typeOf free hosts shown other
    · exact .unexpected
  · intro i j _ pause _
    obtain rfl | rfl | rfl | rfl | rfl | rfl | rfl := of_isPause pause <;> exact .unexpected

end Frontend.Grammar
