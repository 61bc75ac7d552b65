import Frontend.Proofs.LooseCalls

/-!
Expressions are the same on looser streams. Line ends around the elements of an array or a
dictionary are skipped, but for the one in front of the first comma of a dictionary. A lambda sees
its parameters ahead, and no line ends are added between them; an operator between operands stands
on the line of the first one.
-/
namespace Frontend.Grammar

open Token (Kind)
open Frontend.Grammar.Parser Context

variable {gap : ℤ} {rules rules' : Rules} {stack : List Frame} {ph : Phase} {v : View} {f : Frame}

section Braces

theorem matches_literalField (free : rules.Match gap rules') {fields fields' : List (String × Expr)}
    (same : fields.map (Prod.map id Expr.bare) = fields'.map (Prod.map id Expr.bare))
    (inside : Inside .rbrace stack f) (level : (v 0).1 = (v 0).2) :
    Matches gap ⟨f :: stack, ph⟩ v (literalField rules fields) (literalField rules' fields')
      fun a b y _ => Prod.map id Expr.bare a = Prod.map id Expr.bare b ∧
        Stays (f :: stack) Phase.isEnd y := by
  apply Matches.name_bind inside.plain (.of_eq level)
  intro name name' ph text ended
  apply (matches_checkFieldName same text).bind
  rintro _ _ _ _ ⟨rfl, rfl⟩
  apply Matches.colon_bind inside ended
  intro ph w rests level
  apply (free.operand (inside.starts_fresh rests level)).bind
  rintro value value' y w ⟨value_eq, stays⟩
  apply Matches.pure
  exact ⟨by simp [value_eq, text], stays⟩

theorem matches_recordOrTuple (free : rules.Match gap rules') (plain : Plain stack)
    (clear : Clear ph v) (other : ph ≠ .case) :
    Matches gap ⟨stack, ph⟩ v (recordOrTuple rules) (recordOrTuple rules') fun e e' y _ =>
      e.bare = e'.bare ∧ Stays stack Phase.isEnd y := by
  have braces : ∀ ph v (name name' : Option Token), Clear ph v → ph ≠ .case →
      name.map (·.text) = name'.map (·.text) → Matches gap ⟨stack, ph⟩ v
      (do
        let opening ← expect .lbrace "'\x7b'"
        let fields ← closedList .rbrace (literalField rules)
        let close ← expect .rbrace "'\x7d' closing literal"
        let head := name.map (·.text)
        let form :=
          if areUnnamed fields then .tuple head (fields.map (·.2)) else .record head fields
        pure (⟨(name.getD opening).span.through close.span, form⟩ : Expr))
      (do
        let opening ← expect .lbrace "'\x7b'"
        let fields ← closedList .rbrace (literalField rules')
        let close ← expect .rbrace "'\x7d' closing literal"
        let head := name'.map (·.text)
        let form :=
          if areUnnamed fields then .tuple head (fields.map (·.2)) else .record head fields
        pure (⟨(name'.getD opening).span.through close.span, form⟩ : Expr))
      fun e e' y _ => e.bare = e'.bare ∧ Stays stack Phase.isEnd y := by
    intro ph v name name' clear other head_eq
    apply Matches.expect_clear plain clear (.inl other) rfl rfl
    intro _ _ _
    have inside : Inside .rbrace stack .braces := ⟨rfl, plain.ne_nil⟩
    apply (Matches.closedList inside fun _ _ _ _ _ same inside _ level =>
      matches_literalField free same inside level).bind
    rintro fields fields' _ w ⟨same, level, f, ph, rfl, inside, other⟩
    apply Matches.close_bind inside level other
    intro _ _
    apply Matches.pure
    refine ⟨?_, .ended, rfl, rfl⟩
    rw [areUnnamed_eq (names_eq same), head_eq]
    by_cases unnamed : areUnnamed fields' = true
    · simp only [if_pos unnamed, Expr.bare, Expr.bareAll_eq, contents_eq same]
    · simp only [if_neg unnamed, Expr.bare, Expr.bareFields_eq, same]
  apply Matches.eat_clear plain clear other rfl rfl
  · intro _ t u same
    obtain ⟨ph, took, ended⟩ := stays_ident stack ph
    rw [took]
    have quiet := Phase.isQuiet_of_isEnd ended
    exact braces ph _ (some t) (some u) (.of_isQuiet quiet) (Phase.ne_case_of_isQuiet quiet)
      (congrArg (fun w : Kind × String => some w.2) same)
  · intro _
    exact braces ph v none none clear other rfl

end Braces

section Squares

/-- Behind an element in square brackets a comma stands in both streams or in neither. Behind the
first pair of a dictionary that is so since no line ends are added there. -/
structure Listed (stack : List Frame) (y : Context) (w : View) : Prop where
  here : ∃ f ph, y = ⟨f :: stack, ph⟩ ∧ Inside .rbracket stack f ∧ ph.isQuiet = true
  agree : (w 0).1 = .comma ↔ (w 0).2 = .comma

theorem Listed.of_eq {ph' : Phase} (inside : Inside .rbracket stack f) (quiet : ph.isQuiet = true)
    (rests : (⟨f :: stack, ph⟩ : Context).Rests ph') (level : (v 0).1 = (v 0).2) :
    Listed stack ⟨f :: stack, ph'⟩ v :=
  ⟨⟨f, ph', rfl, inside, rests.isQuiet quiet⟩, by rw [level]⟩

/-- Behind the first pair of a dictionary no line ends are added in front of a comma. -/
theorem Apart.afterFirstPair {k l : Kind} (apart : Apart ⟨.square .value :: stack, ph⟩ k l)
    (outer : stack ≠ []) : k = .comma ↔ l = .comma := by
  cases apart with
  | same => exact Iff.rfl
  | blank _ other => exact ⟨fun comma => absurd ⟨comma, rfl⟩ other, nofun⟩
  | separator => exact ⟨nofun, nofun⟩
  | edge outermost => exact absurd (List.cons.inj outermost).2 outer

/-- Elements behind the first one, each behind a comma. -/
theorem matches_furtherElements {α γ : Type} {bare : α → γ} {x : Context} {first first' : α}
    {item item' : List α → Parser (Turn (List α) (List α))} (listed : Listed stack x v)
    (same : bare first = bare first')
    (each : ∀ as bs f ph w, as.map bare = bs.map bare → Inside .rbracket stack f →
      ph.isOpen = true → (w 0).1 = (w 0).2 → Matches gap ⟨f :: stack, ph⟩ w (item as) (item' bs)
        fun a b y w => Turn.Alike (fun as bs => as.map bare = bs.map bare ∧ Listed stack y w)
          (fun _ _ => False) a b) :
    Matches gap x v
      (Parser.iterate (fun elems => do
        if ← ate .comma then
          skipNewlines
          if (← kind) = .rbracket then pure (.done elems.reverse) else item elems
        else pure (.done elems.reverse)) [first])
      (Parser.iterate (fun elems => do
        if ← ate .comma then
          skipNewlines
          if (← kind) = .rbracket then pure (.done elems.reverse) else item' elems
        else pure (.done elems.reverse)) [first'])
      fun as bs y _ => as.map bare = bs.map bare ∧
        ∃ f ph, y = ⟨f :: stack, ph⟩ ∧ Inside .rbracket stack f ∧ ph ≠ .case := by
  apply Matches.iterate fun as bs y w => as.map bare = bs.map bare ∧ Listed stack y w
  · exact ⟨by simp [same], listed⟩
  rintro as bs _ w ⟨known, ⟨f, ph, rfl, inside, quiet⟩, agree⟩
  have other := Phase.ne_case_of_isQuiet quiet
  apply Matches.comma_bind inside other agree
  · intro f' ph' w inside' opened level
    apply Matches.kind_bind
    apply Matches.ite (by rw [level])
    · intro _
      apply Matches.pure
      exact ⟨by simp [known], f', ph', rfl, inside', Phase.ne_case_of_isOpen opened⟩
    · intro _
      refine (each as bs f' ph' w known inside' opened level).mono ?_
      rintro (as' | _) (bs' | _) y w held
      · exact held
      · exact held.elim
      · exact held.elim
      · exact held.elim
  · apply Matches.pure
    exact ⟨by simp [known], f, ph, rfl, inside, other⟩

theorem matches_arrayRest (free : rules.Match gap rules') {x : Context} {first first' : Expr}
    (listed : Listed stack x v) (first_eq : first.bare = first'.bare) :
    Matches gap x v (arrayRest rules first) (arrayRest rules' first') fun es es' y _ =>
      es.map Expr.bare = es'.map Expr.bare ∧
        ∃ f ph, y = ⟨f :: stack, ph⟩ ∧ Inside .rbracket stack f ∧ ph ≠ .case := by
  apply matches_furtherElements listed first_eq
  intro as bs f ph w known inside opened level
  apply (free.operand (inside.starts opened level)).bind
  rintro e e' _ w ⟨same, ph, rfl, ended⟩
  have quiet := Phase.isQuiet_of_isEnd ended
  apply Matches.skipInside_bind inside (Phase.ne_case_of_isQuiet quiet)
  intro ph w rests level
  apply Matches.pure
  exact ⟨by simp [same, known], .of_eq inside quiet rests level⟩

/-- Behind `=>` the value of a pair may begin. -/
theorem Inside.fatArrow (inside : Inside .rbracket stack f) (ph : Phase) :
    ∃ f', (⟨f :: stack, ph⟩ : Context).take .fatArrow = ⟨f' :: stack, .opened⟩ ∧
      Inside .rbracket stack f' := by
  obtain ⟨closer, outer⟩ := inside
  cases f with
  | square part => cases part <;> exact ⟨_, rfl, rfl, outer⟩
  | _ => cases closer

theorem matches_dictRest (free : rules.Match gap rules') {x : Context} {first first' : Expr × Expr}
    (listed : Listed stack x v)
    (first_eq : Prod.map Expr.bare Expr.bare first = Prod.map Expr.bare Expr.bare first') :
    Matches gap x v (dictRest rules first) (dictRest rules' first') fun kvs kvs' y _ =>
      kvs.map (Prod.map Expr.bare Expr.bare) = kvs'.map (Prod.map Expr.bare Expr.bare) ∧
        ∃ f ph, y = ⟨f :: stack, ph⟩ ∧ Inside .rbracket stack f ∧ ph ≠ .case := by
  apply matches_furtherElements listed first_eq
  intro as bs f ph w known inside opened level
  apply (free.operand (inside.starts opened level)).bind
  rintro key key' _ w ⟨key_eq, ph, rfl, ended⟩
  have quiet := Phase.isQuiet_of_isEnd ended
  apply Matches.skipInside_bind inside (Phase.ne_case_of_isQuiet quiet)
  intro ph w rests level
  apply Matches.expect_bind inside.plain (by rw [level]; exact id) rfl
    (.inl (Phase.ne_case_of_isQuiet (rests.isQuiet quiet)))
  intro _ _ _ _
  obtain ⟨f, took, inside⟩ := inside.fatArrow ph
  rw [took]
  apply Matches.skipOpen_bind inside (by rfl)
  intro w level
  apply (free.operand (inside.starts (by rfl) level)).bind
  rintro value value' _ w ⟨value_eq, ph, rfl, ended⟩
  have quiet := Phase.isQuiet_of_isEnd ended
  apply Matches.skipInside_bind inside (Phase.ne_case_of_isQuiet quiet)
  intro ph w rests level
  apply Matches.pure
  exact ⟨by simp [key_eq, value_eq, known], .of_eq inside quiet rests level⟩

theorem matches_elements (free : rules.Match gap rules') (outer : stack ≠ [])
    (level : (v 0).1 = (v 0).2) :
    Matches gap ⟨.square .first :: stack, .opened⟩ v (elements rules) (elements rules')
      fun form form' y _ => Expr.bare ⟨default, form⟩ = Expr.bare ⟨default, form'⟩ ∧
        ∃ f ph, y = ⟨f :: stack, ph⟩ ∧ Inside .rbracket stack f ∧ ph ≠ .case := by
  have inside : Inside .rbracket stack (.square .first) := ⟨rfl, outer⟩
  apply (free.operand (inside.starts (by rfl) level)).bind
  rintro first first' _ w ⟨first_eq, ph, rfl, ended⟩
  have quiet := Phase.isQuiet_of_isEnd ended
  apply Matches.skipInside_bind inside (Phase.ne_case_of_isQuiet quiet)
  intro ph w rests level
  have quiet' := rests.isQuiet quiet
  apply Matches.ate_bind inside.plain (by rw [level]) rfl (.inl (Phase.ne_case_of_isQuiet quiet'))
  · intro _
    have inside : Inside .rbracket stack (.square .value) := ⟨rfl, outer⟩
    apply Matches.skipOpen_bind inside (by rfl)
    intro w level
    apply (free.operand (inside.starts (by rfl) level)).bind
    rintro value value' _ w ⟨value_eq, ph, rfl, ended⟩
    apply Matches.ahead
    intro apart
    apply (matches_dictRest free ⟨⟨_, ph, rfl, inside, Phase.isQuiet_of_isEnd ended⟩,
      apart.afterFirstPair outer⟩ (by simp [first_eq, value_eq])).bind
    rintro elems elems' y w ⟨same, stays⟩
    apply Matches.pure
    exact ⟨by simp [Expr.bare, same], stays⟩
  · intro _ _
    apply (matches_arrayRest free (.of_eq inside quiet rests level) first_eq).bind
    rintro elems elems' y w ⟨same, stays⟩
    apply Matches.pure
    exact ⟨by simp [Expr.bare, same], stays⟩

theorem matches_arrayOrDict (free : rules.Match gap rules') (plain : Plain stack)
    (other : ph ≠ .case) (shown : v 0 = (.lbracket, .lbracket)) :
    Matches gap ⟨stack, ph⟩ v (arrayOrDict rules) (arrayOrDict rules') fun e e' y _ =>
      e.bare = e'.bare ∧ Stays stack Phase.isEnd y := by
  have outer := plain.ne_nil
  apply Matches.next_bind plain shown rfl (.inl other)
  intro _ _ _ _
  have inside : Inside .rbracket stack (.square .first) := ⟨rfl, outer⟩
  apply Matches.skipOpen_bind inside (by rfl)
  intro w level
  apply Matches.ate_bind inside.plain (by rw [level]) rfl (.inl (by nofun))
  · intro _
    have inside : Inside .rbracket stack (.square .value) := ⟨rfl, outer⟩
    apply Matches.skipInside_bind inside (by nofun)
    intro ph w rests level
    apply Matches.close_bind inside level (by rw [rests.eq_of_isOpen rfl]; nofun)
    intro _ _
    exact .pure ⟨rfl, .ended, rfl, rfl⟩
  intro _ _
  apply Matches.eat_bind inside.plain (by rw [level]) rfl (.inl (by nofun))
  · intro _ _ _ _ _
    exact .pure ⟨rfl, .ended, rfl, rfl⟩
  · intro _ _
    apply (matches_elements free outer level).bind
    rintro form form' _ w ⟨same, f, ph, rfl, inside, other⟩
    apply Matches.skipInside_bind inside other
    intro ph' w rests level
    apply Matches.close_bind inside level
    · obtain rfl | ⟨-, rfl⟩ := rests
      · exact other
      · nofun
    intro _ _
    apply Matches.pure
    exact ⟨(Expr.bare_mk _ form).trans (same.trans (Expr.bare_mk _ form').symm), .ended, rfl, rfl⟩

end Squares

section Lambdas

/-- An operand may begin where nothing has to be skipped and no operand ends. -/
theorem Plain.starts (plain : Plain stack) (quiet : ph.isQuiet = true) (begins : ph.isEnd = false) :
    Starts stack ph v where
  plain := plain
  clear := .of_isQuiet quiet
  other := Phase.ne_case_of_isQuiet quiet
  apart ended := by simp [begins] at ended

theorem matches_lambdaParamsAhead (plain : Plain stack) (quiet : ph.isQuiet = true)
    (naming : Naming stack ph) :
    Matches gap ⟨stack, ph⟩ v lambdaParamsAhead lambdaParamsAhead fun a b y _ =>
      a = b ∧ y = ⟨stack, ph⟩ := by
  apply Matches.level (.of_isQuiet quiet)
  intro level
  apply Matches.kind_bind
  apply Matches.ite (level.agree rfl)
  · intro shown
    apply Matches.second plain (Prod.ext shown ((level.agree rfl).mp shown)) rfl
    obtain ⟨ph', took, named⟩ := naming.take
    rw [took]
    intro apart
    have comma := named.agree apart
    have level : View.Level v.tail := apart.level_of_quiet (Phase.isQuiet_of_isEnd named.isEnd)
    have inWord : (v 1).1 = .inWord ↔ (v 1).2 = .inWord := level.agree rfl
    have doWord : (v 1).1 = .doWord ↔ (v 1).2 = .doWord := level.agree rfl
    apply Matches.kindAt_bind
    apply Matches.pure
    simp only [comma, inWord, doWord, and_self]
  · intro _
    exact .pure ⟨rfl, rfl⟩

theorem matches_lambdaBody (free : rules.Match gap rules') (plain : Plain stack) {hasParams : Bool}
    (quiet : ph.isQuiet = true) (begins : hasParams = false → ph.isEnd = false) :
    Matches gap ⟨stack, ph⟩ v (lambdaBody rules hasParams) (lambdaBody rules' hasParams)
      fun e e' y _ => e.bare = e'.bare ∧ Stays stack Phase.isEnd y := by
  apply Matches.eat_clear plain (.of_isQuiet quiet) (Phase.ne_case_of_isQuiet quiet) rfl rfl
  · intro _ _ _ _
    refine (matches_blockBody free .fresh).mono ?_
    rintro e e' _ _ ⟨same, rfl⟩
    exact ⟨same, .ended, rfl, rfl⟩
  intro _
  apply Matches.ite Iff.rfl
  · intro _
    apply Matches.expect_clear plain (.of_isQuiet quiet) (.inl (Phase.ne_case_of_isQuiet quiet)) rfl
      rfl
    intro _ _ _
    apply Matches.skipNewlines_bind (x := ⟨stack, .awaiting⟩) plain rfl
    intro w level
    exact free.operand (plain.starts_open rfl level)
  · intro none
    exact free.operand (plain.starts quiet (begins (by simpa using none)))

theorem matches_lambda (free : rules.Match gap rules') (starts : Starts stack ph v)
    (shown : v 0 = (.arrow, .arrow)) :
    Matches gap ⟨stack, ph⟩ v (lambda rules) (lambda rules') fun e e' y _ =>
      e.bare = e'.bare ∧ Stays stack Phase.isEnd y := by
  obtain ⟨plain, -, other, apart⟩ := starts
  apply Matches.next_bind plain shown rfl (.inl other)
  intro _ _ _ _
  -- Behind `)` a lambda begins a statement only.
  obtain ⟨ph', took, naming, quiet, begins⟩ : ∃ ph',
      (⟨stack, ph⟩ : Context).take .arrow = ⟨stack, ph'⟩ ∧
      Naming stack ph' ∧ ph'.isQuiet = true ∧ ph'.isEnd = false := by
    by_cases closed : ph = .closed
    · subst closed
      exact ⟨.fresh, rfl, .inr (.inr (apart rfl).1), rfl, rfl⟩
    · refine ⟨.arrow, ?_, .inl rfl, rfl, rfl⟩
      simp [take, stackAfter, phaseAfter, closed]
  rw [took]
  apply (matches_lambdaParamsAhead plain quiet naming).bind
  rintro hasParams _ _ w ⟨rfl, rfl⟩
  apply Matches.ite_bind (fun params params' y _ => params = params' ∧
    ∃ ph, y = ⟨stack, ph⟩ ∧ ph.isQuiet = true ∧ (hasParams = false → ph.isEnd = false)) Iff.rfl
  · intro some
    refine (matches_lambdaParams plain (.of_isQuiet quiet) naming).mono ?_
    rintro params params' y w ⟨same, ph, rfl, named⟩
    exact ⟨same, ph, rfl, Phase.isQuiet_of_isEnd named.isEnd, by simp [some]⟩
  · intro _
    exact .pure ⟨rfl, ph', rfl, quiet, fun _ => begins⟩
  rintro params _ _ w ⟨rfl, ph, rfl, quiet, begins⟩
  apply (matches_lambdaBody free plain quiet begins).bind
  rintro body body' y w ⟨same, stays⟩
  apply Matches.place_bind
  intro _ _
  apply Matches.pure
  exact ⟨by simp [Expr.bare, same], stays⟩

end Lambdas

section Operands

theorem matches_parenthesized (free : rules.Match gap rules') (plain : Plain stack)
    (other : ph ≠ .case) (shown : v 0 = (.lparen, .lparen)) :
    Matches gap ⟨stack, ph⟩ v (parenthesized rules) (parenthesized rules') fun e e' y _ =>
      e.bare = e'.bare ∧ Stays stack Phase.isEnd y := by
  apply Matches.next_bind plain shown rfl (.inl other)
  intro _ _ _ _
  have inside : Inside .rparen stack .parens := ⟨rfl, plain.ne_nil⟩
  apply Matches.skipOpen_bind inside (by rfl)
  intro w level
  apply (free.operand (inside.starts (by rfl) level)).bind
  rintro e e' _ w ⟨same, ph, rfl, ended⟩
  have quiet := Phase.isQuiet_of_isEnd ended
  apply Matches.skipInside_bind inside (Phase.ne_case_of_isQuiet quiet)
  intro ph w rests level
  apply Matches.close_bind inside level (Phase.ne_case_of_isQuiet (rests.isQuiet quiet))
  intro _ _
  exact .pure ⟨same, .closed, rfl, rfl⟩

theorem matches_branchingValue {x : Context} {stmt stmt' : Parser Stmt}
    (h : Matches gap x v stmt stmt' fun s s' y _ => s.bare = s'.bare ∧ Stays stack Phase.isEnd y) :
    Matches gap x v (branchingValue stmt) (branchingValue stmt') fun e e' y _ =>
      e.bare = e'.bare ∧ Stays stack Phase.isEnd y := by
  apply h.bind
  rintro s s' y w ⟨same, stays⟩
  refine (matches_promote same).mono ?_
  rintro e e' _ _ ⟨same, rfl⟩
  exact ⟨same, stays⟩

theorem matches_primary (free : rules.Match gap rules') (starts : Starts stack ph v) :
    Matches gap ⟨stack, ph⟩ v (primary rules) (primary rules') fun e e' y _ =>
      e.bare = e'.bare ∧ Stays stack Phase.isEnd y := by
  have plain := starts.plain
  have clear := starts.clear
  have other := starts.other
  apply Matches.kind_cases clear
  · intro k shown
    apply Matches.ite Iff.rfl
    · intro literal_
      apply Matches.next_bind plain shown (isSolid_of_literal literal_) (.inl other)
      intro t t' same _
      rw [take_literal literal_]
      refine (matches_literal same rfl).mono ?_
      rintro e e' _ _ ⟨same, rfl⟩
      exact ⟨same, .ended, rfl, rfl⟩
    intro _
    split
    · apply Matches.second_level plain shown rfl (Phase.isQuiet_of_isEnd phase_ident)
      intro level
      apply Matches.kindAt_bind
      apply Matches.ite (level.agree rfl)
      · intro _
        exact matches_recordOrTuple free plain clear other
      · intro _
        apply Matches.name_bind plain clear
        intro name name' ph text ended
        apply Matches.pure
        exact ⟨by simp [Expr.bare, text], ph, rfl, ended⟩
    · exact matches_recordOrTuple free plain clear other
    · exact matches_arrayOrDict free plain other shown
    · exact matches_parenthesized free plain other shown
    · exact matches_lambda free starts shown
    · exact matches_branchingValue (matches_ifStmt free plain other shown)
    · exact matches_branchingValue (matches_switchStmt free plain other shown)
    · exact matches_branchingValue (matches_matchStmt free plain other shown)
    · exact .unexpected
  · intro i j _ pause pause'
    obtain rfl | rfl | rfl | rfl | rfl | rfl | rfl := of_isPause pause <;> exact .unexpected

theorem matches_chained (free : rules.Match gap rules') (starts : Starts stack ph v) :
    Matches gap ⟨stack, ph⟩ v (chained rules) (chained rules') fun e e' y _ =>
      e.bare = e'.bare ∧ Stays stack Phase.isEnd y := by
  have plain := starts.plain
  apply (matches_primary free starts).bind
  rintro operand operand' y w ⟨same, stays⟩
  apply Matches.iterate fun e e' y _ => e.bare = e'.bare ∧ Stays stack Phase.isEnd y
  · exact ⟨same, stays⟩
  rintro e e' _ w ⟨known, ph, rfl, ended⟩
  have quiet := Phase.isQuiet_of_isEnd ended
  have other := Phase.ne_case_of_isQuiet quiet
  apply Matches.kind_cases (.of_isQuiet quiet)
  · intro k shown
    split
    · apply (matches_call free plain other shown known).bind
      intro e e' y w held
      exact .pure held
    · apply (matches_indexAccess free plain other shown known).bind
      intro e e' y w held
      exact .pure held
    · apply (matches_fieldAccess plain other shown known).bind
      intro e e' y w held
      exact .pure held
    · exact .pure ⟨known, ph, rfl, ended⟩
  · intro i j _ pause pause'
    obtain rfl | rfl | rfl | rfl | rfl | rfl | rfl := of_isPause pause <;>
    obtain rfl | rfl | rfl | rfl | rfl | rfl | rfl := of_isPause pause' <;>
    exact .pure ⟨known, ph, rfl, ended⟩

end Operands

section Operators

/-- Where an operator stands that could be a sign, no operand ends. -/
theorem Starts.begins (starts : Starts stack ph v) {k : Kind} (shown : v 0 = (k, k))
    (operator : (binaryOp? k).isSome = true) : ph.isEnd = false := by
  refine Bool.eq_false_iff.mpr fun ended => ?_
  have none := (starts.apart ended).2
  rw [shown] at none
  simp [none] at operator

theorem isSolid_of_operator {k : Kind} (operator : (binaryOp? k).isSome = true) :
    isSolid k = true := by
  cases k <;> first | rfl | cases operator

theorem matches_negativeLiteralAhead (plain : Plain stack) (begins : ph.isEnd = false)
    (shown : v 0 = (.minus, .minus)) :
    Matches gap ⟨stack, ph⟩ v negativeLiteralAhead negativeLiteralAhead fun a b y w =>
      a = b ∧ y = ⟨stack, ph⟩ ∧ w = v ∧
        (a = true → ∃ k, Literal.isKind k = true ∧ v 1 = (k, k)) := by
  have took : (⟨stack, ph⟩ : Context).take .minus = ⟨stack, .fresh⟩ := take_sign rfl begins
  apply Matches.second plain shown rfl
  rw [took]
  intro apart
  have level : View.Level v.tail := apart.level_of_quiet rfl
  have int : (v 1).1 = .int ↔ (v 1).2 = .int := level.agree rfl
  have float : (v 1).1 = .float ↔ (v 1).2 = .float := level.agree rfl
  apply Matches.kindAt_bind
  apply Matches.ite (or_congr int float)
  · intro number
    obtain ⟨k, literal, shown'⟩ : ∃ k, Literal.isKind k = true ∧ v 1 = (k, k) := by
      obtain found | found := number
      · exact ⟨.int, rfl, Prod.ext found (int.mp found)⟩
      · exact ⟨.float, rfl, Prod.ext found (float.mp found)⟩
    apply Matches.third plain shown rfl (by rw [took]; exact plain) shown'
      (isSolid_of_literal literal)
    rw [took, take_literal literal]
    intro apart
    have level : View.Level v.tail.tail := apart.level_of_quiet rfl
    have lparen : (v 2).1 = .lparen ↔ (v 2).2 = .lparen := level.agree rfl
    have lbracket : (v 2).1 = .lbracket ↔ (v 2).2 = .lbracket := level.agree rfl
    have dot : (v 2).1 = .dot ↔ (v 2).2 = .dot := level.agree rfl
    apply Matches.kindAt_bind
    apply Matches.pure
    refine ⟨?_, rfl, rfl, fun _ => ⟨k, literal, shown'⟩⟩
    simp only [bne, Bool.beq_eq_decide_eq, lparen, lbracket, dot]
  · intro _
    exact .pure ⟨rfl, rfl, rfl, nofun⟩

theorem matches_prefixed (free : rules.Match gap rules') (starts : Starts stack ph v) {op : UnaryOp}
    {k : Kind} (sign : unaryOp? k = some op) (shown : v 0 = (k, k)) :
    Matches gap ⟨stack, ph⟩ v (prefixed rules op) (prefixed rules' op) fun e e' y _ =>
      e.bare = e'.bare ∧ Stays stack Phase.isEnd y := by
  have plain := starts.plain
  obtain ⟨solid, took⟩ : isSolid k = true ∧ (⟨stack, ph⟩ : Context).take k = ⟨stack, .fresh⟩ := by
    by_cases operator : (binaryOp? k).isSome = true
    · exact ⟨isSolid_of_operator operator,
        take_sign (by rw [sign]; rfl) (starts.begins shown operator)⟩
    · obtain rfl : k = .not := by cases k <;> simp_all [unaryOp?, binaryOp?]
      exact ⟨rfl, rfl⟩
  apply Matches.next_bind plain shown solid (.inl starts.other)
  intro _ _ _ _
  rw [took]
  apply (free.unary (plain.starts rfl rfl)).bind
  rintro operand operand' y w ⟨same, stays⟩
  apply Matches.pure
  exact ⟨by simp [Expr.bare, same], stays⟩

theorem matches_unary (free : rules.Match gap rules') (starts : Starts stack ph v) :
    Matches gap ⟨stack, ph⟩ v (unary rules) (unary rules') fun e e' y _ =>
      e.bare = e'.bare ∧ Stays stack Phase.isEnd y := by
  have plain := starts.plain
  have other := starts.other
  apply Matches.kind_cases starts.clear
  · intro k shown
    split
    next => exact matches_chained free starts
    next sign =>
      obtain rfl : k = .minus := by cases k <;> simp_all [unaryOp?]
      have begins := starts.begins shown rfl
      apply (matches_negativeLiteralAhead plain begins shown).bind
      rintro ahead _ _ w ⟨rfl, rfl, rfl, literal_⟩
      apply Matches.ite Iff.rfl
      · intro negative
        obtain ⟨k, literal_, shown'⟩ := literal_ negative
        apply Matches.next_bind plain shown rfl (.inl other)
        intro _ _ _ _
        rw [take_sign rfl begins]
        apply Matches.next_bind plain shown' (isSolid_of_literal literal_) (.inl (by simp))
        intro t t' same _
        rw [take_literal literal_]
        refine (matches_literal same (by rfl)).mono ?_
        rintro e e' _ _ ⟨same, rfl⟩
        exact ⟨same, .ended, rfl, rfl⟩
      · intro _
        exact matches_prefixed free starts rfl shown
    next op _ sign => exact matches_prefixed free starts sign shown
  · intro i j _ pause pause'
    have none : ∀ k, isPause k = true → unaryOp? k = none := by
      intro k pause
      obtain rfl | rfl | rfl | rfl | rfl | rfl | rfl := of_isPause pause <;> rfl
    rw [none i pause, none j pause']
    exact matches_chained free starts

theorem matches_coerced (free : rules.Match gap rules') (starts : Starts stack ph v) :
    Matches gap ⟨stack, ph⟩ v (coerced rules) (coerced rules') fun e e' y _ =>
      e.bare = e'.bare ∧ Stays stack Phase.isEnd y := by
  have plain := starts.plain
  apply (matches_unary free starts).bind
  rintro operand operand' y w ⟨same, stays⟩
  apply Matches.iterate fun e e' y _ => e.bare = e'.bare ∧ Stays stack Phase.isEnd y
  · exact ⟨same, stays⟩
  rintro e e' _ w ⟨known, ph, rfl, ended⟩
  have quiet := Phase.isQuiet_of_isEnd ended
  apply Matches.ate_clear plain (.of_isQuiet quiet) (Phase.ne_case_of_isQuiet quiet) rfl rfl
  · intro _
    obtain ⟨f, outer, rfl, plain_⟩ := plain
    apply (free.typeExpr (.other plain_) (.of_isQuiet (by rfl)) (by nofun)).bind
    rintro t t' y w ⟨same, _, -, stays⟩
    apply Matches.pure
    exact ⟨by simp [Expr.bare, same, known], stays⟩
  · intro _
    exact .pure ⟨known, ph, rfl, ended⟩

theorem take_operator {k : Kind} (operator : (binaryOp? k).isSome = true)
    (ended : ph.isEnd = true) :
    (⟨stack, ph⟩ : Context).take k = ⟨stack, .opened⟩ := by
  cases k <;> simp_all [binaryOp?, take, stackAfter, phaseAfter]

theorem binaryOp?_of_isPause {k : Kind} (pause : isPause k = true) : binaryOp? k = none := by
  obtain rfl | rfl | rfl | rfl | rfl | rfl | rfl := of_isPause pause <;> rfl

theorem matches_binary (free : rules.Match gap rules') (starts : Starts stack ph v) {power : Nat} :
    Matches gap ⟨stack, ph⟩ v (binary rules power) (binary rules' power) fun e e' y w =>
      e.bare = e'.bare ∧ Stays stack Phase.isEnd y ∧
        ∀ op p, binaryOp? (w 0).1 = some (op, p) → p < power := by
  have plain := starts.plain
  apply (matches_coerced free starts).bind
  rintro first first' y w ⟨same, stays⟩
  apply Matches.iterate fun e e' y _ => e.bare = e'.bare ∧ Stays stack Phase.isEnd y
  · exact ⟨same, stays⟩
  rintro lhs lhs' _ w ⟨known, ph, rfl, ended⟩
  have quiet := Phase.isQuiet_of_isEnd ended
  apply Matches.kind_cases (.of_isQuiet quiet)
  · intro k shown
    split
    next none =>
      apply Matches.pure
      refine ⟨known, ⟨ph, rfl, ended⟩, ?_⟩
      simp [shown, none]
    next op p operator =>
      apply Matches.ite Iff.rfl
      · intro low
        apply Matches.pure
        refine ⟨known, ⟨ph, rfl, ended⟩, ?_⟩
        simp only [shown, operator, Option.some.injEq, Prod.mk.injEq]
        rintro _ _ ⟨-, rfl⟩
        exact low
      intro _
      have some : (binaryOp? k).isSome = true := by rw [operator]; rfl
      apply Matches.next_bind plain shown (isSolid_of_operator some)
        (.inl (Phase.ne_case_of_isQuiet quiet))
      intro _ _ _ _
      rw [take_operator some ended]
      apply Matches.skipNewlines_bind (x := ⟨stack, .opened⟩) plain rfl
      intro w level
      apply (free.binary (p + 1) (plain.starts_open (by rfl) level)).bind
      rintro rhs rhs' y w ⟨same, stays, -⟩
      apply Matches.pure
      exact ⟨by simp [Expr.bare, same, known], stays⟩
  · intro i j shown pause pause'
    rw [binaryOp?_of_isPause pause, binaryOp?_of_isPause pause']
    apply Matches.pure
    refine ⟨known, ⟨ph, rfl, ended⟩, ?_⟩
    simp [shown, binaryOp?_of_isPause pause]

end Operators

end Frontend.Grammar
