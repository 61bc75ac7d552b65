import Frontend.Grammar.Pattern
import Frontend.Proofs.LooseTypes

/-!
Patterns and destructurings are the same on looser streams, as long as what the rules yield that
they call is.
-/
namespace Frontend.Grammar

open Token (Kind)
open Frontend.Grammar.Parser Context

variable {gap : ℤ} {rules rules' : Rules} {stack : List Frame} {ph : Phase} {v : View} {f : Frame}

/-- Where no operand ends an operator is a sign. -/
theorem take_sign {k : Kind} (sign : (unaryOp? k).isSome = true) (begins : ph.isEnd = false) :
    (⟨stack, ph⟩ : Context).take k = ⟨stack, .fresh⟩ := by
  obtain rfl | rfl | rfl : k = .minus ∨ k = .plus ∨ k = .not := by
    cases k <;> simp_all [unaryOp?]
  all_goals simp [take, stackAfter, phaseAfter, begins]

theorem isSolid_of_literal {k : Kind} (literal : Literal.isKind k = true) : isSolid k = true := by
  cases k <;> first | rfl | cases literal

theorem take_literal {k : Kind} (literal : Literal.isKind k = true) :
    (⟨stack, ph⟩ : Context).take k = ⟨stack, .ended⟩ := by
  cases k <;> first | rfl | cases literal

theorem matches_literalPattern {x : Context} {t t' : Token} {minus minus' : Option Position}
    (same : t.word = t'.word) (sign : minus.isSome = minus'.isSome) :
    Matches gap x v (literalPattern t minus) (literalPattern t' minus') fun p p' y w =>
      p.bare = p'.bare ∧ y = x ∧ w = v := by
  obtain ⟨kind, text⟩ := Prod.mk.inj same
  simp only [literalPattern, kind, text, sign]
  cases Literal.read t'.kind minus'.isSome t'.text with
  | error problem => exact .fail
  | ok value =>
    apply Matches.pure
    cases value <;> exact ⟨rfl, rfl, rfl⟩

/-- What stands in front of braces, or nothing. -/
theorem matches_recordHead (plain : Plain stack) (clear : Clear ph v) :
    Matches gap ⟨stack, ph⟩ v recordHead recordHead fun a b y w => a.2 = b.2 ∧
      (Stays stack Phase.isEnd y ∨ y = ⟨stack, ph⟩ ∧ w = v ∧ (v 0).1 ≠ .ident) := by
  apply Matches.level clear
  intro level
  apply Matches.kind_bind
  apply Matches.ite (level.agree rfl)
  · intro _
    apply Matches.name_bind plain clear
    intro name name' ph text ended
    have quiet := Phase.isQuiet_of_isEnd ended
    apply Matches.ate_clear plain (.of_isQuiet quiet) (Phase.ne_case_of_isQuiet quiet) rfl rfl
    · intro _
      apply Matches.name_bind plain (.inl (by constructor <;> nofun))
      intro member member' ph member_text ended
      apply Matches.pure
      exact ⟨by rw [text, member_text], .inl ⟨ph, rfl, ended⟩⟩
    · intro _
      apply Matches.pure
      exact ⟨by rw [text], .inl ⟨ph, rfl, ended⟩⟩
  · intro absent
    apply Matches.pure
    exact ⟨rfl, .inr ⟨rfl, rfl, absent⟩⟩

theorem matches_restBinder (plain : Plain stack) (other : ph ≠ .case)
    (shown : v 0 = (.ellipsis, .ellipsis)) :
    Matches gap ⟨stack, ph⟩ v restBinder restBinder fun a b y _ => a.2 = b.2 ∧
      Stays stack Phase.isQuiet y := by
  apply Matches.next_bind plain shown rfl (.inl other)
  intro _ _ _ _
  apply Matches.eat_clear plain (.of_isQuiet (by rfl)) (by nofun) rfl rfl
  · intro _ name name' name_eq
    apply Matches.pure
    exact ⟨congrArg (fun w : Kind × String => some w.2) name_eq, .ended, rfl, rfl⟩
  · intro _
    apply Matches.pure
    exact ⟨rfl, .fresh, rfl, rfl⟩

theorem matches_fieldPattern (free : rules.Match gap rules') (inside : Inside .rbrace stack f)
    (level : (v 0).1 = (v 0).2) :
    Matches gap ⟨f :: stack, ph⟩ v (fieldPattern rules) (fieldPattern rules') fun a b y _ =>
      Prod.map id (Option.map Pattern.bare) a = Prod.map id (Option.map Pattern.bare) b ∧
        Stays (f :: stack) Phase.isEnd y := by
  apply Matches.name_bind inside.plain (.of_eq level)
  intro name name' ph text ended
  have quiet := Phase.isQuiet_of_isEnd ended
  apply Matches.ate_clear inside.plain (.of_isQuiet quiet) (Phase.ne_case_of_isQuiet quiet) rfl rfl
  · intro _
    apply Matches.skipInside_bind inside (by nofun)
    intro ph w rests level
    have begins : ph.isEnd = false := by obtain rfl | ⟨-, rfl⟩ := rests <;> rfl
    apply (free.pattern inside.plain (.of_eq level)
      (Phase.ne_case_of_isQuiet (rests.isQuiet rfl)) begins).bind
    rintro p p' y w ⟨same, stays⟩
    split
    next span bound =>
      obtain ⟨span', rfl⟩ := Pattern.eq_variable same.symm
      apply Matches.ite Iff.rfl
      · intro _
        exact .fail
      · intro _
        apply Matches.pure
        exact ⟨by simp [text, same], stays⟩
    next other =>
      split
      next span' bound =>
        obtain ⟨span, rfl⟩ := Pattern.eq_variable same
        exact (other span bound rfl).elim
      next =>
        apply Matches.pure
        exact ⟨by simp [text, same], stays⟩
  · intro _
    apply Matches.pure
    exact ⟨by simp [text], ph, rfl, ended⟩

theorem matches_recordPattern (free : rules.Match gap rules')
    (plain : Plain stack) (clear : Clear ph v) (other : ph ≠ .case)
    (begins : (v 0).1 = .ident ∨ v 0 = (.lbrace, .lbrace)) :
    Matches gap ⟨stack, ph⟩ v (recordPattern rules) (recordPattern rules') fun p p' y _ =>
      p.bare = p'.bare ∧ Stays stack Phase.isEnd y := by
  apply (matches_recordHead plain clear).bind
  rintro ⟨start, head⟩ ⟨start', _⟩ y w ⟨rfl, there⟩
  obtain ⟨ph, rfl, clear, other, ended⟩ : ∃ ph, y = ⟨stack, ph⟩ ∧ Clear ph w ∧ ph ≠ .case ∧
      ((w 0).1 ≠ .lbrace → ph.isEnd = true) := by
    obtain ⟨ph, rfl, ended⟩ | ⟨rfl, rfl, absent⟩ := there
    · have quiet := Phase.isQuiet_of_isEnd ended
      exact ⟨ph, rfl, .of_isQuiet quiet, Phase.ne_case_of_isQuiet quiet, fun _ => ended⟩
    · refine ⟨ph, rfl, clear, other, fun absent' => ?_⟩
      obtain shown | shown := begins
      · exact absurd shown absent
      · exact absurd (congrArg Prod.fst shown) absent'
  apply Matches.eat_clear plain clear other rfl rfl
  · intro _ _ _ _
    have inside : Inside .rbrace stack .braces := ⟨rfl, plain.ne_nil⟩
    apply (Matches.closedListWithRest inside
      (fun _ _ _ inside _ level => matches_fieldPattern free inside level)
      fun _ _ _ inside opened shown =>
        matches_restBinder inside.plain (Phase.ne_case_of_isOpen opened) shown).bind
    rintro ⟨fields, rest⟩ ⟨fields', rest'⟩ _ w
      ⟨⟨fields_eq, rest_eq⟩, level, f, ph, rfl, inside, other⟩
    apply Matches.close_bind inside level other
    intro _ _
    apply Matches.pure
    refine ⟨?_, .ended, rfl, rfl⟩
    simp only [Pattern.bare, Pattern.bareFields_eq, Pattern.bareOption_eq, bare_restPattern]
    rw [fields_eq, rest_eq]
  · intro absent
    apply Matches.place_bind
    intro _ _
    apply Matches.pure
    exact ⟨rfl, ph, rfl, ended absent⟩

theorem matches_arrayPattern (free : rules.Match gap rules')
    (plain : Plain stack) (other : ph ≠ .case)
    (shown : v 0 = (.lbracket, .lbracket)) :
    Matches gap ⟨stack, ph⟩ v (arrayPattern rules) (arrayPattern rules') fun p p' y _ =>
      p.bare = p'.bare ∧ Stays stack Phase.isEnd y := by
  apply Matches.next_bind plain shown rfl (.inl other)
  intro _ _ _ _
  have inside : Inside .rbracket stack (.square .first) := ⟨rfl, plain.ne_nil⟩
  apply (Matches.closedListWithRest inside
    (fun _ _ _ inside opened level => free.pattern inside.plain (.of_eq level)
      (Phase.ne_case_of_isOpen opened) (Phase.isEnd_of_isOpen opened))
    fun _ _ _ inside opened shown =>
      matches_restBinder inside.plain (Phase.ne_case_of_isOpen opened) shown).bind
  rintro ⟨elems, rest⟩ ⟨elems', rest'⟩ _ w ⟨⟨elems_eq, rest_eq⟩, level, f, ph, rfl, inside, other⟩
  apply Matches.close_bind inside level other
  intro _ _
  apply Matches.pure
  refine ⟨?_, .ended, rfl, rfl⟩
  simp only [Pattern.bare, Pattern.bareAll_eq, Pattern.bareOption_eq, bare_restPattern]
  rw [elems_eq, rest_eq]

theorem matches_negativePattern (plain : Plain stack) (other : ph ≠ .case)
    (begins : ph.isEnd = false) (shown : v 0 = (.minus, .minus)) :
    Matches gap ⟨stack, ph⟩ v negativePattern negativePattern fun p p' y _ =>
      p.bare = p'.bare ∧ Stays stack Phase.isEnd y := by
  apply Matches.next_bind plain shown rfl (.inl other)
  intro _ _ _ _
  rw [take_sign rfl begins]
  apply Matches.kind_cases (.of_isQuiet rfl)
  · intro k shown
    apply Matches.ite Iff.rfl
    · rintro (rfl | rfl) <;>
      · apply Matches.next_bind plain shown rfl (.inl (by nofun))
        intro t t' same _
        refine (matches_literalPattern same (by rfl)).mono ?_
        rintro p p' _ _ ⟨same, rfl, -⟩
        exact ⟨same, .ended, rfl, rfl⟩
    · intro _
      exact .unexpected
  · intro i j _ pause pause'
    rw [if_neg (by rintro (rfl | rfl) <;> cases pause)]
    exact .unexpected

theorem matches_pattern (free : rules.Match gap rules') (plain : Plain stack)
    (clear : Clear ph v) (other : ph ≠ .case) (begins : ph.isEnd = false) :
    Matches gap ⟨stack, ph⟩ v (pattern rules) (pattern rules') fun p p' y _ =>
      p.bare = p'.bare ∧ Stays stack Phase.isEnd y := by
  apply Matches.kind_cases clear
  · intro k shown
    apply Matches.ite Iff.rfl
    · intro literal
      apply Matches.next_bind plain shown (isSolid_of_literal literal) (.inl other)
      intro t t' same _
      rw [take_literal literal]
      refine (matches_literalPattern same rfl).mono ?_
      rintro p p' _ _ ⟨same, rfl, -⟩
      exact ⟨same, .ended, rfl, rfl⟩
    intro _
    split
    · exact matches_negativePattern plain other begins shown
    · apply Matches.second_level plain shown rfl (Phase.isQuiet_of_isEnd phase_ident)
      intro level
      apply Matches.kindAt_bind
      apply Matches.ite (or_congr (level.agree rfl) (level.agree rfl))
      · intro _
        exact matches_recordPattern free plain clear other (.inl (congrArg Prod.fst shown))
      · intro _
        apply Matches.name_bind plain clear
        intro name name' ph text ended
        apply Matches.pure
        exact ⟨by rw [Pattern.bare, Pattern.bare, text], ph, rfl, ended⟩
    · exact matches_recordPattern free plain clear other (.inr shown)
    · exact matches_arrayPattern free plain other shown
    · exact .unexpected
  · intro i j _ pause pause'
    obtain rfl | rfl | rfl | rfl | rfl | rfl | rfl := of_isPause pause <;> exact .unexpected

theorem matches_fieldDestructuring (free : rules.Match gap rules') (inside : Inside .rbrace stack f)
    (level : (v 0).1 = (v 0).2) :
    Matches gap ⟨f :: stack, ph⟩ v (fieldDestructuring rules) (fieldDestructuring rules')
      fun a b y _ => Prod.map id (Option.map Destructuring.bare) a =
        Prod.map id (Option.map Destructuring.bare) b ∧ Stays (f :: stack) Phase.isEnd y := by
  apply Matches.name_bind inside.plain (.of_eq level)
  intro name name' ph text ended
  have quiet := Phase.isQuiet_of_isEnd ended
  apply Matches.ate_clear inside.plain (.of_isQuiet quiet) (Phase.ne_case_of_isQuiet quiet) rfl rfl
  · intro _
    apply Matches.skipInside_bind inside (by nofun)
    intro ph w rests level
    apply (free.destructuring inside.plain (.of_eq level)
      (Phase.ne_case_of_isQuiet (rests.isQuiet rfl))).bind
    rintro d d' y w ⟨same, stays⟩
    split
    next span bound =>
      obtain ⟨span', rfl⟩ := Destructuring.eq_variable same.symm
      apply Matches.ite Iff.rfl
      · intro _
        exact .fail
      · intro _
        apply Matches.pure
        exact ⟨by simp [text, same], stays⟩
    next other =>
      split
      next span' bound =>
        obtain ⟨span, rfl⟩ := Destructuring.eq_variable same
        exact (other span bound rfl).elim
      next =>
        apply Matches.pure
        exact ⟨by simp [text, same], stays⟩
  · intro _
    apply Matches.pure
    exact ⟨by simp [text], ph, rfl, ended⟩

theorem matches_recordDestructuring (free : rules.Match gap rules') (plain : Plain stack)
    (clear : Clear ph v) (other : ph ≠ .case) :
    Matches gap ⟨stack, ph⟩ v (recordDestructuring rules) (recordDestructuring rules')
      fun d d' y _ => d.bare = d'.bare ∧ Stays stack Phase.isEnd y := by
  apply (matches_recordHead plain clear).bind
  rintro ⟨start, head⟩ ⟨start', _⟩ y w ⟨rfl, there⟩
  obtain ⟨ph, rfl, clear, other⟩ : ∃ ph, y = ⟨stack, ph⟩ ∧ Clear ph w ∧ ph ≠ .case := by
    obtain ⟨ph, rfl, ended⟩ | ⟨rfl, rfl, -⟩ := there
    · have quiet := Phase.isQuiet_of_isEnd ended
      exact ⟨ph, rfl, .of_isQuiet quiet, Phase.ne_case_of_isQuiet quiet⟩
    · exact ⟨ph, rfl, clear, other⟩
  apply Matches.expect_clear plain clear (.inl other) rfl rfl
  intro _ _ _
  have inside : Inside .rbrace stack .braces := ⟨rfl, plain.ne_nil⟩
  apply (Matches.closedListWithRest inside
    (fun _ _ _ inside _ level => matches_fieldDestructuring free inside level)
    fun _ _ _ inside opened shown =>
      matches_restBinder inside.plain (Phase.ne_case_of_isOpen opened) shown).bind
  rintro ⟨fields, rest⟩ ⟨fields', rest'⟩ _ w
      ⟨⟨fields_eq, rest_eq⟩, level, f, ph, rfl, inside, other⟩
  apply Matches.close_bind inside level other
  intro _ _
  apply Matches.pure
  refine ⟨?_, .ended, rfl, rfl⟩
  simp only [Destructuring.bare, Destructuring.bareFields_eq, Destructuring.bareOption_eq,
    bare_restDestructuring]
  rw [fields_eq, rest_eq]

theorem matches_destructuring (free : rules.Match gap rules') (plain : Plain stack)
    (clear : Clear ph v) (other : ph ≠ .case) :
    Matches gap ⟨stack, ph⟩ v (destructuring rules) (destructuring rules') fun d d' y _ =>
      d.bare = d'.bare ∧ Stays stack Phase.isEnd y := by
  apply Matches.kind_cases clear
  · intro k shown
    split
    · apply Matches.second_level plain shown rfl (Phase.isQuiet_of_isEnd phase_ident)
      intro level
      apply Matches.kindAt_bind
      apply Matches.ite (or_congr (level.agree rfl) (level.agree rfl))
      · intro _
        exact matches_recordDestructuring free plain clear other
      · intro _
        apply Matches.name_bind plain clear
        intro name name' ph text ended
        apply Matches.pure
        exact ⟨by rw [Destructuring.bare, Destructuring.bare, text], ph, rfl, ended⟩
    · exact matches_recordDestructuring free plain clear other
    · exact .unexpected
  · intro i j _ pause pause'
    obtain rfl | rfl | rfl | rfl | rfl | rfl | rfl := of_isPause pause <;> exact .unexpected

end Frontend.Grammar
