import Frontend.Grammar.Expr
import Frontend.Proofs.AlikeExprs
import Frontend.Proofs.LooseBlocks
import Frontend.Proofs.Yields

/-!
Literals, blocks as values, calls and accesses are the same on looser streams. Whether parameters
stand on the line of a `do` is the same too: no line ends are added between them, and behind them
stands a separator in both streams.
-/
namespace Frontend.Grammar

open Token (Kind)
open Frontend.Grammar.Parser Context

variable {gap : ℤ} {rules rules' : Rules} {stack : List Frame} {ph : Phase} {v : View} {f : Frame}

theorem matches_literal {x : Context} {t t' : Token} {minus minus' : Option Position}
    (same : t.word = t'.word) (sign : minus.isSome = minus'.isSome) :
    Matches gap x v (literal t minus) (literal t' minus') fun e e' y _ =>
      e.bare = e'.bare ∧ y = x := by
  obtain ⟨kind, text⟩ := Prod.mk.inj same
  simp only [literal, kind, text, sign]
  cases Literal.read t'.kind minus'.isSome t'.text with
  | error problem => exact .fail
  | ok value =>
    apply Matches.pure
    cases value <;> exact ⟨rfl, rfl⟩

theorem matches_blockBody (free : rules.Match gap rules') {hint hint' : Position}
    (lines : Lines ph v) :
    Matches gap ⟨.block :: stack, ph⟩ v (blockBody rules hint) (blockBody rules' hint')
      fun e e' y _ => e.bare = e'.bare ∧ y = ⟨stack, .ended⟩ := by
  apply (matches_block free (by simp [binaryOp?]) lines).bind
  rintro stmts stmts' _ w ⟨same, ph, rfl, quiet⟩
  apply Matches.end_bind quiet
  intro _ _ w
  exact matches_promoteBlock same

section Params

/-- Where a name may stand that is assigned to, or that is a parameter of a lambda. -/
def Naming (stack : List Frame) (ph : Phase) : Prop :=
  ph = .arrow ∨ ph = .params ∨ stack.head? = some .block

/-- Behind such a name. -/
def Named (stack : List Frame) (ph : Phase) : Prop :=
  ph = .param ∨ ph = .ended ∧ stack.head? = some .block

theorem Naming.take (naming : Naming stack ph) :
    ∃ ph', (⟨stack, ph⟩ : Context).take .ident = ⟨stack, ph'⟩ ∧ Named stack ph' := by
  obtain rfl | rfl | block := naming
  · exact ⟨.param, rfl, .inl rfl⟩
  · exact ⟨.param, rfl, .inl rfl⟩
  · refine ⟨_, rfl, ?_⟩
    simp only [phaseAfter]
    split
    · exact .inl rfl
    · exact .inr ⟨rfl, block⟩

theorem Named.take (named : Named stack ph) : ∃ ph', (⟨stack, ph⟩ : Context).take .comma =
    ⟨stack, ph'⟩ ∧ ph'.isOpen = true ∧ ph' ≠ .opened ∧ Naming stack ph' := by
  obtain rfl | ⟨rfl, block⟩ := named
  · refine ⟨.params, ?_, rfl, nofun, .inr (.inl rfl)⟩
    cases stack with
    | nil => rfl
    | cons f outer => cases f <;> rfl
  · obtain ⟨outer, rfl⟩ := List.head?_eq_some_iff.mp block
    exact ⟨.awaiting, rfl, rfl, nofun, .inr (.inr rfl)⟩

theorem Named.isEnd (named : Named stack ph) : ph.isEnd = true := by
  obtain rfl | ⟨rfl, -⟩ := named <;> rfl

/-- Between names no line ends are added in front of commas. -/
theorem Named.agree {k l : Kind} (named : Named stack ph) (apart : Apart ⟨stack, ph⟩ k l) :
    k = .comma ↔ l = .comma := by
  cases apart with
  | same => exact Iff.rfl
  | separator => exact ⟨nofun, nofun⟩
  | blank blank =>
    refine ⟨?_, nofun⟩
    rintro rfl
    obtain rfl | ⟨rfl, block⟩ := named
    · obtain h | ⟨h, -⟩ | ⟨-, close | ⟨-, comma⟩ | ⟨h, -⟩⟩ := blank
      · cases h
      · cases h
      · obtain ⟨f, -, close⟩ := Option.bind_eq_some_iff.mp close
        cases f <;> cases close
      · simp [beforeComma] at comma
      · cases h
    · obtain ⟨outer, rfl⟩ := List.head?_eq_some_iff.mp block
      simp [IsBlank, beforeComma, inBrackets, Frame.isBracket, Frame.closer?] at blank
  | edge outermost other =>
    obtain rfl | ⟨-, block⟩ := named
    · exact absurd rfl other
    · have outermost : stack = _ := outermost
      rw [outermost] at block
      cases block

/-- Names between commas. -/
theorem matches_names {what : String} (plain : Plain stack) (clear : Clear ph v)
    (naming : Naming stack ph) :
    Matches gap ⟨stack, ph⟩ v (commaList (expectIdent what)) (commaList (expectIdent what))
      fun names names' y w => names.map (·.text) = names'.map (·.text) ∧
        ∃ ph, y = ⟨stack, ph⟩ ∧ Named stack ph ∧ (w 0).1 ≠ .comma := by
  have item : ∀ ph w, Clear ph w ∧ Naming stack ph →
      Matches gap ⟨stack, ph⟩ w (expectIdent what) (expectIdent what)
        fun t t' y _ => t.text = t'.text ∧ ∃ ph, y = ⟨stack, ph⟩ ∧ Named stack ph := by
    rintro ph w ⟨clear, naming⟩
    rw [← bind_pure (expectIdent what)]
    apply Matches.expect_clear plain clear (.inr rfl) rfl rfl
    intro t t' same
    obtain ⟨ph', took, named⟩ := naming.take
    rw [took]
    exact .pure ⟨congrArg Prod.snd same, ph', rfl, named⟩
  refine (Matches.commaList (fun ph w => Clear ph w ∧ Naming stack ph)
    (fun ph _ => Named stack ph) plain (item _ _ ⟨clear, naming⟩) item ?_ ?_).mono ?_
  · intro ph w named apart
    exact ⟨named.agree apart, Phase.ne_case_of_isQuiet (Phase.isQuiet_of_isEnd named.isEnd)⟩
  · intro ph w named
    obtain ⟨ph', took, opened, -, naming⟩ := named.take
    exact ⟨ph', took, opened, fun _ level => ⟨.inr level, naming⟩⟩
  · rintro names names' y w ⟨same, ph, rfl, named, last⟩
    exact ⟨same, ph, rfl, named, last⟩

theorem matches_lambdaParams (plain : Plain stack) (clear : Clear ph v) (naming : Naming stack ph) :
    Matches gap ⟨stack, ph⟩ v lambdaParams lambdaParams fun params params' y _ =>
      params = params' ∧ ∃ ph, y = ⟨stack, ph⟩ ∧ Named stack ph := by
  apply (matches_names plain clear naming).bind
  rintro names names' _ w ⟨same, ph, rfl, named, -⟩
  apply Matches.pure
  refine ⟨?_, ph, rfl, named⟩
  simpa [Function.comp_def] using congrArg (List.map fun name => (⟨name, none⟩ : Param)) same

end Params

section Ahead

theorem of_firstKind {tokens : List Token} {k : Kind} (shown : firstKind tokens = k)
    (going : k ≠ .eof) : ∃ t rest, tokens = t :: rest ∧ t.kind = k := by
  cases tokens with
  | nil => exact absurd shown.symm going
  | cons t rest => exact ⟨t, rest, rfl, shown⟩

theorem identsThenSeparator_of_ne {tokens : List Token} (other : firstKind tokens ≠ .ident) :
    (identsThenSeparator tokens).1 = false := by
  match tokens with
  | [] => rfl
  | [t] => rfl
  | t :: after :: more =>
    have other : t.kind ≠ .ident := other
    simp [identsThenSeparator, other]

/-- Behind a name that no comma follows a separator has to stand. -/
theorem identsThenSeparator_last {t : Token} {tokens : List Token} (ident : t.kind = .ident)
    (last : firstKind tokens ≠ .comma) :
    (identsThenSeparator (t :: tokens)).1 = (firstKind tokens).isSeparator := by
  match tokens with
  | [] => rfl
  | after :: more =>
    have last : after.kind ≠ .comma := last
    simp [identsThenSeparator, ident, last, firstKind]

theorem identsThenSeparator_comma {t after : Token} {more : List Token} (ident : t.kind = .ident)
    (comma : after.kind = .comma) :
    (identsThenSeparator (t :: after :: more)).1 = (identsThenSeparator more).1 := by
  simp [identsThenSeparator, ident, comma]

/-- Looser streams in a block agree on whether they begin with names and a separator. -/
theorem Loose.identsThenSeparator_eq {ph : Phase} {far ts us : List Token}
    (loose : Loose far ⟨.block :: stack, ph⟩ ts us) (other : ph ≠ .opened) :
    (identsThenSeparator ts).1 = (identsThenSeparator us).1 := by
  have heads := loose.apart.in_block other
  by_cases ident : firstKind ts = .ident
  · have ident' : firstKind us = .ident := by
      obtain same | ⟨semicolon, -⟩ := heads
      · rw [← same, ident]
      · rw [semicolon] at ident
        cases ident
    obtain ⟨t, ts, rfl, name⟩ := of_firstKind ident nofun
    obtain ⟨u, us, rfl, same, rest⟩ := loose.behind (ident'.trans name.symm) (by rw [name]; rfl)
    have name' : u.kind = .ident := ident'
    have naming : Naming (.block :: stack) ph := .inr (.inr rfl)
    obtain ⟨ph', took, named⟩ := naming.take
    rw [step_plain plain_block, name, took] at rest
    by_cases comma : firstKind ts = .comma
    · have comma' := (named.agree rest.apart).mp comma
      obtain ⟨after, more, rfl, behind⟩ := of_firstKind comma nofun
      obtain ⟨after', more', rfl, -, rest⟩ := rest.behind (comma'.trans behind.symm)
        (by rw [behind]; rfl)
      obtain ⟨ph'', took, -, other, -⟩ := named.take
      rw [step_plain plain_block, behind, took] at rest
      rw [identsThenSeparator_comma name behind, identsThenSeparator_comma name' comma']
      exact rest.identsThenSeparator_eq other
    · have comma' := mt (named.agree rest.apart).mpr comma
      rw [identsThenSeparator_last name comma, identsThenSeparator_last name' comma']
      exact Bool.eq_iff_iff.mpr (rest.apart.isSeparator_iff (Phase.isQuiet_of_isEnd named.isEnd))
  · have ident' : firstKind us ≠ .ident := by
      obtain same | ⟨-, newline, -⟩ := heads
      · rwa [← same]
      · rw [newline]
        nofun
    rw [identsThenSeparator_of_ne ident, identsThenSeparator_of_ne ident']
termination_by ts.length

/-- What stands behind a name of a line of names. -/
def BehindName (tokens : List Token) : Prop :=
  (firstKind tokens).isSeparator = true ∨
    firstKind tokens = .comma ∧ (identsThenSeparator tokens.tail).1 = true

theorem behindName_tail {tokens : List Token} (ahead : (identsThenSeparator tokens).1 = true) :
    firstKind tokens = .ident ∧ BehindName tokens.tail := by
  by_cases ident : firstKind tokens = .ident
  · obtain ⟨t, rest, rfl, name⟩ := of_firstKind ident nofun
    refine ⟨ident, ?_⟩
    by_cases comma : firstKind rest = .comma
    · obtain ⟨after, more, rfl, behind⟩ := of_firstKind comma nofun
      exact .inr ⟨comma, by rwa [identsThenSeparator_comma name behind] at ahead⟩
    · exact .inl (by rwa [identsThenSeparator_last name comma] at ahead)
  · rw [identsThenSeparator_of_ne ident] at ahead
    cases ahead

theorem eat_ok {k : Kind} {found : Option Token} {c c' : Cursor} (run : eat k c = .ok found c') :
    (c.token 0).kind = k ∧ found.isSome = true ∧ c'.upcoming = c.upcoming.tail ∨
      (c.token 0).kind ≠ k ∧ found = none ∧ c'.upcoming = c.upcoming := by
  rw [eat_run] at run
  split at run
  next shown =>
    cases run
    exact .inl ⟨shown, rfl, by simp⟩
  next other =>
    cases run
    exact .inr ⟨other, rfl, by simp⟩

theorem expect_ok {k : Kind} {what : String} {t : Token} {c c' : Cursor}
    (run : expect k what c = .ok t c') : c'.upcoming = c.upcoming.tail := by
  obtain ⟨found, mid, ate, rest⟩ := bind_eq_ok.mp run
  obtain ⟨-, some, behind⟩ | ⟨-, rfl, -⟩ := eat_ok ate
  · obtain ⟨t', rfl⟩ := Option.isSome_iff_exists.mp some
    cases rest
    exact behind
  · cases rest

theorem kind_of_firstKind {c : Cursor} {k : Kind} (shown : firstKind c.upcoming = k)
    (going : k ≠ .eof) : (c.token 0).kind = k := by
  obtain ⟨t, rest, upcoming, word⟩ := of_firstKind shown going
  rw [Near.kind_head, upcoming]
  exact word

/-- Where a name is ahead no line ends are skipped. -/
theorem skipNewlines_ok {c c' : Cursor} (run : skipNewlines c = .ok () c')
    (ident : firstKind c.upcoming = .ident) : c'.upcoming = c.upcoming := by
  refine iterate_ends (fun _ mid => mid.upcoming = c.upcoming)
    (fun _ mid => mid.upcoming = c.upcoming)
    rfl ?_ run
  intro _ mid turn c' same run
  have shown : (mid.token 0).kind = .ident := kind_of_firstKind (by rw [same, ident]) nofun
  simp [kind, kindAt, peekAt, Bind.bind, EStateM.bind, Pure.pure, EStateM.pure, shown] at run
  obtain ⟨rfl, rfl⟩ := run
  simpa [Turn.Keeps] using same

/-- Behind parameters that were seen ahead stands the separator that was seen there. -/
theorem isSeparator_of_lambdaParams {params : List Param} {c c' : Cursor}
    (ahead : (identsThenSeparator c.upcoming).1 = true) (run : lambdaParams c = .ok params c') :
    (c'.token 0).kind.isSeparator = true := by
  have shows_ : ∀ c : Cursor, (firstKind c.upcoming).isSeparator = true →
      (c.token 0).kind = firstKind c.upcoming := by
    refine fun c separator => kind_of_firstKind rfl fun eof => ?_
    rw [eof] at separator
    cases separator
  obtain ⟨names, last, listed, rest⟩ := bind_eq_ok.mp run
  cases rest
  obtain ⟨name, mid, first, rest⟩ := bind_eq_ok.mp listed
  refine iterate_ends (fun _ c => BehindName c.upcoming)
    (fun _ c => (c.token 0).kind.isSeparator = true) ?_ ?_ rest
  · rw [expect_ok first]
    exact (behindName_tail ahead).2
  intro names c turn c' behind run
  obtain ⟨more, mid, ate_, rest⟩ := bind_eq_ok.mp run
  obtain ⟨found, mid', eaten, rest'⟩ := bind_eq_ok.mp ate_
  cases rest'
  obtain ⟨shown, some, upcoming⟩ | ⟨other, rfl, upcoming⟩ := eat_ok eaten
  · obtain separator | ⟨comma, ahead⟩ := behind
    · rw [← shows_ c separator, shown] at separator
      cases separator
    rw [some] at rest
    obtain ⟨_, skipped, skip, rest⟩ := bind_eq_ok.mp rest
    obtain ⟨name, named, expected, rest⟩ := bind_eq_ok.mp rest
    cases rest
    rw [← upcoming] at ahead
    obtain ⟨ident, behind⟩ := behindName_tail ahead
    rw [← skipNewlines_ok skip ident, ← expect_ok expected] at behind
    exact behind
  · cases rest
    obtain separator | ⟨comma, -⟩ := behind
    · rw [← upcoming] at separator
      exact (shows_ c' separator).symm ▸ separator
    · exact absurd (kind_of_firstKind comma nofun) other

/-- The parameters that stand on the line of a `do`, if there are any. -/
theorem matches_doParams :
    Matches gap ⟨.block :: stack, .fresh⟩ v
      (doParamsAhead >>= fun ahead => if ahead = true then lambdaParams else pure [])
      (doParamsAhead >>= fun ahead => if ahead = true then lambdaParams else pure [])
      fun params params' y w =>
        params = params' ∧ ∃ ph, y = ⟨.block :: stack, ph⟩ ∧ Lines ph w := by
  intro far c d params c' near seen short run
  have same := near.loose.identsThenSeparator_eq nofun
  obtain ⟨_, mid, looked, run⟩ := bind_eq_ok.mp run
  cases looked
  have body : Matches gap ⟨.block :: stack, .fresh⟩ v
      (if (identsThenSeparator c.upcoming).1 = true then lambdaParams else pure [])
      (if (identsThenSeparator c.upcoming).1 = true then lambdaParams else pure [])
      fun params params' y w => params = params' ∧ ∃ ph, y = ⟨.block :: stack, ph⟩ ∧
        ph.isQuiet = true ∧
          (ph.isEnd = true → (identsThenSeparator c.upcoming).1 = true) := by
    apply Matches.ite Iff.rfl
    · intro ahead
      apply (matches_lambdaParams plain_block (.of_isQuiet rfl)
        (.inr (.inr (rfl : (Frame.block :: stack).head? = _)))).mono
      rintro params params' y w ⟨same, ph, rfl, named⟩
      exact ⟨same, ph, rfl, Phase.isQuiet_of_isEnd named.isEnd, fun _ => ahead⟩
    · intro _
      exact .pure ⟨rfl, .fresh, rfl, rfl, nofun⟩
  obtain ⟨params', d', y, run', near', moves, params_eq, ph, rfl, quiet, ended⟩ :=
    body _ (d.receive (identsThenSeparator d.upcoming).2) params c'
      (near.receive (identsThenSeparator c.upcoming).2 _)
      ((Near.view_receive c d _ _).trans seen) (by simpa using short) run
  refine ⟨params', d', _, bind_eq_ok.mpr ⟨_, _, rfl, same ▸ run'⟩, near', Moves.stay.trans moves,
    params_eq, ph, rfl, quiet, fun ending => binaryOp?_of_isSeparator ?_⟩
  have ahead := ended ending
  rw [if_pos ahead] at run
  exact isSeparator_of_lambdaParams (by simpa using ahead) run

end Ahead

theorem matches_doBlock (free : rules.Match gap rules') (plain : Plain stack) (other : ph ≠ .case)
    (shown : v 0 = (.doWord, .doWord)) :
    Matches gap ⟨stack, ph⟩ v (doBlock rules) (doBlock rules') fun e e' y _ =>
      e.bare = e'.bare ∧ y = ⟨stack, .ended⟩ := by
  have parts : ∀ rules, doBlock rules = next >>= fun word =>
      (doParamsAhead >>= fun ahead => if ahead = true then lambdaParams else pure []) >>=
        fun params => blockBody rules word.span.start >>= fun body => place >>= fun stop =>
          pure ⟨⟨word.span.start, stop⟩, .lambda true params body⟩ := by
    intro rules
    simp only [doBlock, bind_assoc]
    refine bind_congr fun word => bind_congr fun ahead => ?_
    cases ahead <;> rfl
  rw [parts, parts]
  apply Matches.next_bind plain shown rfl (.inl other)
  intro _ _ _ _
  apply matches_doParams.bind
  rintro params _ _ w ⟨rfl, ph, rfl, lines⟩
  apply (matches_blockBody free lines).bind
  rintro body body' _ w ⟨same, rfl⟩
  apply Matches.place_bind
  intro _ _
  apply Matches.pure
  exact ⟨by simp [Expr.bare, same], rfl⟩

theorem matches_namedArg (free : rules.Match gap rules') (inside : Inside .rparen stack f)
    (level : (v 0).1 = (v 0).2) :
    Matches gap ⟨f :: stack, ph⟩ v (namedArg rules) (namedArg rules') fun a b y _ =>
      Prod.map id Expr.bare a = Prod.map id Expr.bare b ∧ Stays (f :: stack) Phase.isEnd y := by
  apply Matches.name_bind inside.plain (.of_eq level)
  intro name name' ph text ended
  apply Matches.colon_bind inside ended
  intro ph w rests level
  apply (free.operand (inside.starts_fresh rests level)).bind
  rintro value value' y w ⟨value_eq, stays⟩
  apply Matches.pure
  exact ⟨by simp [value_eq, text], stays⟩

theorem matches_callEnd (free : rules.Match gap rules') (inside : Inside .rparen stack f)
    (plain : Plain stack) (level : (v 0).1 = (v 0).2) (other : ph ≠ .case) :
    Matches gap ⟨f :: stack, ph⟩ v (callEnd rules) (callEnd rules') fun a b y _ =>
      a.2.map Expr.bare = b.2.map Expr.bare ∧ Stays stack Phase.isEnd y := by
  apply Matches.close_bind inside level other
  intro _ _
  apply Matches.level (.of_isQuiet (by rfl))
  intro level
  apply Matches.kind_bind
  apply Matches.ite (level.agree rfl)
  · intro shown
    apply (matches_doBlock free plain (by nofun)
      (Prod.ext shown ((level.agree rfl).mp shown))).bind
    rintro body body' _ _ ⟨same, rfl⟩
    apply Matches.pure
    exact ⟨by simp [same], .ended, rfl, rfl⟩
  · intro _
    exact .pure ⟨rfl, .closed, rfl, rfl⟩

theorem matches_call (free : rules.Match gap rules') (plain : Plain stack) (other : ph ≠ .case)
    (shown : v 0 = (.lparen, .lparen)) {callee callee' : Expr}
    (callee_eq : callee.bare = callee'.bare) :
    Matches gap ⟨stack, ph⟩ v (call rules callee) (call rules' callee') fun e e' y _ =>
      e.bare = e'.bare ∧ Stays stack Phase.isEnd y := by
  apply Matches.next_bind plain shown rfl (.inl other)
  intro _ _ _ _
  have inside : Inside .rparen stack .parens := ⟨rfl, plain.ne_nil⟩
  apply Matches.skipOpen_bind inside (by rfl)
  intro w level
  apply Matches.kind_bind
  -- Whether arguments are named is seen from the first two tokens.
  apply Matches.ite_bind (fun a b y _ => a = b ∧ y = ⟨.parens :: stack, .opened⟩)
    (by rw [level])
  · intro shown
    apply Matches.second_level inside.plain (Prod.ext shown (level ▸ shown)) rfl
      (Phase.isQuiet_of_isEnd phase_ident)
    intro level
    apply Matches.kindAt_bind
    exact .pure ⟨decide_eq_decide.mpr (level.agree rfl), rfl⟩
  · intro _
    exact .pure ⟨rfl, rfl⟩
  rintro named _ _ w ⟨rfl, rfl⟩
  apply Matches.ite Iff.rfl
  · intro _
    apply (Matches.closedList inside fun _ _ _ _ _ _ inside _ level =>
      matches_namedArg free inside level).bind
    rintro args args' _ w ⟨args_eq, level, f, ph, rfl, inside, other⟩
    apply (matches_callEnd free inside plain level other).bind
    rintro ⟨stop, body⟩ ⟨stop', body'⟩ y w ⟨body_eq, stays⟩
    apply Matches.pure
    have body_eq : body.map Expr.bare = body'.map Expr.bare := body_eq
    exact ⟨by simp [Expr.bare, callee_eq, args_eq, body_eq], stays⟩
  · intro _
    apply (Matches.closedList inside fun _ _ _ _ _ _ inside opened level =>
      free.operand (inside.starts opened level)).bind
    rintro args args' _ w ⟨args_eq, level, f, ph, rfl, inside, other⟩
    apply (matches_callEnd free inside plain level other).bind
    rintro ⟨stop, body⟩ ⟨stop', body'⟩ y w ⟨body_eq, stays⟩
    apply Matches.pure
    have body_eq : body.map Expr.bare = body'.map Expr.bare := body_eq
    exact ⟨by simp [Expr.bare, callee_eq, args_eq, body_eq], stays⟩

theorem matches_indexAccess (free : rules.Match gap rules') (plain : Plain stack)
    (other : ph ≠ .case) (shown : v 0 = (.lbracket, .lbracket)) {target target' : Expr}
    (target_eq : target.bare = target'.bare) :
    Matches gap ⟨stack, ph⟩ v (indexAccess rules target) (indexAccess rules' target')
      fun e e' y _ => e.bare = e'.bare ∧ Stays stack Phase.isEnd y := by
  apply Matches.next_bind plain shown rfl (.inl other)
  intro _ _ _ _
  have inside : Inside .rbracket stack (.square .first) := ⟨rfl, plain.ne_nil⟩
  apply Matches.skipOpen_bind inside (by rfl)
  intro w level
  apply (free.operand (inside.starts (by rfl) level)).bind
  rintro index index' _ w ⟨index_eq, ph, rfl, ended⟩
  have quiet := Phase.isQuiet_of_isEnd ended
  apply Matches.skipInside_bind inside (Phase.ne_case_of_isQuiet quiet)
  intro ph w rests level
  apply Matches.close_bind inside level (Phase.ne_case_of_isQuiet (rests.isQuiet quiet))
  intro _ _
  apply Matches.pure
  exact ⟨by simp [Expr.bare, target_eq, index_eq], .ended, rfl, rfl⟩

theorem matches_fieldAccess (plain : Plain stack) (other : ph ≠ .case)
    (shown : v 0 = (.dot, .dot)) {target target' : Expr} (target_eq : target.bare = target'.bare) :
    Matches gap ⟨stack, ph⟩ v (fieldAccess target) (fieldAccess target') fun e e' y _ =>
      e.bare = e'.bare ∧ Stays stack Phase.isEnd y := by
  apply Matches.next_bind plain shown rfl (.inl other)
  intro _ _ _ _
  apply Matches.name_bind plain (.of_isQuiet (by rfl))
  intro name name' ph text ended
  apply Matches.pure
  exact ⟨by simp [Expr.bare, target_eq, text], ph, rfl, ended⟩

end Frontend.Grammar
