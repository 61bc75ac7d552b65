import Frontend.Grammar.Toplevel
import Frontend.Proofs.AlikeFiles
import Frontend.Proofs.LooseStmts

/-!
Declarations are the same on looser streams. The head of a function is done where its body begins,
and only there: line ends may be added in front of the body as in front of any statement.
-/
namespace Frontend.Grammar

open Token (Kind)
open Frontend.Grammar.Parser Context

variable {gap : ℤ} {rules rules' : Rules} {stack : List Frame} {ph : Phase} {v : View}

theorem matches_importedName (level : v.Level) :
    Matches gap ⟨.braces :: .block :: stack, ph⟩ v
      (do
        let name ← expectIdent "imported name"
        skipNewlines
        pure name.text)
      (do
        let name ← expectIdent "imported name"
        skipNewlines
        pure name.text)
      fun a b y w => id a = id b ∧ ∃ ph, y = ⟨.braces :: .block :: stack, ph⟩ ∧
        ph.isQuiet = true ∧ (w 0).1 = (w 0).2 := by
  have inside : Inside .rbrace (.block :: stack) .braces := ⟨rfl, nofun⟩
  apply Matches.name_bind inside.plain (.inr level)
  intro name name' ph text ended
  have quiet := Phase.isQuiet_of_isEnd ended
  apply Matches.skipInside_bind inside (Phase.ne_case_of_isQuiet quiet)
  intro ph' w rests same
  exact .pure ⟨text, ph', rfl, rests.isQuiet quiet, same⟩

theorem matches_importEnd {parents : List String} :
    Matches gap ⟨.block :: stack, .fresh⟩ v (importEnd parents) (importEnd parents) fun a b y _ =>
      Turn.Alike (fun s t => s = t ∧ y = ⟨.block :: stack, .fresh⟩)
        (fun r r' => r = r' ∧ Stays (.block :: stack) Phase.isQuiet y) a b := by
  have here : (⟨.block :: stack, .fresh⟩ : Context).phase ≠ .case := nofun
  apply Matches.kind_cases (.of_isQuiet (by rfl))
  · intro k shown
    split
    · apply Matches.next_bind plain_block shown rfl (.inl here)
      intro _ _ _ _
      exact .pure ⟨rfl, .fresh, rfl, rfl⟩
    · apply Matches.next_bind plain_block shown rfl (.inl here)
      intro _ _ _ _
      have inside : Inside .rbrace (.block :: stack) .braces := ⟨rfl, nofun⟩
      apply Matches.skipOpen_bind inside rfl
      intro w same
      apply (Matches.commaList (fun _ w => w.Level)
        (fun ph w => ph.isQuiet = true ∧ (w 0).1 = (w 0).2) inside.plain
        (matches_importedName (.inl same)) (fun _ _ level => matches_importedName level) ?_ ?_).bind
      · rintro names names' _ w ⟨names_eq, ph, rfl, ⟨quiet, same⟩, -⟩
        apply Matches.close_bind inside same (Phase.ne_case_of_isQuiet quiet)
        intro _ _
        rw [List.map_id, List.map_id] at names_eq
        exact .pure ⟨congrArg (Prod.mk _) names_eq, .ended, rfl, rfl⟩
      · intro ph w done _
        exact ⟨by rw [done.2], Phase.ne_case_of_isQuiet done.1⟩
      · intro ph w _
        obtain ⟨f, ph', took, -, opened⟩ := inside.comma ph
        obtain rfl : .braces = f := (List.cons.inj (congrArg Context.stack took)).1
        exact ⟨ph', took, opened, fun _ level => level⟩
    · apply Matches.expect_clear plain_block (.of_isQuiet (by rfl)) (.inr rfl) rfl rfl
      intro t u word
      have text : t.text = u.text := congrArg Prod.snd word
      apply Matches.ate_clear plain_block (.of_isQuiet (by rfl)) (by nofun) rfl rfl
      · intro _
        exact .pure ⟨by rw [text], rfl⟩
      · intro _
        exact .pure ⟨by rw [text], .ended, rfl, rfl⟩
    · exact .unexpected
  · intro i j _ pause _
    obtain rfl | rfl | rfl | rfl | rfl | rfl | rfl := of_isPause pause <;> exact .unexpected

theorem matches_importDecl (other : ph ≠ .case) (shown : v 0 = (.importWord, .importWord)) :
    Matches gap ⟨.block :: stack, ph⟩ v importDecl importDecl fun i i' y _ =>
      ({ i with span := default } : Import) = { i' with span := default } ∧
        Stays (.block :: stack) Phase.isQuiet y := by
  have ends : ∀ first w, Matches gap ⟨.block :: stack, .fresh⟩ w (iterate importEnd [first])
      (iterate importEnd [first]) fun r r' y _ =>
        r = r' ∧ Stays (.block :: stack) Phase.isQuiet y := by
    intro first w
    apply Matches.iterate fun s t y _ => s = t ∧ y = ⟨.block :: stack, .fresh⟩
    · exact ⟨rfl, rfl⟩
    rintro s _ _ w ⟨rfl, rfl⟩
    exact matches_importEnd
  have dot : ∀ w, Matches gap ⟨.block :: stack, .fresh⟩ w (ate .dot) (ate .dot) fun r r' y _ =>
      r = r' ∧ y = ⟨.block :: stack, .fresh⟩ := by
    intro w
    rw [← bind_pure (ate .dot)]
    apply Matches.ate_clear plain_block (.of_isQuiet (by rfl)) (by nofun) rfl rfl
    · intro _
      exact .pure ⟨rfl, rfl⟩
    · intro _
      exact .pure ⟨rfl, rfl⟩
  apply Matches.next_bind plain_block shown rfl (.inl other)
  intro _ _ _ _
  apply (dot _).bind
  rintro relative _ _ w ⟨rfl, rfl⟩
  apply Matches.expect_clear plain_block (.of_isQuiet (by rfl)) (.inr rfl) rfl rfl
  intro t u word
  have text : t.text = u.text := congrArg Prod.snd word
  apply Matches.expect_clear plain_block (.of_isQuiet (by rfl)) (.inl (by nofun)) rfl rfl
  intro _ _ _
  rw [text]
  apply (ends _ _).bind
  rintro ⟨parents, imported⟩ _ y w ⟨rfl, stays⟩
  apply Matches.place_bind
  intro _ _
  apply Matches.tell_bind
  exact .pure ⟨rfl, stays⟩

/-- Both runs see the same behind the separators in a block. -/
theorem Matches.separatorsEnd_bind {γ δ : Type} {final : γ → δ → Context → View → Prop}
    {k : Kind → Parser γ} {l : Kind → Parser δ} (quiet : ph.isQuiet = true)
    (then_ : ∀ kind, v.Past Kind.isSeparator kind →
      Matches gap ⟨.block :: stack, ph⟩ v (k kind) (l kind) final) :
    Matches gap ⟨.block :: stack, ph⟩ v (separatorsEnd 0 >>= fun n => kindAt n >>= k)
      (separatorsEnd 0 >>= fun n => kindAt n >>= l) final := by
  rintro far c d a c' near rfl short run
  have closed : (⟨.block :: stack, ph⟩ : Context).isOpen = false := Phase.isOpen_of_isQuiet quiet
  obtain ⟨ph', c₁, d₁, skipped, skipped', rests, -, near₁, -⟩ :=
    near.skip plain_block ⟨Phase.ne_case_of_isQuiet quiet, .inl ⟨closed, rfl⟩⟩
  have same : (c₁.token 0).kind = (d₁.token 0).kind := by
    obtain same | ⟨-, newline, -⟩ :=
      near₁.apart.in_block (Phase.ne_opened_of_isQuiet (rests.isQuiet quiet))
    · exact same
    · have done := skipped'.done
      rw [show (d₁.token 0).kind = .newline from newline] at done
      cases done
  obtain ⟨before, stops⟩ := skipped.ahead
  obtain ⟨before', stops'⟩ := skipped'.ahead
  have head : ∀ {β : Type} {k : Kind → Parser β} (c : Cursor),
      (separatorsEnd 0 >>= fun n => kindAt n >>= k) c =
        k (c.token (c.upcoming.takeWhile (·.kind.isSeparator)).length).kind
          ((c.receive (0 + (c.upcoming.takeWhile (·.kind.isSeparator)).length)).receive
            (0 + (c.upcoming.takeWhile (·.kind.isSeparator)).length)) := by
    intro β k c
    simp [separatorsEnd, kindAt, peekAt, Bind.bind, EStateM.bind, Pure.pure, EStateM.pure]
  rw [head] at run ⊢
  rw [← skipped'.found before' stops', ← same, skipped.found before stops]
  obtain ⟨b, d', y, run', near', moves, held⟩ := then_ _ ⟨stops, _, rfl, before⟩ _ _ a c'
    ((near.receive _ _).receive _ _)
    ((Near.view_receive _ _ _ _).trans (Near.view_receive c d _ _)) (by simpa using short) run
  refine ⟨b, d', y, run', near', ?_, held⟩
  exact (Moves.stay.trans Moves.stay).trans moves

/-- A line may end where a token follows that goes on with no operand, maybe behind separators. -/
theorem Lines.of_past {k : Kind} (quiet : ph.isQuiet = true) (past : v.Past Kind.isSeparator k)
    (other : binaryOp? k = none) : Lines ph v := by
  refine ⟨quiet, fun _ => ?_⟩
  obtain ⟨-, n, rfl, before⟩ := past
  cases n with
  | zero => exact other
  | succ n => exact binaryOp?_of_isSeparator (before 0 (Nat.succ_pos n))

theorem hosts_block : Hosts fun _ => .block := .other nofun

theorem matches_enumCases (free : rules.Match gap rules') (quiet : ph.isQuiet = true) :
    Matches gap ⟨.block :: stack, ph⟩ v (enumCases rules) (enumCases rules') fun cases cases' y _ =>
      cases.map (Prod.map id (Option.map TypeExpr.bare)) =
        cases'.map (Prod.map id (Option.map TypeExpr.bare)) ∧
          Stays (.block :: stack) Phase.isQuiet y := by
  apply Matches.iterate fun found found' y _ =>
    found.map (Prod.map id (Option.map TypeExpr.bare)) =
      found'.map (Prod.map id (Option.map TypeExpr.bare)) ∧ Stays (.block :: stack) Phase.isQuiet y
  · exact ⟨rfl, ph, rfl, quiet⟩
  rintro found found' _ w ⟨known, ph, rfl, quiet⟩
  apply Matches.separatorsEnd_bind quiet
  intro kind past
  apply Matches.ite Iff.rfl
  · rintro rfl
    apply Matches.skipSeparators_bind (.of_past quiet past (by rfl))
    intro ph w lines same _ reached
    have shown : w 0 = (.caseWord, .caseWord) := Prod.ext (reached _ past) (same ▸ reached _ past)
    apply Matches.next_bind plain_block shown rfl (.inl (Phase.ne_case_of_isQuiet lines.quiet))
    intro _ _ _ _
    apply Matches.expect_clear plain_block (.of_isQuiet (by rfl)) (.inr rfl) rfl rfl
    intro t u word
    have text : t.text = u.text := congrArg Prod.snd word
    apply Matches.level (.of_isQuiet (by rfl))
    intro level
    apply Matches.kind_bind
    apply Matches.ite (level.agree rfl)
    · intro _
      apply (matches_recordOrTupleType free hosts_block (.of_isQuiet (by rfl)) (by nofun)).bind
      rintro payload payload' y w ⟨payload_eq, ph, rfl, ended⟩
      apply Matches.pure
      exact ⟨by simp [payload_eq, known, text], ph, rfl, Phase.isQuiet_of_isEnd ended⟩
    · intro _
      apply Matches.pure
      exact ⟨by simp [known, text], .ended, rfl, rfl⟩
  · intro _
    apply Matches.pure
    exact ⟨by simp [known], ph, rfl, quiet⟩

theorem matches_typeDecl (free : rules.Match gap rules') (other : ph ≠ .case)
    (shown : v 0 = (.typeWord, .typeWord)) :
    Matches gap ⟨.block :: stack, ph⟩ v (typeDecl rules) (typeDecl rules') fun a b y _ =>
      a.bare = b.bare ∧ Stays (.block :: stack) Phase.isQuiet y := by
  apply Matches.next_bind plain_block shown rfl (.inl other)
  intro _ _ _ _
  apply Matches.expect_clear plain_block (.of_isQuiet (by rfl)) (.inr rfl) rfl rfl
  intro t u word
  have text : t.text = u.text := congrArg Prod.snd word
  apply (matches_enumCases free (by rfl)).bind
  rintro members members' _ w ⟨same, ph, rfl, quiet⟩
  have empty : members.isEmpty = members'.isEmpty := by
    simpa using congrArg List.isEmpty same
  rw [empty]
  apply Matches.ite Iff.rfl
  · intro _
    apply (free.typeExpr hosts_block (.of_isQuiet quiet) (Phase.ne_case_of_isQuiet quiet)).bind
    rintro type type' y w ⟨type_eq, -, -, stays⟩
    apply Matches.pure
    exact ⟨by simp [Toplevel.bare, type_eq, text], stays.isQuiet⟩
  · intro _
    apply Matches.place_bind
    intro _ _
    apply Matches.pure
    exact ⟨by simp [Toplevel.bare, same, text], ph, rfl, quiet⟩

section Heads

variable {place : Head → Frame} {h : Head} {kind : Kind} {g : String → Head}

/-- The head of a function does not go on with a token of a kind. -/
def Head.Stops (h : Head) (k : Kind) : Prop := ∀ t : Token, t.kind = k → h.next t = none

theorem Head.Ends.stops {k : Kind} (ends : h.Ends k) : h.Stops k := by
  rintro ⟨kind, text, span⟩ rfl
  obtain rfl | ⟨rfl, colons, brace⟩ := ends
  · rfl
  · unfold Head.next
    split <;> simp_all

/-- In front of the result of a function, or of its body. -/
def Head.AwaitsResult (h : Head) (k : Kind) : Prop :=
  (∀ text span, h.next ⟨.colon, text, span⟩ = some .result) ∧ (k ≠ .colon → h.Stops k)

theorem Head.named_awaitsResult {k : Kind} (parens : k ≠ .lparen) : Head.named.AwaitsResult k := by
  refine ⟨fun _ _ => rfl, ?_⟩
  rintro colon ⟨kind, text, span⟩ rfl
  unfold Head.next
  split <;> simp_all

theorem Head.params_awaitsResult {k : Kind} : Head.params.AwaitsResult k := by
  refine ⟨fun _ _ => rfl, ?_⟩
  rintro colon ⟨kind, text, span⟩ rfl
  unfold Head.next
  split <;> simp_all

namespace Matches

variable {α β γ δ : Type} {final : γ → δ → Context → View → Prop} {p : Parser α} {q : Parser β}
  {post : α → β → Context → View → Prop}

/-- Both runs take a token that the head of a function may go on with, or neither does. -/
theorem ate_place {k : Bool → Parser γ} {l : Bool → Parser δ} (hosts : Hosts place)
    (clear : Clear ph v) (other : ph ≠ .case) (solid : isSolid kind = true)
    (pause : isPause kind = false) (next : ∀ text span, h.next ⟨kind, text, span⟩ = some (g text))
    (found : v 0 = (kind, kind) → ∀ text,
      Matches gap ((⟨place (g text) :: stack, ph⟩ : Context).take kind) v.tail (k true) (l true)
        final)
    (none_ : (v 0).1 ≠ kind → Matches gap ⟨place h :: stack, ph⟩ v (k false) (l false) final) :
    Matches gap ⟨place h :: stack, ph⟩ v (ate kind >>= k) (ate kind >>= l) final := by
  apply Matches.level clear
  intro level
  refine ate_step (level.agree pause) solid (.inl other) ?_ fun absent _ => none_ absent
  rintro shown ⟨_, text, span⟩ rfl
  rw [hosts.step (next text span)]
  exact found shown text

/-- The head of a function is done in front of its body, of which at least one token is taken. -/
theorem settle (mid : α → β → Context → View → Prop) (quiet : ph.isQuiet = true)
    (stops : h.Stops (v 0).1) (body : Matches gap ⟨.block :: stack, .fresh⟩ v p q mid)
    (then_ : ∀ a b y w, mid a b y w → y ≠ ⟨.block :: stack, .fresh⟩ ∧ post a b y w) :
    Matches gap ⟨.head h :: stack, ph⟩ v p q post := by
  rintro far c d a c' near rfl short run
  have step_eq : ∀ t ts, c.upcoming = t :: ts →
      (⟨.head h :: stack, ph⟩ : Context).step t = (⟨.block :: stack, .fresh⟩ : Context).step t := by
    intro t ts upcoming
    have first : (c.token 0).kind = t.kind := by simp [Cursor.token, upcoming]
    simp [Context.step, stops t first.symm]
  have ends : ∀ t, c.upcoming.head? = some t → h.next t = none := by
    intro t found
    exact stops t (by simp [view, Near.kind_head, found])
  have known : c.upcoming.map Token.word = d.upcoming.map Token.word ∨
      ∃ z, (⟨.block :: stack, .fresh⟩ : Context).Leads c.upcoming z := by
    obtain words | ⟨z, leads⟩ := near.known
    · exact .inl words
    · generalize upcoming : c.upcoming = ts at leads
      cases leads with
      | stay => exact .inr ⟨_, .stay⟩
      | take accepts rest =>
        rw [step_eq _ _ upcoming] at rest
        have begins : (⟨.block :: stack, .fresh⟩ : Context).phase ≠ .case :=
          Phase.ne_case_of_isQuiet rfl
        exact .inr ⟨z, .take ⟨fun _ => rfl, fun behind => absurd behind begins⟩ rest⟩
  obtain ⟨b, d', y, run', near', moves, held⟩ := body c d a c'
    ⟨near.left, near.right, near.last, near.loose.settle quiet ends, known⟩ rfl short run
  obtain ⟨onward, held⟩ := then_ a b y _ held
  refine ⟨b, d', y, run', near', ⟨?_, moves.pace⟩, held⟩
  obtain ⟨taken, upcoming, leads⟩ := moves.leads
  refine ⟨taken, upcoming, ?_⟩
  cases leads with
  | stay => exact absurd rfl onward
  | take accepts rest =>
    rw [← step_eq _ _ upcoming] at rest
    have closed : (⟨.head h :: stack, ph⟩ : Context).isOpen = false := Phase.isOpen_of_isQuiet quiet
    exact .take ⟨fun _ => closed, fun behind => absurd behind (Phase.ne_case_of_isQuiet quiet)⟩ rest

end Matches

end Heads

theorem matches_param (free : rules.Match gap rules') {f : Frame} (inside : Inside .rparen stack f)
    (same : (v 0).1 = (v 0).2) :
    Matches gap ⟨f :: stack, ph⟩ v (param rules) (param rules') fun a b y _ =>
      a.bare = b.bare ∧ Stays (f :: stack) Phase.isEnd y := by
  apply Matches.name_bind inside.plain (.of_eq same)
  intro name name' ph text ended
  have quiet := Phase.isQuiet_of_isEnd ended
  have type : Matches gap ⟨f :: stack, ph⟩ v.tail (typeAfterColon rules) (typeAfterColon rules')
      fun t t' y _ => t.map TypeExpr.bare = t'.map TypeExpr.bare ∧
        Stays (f :: stack) Phase.isEnd y := by
    apply Matches.ate_clear inside.plain (.of_isQuiet quiet) (Phase.ne_case_of_isQuiet quiet) rfl
      rfl
    · intro _
      apply (free.typeInside inside (.of_isQuiet (by rfl)) (by nofun)).bind
      rintro type type' y w ⟨type_eq, stays⟩
      apply Matches.pure
      exact ⟨by simp [type_eq], stays⟩
    · intro _
      exact .pure ⟨rfl, ph, rfl, ended⟩
  apply type.bind
  rintro type type' y w ⟨type_eq, stays⟩
  apply Matches.pure
  exact ⟨by simp [Param.bare, text, type_eq], stays⟩

/-- The result of a function, up to its body. -/
theorem matches_result {h : Head} (free : rules.Match gap rules') (quiet : ph.isQuiet = true)
    (awaits : h.AwaitsResult (v 0).1) :
    Matches gap ⟨.head h :: stack, ph⟩ v (typeAfterColon rules) (typeAfterColon rules')
      fun t t' y w => t.map TypeExpr.bare = t'.map TypeExpr.bare ∧
        ∃ h : Head, h.Stops (w 0).1 ∧ Stays (.head h :: stack) Phase.isQuiet y := by
  have hosts : Hosts Frame.head := .inl rfl
  apply Matches.ate_place (g := fun _ => .result) hosts (.of_isQuiet quiet)
    (Phase.ne_case_of_isQuiet quiet) rfl rfl awaits.1
  · intro _ _
    apply (free.typeExpr hosts (.of_isQuiet (by rfl)) (by nofun)).bind
    rintro type type' y w ⟨type_eq, h, ends, stays⟩
    apply Matches.pure
    exact ⟨by simp [type_eq], h, ends.stops, stays.isQuiet⟩
  · intro absent
    exact .pure ⟨rfl, h, awaits.2 absent, ph, rfl, quiet⟩

theorem matches_functionDecl (free : rules.Match gap rules') (other : ph ≠ .case)
    (shown : v 0 = (.funcWord, .funcWord)) :
    Matches gap ⟨.block :: stack, ph⟩ v (functionDecl rules) (functionDecl rules') fun f f' y _ =>
      (Toplevel.function f).bare = (Toplevel.function f').bare ∧
        Stays (.block :: stack) Phase.isQuiet y := by
  have hosts : Hosts Frame.head := .inl rfl
  have parens : ∀ w, Matches gap ⟨.head .named :: .block :: stack, .ended⟩ w (ate .lparen)
      (ate .lparen) fun b b' y w => b = b' ∧
        if b then y = ⟨.parens :: .head .params :: .block :: stack, .opened⟩
        else y = ⟨.head .named :: .block :: stack, .ended⟩ ∧ (w 0).1 ≠ .lparen := by
    intro w
    rw [← bind_pure (ate .lparen)]
    apply Matches.ate_place (g := fun _ => .params) hosts (.of_isQuiet (by rfl)) (by nofun) rfl rfl
      (fun _ _ => rfl)
    · intro _ _
      exact .pure ⟨rfl, rfl⟩
    · intro absent
      exact .pure ⟨rfl, rfl, absent⟩
  apply Matches.next_bind plain_block shown rfl (.inl other)
  intro _ _ _ _
  apply Matches.expect_place (g := fun _ => .named) hosts (.of_isQuiet (by rfl)) (.inr rfl) rfl rfl
    (fun _ _ => rfl)
  intro text _ _
  apply (parens _).bind
  rintro parens _ _ w ⟨rfl, there⟩
  apply Matches.ite_bind (fun params params' y w => params.map Param.bare = params'.map Param.bare ∧
    ∃ h : Head, h.AwaitsResult (w 0).1 ∧ Stays (.head h :: .block :: stack) Phase.isQuiet y) Iff.rfl
  · intro opening
    rw [if_pos opening] at there
    subst there
    have inside : Inside .rparen (.head .params :: .block :: stack) .parens := ⟨rfl, nofun⟩
    apply (Matches.closedList inside fun _ _ _ _ _ _ inside _ same =>
      matches_param free inside same).bind
    rintro params params' _ w ⟨same, level, f, ph, rfl, inside, other⟩
    apply Matches.close_bind inside level other
    intro _ _
    exact .pure ⟨same, .params, Head.params_awaitsResult, .closed, rfl, rfl⟩
  · intro absent
    rw [if_neg absent] at there
    obtain ⟨rfl, other⟩ := there
    exact .pure ⟨rfl, .named, Head.named_awaitsResult other, .ended, rfl, rfl⟩
  rintro params params' _ w ⟨params_eq, h, awaits, ph, rfl, quiet⟩
  apply (matches_result free quiet awaits).bind
  rintro result result' _ w ⟨result_eq, h, stops, ph, rfl, quiet⟩
  apply Matches.settle (fun f f' y _ => (Toplevel.function f).bare = (Toplevel.function f').bare ∧
    y = ⟨.block :: stack, .ended⟩) quiet stops
  · apply (matches_block free (by simp [binaryOp?]) .fresh).bind
    rintro body body' _ w ⟨body_eq, ph, rfl, quiet⟩
    apply Matches.end_bind quiet
    intro _ _ w
    apply Matches.tell_bind
    apply Matches.pure
    exact ⟨by simp [Toplevel.bare, params_eq, result_eq, body_eq], rfl⟩
  · rintro f f' _ w ⟨same, rfl⟩
    exact ⟨by simp, same, .ended, rfl, rfl⟩

/-- A declaration ends where a line may end. -/
theorem matches_toplevel (free : rules.Match gap rules') (quiet : ph.isQuiet = true) :
    Matches gap ⟨.block :: stack, ph⟩ v (toplevel rules) (toplevel rules') fun a b y _ =>
      a.bare = b.bare ∧ Stays (.block :: stack) Phase.isQuiet y := by
  have other := Phase.ne_case_of_isQuiet quiet
  apply Matches.kind_cases (.of_isQuiet quiet)
  · intro k shown
    split
    · apply (matches_importDecl other shown).bind
      rintro decl decl' y w ⟨same, stays⟩
      exact .pure ⟨congrArg Toplevel.importing same, stays⟩
    · exact matches_typeDecl free other shown
    · apply (matches_functionDecl free other shown).bind
      rintro decl decl' y w ⟨same, stays⟩
      exact .pure ⟨same, stays⟩
    · exact .unexpected
  · intro i j _ pause _
    obtain rfl | rfl | rfl | rfl | rfl | rfl | rfl := of_isPause pause <;> exact .unexpected

theorem matches_toplevelItem (free : rules.Match gap rules') (quiet : ph.isQuiet = true) :
    Matches gap ⟨.block :: stack, ph⟩ v (toplevelItem rules) (toplevelItem rules') fun a b y w =>
      a.bare = b.bare ∧ ∃ ph, y = ⟨.block :: stack, ph⟩ ∧ Lines ph w := by
  apply (matches_toplevel free quiet).bind
  rintro decl decl' _ w ⟨same, ph, rfl, quiet⟩
  apply Matches.ahead
  intro apart
  apply Matches.kind_bind
  apply Matches.ite
  · obtain same | ⟨semicolon, newline, -⟩ := apart.in_block (Phase.ne_opened_of_isQuiet quiet)
    · rw [same]
    · rw [semicolon, newline]
      exact iff_of_true (.inl rfl) (.inl rfl)
  · intro ends
    refine .pure ⟨same, ph, rfl, quiet, fun _ => ?_⟩
    obtain separator | last := ends
    · exact binaryOp?_of_isSeparator separator
    · rw [last]
      rfl
  · intro _
    exact .unexpected

end Frontend.Grammar
