import Frontend.Grammar.Stmt
import Frontend.Proofs.LooseExprs

/-!
Statements are the same on looser streams. What a `for` begins with is told by the braces and the
word behind them, and both streams have the same braces.
-/
namespace Frontend.Grammar

open Token (Kind)
open Frontend.Grammar.Parser Context

variable {gap : ℤ} {rules rules' : Rules} {stack : List Frame} {ph : Phase} {v : View}

section Ahead

variable {far : List Token} {x : Context} {c d : Cursor} {ts us : List Token}

/-- Where the name in front of a destructuring ends. -/
def nameEnd (tokens : List Token) : Nat :=
  if firstKind tokens = .ident then if firstKind (tokens.drop 1) = .colonColon then 3 else 1 else 0

/-- Where a destructuring ends that tokens may begin with. -/
def targetEnd (tokens : List Token) : Nat :=
  if firstKind (tokens.drop (nameEnd tokens)) = .lbrace then
    nameEnd tokens + bracesSize 0 (tokens.drop (nameEnd tokens))
  else nameEnd tokens

/-- A destructuring and `in` stand at the head of some tokens, as far as a look ahead tells. -/
def ThenIn (tokens : List Token) : Prop :=
  targetEnd tokens ≠ 0 ∧ firstKind (tokens.drop (targetEnd tokens)) = .inWord

instance : Decidable (ThenIn ts) := inferInstanceAs (Decidable (_ ∧ _))

/-- What a look ahead sees of a kind that no stream ends with. -/
theorem Cursor.Proper.kind_token (proper : c.Proper) {k : Kind} (going : k.isTerminal = false)
    (n : Nat) : (c.token n).kind = k ↔ firstKind (c.upcoming.drop n) = k := by
  unfold Cursor.token firstKind
  rw [List.head?_drop]
  cases c.upcoming[n]? with
  | some t => rfl
  | none =>
    have ends := proper.ends
    constructor
    · rintro rfl
      simp only [Option.getD_none] at going
      rw [going] at ends
      cases ends
    · rintro rfl
      cases going

/-- A cursor that has only looked ahead. -/
structure Cursor.Still (c c' : Cursor) : Prop where
  upcoming : c'.upcoming = c.upcoming
  last : c'.last = c.last

theorem Cursor.Still.token (still : c.Still d) (n : Nat) : d.token n = c.token n := by
  unfold Cursor.token
  rw [still.upcoming, still.last]

theorem Cursor.Still.receive (still : c.Still d) (n : Nat) : c.Still (d.receive n) :=
  ⟨by simpa using still.upcoming, by simpa using still.last⟩

theorem Cursor.Still.kindAt_bind {α : Type} {a : α} {n : Nat} {k : Kind → Parser α}
    (still : c.Still d)
    (then_ : ∀ d, c.Still d → ∃ c', c.Still c' ∧ k (c.token n).kind d = .ok a c') :
    ∃ c', c.Still c' ∧ (kindAt n >>= k) d = .ok a c' := by
  obtain ⟨c', still', run⟩ := then_ _ (still.receive n)
  refine ⟨c', still', bind_eq_ok.mpr ⟨(c.token n).kind, d.receive n, ?_, run⟩⟩
  simp [kindAt, peekAt, Bind.bind, EStateM.bind, Pure.pure, EStateM.pure, still.token]

/-- Looking ahead brings no two cursors apart. -/
theorem Near.still {c' d' : Cursor} (near : Near far x c d) (still : c.Still c')
    (still' : d.Still d') :
    Near far x c' d' where
  left := ⟨still.upcoming ▸ near.left.plain, still.last ▸ near.left.ends⟩
  right := ⟨still'.upcoming ▸ near.right.plain, still'.last ▸ near.right.ends⟩
  last := by rw [still.last, still'.last, near.last]
  loose := by rw [still.upcoming, still'.upcoming]; exact near.loose
  known := by rw [still.upcoming, still'.upcoming]; exact near.known

/-- Behind the end of a destructuring the look ahead for `in` is answered. -/
theorem Cursor.Still.answersThenIn (proper : c.Proper) (still : c.Still d) :
    ∃ c', c.Still c' ∧ (if targetEnd c.upcoming = 0 then pure false else do
      let after ← kindAt (targetEnd c.upcoming)
      pure (after = .inWord) : Parser Bool) d = .ok (decide (ThenIn c.upcoming)) c' := by
  unfold ThenIn
  by_cases none : targetEnd c.upcoming = 0
  · rw [if_pos none]
    exact ⟨d, still, by simp [none, Pure.pure, EStateM.pure]⟩
  · rw [if_neg none]
    refine still.kindAt_bind fun d still => ⟨d, still, ?_⟩
    simp [none, proper.kind_token (k := .inWord) rfl, Pure.pure, EStateM.pure]

/-- So it is behind the name that the destructuring begins with, if it has one. -/
theorem Cursor.Still.stopsThenIn (proper : c.Proper) (still : c.Still d) :
    ∃ c', c.Still c' ∧ (do
      let stop ← if (← kindAt (nameEnd c.upcoming)) = .lbrace
        then bracesEnd (nameEnd c.upcoming) else pure (nameEnd c.upcoming)
      if stop = 0 then pure false else do
        let after ← kindAt stop
        pure (after = .inWord) : Parser Bool) d = .ok (decide (ThenIn c.upcoming)) c' := by
  refine still.kindAt_bind fun d still => ?_
  by_cases brace : (c.token (nameEnd c.upcoming)).kind = .lbrace
  · have here : targetEnd c.upcoming = _ :=
      if_pos ((proper.kind_token (k := .lbrace) rfl _).mp brace)
    obtain ⟨c', still', run⟩ := (still.receive (targetEnd c.upcoming)).answersThenIn proper
    rw [here] at run
    rw [if_pos brace]
    refine ⟨c', still', bind_eq_ok.mpr ⟨_, _, rfl, ?_⟩⟩
    rw [still.upcoming]
    exact run
  · have here : targetEnd c.upcoming = _ :=
      if_neg (mt (proper.kind_token (k := .lbrace) rfl _).mpr brace)
    obtain ⟨c', still', run⟩ := still.answersThenIn proper
    rw [here] at run
    rw [if_neg brace]
    exact ⟨c', still', bind_eq_ok.mpr ⟨_, _, rfl, run⟩⟩

/-- What a look ahead for a destructuring and `in` sees. -/
theorem destructuringThenIn_eq (proper : c.Proper) :
    ∃ c', c.Still c' ∧ destructuringThenIn c = .ok (decide (ThenIn c.upcoming)) c' := by
  have stops : ∀ d n, n = nameEnd c.upcoming → c.Still d → ∃ c', c.Still c' ∧ (do
      let stop ← if (← kindAt n) = .lbrace then bracesEnd n else pure n
      if stop = 0 then pure false else do
        let after ← kindAt stop
        pure (after = .inWord) : Parser Bool) d = .ok (decide (ThenIn c.upcoming)) c' := by
    rintro d _ rfl still
    exact still.stopsThenIn proper
  have here : c.Still c := ⟨rfl, rfl⟩
  have first := proper.kind_token (k := .ident) rfl 0
  have second := proper.kind_token (k := .colonColon) rfl 1
  refine here.kindAt_bind fun d still => ?_
  by_cases ident : (c.token 0).kind = .ident
  · rw [if_pos ident]
    refine still.kindAt_bind fun d still => ?_
    by_cases colons : (c.token 1).kind = .colonColon
    · rw [if_pos colons]
      exact stops d 3 ((if_pos (first.mp ident)).trans (if_pos (second.mp colons))).symm still
    · rw [if_neg colons]
      exact stops d 1 ((if_pos (first.mp ident)).trans (if_neg (mt second.mpr colons))).symm still
  · rw [if_neg ident]
    exact stops d 0 (if_neg (mt first.mpr ident)).symm still

/-- A token opens one pair of braces at most, and closes one at most. -/
theorem count_stackAfter (x : Context) (k : Kind) :
    x.stack.count .braces + (if k = .lbrace then 1 else 0) ≤
      (x.stackAfter k).count .braces + if k = .rbrace then 1 else 0 := by
  obtain ⟨stack, ph⟩ := x
  cases k
  case rparen | rbracket | rbrace | endWord | comma | fatArrow =>
    rcases stack with _ | ⟨_ | _ | _ | (_ | _ | _) | _, stack⟩ <;> simp [stackAfter]
  all_goals simp [stackAfter]

/-- A token is taken in a context that is the one in front of it, or that takes the place of the
head of a function there. -/
theorem step_eq_take (x : Context) (t : Token) :
    ∃ y : Context, x.step t = y.take t.kind ∧ y.stack.count .braces = x.stack.count .braces := by
  obtain ⟨stack, ph⟩ := x
  match stack with
  | .head h :: outer =>
    cases next : h.next t with
    | some h' => exact ⟨⟨.head h' :: outer, ph⟩, by simp only [Context.step, next], by simp⟩
    | none => exact ⟨⟨.block :: outer, .fresh⟩, by simp only [Context.step, next], by simp⟩
  | [] | .block :: _ | .parens :: _ | .square _ :: _ | .braces :: _ => exact ⟨_, rfl, rfl⟩

theorem count_step (x : Context) (t : Token) :
    x.stack.count .braces + (if t.kind = .lbrace then 1 else 0) ≤
      (x.step t).stack.count .braces + if t.kind = .rbrace then 1 else 0 := by
  obtain ⟨y, stepped, same⟩ := step_eq_take x t
  rw [stepped, ← same]
  exact count_stackAfter y t.kind

theorem phase_step_rbrace {t : Token} (brace : t.kind = .rbrace) : (x.step t).phase = .ended := by
  obtain ⟨y, stepped, -⟩ := step_eq_take x t
  rw [stepped, brace]
  rfl

/-- The tokens behind the brace that closes some open ones. -/
def behindBraces (depth : Nat) (tokens : List Token) : List Token :=
  tokens.drop (bracesSize depth tokens)

section Braces

variable {t : Token} {depth : Nat}

theorem behindBraces_opening (opening : t.kind = .lbrace) :
    behindBraces depth (t :: ts) = behindBraces (depth + 1) ts := by
  simp [behindBraces, bracesSize, opening, Nat.add_comm 1]

theorem behindBraces_closing (closing : t.kind = .rbrace) :
    behindBraces (depth + 1) (t :: ts) = if depth = 0 then ts else behindBraces depth ts := by
  cases depth with
  | zero => simp [behindBraces, bracesSize, closing]
  | succ depth => simp [behindBraces, bracesSize, closing, Nat.add_comm 1]

theorem behindBraces_other (opening : t.kind ≠ .lbrace) (closing : t.kind ≠ .rbrace) :
    behindBraces depth (t :: ts) = behindBraces depth ts := by
  simp [behindBraces, bracesSize, opening, closing, Nat.add_comm 1]

end Braces

/-- Behind braces that close both streams are in the same context, or there is nothing more. -/
theorem Loose.behindBraces {depth : Nat} (loose : Loose far x ts us)
    (opens : depth < x.stack.count .braces) :
    (∃ y, y.phase = .ended ∧
      Loose far y (behindBraces (depth + 1) ts) (behindBraces (depth + 1) us)) ∨
    behindBraces (depth + 1) ts = [] ∧ behindBraces (depth + 1) us = [] := by
  induction loose generalizing depth with
  | nil => exact .inr ⟨rfl, rfl⟩
  | @token far x t u ts us same rest ih =>
    have count := count_step x t
    have kind := kind_eq same
    by_cases opening : t.kind = .lbrace
    · rw [behindBraces_opening opening, behindBraces_opening (kind ▸ opening)]
      simp [opening] at count
      exact ih (by omega)
    by_cases closing : t.kind = .rbrace
    · rw [behindBraces_closing closing, behindBraces_closing (kind ▸ closing)]
      cases depth with
      | zero => exact .inl ⟨x.step t, phase_step_rbrace closing, rest⟩
      | succ depth =>
        simp [closing] at count
        exact ih (by omega)
    · rw [behindBraces_other opening closing, behindBraces_other (kind ▸ opening) (kind ▸ closing)]
      simp [opening, closing] at count
      exact ih (by omega)
  | @line far x t u ts us closed semicolon newline rest ih =>
    rw [behindBraces_other (by simp [semicolon]) (by simp [semicolon]),
      behindBraces_other (by simp [newline]) (by simp [newline])]
    have count := count_step x t
    simp [semicolon] at count
    exact ih (by omega)
  | @extra far x u ts us adds rest ih =>
    have separator := adds.isSeparator
    rw [behindBraces_other (t := u) (by rintro brace; rw [brace] at separator; cases separator)
      (by rintro brace; rw [brace] at separator; cases separator)]
    exact ih opens
  | edge outermost =>
    rw [outermost] at opens
    simp at opens

theorem thenIn_congr (same : ts.map Token.word = us.map Token.word) : ThenIn ts ↔ ThenIn us := by
  have drops : ∀ n, (ts.drop n).map Token.word = (us.drop n).map Token.word := by
    intro n
    rw [List.map_drop, List.map_drop, same]
  have heads : ∀ n, firstKind (ts.drop n) = firstKind (us.drop n) := by
    intro n
    have head := congrArg List.head? (drops n)
    rw [List.head?_map, List.head?_map] at head
    unfold firstKind
    cases left : (ts.drop n).head? <;> cases right : (us.drop n).head? <;> simp_all [Token.word]
  have sizes : ∀ n, bracesSize 0 (ts.drop n) = bracesSize 0 (us.drop n) := fun n =>
    bracesSize_congr (drops n)
  have head : firstKind ts = firstKind us := heads 0
  have names : nameEnd ts = nameEnd us := by
    unfold nameEnd
    rw [head, heads]
  have targets : targetEnd ts = targetEnd us := by
    unfold targetEnd
    rw [names, heads, sizes]
  unfold ThenIn
  rw [targets, heads]

/-- In a block both streams go on behind a token of the first one. -/
theorem Loose.past {k : Kind} (loose : Loose far ⟨.block :: stack, ph⟩ ts us) (other : ph ≠ .opened)
    (solid : isSolid k = true) (shown : firstKind ts = k) : firstKind us = k ∧
      Loose far ((⟨.block :: stack, ph⟩ : Context).take k) (ts.drop 1) (us.drop 1) ∧
      ∀ z, Context.Leads ⟨.block :: stack, ph⟩ ts z →
        Context.Leads ((⟨.block :: stack, ph⟩ : Context).take k) (ts.drop 1) z := by
  have solid' : k.isSeparator = false ∧ k.isTerminal = false := by simpa [isSolid] using solid
  have shown' : firstKind us = k := by
    obtain same | ⟨semicolon, -⟩ := loose.apart.in_block other
    · rw [← same, shown]
    · rw [← shown, semicolon] at solid'
      cases solid'.1
  obtain ⟨t, ts, rfl, word⟩ := of_firstKind shown (by rintro rfl; cases solid'.2)
  obtain ⟨u, us, rfl, -, rest⟩ := loose.behind (shown'.trans word.symm) (word ▸ solid'.1)
  rw [step_plain plain_block, word] at rest
  refine ⟨shown', rest, fun z leads => ?_⟩
  have rest := leads.tail
  rwa [step_plain plain_block, word] at rest

/-- Behind `::` contexts accept a name only, and no line ends are added in front of it. -/
theorem Loose.behindCase {z : Context} (loose : Loose far ⟨.block :: stack, .case⟩ ts us)
    (leads : Context.Leads ⟨.block :: stack, .case⟩ ts z) :
    Loose far ⟨.block :: stack, .ended⟩ (ts.drop 1) (us.drop 1) := by
  cases leads with
  | stay =>
    cases loose with
    | nil => exact .nil
    | extra adds => exact absurd rfl adds.ne_case
  | take accepts _ => exact (loose.past nofun rfl (accepts.2 rfl)).2.1

/-- In front of the braces of a destructuring both streams have the same name. -/
theorem Loose.nameEnd_eq (loose : Loose far ⟨.block :: stack, .fresh⟩ ts us) {z : Context}
    (leads : Context.Leads ⟨.block :: stack, .fresh⟩ ts z) : nameEnd ts = nameEnd us ∧
      ∃ ph : Phase, ph.isQuiet = true ∧
        Loose far ⟨.block :: stack, ph⟩ (ts.drop (nameEnd ts)) (us.drop (nameEnd us)) := by
  have agree : ∀ {ph ts us} {k : Kind}, Loose far ⟨.block :: stack, ph⟩ ts us → ph.isQuiet = true →
      isPause k = false → (firstKind ts = k ↔ firstKind us = k) := fun loose quiet solid =>
    View.Level.agree (v := fun _ => (_, _)) (loose.apart.level_of_quiet quiet) solid
  unfold nameEnd
  by_cases name : firstKind ts = .ident
  · obtain ⟨name', rest, behind⟩ := loose.past nofun rfl name
    have leads := behind z leads
    by_cases colons : firstKind (ts.drop 1) = .colonColon
    · obtain ⟨colons', rest, behind⟩ := rest.past (by nofun) rfl colons
      have leads := behind z leads
      rw [if_pos name, if_pos name', if_pos colons, if_pos colons']
      have rest := rest.behindCase leads
      rw [List.drop_drop, List.drop_drop, List.drop_drop, List.drop_drop] at rest
      exact ⟨rfl, .ended, rfl, rest⟩
    · have colons' := mt (agree rest (by rfl) rfl).mpr colons
      rw [if_pos name, if_pos name', if_neg colons, if_neg colons']
      exact ⟨rfl, .ended, rfl, rest⟩
  · have name' := mt (agree loose rfl rfl).mpr name
    rw [if_neg name, if_neg name']
    exact ⟨rfl, .fresh, rfl, loose⟩

/-- Looser streams begin with a destructuring and `in`, or neither of them does. -/
theorem Near.thenIn (near : Near far ⟨.block :: stack, .fresh⟩ c d) :
    ThenIn c.upcoming ↔ ThenIn d.upcoming := by
  obtain same | ⟨z, leads⟩ := near.known
  · exact thenIn_congr same
  obtain ⟨same, ph, quiet, rest⟩ := near.loose.nameEnd_eq leads
  have level : View.Level fun _ => (firstKind (c.upcoming.drop (nameEnd c.upcoming)),
      firstKind (d.upcoming.drop (nameEnd d.upcoming))) := rest.apart.level_of_quiet quiet
  unfold ThenIn targetEnd
  by_cases brace : firstKind (c.upcoming.drop (nameEnd c.upcoming)) = .lbrace
  · have brace' := (level.agree rfl).mp brace
    rw [if_pos brace, if_pos brace', ← List.drop_drop, ← List.drop_drop]
    obtain ⟨-, inner, -⟩ := rest.past (Phase.ne_opened_of_isQuiet quiet) rfl brace
    obtain ⟨t, ts, split_, opening⟩ := of_firstKind brace (by decide)
    obtain ⟨u, us, split', opening'⟩ := of_firstKind brace' (by decide)
    rw [split_, split'] at inner ⊢
    have size : ∀ (n : Nat) {t : Token} {ts : List Token}, t.kind = .lbrace →
        n + bracesSize 0 (t :: ts) ≠ 0 := by
      intro n t ts opening
      simp only [bracesSize, if_pos opening]
      omega
    show _ ∧ firstKind (behindBraces 0 (t :: ts)) = _ ↔ _ ∧ firstKind (behindBraces 0 (u :: us)) = _
    rw [behindBraces_opening opening, behindBraces_opening opening']
    refine and_congr (iff_of_true (size _ opening) (size _ opening')) ?_
    obtain ⟨y, ended, further⟩ | ⟨none, none'⟩ :=
      inner.behindBraces (by simp [take, stackAfter] : 0 < _)
    · have level :
          View.Level fun _ => (firstKind (behindBraces 1 ts), firstKind (behindBraces 1 us)) :=
        further.apart.level (by rw [ended]; decide) (by rw [ended]; decide)
      exact level.agree rfl
    · have none : behindBraces 1 ts = [] := none
      have none' : behindBraces 1 us = [] := none'
      rw [none, none']
  · have brace' := mt (level.agree rfl).mpr brace
    rw [if_neg brace, if_neg brace', same]
    rw [same] at level
    exact and_congr_right fun _ => level.agree rfl

end Ahead

section Lists

/-- In a block no line ends are added in front of commas. -/
theorem Apart.comma_iff {k l : Kind} (apart : Apart ⟨.block :: stack, ph⟩ k l)
    (quiet : ph.isQuiet = true) : k = .comma ↔ l = .comma := by
  obtain rfl | ⟨rfl, rfl, -⟩ := apart.in_block (Phase.ne_opened_of_isQuiet quiet)
  · exact Iff.rfl
  · exact ⟨nofun, nofun⟩

/-- Items between commas in a block. -/
theorem Matches.blockList {α β γ : Type} {p : Parser α} {q : Parser β} {show_ : α → γ}
    {show' : β → γ}
    (first : Matches gap ⟨.block :: stack, ph⟩ v p q fun a b y _ =>
      show_ a = show' b ∧ Stays (.block :: stack) Phase.isEnd y)
    (more : ∀ ph w, ph.isOpen = true → w.Level → Matches gap ⟨.block :: stack, ph⟩ w p q
      fun a b y _ => show_ a = show' b ∧ Stays (.block :: stack) Phase.isEnd y) :
    Matches gap ⟨.block :: stack, ph⟩ v (Parser.commaList p) (Parser.commaList q) fun as bs y _ =>
      as.map show_ = bs.map show' ∧ Stays (.block :: stack) Phase.isEnd y := by
  refine (Matches.commaList (fun ph w => ph.isOpen = true ∧ w.Level)
    (fun ph _ => ph.isEnd = true) plain_block first
    (fun ph w ready => more ph w ready.1 ready.2) ?_ ?_).mono ?_
  · intro ph w ended apart
    have quiet := Phase.isQuiet_of_isEnd ended
    exact ⟨apart.comma_iff quiet, Phase.ne_case_of_isQuiet quiet⟩
  · intro ph w _
    have opened : ((⟨.block :: stack, ph⟩ : Context).phaseAfter .comma).isOpen = true := by
      simp only [phaseAfter]
      split
      · rfl
      · rfl
    exact ⟨_, rfl, opened, fun w level => ⟨opened, level⟩⟩
  · rintro as bs y w ⟨same, ph, rfl, ended, -⟩
    exact ⟨same, ph, rfl, ended⟩

theorem matches_exprList (free : rules.Match gap rules') (starts : Starts (.block :: stack) ph v) :
    Matches gap ⟨.block :: stack, ph⟩ v rules.exprList rules'.exprList fun es es' y _ =>
      es.map Expr.bare = es'.map Expr.bare ∧ Stays (.block :: stack) Phase.isEnd y :=
  .blockList (free.operand starts) fun _ _ opened level =>
    free.operand (plain_block.starts_open opened level)

/-- Values behind `=`, on any line. -/
theorem matches_assigned {γ δ : Type} {final : γ → δ → Context → View → Prop}
    (free : rules.Match gap rules') {k : List Expr → Parser γ} {l : List Expr → Parser δ}
    {what : String}
    (quiet : ph.isQuiet = true)
    (then_ : ∀ es es' y w, es.map Expr.bare = es'.map Expr.bare →
      Stays (.block :: stack) Phase.isEnd y → Matches gap y w (k es) (l es') final) :
    Matches gap ⟨.block :: stack, ph⟩ v
      (expect .assign what >>= fun _ => skipNewlines >>= fun _ => rules.exprList >>= k)
      (expect .assign what >>= fun _ => skipNewlines >>= fun _ => rules'.exprList >>= l) final := by
  apply Matches.expect_clear plain_block (.of_isQuiet quiet) (.inl (Phase.ne_case_of_isQuiet quiet))
    rfl rfl
  intro _ _ _
  apply Matches.skipNewlines_bind (x := ⟨.block :: stack, .awaiting⟩) plain_block rfl
  intro w level
  apply (matches_exprList free (plain_block.starts_open rfl level)).bind
  rintro es es' y w ⟨same, stays⟩
  exact then_ es es' y w same stays

end Lists

/-- A statement ends where its last operand does. -/
theorem Stays.isQuiet {y : Context} (stays : Stays stack Phase.isEnd y) :
    Stays stack Phase.isQuiet y := by
  obtain ⟨ph, rfl, ended⟩ := stays
  exact ⟨ph, rfl, Phase.isQuiet_of_isEnd ended⟩

theorem matches_declaration (free : rules.Match gap rules') (other : ph ≠ .case) {word : Kind}
    (shown : v 0 = (word, word)) (solid : isSolid word = true)
    (took : (⟨.block :: stack, ph⟩ : Context).take word = ⟨.block :: stack, .fresh⟩) :
    Matches gap ⟨.block :: stack, ph⟩ v (declaration rules) (declaration rules') fun s s' y _ =>
      s.bare = s'.bare ∧ Stays (.block :: stack) Phase.isQuiet y := by
  apply Matches.next_bind plain_block shown solid (.inl other)
  intro t u same _
  have kind : t.kind = u.kind := congrArg Prod.fst same
  rw [took]
  have targets : Matches gap ⟨.block :: stack, .fresh⟩ v.tail (commaList rules.destructuring)
      (commaList rules'.destructuring) fun ds ds' y _ =>
        ds.map Destructuring.bare = ds'.map Destructuring.bare ∧
          Stays (.block :: stack) Phase.isEnd y :=
    .blockList (free.destructuring plain_block (.of_isQuiet rfl) (by nofun)) fun _ _ opened level =>
      free.destructuring plain_block (.inr level) (Phase.ne_case_of_isOpen opened)
  apply targets.bind
  rintro ds ds' _ w ⟨targets_eq, ph, rfl, ended⟩
  apply matches_assigned free (Phase.isQuiet_of_isEnd ended)
  intro es es' y w values_eq stays
  apply Matches.place_bind
  intro _ _
  apply Matches.pure
  exact ⟨by simp [Stmt.bare, kind, targets_eq, values_eq], stays.isQuiet⟩

theorem matches_definition (free : rules.Match gap rules') (starts : Starts (.block :: stack) ph v)
    (shown : v 1 = (.define, .define)) :
    Matches gap ⟨.block :: stack, ph⟩ v (definition rules) (definition rules') fun s s' y _ =>
      s.bare = s'.bare ∧ Stays (.block :: stack) Phase.isQuiet y := by
  apply Matches.name_bind plain_block starts.clear
  intro name name' ph text ended
  apply Matches.next_bind plain_block shown rfl
    (.inl (Phase.ne_case_of_isQuiet (Phase.isQuiet_of_isEnd ended)))
  intro _ _ _ _
  apply Matches.skipNewlines_bind (x := ⟨.block :: stack, .awaiting⟩) plain_block rfl
  intro w level
  apply (free.operand (plain_block.starts_open (by rfl) level)).bind
  rintro value value' y w ⟨value_eq, stays⟩
  apply Matches.pure
  exact ⟨by simp [Stmt.bare, Destructuring.bare, text, value_eq], stays.isQuiet⟩

theorem matches_assignment (free : rules.Match gap rules')
    (starts : Starts (.block :: stack) ph v) :
    Matches gap ⟨.block :: stack, ph⟩ v (assignment rules) (assignment rules') fun s s' y _ =>
      s.bare = s'.bare ∧ Stays (.block :: stack) Phase.isQuiet y := by
  apply Matches.peek_bind
  intro _ _
  apply (matches_names plain_block starts.clear (.inr (.inr rfl))).bind
  rintro names names' _ w ⟨names_eq, ph, rfl, named, -⟩
  apply matches_assigned free (Phase.isQuiet_of_isEnd named.isEnd)
  intro es es' y w values_eq stays
  apply Matches.place_bind
  intro _ _
  apply Matches.pure
  refine ⟨?_, stays.isQuiet⟩
  simp only [Stmt.bare, Expr.bareAll_eq, values_eq, names_eq]

theorem matches_exprStmt (free : rules.Match gap rules') (starts : Starts (.block :: stack) ph v) :
    Matches gap ⟨.block :: stack, ph⟩ v (exprStmt rules) (exprStmt rules') fun s s' y _ =>
      s.bare = s'.bare ∧ Stays (.block :: stack) Phase.isQuiet y := by
  apply (matches_binary free starts).bind
  rintro e e' _ w ⟨same, ⟨ph, rfl, ended⟩, -⟩
  have quiet := Phase.isQuiet_of_isEnd ended
  apply Matches.ate_clear plain_block (.of_isQuiet quiet) (Phase.ne_case_of_isQuiet quiet) rfl rfl
  · intro _
    rw [if_pos rfl, if_pos rfl]
    split
    next target index form =>
      obtain ⟨_, _, form', target_eq, index_eq⟩ := Expr.form_index same form
      rw [form']
      apply Matches.skipNewlines_bind (x := ⟨.block :: stack, .awaiting⟩) plain_block rfl
      intro w level
      apply (free.operand (plain_block.starts_open (by rfl) level)).bind
      rintro value value' y w ⟨value_eq, stays⟩
      apply Matches.pure
      exact ⟨by simp [Stmt.bare, target_eq, index_eq, value_eq], stays.isQuiet⟩
    next => exact .fail
  · intro _
    apply Matches.pure
    exact ⟨by simp [Stmt.ofExpr, Stmt.bare, same], ph, rfl, quiet⟩

theorem matches_retStmt (free : rules.Match gap rules') (other : ph ≠ .case)
    (shown : v 0 = (.retWord, .retWord)) :
    Matches gap ⟨.block :: stack, ph⟩ v (retStmt rules) (retStmt rules') fun s s' y _ =>
      s.bare = s'.bare ∧ Stays (.block :: stack) Phase.isQuiet y := by
  apply Matches.next_bind plain_block shown rfl (.inl other)
  intro _ _ _ _
  apply Matches.ahead (x := ⟨.block :: stack, .fresh⟩)
  intro apart
  apply Matches.kind_bind
  apply Matches.ite_bind (fun es es' y _ => es.map Expr.bare = es'.map Expr.bare ∧
    Stays (.block :: stack) Phase.isQuiet y)
  · obtain same | ⟨semicolon, newline, -⟩ := apart.in_block (by nofun)
    · rw [same]
    · rw [semicolon, newline]
      exact iff_of_true (.inl rfl) (.inl rfl)
  · intro _
    exact .pure ⟨rfl, .fresh, rfl, rfl⟩
  · intro _
    refine (matches_exprList free (plain_block.starts (by rfl) (by rfl))).mono ?_
    rintro es es' y w ⟨same, stays⟩
    exact ⟨same, stays.isQuiet⟩
  rintro es es' y w ⟨same, stays⟩
  apply Matches.place_bind
  intro _ _
  apply Matches.pure
  exact ⟨by simp [Stmt.bare, same], stays⟩

theorem matches_destructuringThenIn :
    Matches gap ⟨.block :: stack, .fresh⟩ v destructuringThenIn destructuringThenIn fun a b y _ =>
      a = b ∧ y = ⟨.block :: stack, .fresh⟩ := by
  intro far c d a c' near seen short run
  obtain ⟨c₁, still, looked⟩ := destructuringThenIn_eq near.left
  obtain ⟨d₁, still', looked'⟩ := destructuringThenIn_eq near.right
  rw [looked] at run
  cases run
  have size : c'.remaining = c.remaining := by
    rw [c'.remaining_eq, c.remaining_eq, still.upcoming]
  have size' : d₁.remaining = d.remaining := by
    rw [d₁.remaining_eq, d.remaining_eq, still'.upcoming]
  refine ⟨_, d₁, _, looked', near.still still still', ⟨⟨[], ?_, .stay⟩, ?_⟩,
    decide_eq_decide.mpr near.thenIn, rfl⟩
  · rw [still.upcoming]
    rfl
  · omega

/-- Behind `in` an operand may begin on the same line. -/
theorem starts_awaiting : Starts (.block :: stack) .awaiting v where
  plain := plain_block
  clear := .inl ⟨nofun, nofun⟩
  other := nofun
  apart := nofun

theorem matches_forBody (free : rules.Match gap rules') :
    Matches gap ⟨.block :: stack, .fresh⟩ v (forBody rules) (forBody rules') fun form form' y _ =>
      Stmt.bare ⟨default, form⟩ = Stmt.bare ⟨default, form'⟩ ∧
        Stays (.block :: stack) Phase.isQuiet y := by
  apply matches_destructuringThenIn.bind
  rintro each _ _ w ⟨rfl, rfl⟩
  apply Matches.ite Iff.rfl
  · intro _
    apply (free.destructuring plain_block (.of_isQuiet (by rfl)) (by nofun)).bind
    rintro target target' _ w ⟨target_eq, ph, rfl, ended⟩
    have quiet := Phase.isQuiet_of_isEnd ended
    apply Matches.expect_clear plain_block (.of_isQuiet quiet)
      (.inl (Phase.ne_case_of_isQuiet quiet))
      rfl rfl
    intro _ _ _
    apply (free.expr starts_awaiting).bind
    rintro range range' _ w ⟨range_eq, ⟨ph, rfl, ended⟩, last⟩
    apply (matches_block free (by simp [binaryOp?])
      ⟨Phase.isQuiet_of_isEnd ended, fun _ => last⟩).bind
    rintro body body' y w ⟨body_eq, stays⟩
    apply Matches.pure
    exact ⟨by simp [Stmt.bare, target_eq, range_eq, body_eq], stays⟩
  · intro _
    apply (free.expr (plain_block.starts (by rfl) (by rfl))).bind
    rintro cond cond' _ w ⟨cond_eq, ⟨ph, rfl, ended⟩, last⟩
    apply (matches_block free (by simp [binaryOp?])
      ⟨Phase.isQuiet_of_isEnd ended, fun _ => last⟩).bind
    rintro body body' y w ⟨body_eq, stays⟩
    apply Matches.pure
    exact ⟨by simp [Stmt.bare, cond_eq, body_eq], stays⟩

theorem matches_forStmt (free : rules.Match gap rules') (plain : Plain stack) (other : ph ≠ .case)
    (shown : v 0 = (.forWord, .forWord)) :
    Matches gap ⟨stack, ph⟩ v (forStmt rules) (forStmt rules') fun s s' y _ =>
      s.bare = s'.bare ∧ Stays stack Phase.isEnd y := by
  apply Matches.next_bind plain shown rfl (.inl other)
  intro _ _ _ _
  apply (matches_forBody free).bind
  rintro form form' _ w ⟨same, ph, rfl, quiet⟩
  apply Matches.end_bind quiet
  intro _ _ w
  apply Matches.pure
  exact ⟨(Stmt.bare_mk _ form).trans (same.trans (Stmt.bare_mk _ form').symm), .ended, rfl, rfl⟩

theorem matches_statement (free : rules.Match gap rules') (starts : Starts (.block :: stack) ph v) :
    Matches gap ⟨.block :: stack, ph⟩ v (statement rules) (statement rules') fun s s' y _ =>
      s.bare = s'.bare ∧ Stays (.block :: stack) Phase.isQuiet y := by
  have other := starts.other
  have whole : ∀ {p q : Parser Stmt}, Matches gap ⟨.block :: stack, ph⟩ v p q (fun s s' y _ =>
      s.bare = s'.bare ∧ Stays (.block :: stack) Phase.isEnd y) →
      Matches gap ⟨.block :: stack, ph⟩ v p q fun s s' y _ =>
        s.bare = s'.bare ∧ Stays (.block :: stack) Phase.isQuiet y := fun h =>
    h.mono fun _ _ _ _ held => ⟨held.1, held.2.isQuiet⟩
  apply Matches.kind_cases starts.clear
  · intro k shown
    split
    · exact matches_declaration free other shown rfl rfl
    · exact matches_declaration free other shown rfl rfl
    · exact matches_retStmt free other shown
    · exact whole (matches_ifStmt free plain_block other shown)
    · exact whole (matches_switchStmt free plain_block other shown)
    · exact whole (matches_matchStmt free plain_block other shown)
    · exact whole (matches_forStmt free plain_block other shown)
    · apply Matches.second plain_block shown rfl
      intro apart
      apply Matches.kindAt_bind
      obtain same | ⟨semicolon, newline, -⟩ :=
        apart.in_block (Phase.ne_opened_of_isQuiet (Phase.isQuiet_of_isEnd phase_ident))
      · rw [← same]
        split
        next define =>
          exact matches_definition free starts (Prod.ext define (same ▸ define))
        · exact matches_assignment free starts
        · exact matches_assignment free starts
        · exact matches_exprStmt free starts
      · rw [semicolon, newline]
        exact matches_exprStmt free starts
    · exact matches_exprStmt free starts
  · intro i j _ pause pause'
    obtain rfl | rfl | rfl | rfl | rfl | rfl | rfl := of_isPause pause <;>
    obtain rfl | rfl | rfl | rfl | rfl | rfl | rfl := of_isPause pause' <;>
    exact matches_exprStmt free starts

section Full

/-- The rules for short streams, one of which has room for the line ends of the other. -/
theorem match_below (n m : Nat) : Rules.Match ((m : ℤ) - n) (below n) (below m) := by
  induction n using Nat.strongRecOn generalizing m with
  | ind n ih =>
    have room : (n : ℤ) + ((m : ℤ) - n) ≤ m := by omega
    rw [below_eq n, below_eq m]
    constructor
    · intro power stack ph v starts
      exact .forFewer room fun i less j _ _ => matches_binary (ih i less j) starts
    · intro stack ph v starts
      exact .forFewer room fun i less j _ _ => matches_unary (ih i less j) starts
    · intro place stack ph v hosts clear other
      exact .forFewer room fun i less j _ _ => matches_typeExpr (ih i less j) hosts clear other
    · intro stack ph v plain clear other begins
      exact .forFewer room fun i less j _ _ =>
        matches_pattern (ih i less j) plain clear other begins
    · intro stack ph v plain clear other
      exact .forFewer room fun i less j _ _ => matches_destructuring (ih i less j) plain clear other
    · intro stack ph v starts
      exact .forFewer room fun i less j _ _ => matches_statement (ih i less j) starts

theorem match_full : Rules.Match gap full full where
  binary power _ _ _ starts :=
    Matches.withRules (p := (binary · power)) (q := (binary · power)) fun n m =>
      matches_binary (match_below n m) starts
  unary starts := .withRules fun n m => matches_unary (match_below n m) starts
  typeExpr hosts clear other :=
    .withRules fun n m => matches_typeExpr (match_below n m) hosts clear other
  pattern plain clear other begins :=
    .withRules fun n m => matches_pattern (match_below n m) plain clear other begins
  destructuring plain clear other :=
    .withRules fun n m => matches_destructuring (match_below n m) plain clear other
  statement starts := .withRules fun n m => matches_statement (match_below n m) starts

end Full

end Frontend.Grammar
