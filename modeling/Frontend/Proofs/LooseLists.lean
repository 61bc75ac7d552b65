import Frontend.Proofs.LooseRuns

/-!
Repetitions and lists on looser streams. Lists in brackets skip line ends around their items, so
that both runs see the same token in front of each item and each comma.
-/
namespace Frontend.Grammar

open Token (Kind)
open Frontend.Grammar.Parser Context

/-- A context with some constructs open and a phase of a class. -/
def Stays (stack : List Frame) (class_ : Phase → Bool) (y : Context) : Prop :=
  ∃ ph, y = ⟨stack, ph⟩ ∧ class_ ph = true

/-- Brackets that are closed by a token of a kind, inside of something else. -/
def Inside (close : Kind) (stack : List Frame) (f : Frame) : Prop :=
  f.closer? = some close ∧ stack ≠ []

section Phases

variable {ph : Phase}

theorem Phase.isQuiet_of_isEnd (ended : ph.isEnd = true) : ph.isQuiet = true := by
  cases ph <;> first | rfl | cases ended

theorem Phase.ne_case_of_isQuiet (quiet : ph.isQuiet = true) : ph ≠ .case := by
  rintro rfl
  cases quiet

theorem Phase.isEnd_of_isOpen (opened : ph.isOpen = true) : ph.isEnd = false := by
  cases ph <;> first | rfl | cases opened

theorem Phase.ne_case_of_isOpen (opened : ph.isOpen = true) : ph ≠ .case := by
  rintro rfl
  cases opened

end Phases

/-- The streams may differ in pauses only: nothing has to follow, or the line ends are skipped. -/
def Clear (ph : Phase) (v : View) : Prop := ph ≠ .opened ∧ ph ≠ .params ∨ v.Level

theorem Clear.of_isQuiet {ph : Phase} {v : View} (quiet : ph.isQuiet = true) : Clear ph v := by
  left
  constructor <;> (rintro rfl; cases quiet)

theorem Clear.of_eq {ph : Phase} {v : View} (same : (v 0).1 = (v 0).2) : Clear ph v :=
  .inr (.inl same)

theorem of_isPause {k : Kind} (pause : isPause k = true) : k = .newline ∨ k = .semicolon ∨
    k = .rparen ∨ k = .rbracket ∨ k = .rbrace ∨ k = .comma ∨ k = .fatArrow := by
  simpa [isPause, Kind.isSeparator, or_assoc] using pause

/-- A token that is no pause is next in both streams or in neither. -/
theorem View.Level.agree {v : View} {kind : Kind} (level : v.Level) (solid : isPause kind = false) :
    (v 0).1 = kind ↔ (v 0).2 = kind := by
  obtain same | ⟨pause, pause'⟩ := level
  · rw [same]
  · constructor <;> (rintro rfl; simp_all)

section Brackets

variable {close : Kind} {stack : List Frame} {f : Frame} {ph : Phase} {k : Kind}

theorem Inside.isBracket (inside : Inside close stack f) : f.isBracket = true := by
  rw [Frame.isBracket, inside.1]
  rfl

theorem Inside.isOpen (inside : Inside close stack f) :
    (⟨f :: stack, ph⟩ : Context).isOpen = true := by
  simp [Context.isOpen, inBrackets, inside.isBracket]

theorem Inside.plain (inside : Inside close stack f) : Plain (f :: stack) := by
  refine .cons ?_
  rintro h rfl
  cases inside.1

theorem Inside.skips (inside : Inside close stack f) (other : ph ≠ .case) :
    (⟨f :: stack, ph⟩ : Context).Skips fun k => k = .newline :=
  ⟨other, .inr ⟨inside.isOpen, rfl⟩⟩

/-- A comma leaves the brackets open that it stands in. -/
theorem Inside.comma (inside : Inside close stack f) (ph : Phase) :
    ∃ f' ph', (⟨f :: stack, ph⟩ : Context).take .comma = ⟨f' :: stack, ph'⟩ ∧
      Inside close stack f' ∧ ph'.isOpen = true := by
  obtain ⟨closer, outer⟩ := inside
  have opens : ((⟨f :: stack, ph⟩ : Context).phaseAfter .comma).isOpen = true := by
    simp only [phaseAfter]
    repeat' split
    all_goals rfl
  cases f with
  | block | head => cases closer
  | parens => exact ⟨.parens, _, rfl, ⟨closer, outer⟩, opens⟩
  | square part => exact ⟨_, _, rfl, ⟨closer, outer⟩, opens⟩
  | braces => exact ⟨.braces, _, rfl, ⟨closer, outer⟩, opens⟩

/-- The closing token leads out of the brackets. -/
theorem Inside.take_close (inside : Inside close stack f) :
    (⟨f :: stack, ph⟩ : Context).take close =
    ⟨stack, if close = .rparen then .closed else .ended⟩ := by
  obtain ⟨closer, -⟩ := inside
  cases f <;> cases closer <;> rfl

theorem Inside.isSolid (inside : Inside close stack f) : isSolid close = true := by
  obtain ⟨closer, -⟩ := inside
  cases f <;> cases closer <;> rfl

end Brackets

/-- Behind line ends, or where there are none, both streams show the same inside of brackets. -/
theorem Apart.inside {x : Context} {k l : Kind} (apart : Apart x k l) (other : l ≠ .newline) :
    k = l ∨ (k = .rbracket ∧ l = .comma) ∧ ∃ part, x.stack = [.square part] := by
  cases apart with
  | same => exact .inl rfl
  | blank | separator => exact absurd rfl other
  | edge outermost => exact .inr ⟨⟨rfl, rfl⟩, _, outermost⟩

namespace Matches

variable {α β γ δ ρ σ τ : Type} {gap : ℤ} {x : Context} {v : View} {p : Parser α} {q : Parser β}
  {post : α → β → Context → View → Prop} {final : γ → δ → Context → View → Prop}
  {close : Kind} {stack : List Frame} {f : Frame} {ph : Phase}

theorem level (clear : Clear ph v) (h : v.Level → Matches gap ⟨stack, ph⟩ v p q post) :
    Matches gap ⟨stack, ph⟩ v p q post := by
  apply ahead
  intro apart
  obtain ⟨opened, params⟩ | level := clear
  · exact h (apart.level opened params)
  · exact h level

/-- Both runs see the same token next, or pauses. -/
theorem kind_cases {k : Kind → Parser γ} {l : Kind → Parser δ} (clear : Clear ph v)
    (same : ∀ kind, v 0 = (kind, kind) → Matches gap ⟨stack, ph⟩ v (k kind) (l kind) final)
    (pauses : ∀ i j, v 0 = (i, j) → isPause i = true → isPause j = true →
      Matches gap ⟨stack, ph⟩ v (k i) (l j) final) :
    Matches gap ⟨stack, ph⟩ v (kind >>= k) (kind >>= l) final := by
  apply level clear
  rintro (equal | ⟨pause, pause'⟩)
  · apply kind_bind
    rw [← equal]
    exact same _ (Prod.ext rfl equal.symm)
  · exact kind_bind (pauses _ _ rfl pause pause')

/-- Behind a token that both runs see they see the same token, or pauses. -/
theorem second_level {kind : Kind} (plain : Plain stack) (shown : v 0 = (kind, kind))
    (solid : isSolid kind = true)
    (quiet : ((⟨stack, ph⟩ : Context).phaseAfter kind).isQuiet = true)
    (h : v.tail.Level → Matches gap ⟨stack, ph⟩ v p q post) :
    Matches gap ⟨stack, ph⟩ v p q post := by
  apply second plain shown solid
  intro apart
  exact h (apart.level_of_quiet quiet)

theorem eat_clear {kind : Kind} {k : Option Token → Parser γ} {l : Option Token → Parser δ}
    (plain : Plain stack) (clear : Clear ph v) (other : ph ≠ .case)
    (solid : isSolid kind = true) (pause : isPause kind = false)
    (found : v 0 = (kind, kind) → ∀ t u : Token, t.word = u.word →
      Matches gap ((⟨stack, ph⟩ : Context).take kind) v.tail (k (some t)) (l (some u)) final)
    (none_ : (v 0).1 ≠ kind → Matches gap ⟨stack, ph⟩ v (k none) (l none) final) :
    Matches gap ⟨stack, ph⟩ v (eat kind >>= k) (eat kind >>= l) final :=
  level clear fun level => eat_bind plain (level.agree pause) solid (.inl other)
    (fun shown t u same _ => found shown t u same) fun absent _ => none_ absent

theorem ate_clear {kind : Kind} {k : Bool → Parser γ} {l : Bool → Parser δ}
    (plain : Plain stack) (clear : Clear ph v) (other : ph ≠ .case)
    (solid : isSolid kind = true) (pause : isPause kind = false)
    (found : v 0 = (kind, kind) →
      Matches gap ((⟨stack, ph⟩ : Context).take kind) v.tail (k true) (l true) final)
    (none_ : (v 0).1 ≠ kind → Matches gap ⟨stack, ph⟩ v (k false) (l false) final) :
    Matches gap ⟨stack, ph⟩ v (ate kind >>= k) (ate kind >>= l) final :=
  level clear fun level => ate_bind plain (level.agree pause) solid (.inl other) found
    fun absent _ => none_ absent

theorem expect_clear {kind : Kind} {what : String} {k : Token → Parser γ} {l : Token → Parser δ}
    (plain : Plain stack) (clear : Clear ph v)
    (accepts : ph ≠ .case ∨ kind = .ident) (solid : isSolid kind = true)
    (pause : isPause kind = false)
    (then_ : ∀ t u : Token, t.word = u.word →
      Matches gap ((⟨stack, ph⟩ : Context).take kind) v.tail (k t) (l u) final) :
    Matches gap ⟨stack, ph⟩ v (expect kind what >>= k) (expect kind what >>= l) final :=
  level clear fun level => expect_bind plain (level.agree pause).mp solid accepts
    fun t u same _ => then_ t u same

/-- Both runs skip line ends where something has to follow. -/
theorem skipNewlines_bind {k : Unit → Parser γ} {l : Unit → Parser δ} (plain : Plain x.stack)
    (opened : x.phase.isOpen = true)
    (then_ : ∀ w, w.Level → Matches gap x w (k ()) (l ()) final) :
    Matches gap x v (skipNewlines >>= k) (skipNewlines >>= l) final := by
  have skips : x.Skips fun k => k = .newline :=
    ⟨Phase.ne_case_of_isOpen opened, .inr ⟨by simp [Context.isOpen, opened], rfl⟩⟩
  apply skipWhile_bind plain skips
  intro ph w rests _ _ apart _ stopped
  obtain rfl := rests.eq_of_isOpen opened
  refine then_ w ?_
  obtain same | ⟨⟨left, right⟩, -⟩ := apart.inside (by simpa using stopped)
  · exact .inl same
  · exact .inr ⟨by rw [left]; rfl, by rw [right]; rfl⟩

/-- Both runs skip line ends inside of brackets. -/
theorem skipInside_bind {k : Unit → Parser γ} {l : Unit → Parser δ} (inside : Inside close stack f)
    (other : ph ≠ .case)
    (then_ : ∀ ph' w, (⟨f :: stack, ph⟩ : Context).Rests ph' → (w 0).1 = (w 0).2 →
      Matches gap ⟨f :: stack, ph'⟩ w (k ()) (l ()) final) :
    Matches gap ⟨f :: stack, ph⟩ v (skipNewlines >>= k) (skipNewlines >>= l) final := by
  apply skipWhile_bind inside.plain (inside.skips other)
  intro ph' w rests _ _ apart _ stopped
  refine then_ ph' w rests ?_
  obtain same | ⟨-, part, outermost⟩ := apart.inside (by simpa using stopped)
  · exact same
  · exact absurd (List.cons.inj outermost).2 inside.2

/-- Both runs skip line ends inside of brackets where something has to follow. -/
theorem skipOpen_bind {k : Unit → Parser γ} {l : Unit → Parser δ} (inside : Inside close stack f)
    (opened : ph.isOpen = true)
    (then_ : ∀ w, (w 0).1 = (w 0).2 → Matches gap ⟨f :: stack, ph⟩ w (k ()) (l ()) final) :
    Matches gap ⟨f :: stack, ph⟩ v (skipNewlines >>= k) (skipNewlines >>= l) final := by
  apply skipInside_bind inside (Phase.ne_case_of_isOpen opened)
  intro ph' w rests level
  rw [rests.eq_of_isOpen opened]
  exact then_ w level

/-- Both runs go on behind a comma inside of brackets, or both see none. -/
theorem comma_bind {k k' : Parser γ} {l l' : Parser δ} (inside : Inside close stack f)
    (other : ph ≠ .case) (agree : (v 0).1 = .comma ↔ (v 0).2 = .comma)
    (more : ∀ f' ph' w, Inside close stack f' → ph'.isOpen = true → (w 0).1 = (w 0).2 →
      Matches gap ⟨f' :: stack, ph'⟩ w k l final)
    (done : Matches gap ⟨f :: stack, ph⟩ v k' l' final) :
    Matches gap ⟨f :: stack, ph⟩ v
      (ate .comma >>= fun comma => if comma then skipNewlines >>= fun _ => k else k')
      (ate .comma >>= fun comma => if comma then skipNewlines >>= fun _ => l else l') final := by
  refine ate_bind inside.plain agree rfl (.inl other) ?_ fun _ _ => done
  intro _
  obtain ⟨f', ph', took, inside', opened⟩ := inside.comma ph
  rw [took]
  apply skipOpen_bind inside' opened
  exact fun w same => more f' ph' w inside' opened same

/-- Both runs take the token that closes brackets. -/
theorem close_bind {what : String} {k : Token → Parser γ} {l : Token → Parser δ}
    (inside : Inside close stack f) (same : (v 0).1 = (v 0).2) (other : ph ≠ .case)
    (then_ : ∀ t u, Matches gap ⟨stack, if close = .rparen then .closed else .ended⟩ v.tail
      (k t) (l u) final) :
    Matches gap ⟨f :: stack, ph⟩ v (expect close what >>= k) (expect close what >>= l) final := by
  refine expect_bind inside.plain (fun shown => same ▸ shown) inside.isSolid (.inl other) ?_
  intro t u _ _
  rw [inside.take_close]
  exact then_ t u

/-- A relation between the states of two repetitions, and where they are, that holds before every
turn. -/
theorem iterate {turn : σ → Parser (Turn σ α)} {turn' : τ → Parser (Turn τ β)}
    (inv : σ → τ → Context → View → Prop) {s : σ} {t : τ} (start : inv s t x v)
    (turns : ∀ s t y w, inv s t y w → Matches gap y w (turn s) (turn' t) fun a b z u =>
      Turn.Alike (fun s t => inv s t z u) (fun a b => post a b z u) a b) :
    Matches gap x v (Parser.iterate turn s) (Parser.iterate turn' t) post := by
  intro far c d a c' near seen short run
  induction s, c using Parser.iterate.induct turn generalizing t d x v with
  | case1 s c g c₁ failed =>
    rw [iterate_error failed] at run
    cases run
  | case2 s c b c₁ last =>
    rw [iterate_done last] at run
    cases run
    obtain ⟨_, d', y, run', near', moves, held⟩ := turns s t x v start c d _ _ near seen short last
    obtain ⟨b', rfl, related⟩ := held.of_done
    exact ⟨b', d', y, iterate_done run', near', moves, related⟩
  | case3 s c s' c₁ again less ih =>
    rw [iterate_again again less] at run
    obtain ⟨_, d₁, y, run', near₁, moves, held⟩ :=
      turns s t x v start c d _ c₁ near seen short again
    obtain ⟨t', rfl, related⟩ := held.of_again
    have pace := moves.pace
    obtain ⟨b, d', z, run'', near', moves', held'⟩ := ih related d₁ near₁ rfl (by omega) run
    have less' : d₁.remaining < d.remaining := by omega
    exact ⟨b, d', z, (iterate_again run' less').trans run'', near', moves.trans moves', held'⟩
  | case4 s c s' c₁ again stuck =>
    rw [Parser.iterate, again] at run
    simp [stuck] at run

section Lists

variable {item : List α → Parser α} {item' : List β → Parser β} {show_ : α → γ} {show' : β → γ}
  {r : Parser ρ} {r' : Parser σ} {showRest : ρ → δ} {showRest' : σ → δ}

/-- Items between commas. `done` is where an item may end, and `ready` where the next one may
begin. -/
theorem commaList {stack : List Frame} (ready done : Phase → View → Prop)
    (plain : Plain stack)
    (first : Matches gap x v p q fun a b y w => show_ a = show' b ∧
      ∃ ph, y = ⟨stack, ph⟩ ∧ done ph w)
    (more : ∀ ph w, ready ph w → Matches gap ⟨stack, ph⟩ w p q fun a b y w => show_ a = show' b ∧
      ∃ ph, y = ⟨stack, ph⟩ ∧ done ph w)
    (seen : ∀ ph w, done ph w → Apart ⟨stack, ph⟩ (w 0).1 (w 0).2 →
      ((w 0).1 = .comma ↔ (w 0).2 = .comma) ∧ ph ≠ .case)
    (comma : ∀ ph w, done ph w → ∃ ph', (⟨stack, ph⟩ : Context).take .comma = ⟨stack, ph'⟩ ∧
      ph'.isOpen = true ∧ ∀ w, w.Level → ready ph' w) :
    Matches gap x v (commaList p) (commaList q) fun as bs y w => as.map show_ = bs.map show' ∧
      ∃ ph, y = ⟨stack, ph⟩ ∧ done ph w ∧ (w 0).1 ≠ .comma := by
  apply first.bind
  rintro a b y w ⟨same, start⟩
  apply iterate fun as bs y w => as.map show_ = bs.map show' ∧ ∃ ph, y = ⟨stack, ph⟩ ∧ done ph w
  · exact ⟨by simp [same], start⟩
  rintro as bs _ w ⟨known, ph, rfl, ended⟩
  apply ahead
  intro apart
  obtain ⟨agree, other⟩ := seen ph w ended apart
  refine ate_bind plain agree rfl (.inl other) ?_ ?_
  · intro _
    obtain ⟨ph', took, opened, begins⟩ := comma ph w ended
    rw [took]
    apply skipNewlines_bind (plain) opened
    intro w level
    apply (more ph' w (begins w level)).bind
    rintro a b y w ⟨same, start⟩
    apply pure
    exact ⟨by simp [same, known], start⟩
  · intro last _
    apply pure
    exact ⟨by simp [known], ph, rfl, ended, last⟩

/-- A list in brackets, up to the token that closes it. -/
theorem closedList (inside : Inside close stack f)
    (each : ∀ as bs f ph w, as.map show_ = bs.map show' → Inside close stack f →
      ph.isOpen = true → (w 0).1 = (w 0).2 → Matches gap ⟨f :: stack, ph⟩ w (item as) (item' bs)
        fun a b y _ => show_ a = show' b ∧ Stays (f :: stack) Phase.isEnd y) :
    Matches gap ⟨f :: stack, .opened⟩ v (closedList close item) (closedList close item')
      fun as bs y w => as.map show_ = bs.map show' ∧ (w 0).1 = (w 0).2 ∧
        ∃ f ph, y = ⟨f :: stack, ph⟩ ∧ Inside close stack f ∧ ph ≠ .case := by
  apply skipOpen_bind inside rfl
  intro w same
  apply iterate fun as bs y w => as.map show_ = bs.map show' ∧ (w 0).1 = (w 0).2 ∧
    ∃ f ph, y = ⟨f :: stack, ph⟩ ∧ Inside close stack f ∧ ph.isOpen = true
  · exact ⟨rfl, same, f, .opened, rfl, inside, rfl⟩
  rintro as bs _ w ⟨known, same, f, ph, rfl, inside, opened⟩
  apply kind_bind
  apply ite (by rw [same])
  · intro _
    apply pure
    exact ⟨by simp [known], same, f, ph, rfl, inside, Phase.ne_case_of_isOpen opened⟩
  intro _
  apply (each as bs f ph w known inside opened same).bind
  rintro a b _ w ⟨item_eq, ph, rfl, ended⟩
  have quiet := Phase.isQuiet_of_isEnd ended
  apply skipInside_bind inside (Phase.ne_case_of_isQuiet quiet)
  intro ph' w rests same
  have other := Phase.ne_case_of_isQuiet (rests.isQuiet quiet)
  apply comma_bind inside other (by rw [same])
  · intro f' ph' w inside' opened same
    apply pure
    exact ⟨by simp [item_eq, known], same, f', ph', rfl, inside', opened⟩
  · apply pure
    exact ⟨by simp [item_eq, known], same, f, ph', rfl, inside, other⟩

/-- A list in brackets that may end with a rest, up to the token that closes it. -/
theorem closedListWithRest (inside : Inside close stack f)
    (each : ∀ f ph w, Inside close stack f → ph.isOpen = true → (w 0).1 = (w 0).2 →
      Matches gap ⟨f :: stack, ph⟩ w p q fun a b y _ => show_ a = show' b ∧
        Stays (f :: stack) Phase.isEnd y)
    (last : ∀ f ph w, Inside close stack f → ph.isOpen = true → w 0 = (.ellipsis, .ellipsis) →
      Matches gap ⟨f :: stack, ph⟩ w r r' fun a b y _ => showRest a = showRest' b ∧
        Stays (f :: stack) Phase.isQuiet y) :
    Matches gap ⟨f :: stack, .opened⟩ v (closedListWithRest close p r)
      (closedListWithRest close q r') fun a b y w =>
        (a.1.map show_ = b.1.map show' ∧ a.2.map showRest = b.2.map showRest') ∧
          (w 0).1 = (w 0).2 ∧ ∃ f ph, y = ⟨f :: stack, ph⟩ ∧ Inside close stack f ∧ ph ≠ .case := by
  apply skipOpen_bind inside rfl
  intro w same
  apply iterate fun as bs y w => as.map show_ = bs.map show' ∧ (w 0).1 = (w 0).2 ∧
    ∃ f ph, y = ⟨f :: stack, ph⟩ ∧ Inside close stack f ∧ ph.isOpen = true
  · exact ⟨rfl, same, f, .opened, rfl, inside, rfl⟩
  rintro as bs _ w ⟨known, same, f, ph, rfl, inside, opened⟩
  apply kind_bind
  apply ite (by rw [same])
  · intro _
    apply pure
    exact ⟨⟨by simp [known], rfl⟩, same, f, ph, rfl, inside, Phase.ne_case_of_isOpen opened⟩
  intro _
  apply ite (by rw [same])
  · intro shown
    apply (last f ph w inside opened (Prod.ext shown (same ▸ shown))).bind
    rintro a b _ w ⟨rest_eq, ph, rfl, quiet⟩
    apply skipInside_bind inside (Phase.ne_case_of_isQuiet quiet)
    intro ph' w rests same
    apply pure
    exact ⟨⟨by simp [known], by simp [rest_eq]⟩, same, f, ph', rfl, inside,
      Phase.ne_case_of_isQuiet (rests.isQuiet quiet)⟩
  intro _
  apply (each f ph w inside opened same).bind
  rintro a b _ w ⟨item_eq, ph, rfl, ended⟩
  have quiet := Phase.isQuiet_of_isEnd ended
  apply skipInside_bind inside (Phase.ne_case_of_isQuiet quiet)
  intro ph' w rests same
  have other := Phase.ne_case_of_isQuiet (rests.isQuiet quiet)
  apply comma_bind inside other (by rw [same])
  · intro f' ph' w inside' opened same
    apply pure
    exact ⟨by simp [item_eq, known], same, f', ph', rfl, inside', opened⟩
  · apply pure
    exact ⟨⟨by simp [item_eq, known], rfl⟩, same, f, ph', rfl, inside, other⟩

end Lists

/-- The rules for short streams, on streams of which the second one is longer by at most `gap`
tokens. -/
theorem forFewer {n m : Nat} {p : (k : Nat) → k < n → Parser α} {q : (k : Nat) → k < m → Parser β}
    (room : (n : ℤ) + gap ≤ m)
    (h : ∀ i (less : i < n) j (less' : j < m), (j : ℤ) ≤ i + gap →
      Matches ((j : ℤ) - i) x v (p i less) (q j less') post) :
    Matches gap x v (forFewer n p) (forFewer m q) post := by
  intro far c d a c' near seen short run
  unfold Grammar.forFewer at run ⊢
  by_cases less : c.remaining < n
  · have less' : d.remaining < m := by omega
    rw [dif_pos less] at run
    rw [dif_pos less']
    exact h _ less _ less' short c d a c' near seen (by omega) run
  · rw [dif_neg less] at run
    cases run

/-- The rules for what is left of either stream. -/
theorem withRules {p q : Rules → Parser α} {post : α → α → Context → View → Prop}
    (h : ∀ n m : Nat, Matches ((m : ℤ) - n) x v (p (below n)) (q (below m)) post) :
    Matches gap x v (withRules p) (withRules q) post :=
  fun _ c d a c' near seen _ run => h _ _ c d a c' near seen (by omega) run

end Matches

end Frontend.Grammar
