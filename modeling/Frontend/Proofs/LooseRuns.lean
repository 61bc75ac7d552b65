import Frontend.Grammar.Full
import Frontend.Proofs.Advances
import Frontend.Proofs.Alike
import Frontend.Proofs.Endings
import Frontend.Proofs.LooseStreams

/-!
Two runs of which the second one has more line ends in front of it. `Matches gap x v p q post` says:
where `p` yields something in a context `x`, on streams of which `v` is to be seen, `q` yields
something on the looser stream, both end in a context again that the tokens in between lead to, and
`post` holds of what they yield, of that context and of what is to be seen there. The second stream
is longer by at most `gap` tokens, before and after.
-/
namespace Frontend.Grammar

open Token (Kind)

/-- A token that is taken one by one: no separator, and not the end of a stream. -/
def isSolid (k : Kind) : Bool := !k.isSeparator && !k.isTerminal

/-- Where the first stream shows a pause the second one may show another one. -/
def isPause (k : Kind) : Bool :=
  k.isSeparator || k = .rparen || k = .rbracket || k = .rbrace || k = .comma || k = .fatArrow

/-- What is to be seen from two cursors: the kinds of the tokens from there on. -/
abbrev View : Type := Nat → Kind × Kind

namespace View

/-- What is to be seen one token further. -/
def tail (v : View) : View := fun n => v (n + 1)

/-- Behind tokens of a class in the first stream stands one of a kind that is not of the class. -/
def Past (v : View) (kinds : Kind → Bool) (k : Kind) : Prop :=
  kinds k = false ∧ ∃ n, (v n).1 = k ∧ ∀ i < n, kinds (v i).1 = true

/-- The same token is next in both streams, or a pause in either. -/
def Level (v : View) : Prop :=
  (v 0).1 = (v 0).2 ∨ isPause (v 0).1 = true ∧ isPause (v 0).2 = true

end View

namespace Apart

variable {x : Context} {k l : Kind} {stack : List Frame} {ph : Phase}

/-- Unless something has to follow, streams differ in pauses only. -/
theorem level (apart : Apart x k l) (opened : x.phase ≠ .opened) (params : x.phase ≠ .params) :
    k = l ∨ isPause k = true ∧ isPause l = true := by
  cases apart with
  | same => exact .inl rfl
  | blank blank other =>
    refine .inr ⟨?_, rfl⟩
    obtain behind | ⟨behind, -⟩ | ⟨-, close | ⟨rfl, -⟩ | ⟨rfl, -⟩⟩ := blank
    · exact absurd behind opened
    · exact absurd behind params
    · obtain ⟨f, -, close⟩ := Option.bind_eq_some_iff.mp close
      cases f <;> simp [Frame.closer?] at close <;> subst close <;> rfl
    · rfl
    · rfl
  | separator => exact .inr ⟨rfl, rfl⟩
  | edge => exact .inr ⟨rfl, rfl⟩

theorem level_of_quiet (apart : Apart ⟨stack, ph⟩ k l) (quiet : ph.isQuiet = true) :
    k = l ∨ isPause k = true ∧ isPause l = true :=
  apart.level (by rintro rfl; cases quiet) (by rintro rfl; cases quiet)

/-- In a block streams differ in separators only, behind the same words. -/
theorem in_block (apart : Apart ⟨.block :: stack, ph⟩ k l) (opened : ph ≠ .opened) :
    k = l ∨ k = .semicolon ∧ l = .newline ∧ ph.isOpen = false := by
  cases apart with
  | same => exact .inl rfl
  | blank blank other =>
    have none_ := blank.resolve_left opened
    simp [Context.inBrackets, Context.beforeComma, Frame.isBracket, Frame.closer?] at none_
  | separator closed => exact .inr ⟨rfl, rfl, (Bool.or_eq_false_iff.mp closed).2⟩
  | edge outermost => cases outermost

end Apart

/-- What two cursors show. -/
def view (c d : Cursor) : View := fun n => ((c.token n).kind, (d.token n).kind)

/-- Two cursors, the second one in front of a looser stream than the first one. Either the streams
are the same, or it is known that contexts accept the tokens of the first one. -/
structure Near (far : List Token) (x : Context) (c d : Cursor) : Prop where
  left : c.Proper
  right : d.Proper
  last : c.last.kind = d.last.kind
  loose : Loose far x c.upcoming d.upcoming
  known : c.upcoming.map Token.word = d.upcoming.map Token.word ∨ ∃ z, x.Leads c.upcoming z

/-- Two cursors go on, the first one past tokens that its context accepts, the second one past as
many, or more. -/
structure Moves (x : Context) (c d : Cursor) (y : Context) (c' d' : Cursor) : Prop where
  leads : ∃ taken, c.upcoming = taken ++ c'.upcoming ∧ x.Leads taken y
  pace : c.remaining + d'.remaining ≤ c'.remaining + d.remaining

namespace Moves

variable {x y z : Context} {c d mid mid' c' d' : Cursor}

theorem stay {m n : Nat} : Moves x c d x (c.receive m) (d.receive n) :=
  ⟨⟨[], by simp, .stay⟩, by simp⟩

theorem trans (first : Moves x c d y mid mid') (second : Moves y mid mid' z c' d') :
    Moves x c d z c' d' := by
  obtain ⟨taken, upcoming, leads⟩ := first.leads
  obtain ⟨taken', upcoming', leads'⟩ := second.leads
  have pace := first.pace
  have pace' := second.pace
  refine ⟨⟨taken ++ taken', ?_, leads.trans leads'⟩, by omega⟩
  rw [upcoming, upcoming', List.append_assoc]

end Moves

namespace Near

variable {far : List Token} {x : Context} {c d : Cursor} {k : Kind}

theorem receive (near : Near far x c d) (m n : Nat) : Near far x (c.receive m) (d.receive n) :=
  ⟨near.left.receive m, near.right.receive n, by simpa using near.last, by simpa using near.loose,
    by simpa using near.known⟩

theorem tell {e e' : Event} (near : Near far x c d) : Near far x (c.tell e) (d.tell e') :=
  ⟨near.left.tell e, near.right.tell e', near.last, near.loose, near.known⟩

theorem view_receive (c d : Cursor) (m n : Nat) : view (c.receive m) (d.receive n) = view c d := by
  funext k
  simp [view]

theorem kind_head {c : Cursor} : (c.token 0).kind = (c.upcoming.head?.getD c.last).kind := by
  unfold Cursor.token
  cases c.upcoming <;> rfl

/-- What the streams show next is apart as their contexts allow. -/
theorem apart (near : Near far x c d) : Apart x (view c d 0).1 (view c d 0).2 := by
  have apart := near.loose.apart
  have last := near.last
  simp only [view, kind_head]
  cases left : c.upcoming with
  | cons t ts =>
    cases right : d.upcoming with
    | cons u us => simpa [left, right, firstKind] using apart
    | nil =>
      have loose := near.loose
      rw [left, right] at loose
      cases loose
  | nil =>
    cases right : d.upcoming with
    | nil =>
      simp only [List.head?_nil, Option.getD_none, last]
      exact .same
    | cons u us =>
      -- Only where something has to follow a line end may come in front of the end.
      rw [left, right] at apart
      have more : firstKind (u :: us) = u.kind := rfl
      have going := near.right.plain u (right ▸ List.mem_cons_self)
      simp only [firstKind, List.head?_nil, Option.elim_none, List.head?_cons,
        Option.elim_some] at apart
      simp only [List.head?_nil, Option.getD_none, List.head?_cons, Option.getD_some]
      generalize u.kind = l at apart going
      have ends := near.left.ends
      generalize c.last.kind = k at ends
      cases apart with
      | same => cases going
      | blank blank other =>
        have off : k ≠ .comma := by rintro rfl; cases ends
        refine .blank ?_ fun h => off h.1
        obtain behind | behind | ⟨-, close | ⟨other, -⟩ | ⟨other, -⟩⟩ := blank
        · exact .inl behind
        · exact .inr (.inl behind)
        · obtain ⟨f, -, close⟩ := Option.bind_eq_some_iff.mp close
          cases f <;> simp [Frame.closer?] at close
        · cases other
        · cases other

/-- Past a token that both streams show. -/
theorem advance (near : Near far x c d) (shown : view c d 0 = (k, k)) (solid : isSolid k = true) :
    (c.token 0).word = (d.token 0).word ∧ (c.token 0).kind = k ∧
      Near far (x.step (c.token 0)) c.advance d.advance ∧
      view c.advance d.advance = (view c d).tail ∧
      c.upcoming = c.token 0 :: c.advance.upcoming ∧
      c.advance.remaining + 1 = c.remaining ∧ d.advance.remaining + 1 = d.remaining := by
  obtain ⟨kind, kind'⟩ := Prod.mk.inj shown
  have solid' : k.isSeparator = false ∧ k.isTerminal = false := by simpa [isSolid] using solid
  obtain ⟨ts, left⟩ := near.left.upcoming_eq (by rw [kind]; exact solid'.2)
  obtain ⟨us, right⟩ := near.right.upcoming_eq (by rw [kind']; exact solid'.2)
  have loose := near.loose
  rw [left, right] at loose
  obtain ⟨u, us', same_us, same, rest⟩ := loose.behind (by
    show (d.token 0).kind = (c.token 0).kind
    rw [kind, kind']) (by rw [kind]; exact solid'.1)
  obtain ⟨rfl, rfl⟩ := List.cons.inj same_us
  have ahead : c.advance.upcoming = ts := by simp [left]
  have ahead' : d.advance.upcoming = us := by simp [right]
  have known := near.known
  rw [left, right] at known
  refine ⟨same, kind, ⟨near.left.advance, near.right.advance, ?_, ?_, ?_⟩, ?_, ?_, ?_, ?_⟩
  · rw [Cursor.kind_last_advance, Cursor.kind_last_advance, near.last]
  · rwa [ahead, ahead']
  · rw [ahead, ahead']
    exact known.imp (fun words => (List.cons.inj words).2) fun ⟨z, leads⟩ => ⟨z, leads.tail⟩
  · have behind : ∀ (c : Cursor) (n : Nat) (rest : List Token),
        c.upcoming = c.token 0 :: rest → (c.advance.token n).kind = (c.token (n + 1)).kind := by
      intro c n rest upcoming
      have ahead : c.advance.upcoming = rest := by rw [Cursor.upcoming_advance, upcoming]; rfl
      unfold Cursor.token at upcoming ⊢
      rw [ahead, upcoming, List.getElem?_cons_succ]
      cases rest[n]? with
      | none => exact Cursor.kind_last_advance c
      | some t => rfl
    funext n
    simp only [view, View.tail, behind c n ts left, behind d n us right]
  · rw [ahead, left]
  · rw [Cursor.remaining_eq, Cursor.remaining_eq, ahead, left]
    rfl
  · rw [Cursor.remaining_eq, Cursor.remaining_eq, ahead', right]
    rfl

end Near

section Skips

open Context

variable {far : List Token} {x : Context} {c c' d : Cursor} {kinds : Kind → Bool}
  {ts : List Token} {last : Token} {n : Nat}

/-- Behind tokens of a class stands the first one that is left when those are dropped. -/
theorem head?_dropWhile_of (skipped : ∀ i < n, kinds (ts[i]?.getD last).kind = true)
    (stops : kinds (ts[n]?.getD last).kind = false) :
    (ts.dropWhile (kinds ·.kind)).head?.getD last = ts[n]?.getD last := by
  induction ts generalizing n with
  | nil => rfl
  | cons t ts ih =>
    cases n with
    | zero =>
      have stops : kinds t.kind = false := stops
      simp [stops]
    | succ n =>
      have first : kinds t.kind = true := skipped 0 (Nat.succ_pos n)
      simp only [List.dropWhile_cons, first, if_true, List.getElem?_cons_succ] at stops ⊢
      exact ih (fun i less => skipped (i + 1) (Nat.succ_lt_succ less)) stops

/-- As many tokens as the class has at the head belong to it, and the one behind them does not. -/
theorem takeWhile_stops (ends : kinds last.kind = false) :
    (∀ i < (ts.takeWhile (kinds ·.kind)).length, kinds (ts[i]?.getD last).kind = true) ∧
      kinds (ts[(ts.takeWhile (kinds ·.kind)).length]?.getD last).kind = false := by
  induction ts with
  | nil => exact ⟨nofun, ends⟩
  | cons t ts ih =>
    by_cases more : kinds t.kind = true
    · simp only [List.takeWhile_cons, more, if_true, List.length_cons, List.getElem?_cons_succ]
      refine ⟨fun i less => ?_, ih.2⟩
      cases i with
      | zero => exact more
      | succ i => exact ih.1 i (Nat.lt_of_succ_lt_succ less)
    · simp [more]

/-- The second cursor is behind the tokens of a class at the head of the first one. -/
structure Cursor.Skipped (kinds : Kind → Bool) (c c' : Cursor) : Prop where
  run : Parser.skipWhile kinds c = .ok () c'
  proper : c'.Proper
  last : c'.last.kind = c.last.kind
  behind : c'.upcoming = c.upcoming.dropWhile (kinds ·.kind)
  stops : kinds c.last.kind = false

theorem Cursor.Proper.skipped (proper : c.Proper)
    (going : ∀ k, kinds k = true → k.isTerminal = false) : ∃ c', c.Skipped kinds c' := by
  obtain ⟨taken, c', run, passes, behind⟩ := skipWhile_ok going proper
  refine ⟨c', run, passes.proper proper, passes.kind_last, behind, ?_⟩
  refine Bool.eq_false_iff.mpr fun more => ?_
  have ends := proper.ends
  rw [going _ more] at ends
  cases ends

namespace Cursor.Skipped

theorem kind (skipped : c.Skipped kinds c') :
    (c'.token 0).kind = ((c.upcoming.dropWhile (kinds ·.kind)).head?.getD c.last).kind := by
  have same := skipped.last
  rw [Near.kind_head, skipped.behind]
  cases (c.upcoming.dropWhile (kinds ·.kind)).head? with
  | none => exact same
  | some t => rfl

/-- What is to be seen behind tokens of a class. -/
theorem found (skipped : c.Skipped kinds c') (before : ∀ i < n, kinds (c.token i).kind = true)
    (stops : kinds (c.token n).kind = false) : (c'.token 0).kind = (c.token n).kind := by
  rw [skipped.kind, head?_dropWhile_of before stops]
  rfl

/-- What is to be seen without skipping anything. -/
theorem ahead (skipped : c.Skipped kinds c') :
    (∀ i < (c.upcoming.takeWhile (kinds ·.kind)).length, kinds (c.token i).kind = true) ∧
      kinds (c.token (c.upcoming.takeWhile (kinds ·.kind)).length).kind = false :=
  takeWhile_stops skipped.stops

theorem done (skipped : c.Skipped kinds c') : kinds (c'.token 0).kind = false := by
  obtain ⟨before, stops⟩ := skipped.ahead
  rw [skipped.found before stops]
  exact stops

theorem remaining (skipped : c.Skipped kinds c') :
    c'.remaining + (c.upcoming.takeWhile (kinds ·.kind)).length = c.remaining := by
  have all := congrArg List.length
    (List.takeWhile_append_dropWhile (p := (kinds ·.kind)) (l := c.upcoming))
  rw [List.length_append] at all
  rw [c.remaining_eq, c'.remaining_eq, skipped.behind]
  omega

end Cursor.Skipped

/-- Both cursors go on behind what is skipped in their context. -/
theorem Near.skip (near : Near far x c d) (plain : Plain x.stack) (skips : x.Skips kinds) :
    ∃ ph c' d', c.Skipped kinds c' ∧ d.Skipped kinds d' ∧ x.Rests ph ∧
      (ph.isEnd = true → (c'.token 0).kind = (c.token 0).kind) ∧ Near far ⟨x.stack, ph⟩ c' d' ∧
      Moves x c d ⟨x.stack, ph⟩ c' d' := by
  have going : ∀ k, kinds k = true → k.isTerminal = false := fun k skipped =>
    Advances.going_of_isSeparator (skips.isSeparator skipped)
  obtain ⟨c', skipped⟩ := near.left.skipped going
  obtain ⟨d', skipped'⟩ := near.right.skipped going
  obtain ⟨ph, rests, loose, leads, fewer, stays⟩ := near.loose.dropWhile plain skips
  refine ⟨ph, c', d', skipped, skipped', rests, ?_, ?_, ?_, ?_⟩
  · intro ended
    rw [skipped.kind, stays ended, Near.kind_head]
  · refine ⟨skipped.proper, skipped'.proper, ?_, ?_, ?_⟩
    · rw [skipped.last, skipped'.last, near.last]
    · rwa [skipped.behind, skipped'.behind]
    · rw [skipped.behind, skipped'.behind]
      refine near.known.imp (fun words => ?_) fun ⟨z, all⟩ => ⟨z, ?_⟩
      · have dropped := congrArg (List.dropWhile (kinds ·.1)) words
        rw [List.dropWhile_map, List.dropWhile_map] at dropped
        exact dropped
      · exact leads.drop (by rwa [List.takeWhile_append_dropWhile])
  · refine ⟨_, ?_, leads⟩
    rw [skipped.behind, List.takeWhile_append_dropWhile]
  · have remaining := skipped.remaining
    have remaining' := skipped'.remaining
    omega

end Skips

/-- The second run yields something where the first one does, and ends up next to it. -/
def Matches {α β : Type} (gap : ℤ) (x : Context) (v : View) (p : Parser α) (q : Parser β)
    (post : α → β → Context → View → Prop) : Prop :=
  ∀ ⦃far : List Token⦄ (c d : Cursor) (a : α) (c' : Cursor), Near far x c d → view c d = v →
    (d.remaining : ℤ) ≤ c.remaining + gap → p c = .ok a c' →
    ∃ b d' y, q d = .ok b d' ∧ Near far y c' d' ∧ Moves x c d y c' d' ∧ post a b y (view c' d')

namespace Matches

open Frontend.Grammar.Parser Context

variable {α β γ δ σ τ : Type} {gap : ℤ} {x : Context} {v : View} {p : Parser α} {q : Parser β}
  {k : α → Parser γ} {l : β → Parser δ} {mid post : α → β → Context → View → Prop}
  {final : γ → δ → Context → View → Prop} {kind : Kind}

theorem mono (h : Matches gap x v p q mid) (weaker : ∀ a b y w, mid a b y w → post a b y w) :
    Matches gap x v p q post := by
  intro far c d a c' near seen short run
  obtain ⟨b, d', y, run', near', moves, held⟩ := h c d a c' near seen short run
  exact ⟨b, d', y, run', near', moves, weaker a b y _ held⟩

theorem pure {a : α} {b : β} (h : post a b x v) :
    Matches gap x v (Pure.pure a) (Pure.pure b) post := by
  rintro far c d _ _ near rfl short ⟨⟩
  exact ⟨b, d, x, rfl, near, ⟨⟨[], rfl, .stay⟩, Nat.le_refl _⟩, h⟩

/-- Nothing has to be matched where the first run fails. -/
theorem of_error (fails : ∀ c a c', p c ≠ .ok a c') : Matches gap x v p q post :=
  fun _ c _ a c' _ _ _ run => absurd run (fails c a c')

theorem fail {f : Fault} : Matches gap x v (Parser.fail f : Parser α) q post :=
  of_error fun c a c' run => by simp [Parser.fail] at run

theorem unexpected {what : String} : Matches gap x v (Parser.unexpected what : Parser α) q post :=
  of_error fun c a c' run => by
    simp [Parser.unexpected, peekAt, Parser.fail, Bind.bind, EStateM.bind] at run

theorem unexpected_bind {what : String} {k : α → Parser γ} {q : Parser δ} :
    Matches gap x v (Parser.unexpected what >>= k) q final :=
  of_error fun c a c' run => by
    simp [Parser.unexpected, peekAt, Parser.fail, Bind.bind, EStateM.bind] at run

theorem bind (first : Matches gap x v p q mid)
    (then_ : ∀ a b y w, mid a b y w → Matches gap y w (k a) (l b) final) :
    Matches gap x v (p >>= k) (q >>= l) final := by
  intro far c d e c' near seen short run
  simp only [Bind.bind, EStateM.bind] at run ⊢
  cases head : p c with
  | error f c₁ =>
    rw [head] at run
    cases run
  | ok a c₁ =>
    rw [head] at run
    obtain ⟨b, d₁, y, head', near₁, moves, held⟩ := first c d a c₁ near seen short head
    have pace := moves.pace
    obtain ⟨e', d', z, tail', near', moves', held'⟩ :=
      then_ a b y _ held c₁ d₁ e c' near₁ rfl (by omega) run
    rw [head']
    exact ⟨e', d', z, tail', near', moves.trans moves', held'⟩

theorem ite {cond cond' : Prop} [Decidable cond] [Decidable cond'] {p' : Parser α} {q' : Parser β}
    (same : cond ↔ cond') (yes : cond → Matches gap x v p q post)
    (no : ¬ cond → Matches gap x v p' q' post) :
    Matches gap x v (if cond then p else p') (if cond' then q else q') post := by
  by_cases h : cond
  · rw [if_pos h, if_pos (same.mp h)]
    exact yes h
  · rw [if_neg h, if_neg fun h' => h (same.mpr h')]
    exact no h

theorem ite_bind {cond cond' : Prop} [Decidable cond] [Decidable cond'] {p' : Parser α}
    {q' : Parser β} (mid : α → β → Context → View → Prop) (same : cond ↔ cond')
    (yes : cond → Matches gap x v p q mid)
    (no : ¬ cond → Matches gap x v p' q' mid)
    (then_ : ∀ a b y w, mid a b y w → Matches gap y w (k a) (l b) final) :
    Matches gap x v (if cond then p >>= k else p' >>= k) (if cond' then q >>= l else q' >>= l)
      final :=
  ite same (fun h => (yes h).bind then_) fun h => (no h).bind then_

/-- What the streams show next is apart as their contexts allow. -/
theorem ahead (h : Apart x (v 0).1 (v 0).2 → Matches gap x v p q post) :
    Matches gap x v p q post := by
  rintro far c d a c' near rfl
  exact h near.apart c d a c' near rfl

/-- Behind a token that both streams show they are apart as their contexts allow there. -/
theorem second (plain : Plain x.stack) (shown : v 0 = (kind, kind)) (solid : isSolid kind = true)
    (h : Apart (x.take kind) (v 1).1 (v 1).2 → Matches gap x v p q post) :
    Matches gap x v p q post := by
  rintro far c d a c' near rfl
  obtain ⟨-, kind_eq, near', view_eq, -⟩ := near.advance shown solid
  have apart := near'.apart
  rw [step_plain plain, kind_eq, view_eq] at apart
  exact h apart c d a c' near rfl

/-- The same behind two tokens. -/
theorem third {kind' : Kind} (plain : Plain x.stack) (shown : v 0 = (kind, kind))
    (solid : isSolid kind = true) (plain' : Plain (x.take kind).stack)
    (shown' : v 1 = (kind', kind'))
    (solid' : isSolid kind' = true)
    (h : Apart ((x.take kind).take kind') (v 2).1 (v 2).2 → Matches gap x v p q post) :
    Matches gap x v p q post := by
  rintro far c d a c' near rfl
  obtain ⟨-, kind_eq, near', view_eq, -⟩ := near.advance shown solid
  obtain ⟨-, kind_eq', near'', view_eq', -⟩ :=
    near'.advance (by rw [view_eq]; exact shown') solid'
  have apart := near''.apart
  rw [step_plain plain, kind_eq] at near' apart
  rw [step_plain plain', kind_eq', view_eq', view_eq] at apart
  exact h apart c d a c' near rfl

/-- Both runs see the n-th token. -/
theorem kindAt_bind {n : Nat} {k : Kind → Parser γ} {l : Kind → Parser δ}
    (then_ : Matches gap x v (k (v n).1) (l (v n).2) final) :
    Matches gap x v (kindAt n >>= k) (kindAt n >>= l) final := by
  rintro far c d e c' near rfl short run
  have head : ∀ c : Cursor, kindAt n c = .ok (c.token n).kind (c.receive n) := by
    intro c
    simp [kindAt, peekAt, Bind.bind, EStateM.bind, Pure.pure, EStateM.pure]
  simp only [Bind.bind, EStateM.bind, head] at run ⊢
  have near' := near.receive n n
  obtain ⟨e', d', y, run', near'', moves, held⟩ :=
    then_ _ _ e c' near' (Near.view_receive c d n n) (by simpa using short) run
  exact ⟨e', d', y, run', near'', Moves.stay.trans moves, held⟩

theorem kind_bind {k : Kind → Parser γ} {l : Kind → Parser δ}
    (then_ : Matches gap x v (k (v 0).1) (l (v 0).2) final) :
    Matches gap x v (Parser.kind >>= k) (Parser.kind >>= l) final :=
  kindAt_bind then_

theorem peek_bind {n : Nat} {k : Token → Parser γ} {l : Token → Parser δ}
    (then_ : ∀ t u, Matches gap x v (k t) (l u) final) :
    Matches gap x v (peekAt n >>= k) (peekAt n >>= l) final := by
  rintro far c d e c' near rfl short run
  have near' := near.receive n n
  obtain ⟨e', d', y, run', near'', moves, held⟩ :=
    then_ _ _ _ _ e c' near' (Near.view_receive c d n n) (by simpa using short) run
  exact ⟨e', d', y, run', near'', Moves.stay.trans moves, held⟩

theorem place_bind {k : Position → Parser γ} {l : Position → Parser δ}
    (then_ : ∀ a b, Matches gap x v (k a) (l b) final) :
    Matches gap x v (place >>= k) (place >>= l) final :=
  fun _ c d e c' near seen short run => then_ c.place d.place c d e c' near seen short run

theorem tell_bind {e e' : Event} {k : Unit → Parser γ} {l : Unit → Parser δ}
    (then_ : Matches gap x v (k ()) (l ()) final) :
    Matches gap x v (Parser.tell e >>= k) (Parser.tell e' >>= l) final := by
  intro far c d a c' near seen short run
  obtain ⟨b, d', y, run', near', moves, held⟩ :=
    then_ (c.tell e) (d.tell e') a c' near.tell seen short run
  exact ⟨b, d', y, run', near', ⟨moves.leads, moves.pace⟩, held⟩

/-- Both runs take the same token, in any context. -/
theorem next_step {k : Token → Parser γ} {l : Token → Parser δ} (shown : v 0 = (kind, kind))
    (solid : isSolid kind = true) (accepts : x.phase ≠ .case ∨ kind = .ident)
    (then_ : ∀ t u : Token, t.word = u.word → t.kind = kind →
      Matches gap (x.step t) v.tail (k t) (l u) final) :
    Matches gap x v (next >>= k) (next >>= l) final := by
  rintro far c d a c' near rfl short run
  obtain ⟨same, kind_eq, near', view_eq, upcoming, less, less'⟩ :=
    (near.receive 0 0).advance (k := kind) (by rw [Near.view_receive, shown]) solid
  simp only [Cursor.token_receive, Near.view_receive, Cursor.upcoming_receive,
    Cursor.remaining_receive] at *
  have accepted : x.Accepts (c.token 0).kind := by
    rw [kind_eq]
    refine ⟨?_, fun behind => accepts.resolve_left (absurd behind)⟩
    rintro rfl
    cases solid
  have took : Moves x c d (x.step (c.token 0)) (c.receive 0).advance (d.receive 0).advance :=
    ⟨⟨[c.token 0], upcoming, .take accepted .stay⟩, by omega⟩
  have head : ∀ c : Cursor, next c = .ok (c.token 0) (c.receive 0).advance := by
    intro c
    simp [next]
  simp only [Bind.bind, EStateM.bind, head] at run ⊢
  obtain ⟨b, d', y, run', near'', moves, held⟩ :=
    then_ _ _ same kind_eq _ _ a c' near' view_eq (by omega) run
  exact ⟨b, d', y, run', near'', took.trans moves, held⟩

/-- Both runs take the same token. -/
theorem next_bind {k : Token → Parser γ} {l : Token → Parser δ} (plain : Plain x.stack)
    (shown : v 0 = (kind, kind)) (solid : isSolid kind = true)
    (accepts : x.phase ≠ .case ∨ kind = .ident)
    (then_ : ∀ t u : Token, t.word = u.word → t.kind = kind →
      Matches gap (x.take kind) v.tail (k t) (l u) final) :
    Matches gap x v (next >>= k) (next >>= l) final := by
  apply next_step shown solid accepts
  intro t u same kind_eq
  rw [step_plain plain, kind_eq]
  exact then_ t u same kind_eq

/-- Both runs take a token of a kind, or neither does, in any context. -/
theorem eat_step {k : Option Token → Parser γ} {l : Option Token → Parser δ}
    (same : (v 0).1 = kind ↔ (v 0).2 = kind) (solid : isSolid kind = true)
    (accepts : x.phase ≠ .case ∨ kind = .ident)
    (found : v 0 = (kind, kind) → ∀ t u : Token, t.word = u.word → t.kind = kind →
      Matches gap (x.step t) v.tail (k (some t)) (l (some u)) final)
    (other : (v 0).1 ≠ kind → (v 0).2 ≠ kind → Matches gap x v (k none) (l none) final) :
    Matches gap x v (eat kind >>= k) (eat kind >>= l) final := by
  unfold eat
  rw [bind_assoc, bind_assoc]
  apply kind_bind
  by_cases shown : (v 0).1 = kind
  · have shown' := same.mp shown
    rw [if_pos shown, if_pos shown', bind_assoc, bind_assoc]
    have both : v 0 = (kind, kind) := Prod.ext shown shown'
    apply next_step both solid accepts
    intro t u same kind_eq
    rw [pure_bind, pure_bind]
    exact found both t u same kind_eq
  · have shown' : (v 0).2 ≠ kind := fun h => shown (same.mpr h)
    rw [if_neg shown, if_neg shown', pure_bind, pure_bind]
    exact other shown shown'

theorem eat_bind {k : Option Token → Parser γ} {l : Option Token → Parser δ} (plain : Plain x.stack)
    (same : (v 0).1 = kind ↔ (v 0).2 = kind) (solid : isSolid kind = true)
    (accepts : x.phase ≠ .case ∨ kind = .ident)
    (found : v 0 = (kind, kind) → ∀ t u : Token, t.word = u.word → t.kind = kind →
      Matches gap (x.take kind) v.tail (k (some t)) (l (some u)) final)
    (other : (v 0).1 ≠ kind → (v 0).2 ≠ kind → Matches gap x v (k none) (l none) final) :
    Matches gap x v (eat kind >>= k) (eat kind >>= l) final := by
  refine eat_step same solid accepts ?_ other
  intro shown t u same kind_eq
  rw [step_plain plain, kind_eq]
  exact found shown t u same kind_eq

theorem ate_step {k : Bool → Parser γ} {l : Bool → Parser δ}
    (same : (v 0).1 = kind ↔ (v 0).2 = kind) (solid : isSolid kind = true)
    (accepts : x.phase ≠ .case ∨ kind = .ident)
    (found : v 0 = (kind, kind) → ∀ t : Token, t.kind = kind →
      Matches gap (x.step t) v.tail (k true) (l true) final)
    (other : (v 0).1 ≠ kind → (v 0).2 ≠ kind → Matches gap x v (k false) (l false) final) :
    Matches gap x v (ate kind >>= k) (ate kind >>= l) final := by
  unfold ate
  rw [bind_assoc, bind_assoc]
  exact eat_step same solid accepts (fun shown t _ _ kind_eq => found shown t kind_eq) other

theorem ate_bind {k : Bool → Parser γ} {l : Bool → Parser δ} (plain : Plain x.stack)
    (same : (v 0).1 = kind ↔ (v 0).2 = kind) (solid : isSolid kind = true)
    (accepts : x.phase ≠ .case ∨ kind = .ident)
    (found : v 0 = (kind, kind) → Matches gap (x.take kind) v.tail (k true) (l true) final)
    (other : (v 0).1 ≠ kind → (v 0).2 ≠ kind → Matches gap x v (k false) (l false) final) :
    Matches gap x v (ate kind >>= k) (ate kind >>= l) final := by
  unfold ate
  rw [bind_assoc, bind_assoc]
  exact eat_bind plain same solid accepts (fun shown _ _ _ _ => found shown) other

theorem expect_step {what : String} {k : Token → Parser γ} {l : Token → Parser δ}
    (same : (v 0).1 = kind → (v 0).2 = kind) (solid : isSolid kind = true)
    (accepts : x.phase ≠ .case ∨ kind = .ident)
    (then_ : ∀ t u : Token, t.word = u.word → t.kind = kind →
      Matches gap (x.step t) v.tail (k t) (l u) final) :
    Matches gap x v (expect kind what >>= k) (expect kind what >>= l) final := by
  unfold expect
  rw [bind_assoc, bind_assoc]
  by_cases shown : (v 0).1 = kind
  · refine eat_step ⟨same, fun _ => shown⟩ solid accepts ?_ fun other => absurd shown other
    intro _ t u same kind_eq
    simp only [pure_bind]
    exact then_ t u same kind_eq
  · unfold eat
    rw [bind_assoc, bind_assoc]
    apply kind_bind
    rw [if_neg shown, pure_bind]
    exact unexpected_bind

/-- Both runs take the token that has to be there. -/
theorem expect_bind {what : String} {k : Token → Parser γ} {l : Token → Parser δ}
    (plain : Plain x.stack)
    (same : (v 0).1 = kind → (v 0).2 = kind) (solid : isSolid kind = true)
    (accepts : x.phase ≠ .case ∨ kind = .ident)
    (then_ : ∀ t u : Token, t.word = u.word → t.kind = kind →
      Matches gap (x.take kind) v.tail (k t) (l u) final) :
    Matches gap x v (expect kind what >>= k) (expect kind what >>= l) final := by
  apply expect_step same solid accepts
  intro t u same kind_eq
  rw [step_plain plain, kind_eq]
  exact then_ t u same kind_eq

/-- Both runs skip what is skipped in their context. -/
theorem skipWhile_bind {kinds : Kind → Bool} {k : Unit → Parser γ} {l : Unit → Parser δ}
    (plain : Plain x.stack) (skips : x.Skips kinds)
    (then_ : ∀ ph w, x.Rests ph → (ph.isEnd = true → (w 0).1 = (v 0).1) →
      (∀ k, v.Past kinds k → (w 0).1 = k) →
      Apart ⟨x.stack, ph⟩ (w 0).1 (w 0).2 → kinds (w 0).1 = false → kinds (w 0).2 = false →
      Matches gap ⟨x.stack, ph⟩ w (k ()) (l ()) final) :
    Matches gap x v (skipWhile kinds >>= k) (skipWhile kinds >>= l) final := by
  rintro far c d a c' near rfl short run
  obtain ⟨ph, c₁, d₁, skipped, skipped', rests, unmoved, near₁, moves⟩ := near.skip plain skips
  have found : ∀ k, (view c d).Past kinds k → (c₁.token 0).kind = k := by
    rintro _ ⟨stops, n, rfl, before⟩
    exact skipped.found before stops
  have pace := moves.pace
  simp only [Bind.bind, EStateM.bind, skipped.run, skipped'.run] at run ⊢
  obtain ⟨b, d', y, run', near', moves', held⟩ := then_ ph _ rests unmoved found near₁.apart
    skipped.done skipped'.done c₁ d₁ a c' near₁ rfl (by omega) run
  exact ⟨b, d', y, run', near', moves.trans moves', held⟩

end Matches

end Frontend.Grammar
