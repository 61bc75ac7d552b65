import Frontend.Attempt
import Frontend.Grammar.Full
import Frontend.Proofs.Spelling

/-!
Two runs on streams that show the same words. `Alike p q rel` says that `p` and `q`, on two such
streams, both yield something, which `rel` relates, or both fail with the same message; either way
they take the same words. Each way to put parsers together has a rule, so a parser that looks at
words only runs alike wherever the words stand.
-/
namespace Frontend.Grammar

open Token (Kind)

/-- Faults with the same message, in as many branches. -/
structure Fault.Like (f g : Fault) : Prop where
  message : f.message = g.message
  branches : f.branches.length = g.branches.length

theorem Fault.Like.of_cause {f g : Fault} (cause : f.cause = g.cause)
    (branches : f.branches.length = g.branches.length) : f.Like g :=
  ⟨congrArg Cause.message cause, branches⟩

theorem foundText_congr {t u : Token} (same : t.word = u.word) : foundText t = foundText u := by
  obtain ⟨kind, text⟩ := Prod.mk.inj same
  rw [foundText, foundText, kind, text]

namespace Cursor

/-- Cursors that have the same words ahead. -/
structure Like (c d : Cursor) : Prop where
  upcoming : c.upcoming.map Token.word = d.upcoming.map Token.word
  last : c.last.word = d.last.word

/-- The end of a stream shows the same word at every place. -/
theorem word_last_advance (c : Cursor) : c.advance.last.word = c.last.word := by
  have same : c.advance.ending = c.ending ∧ c.advance.terminal = c.terminal := by
    unfold advance
    split <;> exact ⟨rfl, rfl⟩
  rw [Cursor.last, Cursor.last, same.1, same.2]
  cases c.ending.or c.terminal <;> rfl

namespace Like

variable {c d : Cursor}

theorem remaining (h : c.Like d) : c.remaining = d.remaining := by
  have same := congrArg List.length h.upcoming
  rwa [List.length_map, List.length_map, ← c.remaining_eq, ← d.remaining_eq] at same

theorem token (h : c.Like d) (n : Nat) : (c.token n).word = (d.token n).word := by
  have same := congrArg (·[n]?) h.upcoming
  simp only [List.getElem?_map] at same
  unfold Cursor.token
  cases found : c.upcoming[n]? with
  | none =>
    rw [found] at same
    rw [Option.map_eq_none_iff.mp same.symm]
    exact h.last
  | some t =>
    rw [found] at same
    obtain ⟨u, there, word⟩ := Option.map_eq_some_iff.mp same.symm
    rw [there]
    exact word.symm

theorem receive (h : c.Like d) (m n : Nat) : (c.receive m).Like (d.receive n) :=
  ⟨by simpa using h.upcoming, by simpa using h.last⟩

theorem tell (h : c.Like d) (e e' : Event) : (c.tell e).Like (d.tell e') :=
  ⟨h.upcoming, h.last⟩

theorem advance (h : c.Like d) : c.advance.Like d.advance := by
  constructor
  · rw [upcoming_advance, upcoming_advance, List.map_tail, List.map_tail, h.upcoming]
  · rw [word_last_advance, word_last_advance, h.last]

end Like

end Cursor

/-- Ends of two runs: both yield something, or both fail alike. -/
def Agree {α β : Type} (rel : α → β → Prop) :
    EStateM.Result Fault Cursor α → EStateM.Result Fault Cursor β → Prop
  | .ok a c, .ok b d => rel a b ∧ c.Like d
  | .error f c, .error g d => f.Like g ∧ c.Like d
  | _, _ => False

theorem Agree.of_ok {α β : Type} {rel : α → β → Prop} {a : α} {c : Cursor}
    {r : EStateM.Result Fault Cursor β} (h : Agree rel (.ok a c) r) :
    ∃ b d, r = .ok b d ∧ rel a b ∧ c.Like d := by
  cases r with
  | ok b d => exact ⟨b, d, rfl, h⟩
  | error g d => exact h.elim

theorem Agree.of_error {α β : Type} {rel : α → β → Prop} {f : Fault} {c : Cursor}
    {r : EStateM.Result Fault Cursor β} (h : Agree rel (.error f c) r) :
    ∃ g d, r = .error g d ∧ f.Like g ∧ c.Like d := by
  cases r with
  | ok b d => exact h.elim
  | error g d => exact ⟨g, d, rfl, h⟩

/-- Two parsers that run alike on streams that show the same words. -/
def Alike {α β : Type} (p : Parser α) (q : Parser β) (rel : α → β → Prop) : Prop :=
  ∀ c d : Cursor, c.Like d → Agree rel (p c) (q d)

/-- Turns of two repetitions that both go on or both come to an end. -/
def Parser.Turn.Alike {σ τ α β : Type} (inv : σ → τ → Prop) (rel : α → β → Prop) :
    Turn σ α → Turn τ β → Prop
  | .again s, .again t => inv s t
  | .done a, .done b => rel a b
  | _, _ => False

namespace Parser.Turn.Alike

variable {σ τ α β : Type} {inv : σ → τ → Prop} {rel : α → β → Prop} {t : Turn τ β}

theorem of_again {s : σ} (h : Turn.Alike inv rel (.again s) t) : ∃ s', t = .again s' ∧ inv s s' := by
  cases t with
  | again s' => exact ⟨s', rfl, h⟩
  | done b => exact h.elim

theorem of_done {a : α} (h : Turn.Alike inv rel (.done a) t) : ∃ b, t = .done b ∧ rel a b := by
  cases t with
  | again s' => exact h.elim
  | done b => exact ⟨b, rfl, h⟩

end Parser.Turn.Alike

namespace Alike

open Frontend.Grammar.Parser

variable {α β γ δ ε σ τ ρ : Type} {p : Parser α} {q : Parser β} {k : α → Parser γ}
  {l : β → Parser δ} {mid : α → β → Prop} {rel : γ → δ → Prop}

theorem mono {weaker : α → β → Prop} (h : Alike p q mid)
    (imp : ∀ a b, mid a b → weaker a b) : Alike p q weaker := by
  intro c d like
  cases run : p c with
  | ok a c' =>
    obtain ⟨b, d', run', related, like'⟩ := (run ▸ h c d like).of_ok
    rw [run']
    exact ⟨imp _ _ related, like'⟩
  | error f c' =>
    obtain ⟨g, d', run', ends⟩ := (run ▸ h c d like).of_error
    rw [run']
    exact ends

theorem pure {a : α} {b : β} (h : mid a b) : Alike (Pure.pure a) (Pure.pure b) mid :=
  fun _ _ like => ⟨h, like⟩

theorem fail {f g : Fault} (h : f.Like g) : Alike (Parser.fail f) (Parser.fail g) mid :=
  fun _ _ like => ⟨h, like⟩

theorem bind (first : Alike p q mid) (then_ : ∀ a b, mid a b → Alike (k a) (l b) rel) :
    Alike (p >>= k) (q >>= l) rel := by
  intro c d like
  simp only [Bind.bind, EStateM.bind]
  cases run : p c with
  | ok a c' =>
    obtain ⟨b, d', run', related, like'⟩ := (run ▸ first c d like).of_ok
    rw [run']
    exact then_ a b related c' d' like'
  | error f c' =>
    obtain ⟨g, d', run', ends⟩ := (run ▸ first c d like).of_error
    rw [run']
    exact ends

theorem ite {cond : Prop} [Decidable cond] {p' : Parser α} {q' : Parser β}
    (yes : cond → Alike p q mid) (no : ¬ cond → Alike p' q' mid) :
    Alike (if cond then p else p') (if cond then q else q') mid := by
  by_cases h : cond
  · rw [if_pos h, if_pos h]
    exact yes h
  · rw [if_neg h, if_neg h]
    exact no h

/-- One of two parsers, and then the same for what either yields. -/
theorem ite_bind {cond : Prop} [Decidable cond] {p' : Parser α} {q' : Parser β}
    (yes : Alike p q mid) (no : Alike p' q' mid)
    (then_ : ∀ a b, mid a b → Alike (k a) (l b) rel) :
    Alike (if cond then p >>= k else p' >>= k) (if cond then q >>= l else q' >>= l) rel :=
  ite (fun _ => yes.bind then_) fun _ => no.bind then_

theorem peekAt (n : Nat) : Alike (peekAt n) (peekAt n) fun t u => t.word = u.word := by
  intro c d like
  refine ⟨?_, like.receive n n⟩
  rw [Cursor.token_receive, Cursor.token_receive]
  exact like.token n

theorem kindAt (n : Nat) : Alike (kindAt n) (kindAt n) Eq :=
  (peekAt n).bind fun _ _ same => pure (congrArg Prod.fst same)

/-- Both runs see the same kind next. -/
theorem kind_bind {k : Kind → Parser γ} {l : Kind → Parser δ}
    (then_ : ∀ kind, Alike (k kind) (l kind) rel) : Alike (kind >>= k) (kind >>= l) rel := by
  apply (kindAt 0).bind
  rintro kind _ rfl
  exact then_ kind

theorem kindAt_bind {n : Nat} {k : Kind → Parser γ} {l : Kind → Parser δ}
    (then_ : ∀ kind, Alike (k kind) (l kind) rel) :
    Alike (Parser.kindAt n >>= k) (Parser.kindAt n >>= l) rel := by
  apply (kindAt n).bind
  rintro kind _ rfl
  exact then_ kind

theorem next : Alike next next fun t u => t.word = u.word := by
  intro c d like
  refine ⟨?_, (like.receive 0 0).advance⟩
  rw [Cursor.token_receive, Cursor.token_receive]
  exact like.token 0

theorem place : Alike place place fun _ _ => True :=
  fun _ _ like => ⟨trivial, like⟩

theorem tell {e e' : Event} : Alike (tell e) (tell e') fun _ _ => True :=
  fun _ _ like => ⟨trivial, like.tell e e'⟩

theorem unexpected {what : String} :
    Alike (unexpected what : Parser α) (unexpected what : Parser β) mid := by
  apply (peekAt 0).bind
  intro t u same
  refine fail ⟨?_, rfl⟩
  show s!"Expected {what} but got {foundText t}" = s!"Expected {what} but got {foundText u}"
  rw [foundText_congr same]

/-- Both runs take a token of a kind, or neither does. -/
theorem eat_bind {kind : Kind} {k : Option Token → Parser γ} {l : Option Token → Parser δ}
    (found : ∀ t u : Token, t.word = u.word → Alike (k (some t)) (l (some u)) rel)
    (other : Alike (k none) (l none) rel) : Alike (eat kind >>= k) (eat kind >>= l) rel := by
  unfold eat
  rw [bind_assoc, bind_assoc]
  apply kind_bind
  intro next_kind
  by_cases same : next_kind = kind
  · rw [if_pos same, bind_assoc, bind_assoc]
    apply next.bind
    intro t u same
    rw [pure_bind, pure_bind]
    exact found t u same
  · rw [if_neg same, pure_bind, pure_bind]
    exact other

theorem ate_bind {kind : Kind} {k : Bool → Parser γ} {l : Bool → Parser δ}
    (then_ : ∀ found, Alike (k found) (l found) rel) :
    Alike (ate kind >>= k) (ate kind >>= l) rel := by
  unfold ate
  rw [bind_assoc, bind_assoc]
  apply eat_bind
  · intro t u _
    exact then_ true
  · exact then_ false

theorem ate_ite {kind : Kind} {p p' : Parser γ} {q q' : Parser δ} (yes : Alike p q rel)
    (no : Alike p' q' rel) :
    Alike (ate kind >>= fun found => if found then p else p')
      (ate kind >>= fun found => if found then q else q') rel :=
  ate_bind fun _ => ite (fun _ => yes) fun _ => no

theorem expect {kind : Kind} {what : String} :
    Alike (expect kind what) (expect kind what) fun t u => t.word = u.word := by
  apply eat_bind
  · intro t u same
    exact pure same
  · exact unexpected

theorem expectIdent {what : String} :
    Alike (expectIdent what) (expectIdent what) fun t u => t.word = u.word :=
  expect

/-- Two runs that take a token go on with the same word at two places. -/
theorem token_bind {p q : Parser Token} {k : Token → Parser γ} {l : Token → Parser δ}
    (first : Alike p q fun t u => t.word = u.word)
    (then_ : ∀ kind text span span', Alike (k ⟨kind, text, span⟩) (l ⟨kind, text, span'⟩) rel) :
    Alike (p >>= k) (q >>= l) rel := by
  apply first.bind
  rintro ⟨kind, text, span⟩ ⟨_, _, span'⟩ same
  obtain ⟨rfl, rfl⟩ := Prod.mk.inj same
  exact then_ kind text span span'

/-- A relation between the states of two repetitions that holds before every turn. -/
theorem iterate {turn : σ → Parser (Turn σ α)} {turn' : τ → Parser (Turn τ β)}
    (inv : σ → τ → Prop) {s : σ} {t : τ} (start : inv s t)
    (turns : ∀ s t, inv s t → Alike (turn s) (turn' t) (Turn.Alike inv mid)) :
    Alike (Parser.iterate turn s) (Parser.iterate turn' t) mid := by
  intro c d like
  induction s, c using Parser.iterate.induct turn generalizing t d with
  | case1 s c f c' failed =>
    obtain ⟨g, d', run, ends⟩ := (failed ▸ turns s t start c d like).of_error
    rw [iterate_error failed, iterate_error run]
    exact ends
  | case2 s c a c' last =>
    obtain ⟨_, d', run, turn_alike, like'⟩ := (last ▸ turns s t start c d like).of_ok
    obtain ⟨b, rfl, related⟩ := turn_alike.of_done
    rw [iterate_done last, iterate_done run]
    exact ⟨related, like'⟩
  | case3 s c s' c' again less ih =>
    obtain ⟨_, d', run, turn_alike, like'⟩ := (again ▸ turns s t start c d like).of_ok
    obtain ⟨t', rfl, related⟩ := turn_alike.of_again
    have less' : d'.remaining < d.remaining := by
      rwa [← like'.remaining, ← like.remaining]
    rw [iterate_again again less, iterate_again run less']
    exact ih related d' like'
  | case4 s c s' c' again stuck =>
    obtain ⟨_, d', run, turn_alike, like'⟩ := (again ▸ turns s t start c d like).of_ok
    obtain ⟨t', rfl, related⟩ := turn_alike.of_again
    have stuck' : ¬ d'.remaining < d.remaining := by
      rwa [← like'.remaining, ← like.remaining]
    rw [Parser.iterate, again, Parser.iterate, run]
    simp only [if_neg stuck, if_neg stuck']
    exact ⟨.of_cause rfl rfl, like'⟩

theorem skipWhile {class_ : Kind → Bool} :
    Alike (skipWhile class_) (skipWhile class_) fun _ _ => True := by
  apply iterate (fun _ _ => True) trivial
  intro _ _ _
  apply kind_bind
  intro kind
  apply ite
  · intro _
    apply next.bind
    intro _ _ _
    exact pure trivial
  · intro _
    exact pure trivial

/-- A look ahead whose answer depends on the words ahead only. -/
theorem looking {answer : Cursor → α} {n m : Cursor → Nat}
    (same : ∀ c d : Cursor, c.Like d → answer c = answer d) :
    Alike (fun c => .ok (answer c) (c.receive (n c)) : Parser α)
      (fun c => .ok (answer c) (c.receive (m c))) Eq :=
  fun c d like => ⟨same c d like, like.receive _ _⟩

section Lists

variable {item : List α → Parser α} {item' : List β → Parser β} {f : α → γ} {g : β → γ}
  {r : Parser ρ} {r' : Parser σ} {f' : ρ → δ} {g' : σ → δ} {close : Kind}

/-- What items have in common, their lists have in common item by item. -/
theorem commaList (each : Alike p q fun a b => f a = g b) :
    Alike (commaList p) (commaList q) fun as bs => as.map f = bs.map g := by
  apply each.bind
  intro a b same
  apply iterate fun as bs => as.map f = bs.map g
  · simp [same]
  intro as bs known
  apply ate_ite
  · apply skipWhile.bind
    intro _ _ _
    apply each.bind
    intro a b same
    apply pure
    simp [Turn.Alike, same, known]
  · apply pure
    simp [Turn.Alike, known]

theorem closedList
    (each : ∀ as bs, as.map f = bs.map g → Alike (item as) (item' bs) fun a b => f a = g b) :
    Alike (closedList close item) (closedList close item') fun as bs => as.map f = bs.map g := by
  apply skipWhile.bind
  intro _ _ _
  apply iterate fun as bs => as.map f = bs.map g
  · rfl
  intro as bs known
  apply kind_bind
  intro kind
  apply ite
  · intro _
    apply pure
    simp [Turn.Alike, known]
  intro _
  apply (each as bs known).bind
  intro a b same
  apply skipWhile.bind
  intro _ _ _
  apply ate_ite
  · apply skipWhile.bind
    intro _ _ _
    apply pure
    simp [Turn.Alike, same, known]
  · apply pure
    simp [Turn.Alike, same, known]

theorem closedListWithRest (each : Alike p q fun a b => f a = g b)
    (last : Alike r r' fun x y => f' x = g' y) :
    Alike (closedListWithRest close p r) (closedListWithRest close q r') fun found found' =>
      found.1.map f = found'.1.map g ∧ found.2.map f' = found'.2.map g' := by
  apply skipWhile.bind
  intro _ _ _
  apply iterate fun as bs => as.map f = bs.map g
  · rfl
  intro as bs known
  apply kind_bind
  intro kind
  apply ite
  · intro _
    apply pure
    simp [Turn.Alike, known]
  intro _
  apply ite
  · intro _
    apply last.bind
    intro x y same
    apply skipWhile.bind
    intro _ _ _
    apply pure
    simp [Turn.Alike, known, same]
  intro _
  apply each.bind
  intro a b same
  apply skipWhile.bind
  intro _ _ _
  apply ate_ite
  · apply skipWhile.bind
    intro _ _ _
    apply pure
    simp [Turn.Alike, same, known]
  · apply pure
    simp [Turn.Alike, same, known]

end Lists

theorem forFewer {n : Nat} {p : (m : Nat) → m < n → Parser α} {q : (m : Nat) → m < n → Parser β}
    (h : ∀ m less, Alike (p m less) (q m less) mid) :
    Alike (forFewer n p) (forFewer n q) mid := by
  intro c d like
  unfold Grammar.forFewer
  by_cases less : c.remaining < n
  · have less' : d.remaining < n := by rwa [← like.remaining]
    have same : ∀ m less', m = c.remaining → q m less' = q c.remaining less := by
      rintro _ _ rfl
      rfl
    rw [dif_pos less, dif_pos less', same _ _ like.remaining.symm]
    exact h _ less c d like
  · have stuck : ¬ d.remaining < n := by rwa [← like.remaining]
    rw [dif_neg less, dif_neg stuck]
    exact ⟨.of_cause rfl rfl, like⟩

theorem withRules {p : Rules → Parser α} {q : Rules → Parser β}
    (h : ∀ n, Alike (p (below n)) (q (below n)) mid) : Alike (withRules p) (withRules q) mid := by
  intro c d like
  unfold Grammar.withRules
  rw [← like.remaining]
  exact h _ c d like

theorem attempt (h : Alike p q mid) : Alike (attempt p) (attempt q) fun found found' =>
    match found, found' with
    | .ok a, .ok b => mid a b
    | .error f, .error g => f.Like g
    | _, _ => False := by
  intro c d like
  unfold Frontend.attempt
  cases run : p c with
  | ok a c' =>
    obtain ⟨b, d', run', ends⟩ := (run ▸ h c d like).of_ok
    rw [run']
    exact ends
  | error f c' =>
    obtain ⟨g, d', run', ends⟩ := (run ▸ h c d like).of_error
    rw [run']
    exact ends

end Alike

/-- A parser that yields the same wherever the words stand, as far as `bare` shows. -/
abbrev LayoutFree {α γ : Type} (p : Parser α) (bare : α → γ) : Prop :=
  Alike p p fun a b => bare a = bare b

end Frontend.Grammar
