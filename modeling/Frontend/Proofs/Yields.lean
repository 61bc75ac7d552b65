import Frontend.Grammar.Rules

/-!
What parsers yield, whatever they read. `Yields p good` speaks of the runs of `p` that end without
a fault; each way to put parsers together has a rule.
-/
namespace Frontend.Grammar

open Token (Kind)

/-- A sequence of parsers comes to an end when both of its parts do. -/
theorem bind_eq_ok {α β : Type} {p : Parser α} {k : α → Parser β} {c c' : Cursor} {b : β} :
    (p >>= k) c = .ok b c' ↔ ∃ a mid, p c = .ok a mid ∧ k a mid = .ok b c' := by
  simp only [bind, EStateM.bind]
  constructor
  · intro h
    split at h
    next a mid first => exact ⟨a, mid, first, h⟩
    next => cases h
  · rintro ⟨a, mid, first, second⟩
    rw [first]
    exact second

/-- Looking at the kind of a token only receives it. -/
theorem kindAt_run (c : Cursor) (n : Nat) :
    Parser.kindAt n c = .ok (c.token n).kind (c.receive n) := by
  simp [Parser.kindAt, Parser.peekAt, bind, EStateM.bind, pure, EStateM.pure]

theorem kind_run (c : Cursor) : Parser.kind c = .ok (c.token 0).kind (c.receive 0) :=
  kindAt_run c 0

theorem kind_eq_ok {k : Kind} {c c' : Cursor} (run : Parser.kind c = .ok k c') :
    k = (c.token 0).kind ∧ c' = c.receive 0 := by
  rw [kind_run] at run
  cases run
  exact ⟨rfl, rfl⟩

/-- A token of a kind is taken if it is the next one. -/
theorem eat_run (k : Kind) (c : Cursor) : Parser.eat k c =
    if (c.token 0).kind = k then .ok (some (c.token 0)) ((c.receive 0).receive 0).advance
    else .ok none (c.receive 0) := by
  by_cases shown : (c.token 0).kind = k <;>
    simp [Parser.eat, Parser.next, kind_run, bind, EStateM.bind, pure, EStateM.pure, shown]

/-- What a parser yields is good, whatever it reads. -/
def Yields {α : Type} (p : Parser α) (good : α → Prop) : Prop :=
  ∀ c a c', p c = .ok a c' → good a

/-- A turn of a repetition keeps an invariant, or ends with something good. -/
def Parser.Turn.Keeps {σ β : Type} (inv : σ → Prop) (good : β → Prop) : Turn σ β → Prop
  | .again s => inv s
  | .done b => good b

/-- What holds before every turn of a repetition, and what it ends with and where. -/
theorem iterate_ends {σ β : Type} {turn : σ → Parser (Parser.Turn σ β)} (inv : σ → Cursor → Prop)
    (good : β → Cursor → Prop) {s : σ} {c c' : Cursor} {b : β} (start : inv s c)
    (turns : ∀ s c t c', inv s c → turn s c = .ok t c' → t.Keeps (inv · c') (good · c'))
    (run : Parser.iterate turn s c = .ok b c') : good b c' := by
  induction s, c using Parser.iterate.induct turn with
  | case1 s c f mid failed => rw [Parser.iterate_error failed] at run; cases run
  | case2 s c b mid last =>
    rw [Parser.iterate_done last] at run
    cases run
    exact turns s c _ _ start last
  | case3 s c s' mid again less ih =>
    rw [Parser.iterate_again again less] at run
    exact ih (turns s c _ _ start again) run
  | case4 s c s' mid again stuck =>
    rw [Parser.iterate, again] at run
    simp [stuck] at run

/-- What holds before every turn of a repetition, also of the tokens that are ahead. -/
theorem iterate_ok {σ β : Type} {turn : σ → Parser (Parser.Turn σ β)} (inv : σ → Cursor → Prop)
    (good : β → Prop) {s : σ} {c c' : Cursor} {b : β} (start : inv s c)
    (turns : ∀ s c t c', inv s c → turn s c = .ok t c' → t.Keeps (inv · c') good)
    (run : Parser.iterate turn s c = .ok b c') : good b :=
  iterate_ends inv (fun b _ => good b) start turns run

namespace Yields

variable {α β σ ρ : Type} {p : Parser α} {good : α → Prop} {other : β → Prop}

theorem mono {better : α → Prop} (h : Yields p better) (weaker : ∀ a, better a → good a) :
    Yields p good :=
  fun c a c' run => weaker a (h c a c' run)

theorem any : Yields p fun _ => True := fun _ _ _ _ => trivial

theorem pure {a : α} (h : good a) : Yields (Pure.pure a) good := by
  intro c b c' run
  cases run
  exact h

theorem bind {k : α → Parser β} (first : Yields p good) (then_ : ∀ a, good a → Yields (k a) other) :
    Yields (p >>= k) other := by
  intro c b c' run
  obtain ⟨a, mid, head, tail⟩ := bind_eq_ok.mp run
  exact then_ a (first c a mid head) mid b c' tail

/-- A step of which nothing is known. -/
theorem step {k : α → Parser β} (then_ : ∀ a, Yields (k a) other) : Yields (p >>= k) other :=
  any.bind fun a _ => then_ a

theorem fail {f : Fault} : Yields (Parser.fail f) good := by
  intro c a c' run
  cases run

theorem unexpected {what : String} : Yields (Parser.unexpected what) good :=
  step fun _ => fail

theorem ite {cond : Prop} [Decidable cond] {q : Parser α} (yes : cond → Yields p good)
    (no : ¬ cond → Yields q good) : Yields (if cond then p else q) good := by
  split
  · exact yes ‹_›
  · exact no ‹_›

/-- Something that is read only under a condition and stands for itself otherwise. -/
theorem ite_bind {cond : Prop} [Decidable cond] {k : α → Parser β} {a : α}
    (yes : Yields p good) (no : good a) (then_ : ∀ a, good a → Yields (k a) other) :
    Yields (if cond then p >>= k else k a) other :=
  ite (fun _ => yes.bind then_) fun _ => then_ a no

theorem ofExcept {x : Except Fault α} (h : ∀ a, x = .ok a → good a) :
    Yields (MonadExcept.ofExcept x) good := by
  cases x with
  | error f => exact fail
  | ok a => exact pure (h a rfl)

/-- The invariant holds before every turn of a repetition. -/
theorem iterate {turn : σ → Parser (Parser.Turn σ β)} (inv : σ → Prop) {s : σ} (start : inv s)
    (turns : ∀ s, inv s → Yields (turn s) (Parser.Turn.Keeps inv other)) :
    Yields (Parser.iterate turn s) other := by
  intro c b c' run
  refine iterate_ok (fun s _ => inv s) other start (fun s c t c' known run => ?_) run
  exact turns s known c t c' run

/-- A list between commas has a first item. -/
theorem commaList (item : Yields p good) :
    Yields (Parser.commaList p) fun all => all ≠ [] ∧ ∀ a ∈ all, good a := by
  refine item.bind fun first first_good => ?_
  refine iterate (fun items => items ≠ [] ∧ ∀ a ∈ items, good a) ?_ fun items known => ?_
  · exact ⟨List.cons_ne_nil _ _, by simpa using first_good⟩
  refine step fun comma => ite (fun _ => ?_) fun _ => pure ?_
  · refine step fun _ => item.bind fun more more_good => pure ⟨List.cons_ne_nil _ _, ?_⟩
    simpa [more_good] using known.2
  · simpa [Parser.Turn.Keeps] using known

/-- The items that a list has so far are known when the next one is read. -/
theorem closedList_of {close : Kind} {item : List α → Parser α} (inv : List α → Prop)
    (start : inv [])
    (items : ∀ before, inv before → Yields (item before) fun a => inv (a :: before)) :
    Yields (Parser.closedList close item) fun all => inv all.reverse := by
  refine step fun _ => iterate inv start fun before known => ?_
  refine step fun k => ite (fun _ => pure ?_) fun _ => ?_
  · simpa [Parser.Turn.Keeps] using known
  refine (items before known).bind fun more known => step fun _ => step fun comma => ?_
  refine ite (fun _ => step fun _ => pure known) fun _ => pure ?_
  simpa [Parser.Turn.Keeps] using known

theorem closedList {close : Kind} (item : Yields p good) :
    Yields (Parser.closedList close fun _ => p) fun items => ∀ a ∈ items, good a := by
  have all : Yields (Parser.closedList close fun _ => p) fun items => ∀ a ∈ items.reverse, good a :=
    closedList_of (fun items => ∀ a ∈ items, good a) (by simp) fun before known =>
      item.mono fun a a_good => by simpa [a_good] using known
  exact all.mono fun items => by simp

theorem closedListWithRest {close : Kind} {rest : Parser ρ} (item : Yields p good) :
    Yields (Parser.closedListWithRest close p rest) fun found => ∀ a ∈ found.1, good a := by
  refine step fun _ => iterate (fun items => ∀ a ∈ items, good a) (by simp) ?_
  intro items known
  refine step fun k => ite (fun _ => pure ?_) fun _ => ite (fun _ => ?_) fun _ => ?_
  · simpa [Parser.Turn.Keeps] using known
  · exact step fun r => step fun _ => pure (by simpa [Parser.Turn.Keeps] using known)
  refine item.bind fun more more_good => step fun _ => step fun comma => ?_
  have known : ∀ a ∈ more :: items, good a := by simpa [more_good] using known
  exact ite (fun _ => step fun _ => pure known) fun _ =>
    pure fun a mem => known a (List.mem_reverse.mp mem)

end Yields

end Frontend.Grammar
