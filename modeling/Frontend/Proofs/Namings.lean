import Frontend.Proofs.Passes
import Frontend.Proofs.ShownNames
import Frontend.Proofs.Yields

/-!
Where the names of trees come from. Parsers take names out of identifiers only, so whatever holds of
all identifiers in front of a cursor holds of the names that a parser finds. `Finds good p holds`
speaks of the runs of `p` that end without a fault; each way to put parsers together has a rule.
-/
namespace Frontend

/-- All names in the labels of a tree are good. -/
inductive Node.Named (good : String → Prop) : Node → Prop
  | intro {n : Node} (own : ∀ name ∈ n.names, good name)
      (below : ∀ m ∈ n.children, Named good m) : Named good n

theorem Node.Named.mono {good better : String → Prop} (weaker : ∀ name, better name → good name)
    {n : Node} (h : Named better n) : Named good n := by
  induction h with
  | intro own _ ih => exact .intro (fun name mem => weaker name (own name mem)) ih

namespace Grammar

open Token (Kind)

variable {α β σ ρ : Type} {good : String → Prop}

/-- All identifiers in front of a cursor are good. -/
structure Cursor.Names (good : String → Prop) (c : Cursor) : Prop where
  proper : c.Proper
  idents : ∀ t ∈ c.upcoming, t.kind = .ident → good t.text

namespace Cursor.Names

variable {c : Cursor}

theorem receive (names : c.Names good) (n : Nat) : (c.receive n).Names good :=
  ⟨names.proper.receive n, by simpa using names.idents⟩

theorem tell (names : c.Names good) (e : Event) : (c.tell e).Names good :=
  ⟨names.proper.tell e, names.idents⟩

theorem advance (names : c.Names good) : c.advance.Names good := by
  refine ⟨names.proper.advance, fun t mem => names.idents t ?_⟩
  rw [upcoming_advance] at mem
  exact List.mem_of_mem_tail mem

/-- An identifier is no end of a stream, so it is among the tokens in front of it. -/
theorem token (names : c.Names good) (word : (c.token 0).kind = .ident) :
    good (c.token 0).text := by
  obtain ⟨rest, ahead⟩ := names.proper.upcoming_eq (by rw [word]; rfl)
  exact names.idents _ (by simp [ahead]) word

end Cursor.Names

/-- A parser leaves behind it only what was in front of it, whatever it takes. -/
class Parser.Steady (p : Parser α) : Prop where
  keeps : ∀ (good : String → Prop) c a c', c.Names good → p c = .ok a c' → c'.Names good

namespace Parser.Steady

variable {p q : Parser α} {k : α → Parser β}

instance pure {a : α} : Steady (Pure.pure a) where
  keeps _ _ _ _ names run := by cases run; exact names

instance bind [first : Steady p] [then_ : ∀ a, Steady (k a)] : Steady (p >>= k) where
  keeps good c b c' names run := by
    obtain ⟨a, mid, head, tail⟩ := bind_eq_ok.mp run
    exact (then_ a).keeps good mid b c' (first.keeps good c a mid names head) tail

instance ite {cond : Prop} [Decidable cond] [yes : Steady p] [no : Steady q] :
    Steady (if cond then p else q) := by
  split
  · exact yes
  · exact no

instance fail {f : Fault} : Steady (Parser.fail f : Parser α) where
  keeps _ _ _ _ _ run := by cases run

instance peekAt {n : Nat} : Steady (Parser.peekAt n) where
  keeps _ _ _ _ names run := by cases run; exact names.receive n

instance place : Steady Parser.place where
  keeps _ _ _ _ names run := by cases run; exact names

instance tell {e : Event} : Steady (Parser.tell e) where
  keeps _ _ _ _ names run := by cases run; exact names.tell e

instance next : Steady Parser.next where
  keeps _ _ _ _ names run := by cases run; exact (names.receive 0).advance

instance kindAt {n : Nat} : Steady (Parser.kindAt n) := bind

instance kind : Steady Parser.kind := kindAt

instance unexpected {what : String} : Steady (Parser.unexpected what : Parser α) := bind

instance eat {k : Kind} : Steady (Parser.eat k) := bind

instance ate {k : Kind} : Steady (Parser.ate k) := bind

instance expect {k : Kind} {what : String} : Steady (Parser.expect k what) := by
  have behind (found : Option Token) : Steady (match found with
      | some t => Pure.pure t
      | none => Parser.unexpected what) := by cases found <;> infer_instance
  exact bind

instance expectIdent {what : String} : Steady (Parser.expectIdent what) := expect

instance iterate {turn : σ → Parser (Turn σ β)} [turns : ∀ s, Steady (turn s)] {s : σ} :
    Steady (Parser.iterate turn s) where
  keeps good c b c' names run := by
    refine iterate_ends (fun _ c => c.Names good) (fun _ c => c.Names good) names ?_ run
    intro s c t c' names run
    have behind := (turns s).keeps good c t c' names run
    cases t <;> exact behind

instance skipWhile {p : Kind → Bool} : Steady (Parser.skipWhile p) := iterate

instance skipNewlines : Steady Parser.skipNewlines := skipWhile

instance skipSeparators : Steady Parser.skipSeparators := skipWhile

instance separatorsEnd {n : Nat} : Steady (Parser.separatorsEnd n) where
  keeps _ _ _ _ names run := by cases run; exact names.receive _

end Parser.Steady

/-- What a parser finds where all identifiers are good; they still are where it ends. -/
def Finds (good : String → Prop) (p : Parser α) (holds : α → Prop) : Prop :=
  ∀ c a c', c.Names good → p c = .ok a c' → c'.Names good ∧ holds a

namespace Finds

open Frontend.Grammar.Parser (Steady)

variable {p : Parser α} {holds : α → Prop} {other : β → Prop}

theorem mono {more : α → Prop} (h : Finds good p more) (weaker : ∀ a, more a → holds a) :
    Finds good p holds :=
  fun c a c' names run => (h c a c' names run).imp_right (weaker a)

theorem pure {a : α} (h : holds a) : Finds good (Pure.pure a) holds := by
  intro c b c' names run
  cases run
  exact ⟨names, h⟩

theorem bind {k : α → Parser β} (first : Finds good p holds)
    (then_ : ∀ a, holds a → Finds good (k a) other) : Finds good (p >>= k) other := by
  intro c b c' names run
  obtain ⟨a, mid, head, tail⟩ := bind_eq_ok.mp run
  obtain ⟨behind, a_holds⟩ := first c a mid names head
  exact then_ a a_holds mid b c' behind tail

theorem any [Steady p] : Finds good p fun _ => True :=
  fun c a c' names run => ⟨Steady.keeps good c a c' names run, trivial⟩

/-- A step that finds no names. -/
theorem step {k : α → Parser β} [Steady p] (then_ : ∀ a, Finds good (k a) other) :
    Finds good (p >>= k) other :=
  any.bind fun a _ => then_ a

theorem fail {f : Fault} : Finds good (Parser.fail f) holds := fun _ _ _ _ run => by cases run

theorem unexpected {what : String} : Finds good (Parser.unexpected what) holds :=
  step fun _ => fail

theorem ite {cond : Prop} [Decidable cond] {q : Parser α} (yes : cond → Finds good p holds)
    (no : ¬ cond → Finds good q holds) : Finds good (if cond then p else q) holds := by
  split
  · exact yes ‹_›
  · exact no ‹_›

/-- Something that is read only under a condition and stands for itself otherwise. -/
theorem ite_bind {cond : Prop} [Decidable cond] {k : α → Parser β} {a : α}
    (yes : Finds good p holds) (no : holds a) (then_ : ∀ a, holds a → Finds good (k a) other) :
    Finds good (if cond then p >>= k else k a) other :=
  ite (fun _ => yes.bind then_) fun _ => then_ a no

theorem ofExcept {x : Except Fault α} (h : ∀ a, x = .ok a → holds a) :
    Finds good (MonadExcept.ofExcept x) holds := by
  cases x with
  | error f => exact fail
  | ok a => exact pure (h a rfl)

/-- An identifier that is taken is good. -/
theorem eat : Finds good (Parser.eat .ident) fun found => ∀ t, found = some t → good t.text := by
  intro c found c' names run
  refine ⟨Steady.keeps good c found c' names run, ?_⟩
  rw [eat_run] at run
  split at run
  next word =>
    cases run
    exact fun t eq => Option.some.inj eq ▸ names.token word
  next => cases run; exact nofun

theorem expectIdent {what : String} : Finds good (Parser.expectIdent what) fun t => good t.text := by
  refine eat.bind fun found known => ?_
  cases found with
  | none => exact unexpected
  | some t => exact pure (known t rfl)

/-- The invariant holds before every turn of a repetition. -/
theorem iterate {turn : σ → Parser (Parser.Turn σ β)} (inv : σ → Prop) {s : σ} (start : inv s)
    (turns : ∀ s, inv s → Finds good (turn s) (Parser.Turn.Keeps inv other)) :
    Finds good (Parser.iterate turn s) other := by
  intro c b c' names run
  refine iterate_ends (fun s c => c.Names good ∧ inv s) (fun b c => c.Names good ∧ other b)
    ⟨names, start⟩ ?_ run
  intro s c t c' known run
  obtain ⟨behind, keeps⟩ := turns s known.2 c t c' known.1 run
  cases t <;> exact ⟨behind, keeps⟩

theorem commaList (item : Finds good p holds) :
    Finds good (Parser.commaList p) fun all => ∀ a ∈ all, holds a := by
  refine item.bind fun first first_holds => ?_
  refine iterate (fun items => ∀ a ∈ items, holds a) (List.forall_mem_singleton.mpr first_holds) ?_
  intro items known
  refine step fun comma => ite (fun _ => ?_) fun _ => pure ?_
  · exact step fun _ => item.bind fun more more_holds =>
      pure (List.forall_mem_cons.mpr ⟨more_holds, known⟩)
  · simpa [Parser.Turn.Keeps] using known

theorem closedList {close : Kind} {item : List α → Parser α}
    (items : ∀ before, Finds good (item before) holds) :
    Finds good (Parser.closedList close item) fun all => ∀ a ∈ all, holds a := by
  refine step fun _ => iterate (fun items => ∀ a ∈ items, holds a) nofun fun before known => ?_
  refine step fun k => ite (fun _ => pure ?_) fun _ => ?_
  · simpa [Parser.Turn.Keeps] using known
  refine (items before).bind fun more more_holds => step fun _ => step fun comma => ?_
  have known := List.forall_mem_cons.mpr ⟨more_holds, known⟩
  refine ite (fun _ => step fun _ => pure known) fun _ => pure fun a mem => ?_
  exact known a (List.mem_reverse.mp mem)

theorem closedListWithRest {close : Kind} {rest : Parser ρ} {last : ρ → Prop}
    (item : Finds good p holds) (others : Finds good rest last) :
    Finds good (Parser.closedListWithRest close p rest) fun found =>
      (∀ a ∈ found.1, holds a) ∧ ∀ r, found.2 = some r → last r := by
  refine step fun _ => iterate (fun items => ∀ a ∈ items, holds a) nofun fun items known => ?_
  have known_back : ∀ a ∈ items.reverse, holds a := fun a mem => known a (List.mem_reverse.mp mem)
  refine step fun k => ite (fun _ => pure ⟨known_back, nofun⟩) fun _ => ite (fun _ => ?_) fun _ => ?_
  · refine others.bind fun r r_holds => step fun _ => pure ⟨known_back, fun r' eq => ?_⟩
    exact Option.some.inj eq ▸ r_holds
  refine item.bind fun more more_holds => step fun _ => step fun comma => ?_
  have known := List.forall_mem_cons.mpr ⟨more_holds, known⟩
  refine ite (fun _ => step fun _ => pure known) fun _ => pure ⟨fun a mem => ?_, nofun⟩
  exact known a (List.mem_reverse.mp mem)

end Finds

end Grammar

end Frontend
