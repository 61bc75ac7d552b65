import Frontend.Proofs.AdvancingTypes
import Frontend.Proofs.Alike
import Frontend.Proofs.Yields
import Mathlib.Data.List.Forall2

/-!
Parsers that read the same. `Echoes n within good rel p q` speaks of the runs of `p` in front of
less than `n` tokens that yield something good, on a way that is as it should be: there `q` yields
something too, at the same place, and `rel` relates the two. Nothing is said of the runs of `p` that
fail, so two parsers that succeed alike echo each other. Each way to put parsers together has a
rule.
-/
namespace Frontend.Grammar

open Grammar.Parser
open Token (Kind)

/-- What may be asked of the way from a point to one with so many tokens left. It is asked of every
part of the way then. -/
structure Narrows (within : Nat → Cursor → Prop) : Prop where
  onward : ∀ {c c' taken m}, c.Proper → c.Passes taken c' → within m c → within m c'
  before : ∀ {c m m'}, m ≤ m' → within m c → within m' c

/-- What one run yields at its end, another one from the same point yields there too. -/
def EchoesAt {α β : Type} (c : Cursor) (within : Nat → Cursor → Prop) (good : α → Prop)
    (rel : α → β → Prop) (p : Parser α) (q : Parser β) : Prop :=
  ∀ a c', p c = .ok a c' → within c'.remaining c → good a → ∃ b, rel a b ∧ q c = .ok b c'

/-- What one parser yields in front of less than `n` tokens, another one yields there too. -/
def Echoes {α β : Type} (n : Nat) (within : Nat → Cursor → Prop) (good : α → Prop)
    (rel : α → β → Prop) (p : Parser α) (q : Parser β) : Prop :=
  ∀ c : Cursor, c.Proper → c.remaining < n → EchoesAt c within good rel p q

variable {α β γ δ σ τ ρ : Type} {n : Nat} {within : Nat → Cursor → Prop} {good : α → Prop}
  {rel : α → β → Prop} {good' : γ → Prop} {rel' : γ → δ → Prop} {p p' : Parser α} {q q' : Parser β}
  {k : α → Parser γ} {l : β → Parser δ}

/-- A run that yields something has passed what it has taken. -/
theorem Advances.passes {must : α → Prop} {a : α} {c c' : Cursor} (h : Advances n whatever must p)
    (proper : c.Proper) (short : c.remaining < n) (run : p c = .ok a c') :
    ∃ taken, c.Passes taken c' ∧ (must a → taken ≠ []) := by
  have goes := h c proper short trivial
  rwa [run] at goes

theorem eat_of_expect {kind : Kind} {what : String} {t : Token} {c c' : Cursor}
    (run : expect kind what c = .ok t c') : eat kind c = .ok (some t) c' := by
  obtain ⟨found, mid, ate, rest⟩ := bind_eq_ok.mp run
  cases found with
  | none => cases rest
  | some t' =>
    cases rest
    exact ate

theorem expect_of_eat {kind : Kind} {what : String} {t : Token} {c c' : Cursor}
    (run : eat kind c = .ok (some t) c') : expect kind what c = .ok t c' :=
  bind_eq_ok.mpr ⟨some t, c', run, rfl⟩

/-- A token of a kind is taken where one stands, and nothing elsewhere. -/
theorem eat_passes {kind : Kind} {found : Option Token} {c c' : Cursor}
    (going : kind.isTerminal = false) (run : eat kind c = .ok found c') :
    (c.token 0).kind = kind ∧ found = some (c.token 0) ∧ c.Passes [c.token 0] c' ∨
      (c.token 0).kind ≠ kind ∧ found = none ∧ c.Passes [] c' := by
  have still : c.Passes [] (c.receive 0) := .receive .stay 0
  rw [eat_run] at run
  split at run
  next shown =>
    cases run
    have going : ((c.receive 0).token 0).kind.isTerminal = false := by
      rwa [Cursor.token_receive, shown]
    have passes := still.take going
    rw [Cursor.token_receive, List.nil_append] at passes
    exact .inl ⟨shown, rfl, passes⟩
  next other =>
    cases run
    exact .inr ⟨other, rfl, still⟩

theorem expect_passes {kind : Kind} {what : String} {t : Token} {c c' : Cursor}
    (going : kind.isTerminal = false) (run : expect kind what c = .ok t c') :
    (c.token 0).kind = kind ∧ t = c.token 0 ∧ c.Passes [c.token 0] c' := by
  obtain ⟨shown, found, passes⟩ | ⟨-, found, -⟩ := eat_passes going (eat_of_expect run)
  · exact ⟨shown, Option.some.inj found, passes⟩
  · cases found

theorem ate_run {kind : Kind} {c : Cursor} (other : (c.token 0).kind ≠ kind) :
    ate kind c = .ok false (c.receive 0) := by
  have none_ : eat kind c = .ok none (c.receive 0) := by rw [eat_run, if_neg other]
  exact bind_eq_ok.mpr ⟨none, _, none_, rfl⟩

/-- A kind is looked at from the same point. -/
theorem EchoesAt.kindAt_bind {c : Cursor} {i : Nat} {k : Kind → Parser γ} {l : Kind → Parser δ}
    (narrows : Narrows within) (proper : c.Proper)
    (then_ : EchoesAt (c.receive i) within good' rel' (k (c.token i).kind) (l (c.token i).kind)) :
    EchoesAt c within good' rel' (kindAt i >>= k) (kindAt i >>= l) := by
  intro r c' run known found
  obtain ⟨_, _, looked, run⟩ := bind_eq_ok.mp run
  rw [kindAt_run] at looked
  cases looked
  obtain ⟨b, related, run'⟩ := then_ r c' run (narrows.onward proper (.receive .stay i) known) found
  exact ⟨b, related, bind_eq_ok.mpr ⟨_, _, kindAt_run c i, run'⟩⟩

theorem EchoesAt.ite {c : Cursor} {cond : Prop} [Decidable cond]
    (yes : cond → EchoesAt c within good rel p q) (no : ¬ cond → EchoesAt c within good rel p' q') :
    EchoesAt c within good rel (if cond then p else p') (if cond then q else q') := by
  by_cases h : cond
  · rw [if_pos h, if_pos h]
    exact yes h
  · rw [if_neg h, if_neg h]
    exact no h

/-- Where nothing good is yielded nothing has to be echoed. -/
theorem EchoesAt.of_not {c : Cursor} (never : Yields p (¬ good ·)) :
    EchoesAt c within good rel p q :=
  fun a c' run _ found => (never c a c' run found).elim

namespace Echoes

theorem pure {a : α} {b : β} (h : good a → rel a b) :
    Echoes n within good rel (Pure.pure a) (Pure.pure b) := by
  intro c _ _ a c' run _ found
  cases run
  exact ⟨b, h found, rfl⟩

theorem ite {cond : Prop} [Decidable cond] (yes : cond → Echoes n within good rel p q)
    (no : ¬ cond → Echoes n within good rel p' q') :
    Echoes n within good rel (if cond then p else p') (if cond then q else q') := by
  by_cases h : cond
  · rw [if_pos h, if_pos h]
    exact yes h
  · rw [if_neg h, if_neg h]
    exact no h

/-- What the first parser yields the second one yields too, and a relation of it is kept. -/
theorem bind (narrows : Narrows within) (advances : Advances n whatever never p)
    (first : Echoes n within good rel p q) (less : ∀ a, Advances n whatever never (k a))
    (back : ∀ a, Yields (k a) fun r => good' r → good a)
    (then_ : ∀ a b, rel a b → Echoes n within good' rel' (k a) (l b)) :
    Echoes n within good' rel' (p >>= k) (q >>= l) := by
  intro c proper short r c' run known found
  obtain ⟨a, mid, head, tail⟩ := bind_eq_ok.mp run
  obtain ⟨taken, passes, -⟩ := advances.passes proper short head
  have left := passes.remaining proper
  have proper' := passes.proper proper
  have short' : mid.remaining < n := by omega
  obtain ⟨further, passes', -⟩ := (less a).passes proper' short' tail
  have left' := passes'.remaining proper'
  have known' : within mid.remaining c := narrows.before (by omega) known
  obtain ⟨b, related, head'⟩ := first c proper short a mid head known' (back a mid r c' tail found)
  obtain ⟨r', related', tail'⟩ := then_ a b related mid proper' short' r c' tail
    (narrows.onward proper passes known) found
  exact ⟨r', related', bind_eq_ok.mpr ⟨b, mid, head', tail'⟩⟩

/-- Both parsers begin with the same step. -/
theorem step {must : α → Prop} {k : α → Parser γ} {l : α → Parser δ} (narrows : Narrows within)
    (advances : Advances n whatever must p) (same : ∀ c a c', p c = .ok a c' → p' c = .ok a c')
    (then_ : ∀ a, Echoes n within good' rel' (k a) (l a)) :
    Echoes n within good' rel' (p >>= k) (p' >>= l) := by
  intro c proper short r c' run known found
  obtain ⟨a, mid, head, tail⟩ := bind_eq_ok.mp run
  obtain ⟨taken, passes, -⟩ := advances.passes proper short head
  have left := passes.remaining proper
  obtain ⟨r', related, tail'⟩ := then_ a mid (passes.proper proper) (by omega) r c' tail
    (narrows.onward proper passes known) found
  exact ⟨r', related, bind_eq_ok.mpr ⟨a, mid, same c a mid head, tail'⟩⟩

/-- Parsers that come to an end with the same steps, whatever these take. -/
theorem ends {f : ρ → α} {g : ρ → β} {r : Parser ρ} {s : Parser σ}
    (related : ∀ x, rel (f x) (g x)) :
    Echoes n within good rel (do let x ← r; let _ ← s; Pure.pure (f x))
      (do let x ← r; let _ ← s; Pure.pure (g x)) := by
  intro c _ _ a c' run _ _
  obtain ⟨x, mid, head, rest⟩ := bind_eq_ok.mp run
  obtain ⟨y, last, tail, rest⟩ := bind_eq_ok.mp rest
  cases rest
  exact ⟨g x, related x, bind_eq_ok.mpr ⟨x, mid, head, bind_eq_ok.mpr ⟨y, c', tail, rfl⟩⟩⟩

/-- Both parsers take the same token, whatever they ask for where it is missing. -/
theorem expect_bind {kind : Kind} {what what' : String} {k : Token → Parser γ}
    {l : Token → Parser δ} (narrows : Narrows within) (going : kind.isTerminal = false)
    (then_ : ∀ t, Echoes n within good' rel' (k t) (l t)) :
    Echoes n within good' rel' (expect kind what >>= k) (expect kind what' >>= l) :=
  step narrows (.expect going) (fun _ _ _ run => expect_of_eat (eat_of_expect run)) then_

theorem skipNewlines_bind {k : Unit → Parser γ} {l : Unit → Parser δ} (narrows : Narrows within)
    (then_ : Echoes n within good' rel' (k ()) (l ())) :
    Echoes n within good' rel' (skipNewlines >>= k) (skipNewlines >>= l) :=
  step narrows .skipNewlines (fun _ _ _ run => run) fun _ => then_

theorem ate_ite {kind : Kind} {p p' : Parser γ} {q q' : Parser δ} (narrows : Narrows within)
    (going : kind.isTerminal = false) (yes : Echoes n within good' rel' p q)
    (no : Echoes n within good' rel' p' q') :
    Echoes n within good' rel' (ate kind >>= fun found => if found then p else p')
      (ate kind >>= fun found => if found then q else q') :=
  step narrows (.ate going) (fun _ _ _ run => run) fun _ => ite (fun _ => yes) fun _ => no

theorem kind_bind {k : Kind → Parser γ} {l : Kind → Parser δ} (narrows : Narrows within)
    (then_ : ∀ kind, Echoes n within good' rel' (k kind) (l kind)) :
    Echoes n within good' rel' (kind >>= k) (kind >>= l) := by
  intro c proper short
  apply EchoesAt.kindAt_bind narrows proper
  exact then_ _ _ (proper.receive 0) (by simpa using short)

/-- A repetition whose turns are echoed, from related states. What is good of its value was good of
every state on the way. -/
theorem iterate {turn : σ → Parser (Turn σ α)} {turn' : τ → Parser (Turn τ β)} (fits : σ → Prop)
    (inv : σ → τ → Prop) (narrows : Narrows within)
    (advances : ∀ s, Advances n whatever Turn.GoesOn (turn s))
    (back : ∀ s, Yields (turn s) fun t => t.Keeps fits good → fits s)
    (turns : ∀ s s', inv s s' →
      Echoes n within (Turn.Keeps fits good) (Turn.Alike inv rel) (turn s) (turn' s'))
    {s : σ} {s' : τ} (start : inv s s') :
    Echoes n within good rel (Parser.iterate turn s) (Parser.iterate turn' s') := by
  intro c proper short a c' run known found
  -- That a state fits is known from behind, so the induction carries both.
  suffices both : fits s ∧ ∀ s', inv s s' → ∃ b, rel a b ∧ Parser.iterate turn' s' c = .ok b c' from
    both.2 s' start
  clear start s'
  induction s, c using Parser.iterate.induct turn with
  | case1 s c f mid failed =>
    rw [iterate_error failed] at run
    cases run
  | case2 s c b mid last =>
    rw [iterate_done last] at run
    cases run
    refine ⟨back s c _ _ last found, fun s' same => ?_⟩
    obtain ⟨t', like, run'⟩ := turns s s' same c proper short _ _ last known found
    obtain ⟨b, rfl, related⟩ := like.of_done
    exact ⟨b, related, iterate_done run'⟩
  | case3 s c s₁ mid again less ih =>
    obtain ⟨taken, passes, -⟩ := (advances s).passes proper short again
    rw [iterate_again again less] at run
    have proper' := passes.proper proper
    have short' := Nat.lt_trans less short
    obtain ⟨fit, rest⟩ := ih proper' short' run (narrows.onward proper passes known)
    refine ⟨back s c _ _ again fit, fun s' same => ?_⟩
    have loop : Advances n whatever never (Parser.iterate turn s₁) := .iterate advances
    obtain ⟨further, passes', -⟩ := loop.passes proper' short' run
    have left := passes'.remaining proper'
    obtain ⟨t', like, run'⟩ := turns s s' same c proper short _ _ again
      (narrows.before (by omega) known) fit
    obtain ⟨s₁', rfl, same'⟩ := like.of_again
    obtain ⟨b, related, run''⟩ := rest s₁' same'
    exact ⟨b, related, (iterate_again run' less).trans run''⟩
  | case4 s c s₁ mid again stuck =>
    rw [Parser.iterate, again] at run
    simp [stuck] at run

/-- What a list does behind an item does not depend on the items: it goes on or it ends. -/
theorem listed {inv : σ → τ → Prop} {fits : σ → Prop} {items : σ} {ended : α} {items' : τ}
    {ended' : β} (narrows : Narrows within) (goesOn : inv items items') (ends : rel ended ended') :
    Echoes n within (Turn.Keeps fits good) (Turn.Alike inv rel) (do
      skipNewlines
      if ← ate .comma then
        skipNewlines
        Pure.pure (.again items)
      else Pure.pure (.done ended) : Parser (Turn σ α)) (do
      skipNewlines
      if ← ate .comma then
        skipNewlines
        Pure.pure (.again items')
      else Pure.pure (.done ended') : Parser (Turn τ β)) := by
  apply skipNewlines_bind narrows
  apply ate_ite narrows rfl
  · apply skipNewlines_bind narrows
    exact pure fun _ => goesOn
  · exact pure fun _ => ends

theorem listed_back {items : List α} {fact : Prop} {ended : Option ρ}
    (keeps : (∀ a ∈ items, good a) → fact) :
    Yields (do
      skipNewlines
      if ← ate .comma then
        skipNewlines
        Pure.pure (.again items)
      else Pure.pure (.done (items.reverse, ended)) : Parser (Turn (List α) (List α × Option ρ)))
      fun t => t.Keeps (fun before => ∀ a ∈ before, good a) (fun found => ∀ a ∈ found.1, good a) →
        fact := by
  apply Yields.step
  intro _
  apply Yields.step
  intro comma
  apply Yields.ite
  · intro _
    apply Yields.step
    exact fun _ => .pure keeps
  · exact fun _ => .pure fun all => keeps fun a mem => all a (List.mem_reverse.mpr mem)

/-- Lists of echoed items, with the same rest. -/
theorem closedListWithRest {close : Kind} {rest : Parser ρ} (narrows : Narrows within)
    (advances : Advances n whatever always p) (last : Advances n (Showing 0 .ellipsis) always rest)
    (items : Echoes n within good rel p q) :
    Echoes n within (fun found : List α × Option ρ => ∀ a ∈ found.1, good a)
      (fun found found' => List.Forall₂ rel found.1 found'.1 ∧ found.2 = found'.2)
      (closedListWithRest close p rest) (closedListWithRest close q rest) := by
  apply skipNewlines_bind narrows
  apply iterate (fun before => ∀ a ∈ before, good a) (List.Forall₂ rel) narrows
  · exact fun before => .turnWithRest advances last before
  · intro before
    apply Yields.step
    intro k
    apply Yields.ite
    · exact fun _ => .pure fun keeps a mem => keeps a (List.mem_reverse.mpr mem)
    intro _
    apply Yields.ite
    · intro _
      apply Yields.step
      intro r
      apply Yields.step
      exact fun _ => .pure fun keeps a mem => keeps a (List.mem_reverse.mpr mem)
    intro _
    apply Yields.step
    intro a
    exact listed_back fun keeps b mem => keeps b (List.mem_cons_of_mem a mem)
  · intro before before' same
    apply kind_bind narrows
    intro kind
    apply ite
    · exact fun _ => pure fun _ => ⟨List.forall₂_reverse_iff.mpr same, rfl⟩
    intro _
    apply ite
    · exact fun _ => ends fun r => ⟨List.forall₂_reverse_iff.mpr same, rfl⟩
    · intro _
      apply bind narrows advances.lax items
      · exact fun _ => .listed
      · exact fun a => listed_back fun keeps => keeps a List.mem_cons_self
      · intro a b related
        have longer := List.Forall₂.cons related same
        exact listed narrows longer ⟨List.forall₂_reverse_iff.mpr longer, rfl⟩
  · exact .nil

end Echoes

end Frontend.Grammar
