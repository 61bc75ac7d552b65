import Frontend.Attempt
import Frontend.Grammar.Full
import Frontend.Proofs.Passes

/-!
Parsers that get on. `Advances n ahead must p` speaks of the runs of `p` in front of less than `n`
tokens that `ahead` holds of: such a run passes tokens, at least one where its value `must` come
with one, and it never stalls. A rule may call rules on less tokens than it began with, so what a
parser does behind a token that it has taken is asked of smaller streams only. Each way to put
parsers together has a rule.
-/
namespace Frontend.Grammar

open Token (Kind)

/-- How a run ends that began at a cursor. Some tokens are passed, and one at least if the value must
come with one; a fault is no stall. -/
def Goes {α : Type} (c : Cursor) (must : α → Prop) : EStateM.Result Fault Cursor α → Prop
  | .ok a c' => ∃ taken, c.Passes taken c' ∧ (must a → taken ≠ [])
  | .error f c' => f.cause ≠ .stalled ∧ ∃ taken, c.Passes taken c'

/-- The runs of a parser in front of less than `n` tokens of which something is known. -/
def Advances {α : Type} (n : Nat) (ahead : List Token → Prop) (must : α → Prop) (p : Parser α) :
    Prop :=
  ∀ c : Cursor, c.Proper → c.remaining < n → ahead c.upcoming → Goes c must (p c)

/-- Nothing is known of the tokens. -/
abbrev whatever (_ : List Token) : Prop := True

/-- Every value comes with a token. -/
abbrev always {α : Type} (_ : α) : Prop := True

/-- No value has to come with a token. -/
abbrev never {α : Type} (_ : α) : Prop := False

/-- A turn of a repetition that is not the last. -/
def Parser.Turn.GoesOn {σ β : Type} : Turn σ β → Prop
  | .again _ => True
  | .done _ => False

/-- What is known of tokens once a kind has been seen at the n-th place. A terminal kind is that of
the end, and there are fewer tokens then. -/
structure Showing (n : Nat) (k : Kind) (tokens : List Token) : Prop where
  some : k.isTerminal = false → n < tokens.length
  kind : ∀ t, tokens[n]? = .some t → t.kind = k

/-- Tokens that do not begin with one of a kind. -/
def Lacking (k : Kind) (tokens : List Token) : Prop :=
  ∀ t, tokens[0]? = some t → t.kind ≠ k

theorem Showing.ne_nil {k : Kind} {tokens : List Token} (h : Showing 0 k tokens)
    (going : k.isTerminal = false) : tokens ≠ [] :=
  List.length_pos_iff.mp (h.some going)

theorem Showing.lacking {k other : Kind} {tokens : List Token} (h : Showing 0 k tokens)
    (different : k ≠ other) : Lacking other tokens :=
  fun t found same => different ((h.kind t found).symm.trans same)

/-- What is seen at the second place of some tokens is there behind the first one. -/
theorem Showing.tail_ne_nil {k : Kind} {t : Token} {tokens : List Token}
    (h : Showing 1 k (t :: tokens)) (going : k.isTerminal = false) : tokens ≠ [] := by
  have some := h.some going
  rintro rfl
  simp at some

theorem Cursor.Proper.showing {c : Cursor} (proper : c.Proper) (n : Nat) :
    Showing n (c.token n).kind c.upcoming := by
  unfold Cursor.token
  constructor
  · intro going
    by_cases inside : n < c.upcoming.length
    · exact inside
    · have past : c.upcoming[n]? = none := List.getElem?_eq_none (Nat.le_of_not_lt inside)
      have ends := proper.ends
      rw [past, Option.getD_none, ends] at going
      cases going
  · intro t found
    rw [found]
    rfl

/-- The tokens of some kinds at the head of a stream are taken, and no others. -/
theorem skipWhile_ok {kinds : Kind → Bool} (going : ∀ k, kinds k = true → k.isTerminal = false)
    {c : Cursor} (proper : c.Proper) :
    ∃ taken c', Parser.skipWhile kinds c = .ok () c' ∧ c.Passes taken c' ∧
      c'.upcoming = c.upcoming.dropWhile (kinds ·.kind) := by
  -- The induction is on what is ahead, a token a turn.
  generalize upcoming : c.upcoming = tokens
  induction tokens generalizing c with
  | nil =>
    have ended : kinds (c.token 0).kind = false := by
      have terminal := proper.isTerminal_token.mpr upcoming
      by_cases more : kinds (c.token 0).kind = true
      · rw [going _ more] at terminal
        cases terminal
      · exact Bool.eq_false_iff.mpr more
    refine ⟨[], c.receive 0, Parser.iterate_done ?_, .receive .stay 0, by simpa using upcoming⟩
    simp [Parser.kind, Parser.kindAt, Parser.peekAt, bind, EStateM.bind, pure, EStateM.pure, ended]
  | cons t rest ih =>
    have token : c.token 0 = t := by simp [Cursor.token, upcoming]
    by_cases more : kinds t.kind = true
    · have passes : c.Passes [t] ((c.receive 0).receive 0).advance := by
        have taken := Cursor.Passes.take (.receive (.stay (c := c)) 0) (by simp [token, going _ more])
        simpa [token] using taken
      have behind : ((c.receive 0).receive 0).advance.upcoming = rest := by simp [upcoming]
      obtain ⟨taken, c', run, passes', upcoming'⟩ := ih (passes.proper proper) behind
      have less : ((c.receive 0).receive 0).advance.remaining < c.remaining := by
        rw [passes.remaining proper]
        exact Nat.lt_add_of_pos_left Nat.one_pos
      refine ⟨_, c', (Parser.iterate_again ?_ less).trans run, passes.trans passes', ?_⟩
      · simp [Parser.kind, Parser.kindAt, Parser.peekAt, Parser.next, bind, EStateM.bind, pure,
          EStateM.pure, token, more]
      · simpa [more] using upcoming'
    · refine ⟨[], c.receive 0, Parser.iterate_done ?_, .receive .stay 0, ?_⟩
      · simp [Parser.kind, Parser.kindAt, Parser.peekAt, bind, EStateM.bind, pure, EStateM.pure,
          token, more]
      · simpa [more] using upcoming

/-- One turn of a list in brackets. -/
def listTurn {α : Type} (close : Kind) (item : List α → Parser α) (items : List α) :
    Parser (Parser.Turn (List α) (List α)) := do
  if (← Parser.kind) = close then pure (.done items.reverse)
  else
    let more ← item items
    Parser.skipNewlines
    if ← Parser.ate .comma then
      Parser.skipNewlines
      pure (.again (more :: items))
    else pure (.done (more :: items).reverse)

theorem closedList_eq {α : Type} (close : Kind) (item : List α → Parser α) :
    Parser.closedList close item =
      Parser.skipNewlines >>= fun _ => Parser.iterate (listTurn close item) [] := rfl

namespace Goes

variable {α : Type} {c mid : Cursor} {taken : List Token} {must other : α → Prop}
  {r : EStateM.Result Fault Cursor α}

/-- A run goes on where another one came to. -/
theorem after (passes : c.Passes taken mid) (h : Goes mid other r)
    (enough : ∀ a, must a → taken ≠ [] ∨ other a) : Goes c must r := by
  cases r with
  | error f c' =>
    obtain ⟨sound, further, passes'⟩ := h
    exact ⟨sound, _, passes.trans passes'⟩
  | ok a c' =>
    obtain ⟨further, passes', some⟩ := h
    refine ⟨_, passes.trans passes', fun needed empty => ?_⟩
    obtain ⟨none, none'⟩ := List.append_eq_nil_iff.mp empty
    obtain before | behind := enough a needed
    · exact before none
    · exact some behind none'

end Goes

namespace Advances

open Frontend.Grammar.Parser

variable {α β σ ρ : Type} {n m : Nat} {ahead known : List Token → Prop} {p q : Parser α}
  {k : α → Parser β} {mid must : α → Prop} {final : β → Prop} {kind : Kind}

theorem mono (h : Advances n ahead mid p) (weaker : ∀ a, must a → mid a) :
    Advances n ahead must p :=
  fun c proper short here => (h c proper short here).after .stay fun a needed => .inr (weaker a needed)

/-- Whether a token is taken may be forgotten. -/
theorem lax (h : Advances n ahead mid p) : Advances n ahead never p :=
  h.mono fun _ impossible => impossible.elim

/-- What is known of the tokens may be forgotten. -/
theorem forget (h : Advances n known must p) (weaker : ∀ tokens, ahead tokens → known tokens) :
    Advances n ahead must p :=
  fun c proper short here => h c proper short (weaker _ here)

/-- A parser that gets on gets on in front of less tokens. -/
theorem shorter (h : Advances n ahead must p) (less : m ≤ n) : Advances m ahead must p :=
  fun c proper short here => h c proper (Nat.lt_of_lt_of_le short less) here

theorem pure {a : α} (free : ¬ must a) : Advances n ahead must (Pure.pure a) :=
  fun _ _ _ _ => ⟨[], .stay, fun needed => (free needed).elim⟩

theorem fail {f : Fault} (sound : f.cause ≠ .stalled) : Advances n ahead must (Parser.fail f) :=
  fun _ _ _ _ => ⟨sound, [], .stay⟩

theorem absurd (impossible : ∀ tokens, ¬ ahead tokens) : Advances n ahead must p :=
  fun _ _ _ here => (impossible _ here).elim

theorem bind (first : Advances n ahead mid p)
    (then_ : ∀ a, Advances n whatever final (k a)) : Advances n ahead final (p >>= k) := by
  intro c proper short here
  have ends := first c proper short here
  simp only [Bind.bind, EStateM.bind]
  cases run : p c with
  | error f c' =>
    rw [run] at ends
    exact ends
  | ok a c' =>
    rw [run] at ends
    obtain ⟨taken, passes, -⟩ := ends
    have left := passes.remaining proper
    have ends' := then_ a c' (passes.proper proper) (by omega) trivial
    exact ends'.after passes fun _ => .inr

/-- Behind a token that is taken first, there are less tokens, and no other one has to be taken. -/
theorem first (head : Advances (n + 1) ahead always p)
    (then_ : ∀ a, Advances n whatever never (k a)) : Advances (n + 1) ahead final (p >>= k) := by
  intro c proper short here
  have ends := head c proper short here
  simp only [Bind.bind, EStateM.bind]
  cases run : p c with
  | error f c' =>
    rw [run] at ends
    exact ends
  | ok a c' =>
    rw [run] at ends
    obtain ⟨taken, passes, some⟩ := ends
    have left := passes.remaining proper
    have positive := List.length_pos_iff.mpr (some trivial)
    have ends' := then_ a c' (passes.proper proper) (by omega) trivial
    exact ends'.after passes fun _ _ => .inl (some trivial)

/-- Behind a token that is taken first, no other one has to be taken. -/
theorem start (head : Advances n ahead always p) (then_ : ∀ a, Advances n whatever never (k a)) :
    Advances n ahead final (p >>= k) := by
  cases n with
  | zero => exact fun _ _ short => (Nat.not_lt_zero _ short).elim
  | succ n => exact first head fun a => (then_ a).shorter (Nat.le_succ n)

theorem ite {cond : Prop} [Decidable cond] (yes : cond → Advances n ahead must p)
    (no : ¬ cond → Advances n ahead must q) : Advances n ahead must (if cond then p else q) := by
  by_cases h : cond
  · rw [if_pos h]
    exact yes h
  · rw [if_neg h]
    exact no h

/-- One of two parsers, and then the same for what either yields. -/
theorem ite_bind {cond : Prop} [Decidable cond] (yes : Advances n ahead never p)
    (no : Advances n ahead never q) (then_ : ∀ a, Advances n whatever final (k a)) :
    Advances n ahead final (if cond then p >>= k else q >>= k) :=
  ite (fun _ => yes.bind then_) fun _ => no.bind then_

/-- A kind is looked at, wherever it stands. -/
theorem kindAt_bind {i : Nat} {k : Kind → Parser β}
    (then_ : ∀ kind, Advances n (fun tokens => ahead tokens ∧ Showing i kind tokens) final (k kind)) :
    Advances n ahead final (kindAt i >>= k) := by
  intro c proper short here
  have seen : Showing i ((c.receive i).token i).kind (c.receive i).upcoming :=
    (proper.receive i).showing i
  have here' : ahead (c.receive i).upcoming := by simpa using here
  have ends := then_ _ (c.receive i) (proper.receive i) (by simpa using short) ⟨here', seen⟩
  exact ends.after (.receive .stay i) fun _ => .inr

theorem kind_bind {k : Kind → Parser β}
    (then_ : ∀ kind, Advances n (fun tokens => ahead tokens ∧ Showing 0 kind tokens) final (k kind)) :
    Advances n ahead final (Parser.kind >>= k) :=
  kindAt_bind then_

/-- A look ahead of which nothing has to be known. -/
theorem looking {answer : Cursor → α} {reach : Cursor → Nat} (free : ∀ a, ¬ must a) :
    Advances n ahead must fun c => .ok (answer c) (c.receive (reach c)) :=
  fun _ _ _ _ => ⟨[], .receive .stay _, fun needed => (free _ needed).elim⟩

theorem peekAt {i : Nat} : Advances n ahead never (peekAt i) :=
  looking fun _ => id

theorem place : Advances n ahead never place :=
  fun _ _ _ _ => ⟨[], .stay, fun impossible => impossible.elim⟩

theorem tell {e : Event} (other : e.received? = none) : Advances n ahead never (tell e) :=
  fun _ _ _ _ => ⟨[], .tell .stay e other, fun impossible => impossible.elim⟩

theorem unexpected {what : String} : Advances n ahead must (unexpected what) :=
  peekAt.bind fun _ => fail nofun

theorem unexpected_bind {what : String} : Advances n ahead final (Parser.unexpected what >>= k) := by
  have fails : ∀ f, Parser.fail f >>= k = Parser.fail f := fun _ => rfl
  unfold Parser.unexpected
  rw [bind_assoc]
  apply peekAt.bind
  intro t
  rw [fails]
  exact fail nofun

/-- A token is taken, and what is known of the tokens behind it stays known. -/
theorem next_bind {k : Token → Parser β} (some : ∀ tokens, ahead tokens → tokens ≠ [])
    (then_ : ∀ t, Advances n (fun tokens => ahead (t :: tokens)) never (k t)) :
    Advances (n + 1) ahead final (next >>= k) := by
  intro c proper short here
  obtain ⟨t, rest, upcoming⟩ := List.exists_cons_of_ne_nil (some _ here)
  have token : c.token 0 = t := by simp [Cursor.token, upcoming]
  have going : (c.token 0).kind.isTerminal = false :=
    token ▸ proper.plain t (upcoming ▸ List.mem_cons_self)
  have passes := Cursor.Passes.take .stay going
  have behind : ahead (t :: (c.receive 0).advance.upcoming) := by
    simpa [upcoming] using upcoming ▸ here
  have left := passes.remaining proper
  simp only [List.nil_append, List.length_singleton] at left
  have ends := then_ t _ (passes.proper proper) (by omega) behind
  rw [← token] at ends
  simp only [Bind.bind, EStateM.bind, next, Cursor.token_receive]
  exact ends.after passes fun _ _ => .inl (by simp)

theorem next (some : ∀ tokens, ahead tokens → tokens ≠ []) : Advances n ahead always next := by
  cases n with
  | zero => exact fun _ _ short => (Nat.not_lt_zero _ short).elim
  | succ n =>
    have taken : Advances (n + 1) ahead always (Parser.next >>= Pure.pure) :=
      next_bind some fun t => pure id
    rwa [bind_pure] at taken

/-- A token whose kind has been seen is there. -/
theorem next_seen {ahead : List Token → Prop} (going : kind.isTerminal = false) :
    Advances n (fun tokens => ahead tokens ∧ Showing 0 kind tokens) always Parser.next :=
  next fun _ here => here.2.ne_nil going

/-- Where the separators at the head end is told, and none is taken. -/
theorem separatorsEnd_bind {k : Nat → Parser β}
    (then_ : ∀ stop, Advances n (fun tokens => ahead tokens ∧
      stop = (tokens.takeWhile (·.kind.isSeparator)).length) final (k stop)) :
    Advances n ahead final (separatorsEnd 0 >>= k) := by
  intro c proper short here
  let stop := 0 + ((c.upcoming.drop 0).takeWhile (·.kind.isSeparator)).length
  have stop_eq : stop = ((c.receive stop).upcoming.takeWhile (·.kind.isSeparator)).length := by
    simp [stop]
  have passes : c.Passes [] (c.receive stop) := .receive .stay stop
  have ends := then_ stop (c.receive stop) (passes.proper proper) (by simpa using short)
    ⟨by simpa using here, stop_eq⟩
  exact ends.after passes fun _ => .inr

/-- A token of a kind is taken, or there is none. -/
theorem eat_bind {k : Option Token → Parser β} (going : kind.isTerminal = false)
    (found : ∀ t, Advances n (fun tokens => ahead (t :: tokens)) never (k (some t)))
    (other : Advances (n + 1) (fun tokens => ahead tokens ∧ Lacking kind tokens) final (k none)) :
    Advances (n + 1) ahead final (eat kind >>= k) := by
  unfold eat
  rw [bind_assoc]
  apply kind_bind
  intro seen
  by_cases same : seen = kind
  · subst same
    rw [if_pos rfl, bind_assoc]
    apply next_bind
    · exact fun tokens here => here.2.ne_nil going
    · intro t
      rw [pure_bind]
      exact (found t).forget fun tokens here => here.1
  · rw [if_neg same, pure_bind]
    exact other.forget fun tokens here => ⟨here.1, here.2.lacking same⟩

theorem eat (going : kind.isTerminal = false) : Advances n ahead never (eat kind) := by
  cases n with
  | zero => exact fun _ _ short => (Nat.not_lt_zero _ short).elim
  | succ n =>
    have found : Advances (n + 1) ahead never (Parser.eat kind >>= Pure.pure) :=
      eat_bind going (fun _ => pure id) (pure id)
    rwa [bind_pure] at found

/-- Whether a token of a kind is taken decides how a parser goes on. -/
theorem ate_ite (going : kind.isTerminal = false) (yes : Advances n whatever never p)
    (no : Advances n ahead must q) :
    Advances n ahead must (ate kind >>= fun found => if found then p else q) := by
  cases n with
  | zero => exact fun _ _ short => (Nat.not_lt_zero _ short).elim
  | succ n =>
    unfold ate
    rw [bind_assoc]
    apply eat_bind going
    · intro t
      have less := yes.shorter (Nat.le_succ n)
      exact less.forget fun _ _ => trivial
    · exact no.forget fun tokens here => here.1

theorem ate (going : kind.isTerminal = false) : Advances n ahead never (ate kind) := by
  cases n with
  | zero => exact fun _ _ short => (Nat.not_lt_zero _ short).elim
  | succ n => exact eat_bind going (fun _ => pure id) (pure id)

/-- A token of a kind that must be there; what is known of the tokens behind it stays known. -/
theorem expect_bind {what : String} {k : Token → Parser β} (going : kind.isTerminal = false)
    (then_ : ∀ t, Advances n (fun tokens => ahead (t :: tokens)) never (k t)) :
    Advances (n + 1) ahead final (expect kind what >>= k) := by
  unfold expect
  rw [bind_assoc]
  apply eat_bind going
  · intro t
    rw [pure_bind]
    exact then_ t
  · exact unexpected_bind

theorem expect {what : String} (going : kind.isTerminal = false) :
    Advances n ahead always (expect kind what) := by
  cases n with
  | zero => exact fun _ _ short => (Nat.not_lt_zero _ short).elim
  | succ n => exact eat_bind going (fun _ => pure id) unexpected

theorem expectIdent {what : String} : Advances n ahead always (expectIdent what) :=
  expect rfl

/-- A repetition whose turns take a token each never stalls. -/
theorem iterate {turn : σ → Parser (Turn σ β)} {s : σ}
    (turns : ∀ s, Advances n whatever Turn.GoesOn (turn s)) :
    Advances n ahead never (Parser.iterate turn s) := by
  intro c proper short here
  clear here
  induction s, c using Parser.iterate.induct turn with
  | case1 s c f c' failed =>
    have ends := turns s c proper short trivial
    rw [failed] at ends
    rw [iterate_error failed]
    exact ends
  | case2 s c b c' last =>
    have ends := turns s c proper short trivial
    rw [last] at ends
    obtain ⟨taken, passes, -⟩ := ends
    rw [iterate_done last]
    exact ⟨taken, passes, fun impossible => impossible.elim⟩
  | case3 s c s' c' again less ih =>
    have ends := turns s c proper short trivial
    rw [again] at ends
    obtain ⟨taken, passes, -⟩ := ends
    rw [iterate_again again less]
    have ends' := ih (passes.proper proper) (Nat.lt_trans less short)
    exact ends'.after passes fun _ => .inr
  | case4 s c s' c' again stuck =>
    have ends := turns s c proper short trivial
    rw [again] at ends
    obtain ⟨taken, passes, some⟩ := ends
    have left := passes.remaining proper
    have positive := List.length_pos_iff.mpr (some trivial)
    omega

/-- What is known of the tokens is known of them without those of some kinds at their head. -/
theorem skipWhile_bind {kinds : Kind → Bool} {k : Unit → Parser β}
    (going : ∀ k, kinds k = true → k.isTerminal = false)
    (then_ : Advances n (fun tokens =>
      ∃ before, ahead before ∧ tokens = before.dropWhile (kinds ·.kind)) final (k ())) :
    Advances n ahead final (skipWhile kinds >>= k) := by
  intro c proper short here
  obtain ⟨taken, c', run, passes, behind⟩ := skipWhile_ok going proper
  have left := passes.remaining proper
  have ends := then_ c' (passes.proper proper) (by omega) ⟨_, here, behind⟩
  simp only [Bind.bind, EStateM.bind, run]
  exact ends.after passes fun _ => .inr

theorem skipWhile {kinds : Kind → Bool} (going : ∀ k, kinds k = true → k.isTerminal = false) :
    Advances n ahead never (skipWhile kinds) := by
  have taken : Advances n ahead never (Parser.skipWhile kinds >>= Pure.pure) :=
    skipWhile_bind going (pure id)
  rwa [bind_pure] at taken

theorem skipNewlines : Advances n ahead never skipNewlines := by
  apply skipWhile
  intro k newline
  rw [of_decide_eq_true newline]
  rfl

theorem going_of_isSeparator {k : Kind} (h : k.isSeparator = true) : k.isTerminal = false := by
  cases k <;> first | rfl | cases h

theorem skipSeparators : Advances n ahead never skipSeparators :=
  skipWhile fun _ => going_of_isSeparator

theorem commaList (item : Advances n whatever always p) :
    Advances n ahead always (commaList p) := by
  apply (item.forget fun _ _ => trivial).start
  intro a
  apply iterate
  intro items
  apply ate_ite rfl
  · apply skipNewlines.bind
    intro _
    exact item.lax.bind fun more => pure id
  · exact pure id

/-- What closed lists do behind each item: the list goes on behind a comma, or it ends. -/
theorem listed {items : σ} {ended : β} :
    Advances n ahead never (do
      Parser.skipNewlines
      if ← Parser.ate .comma then
        Parser.skipNewlines
        Pure.pure (Turn.again items)
      else Pure.pure (.done ended)) := by
  apply skipNewlines.bind
  intro _
  apply ate_ite rfl
  · exact skipNewlines.bind fun _ => pure id
  · exact pure id

theorem listTurn {close : Kind} {item : List α → Parser α}
    (items : ∀ before, Advances n whatever always (item before)) (before : List α) :
    Advances n whatever Turn.GoesOn (listTurn close item before) := by
  apply kind_bind
  intro k
  apply ite
  · exact fun _ => pure id
  · intro _
    have weaker : ∀ tokens, True ∧ Showing 0 k tokens → whatever tokens := fun _ _ => trivial
    exact ((items before).forget weaker).start fun _ => listed

theorem closedList {close : Kind} {item : List α → Parser α}
    (items : ∀ before, Advances n whatever always (item before)) :
    Advances n ahead never (closedList close item) := by
  apply skipNewlines.bind
  intro _
  exact iterate fun before => listTurn items before

theorem turnWithRest {close : Kind} {rest : Parser ρ} (item : Advances n whatever always p)
    (last : Advances n (Showing 0 .ellipsis) always rest) (items : List α) :
    Advances n whatever Turn.GoesOn (do
      let k ← Parser.kind
      if k = close then Pure.pure (.done (items.reverse, none))
      else if k = .ellipsis then
        let r ← rest
        Parser.skipNewlines
        Pure.pure (.done (items.reverse, some r))
      else
        let more ← p
        Parser.skipNewlines
        if ← Parser.ate .comma then
          Parser.skipNewlines
          Pure.pure (.again (more :: items))
        else Pure.pure (.done ((more :: items).reverse, none))) := by
  apply kind_bind
  intro k
  apply ite
  · exact fun _ => pure id
  intro _
  apply ite
  · rintro rfl
    have weaker : ∀ tokens, True ∧ Showing 0 .ellipsis tokens → Showing 0 .ellipsis tokens :=
      fun _ here => here.2
    apply (last.forget weaker).start
    intro r
    exact skipNewlines.bind fun _ => pure id
  · intro _
    have weaker : ∀ tokens, True ∧ Showing 0 k tokens → whatever tokens := fun _ _ => trivial
    exact (item.forget weaker).start fun _ => listed

theorem closedListWithRest {close : Kind} {rest : Parser ρ} (item : Advances n whatever always p)
    (last : Advances n (Showing 0 .ellipsis) always rest) :
    Advances n ahead never (closedListWithRest close p rest) := by
  apply skipNewlines.bind
  intro _
  exact iterate fun before => turnWithRest item last before

theorem ofExcept {x : Except Fault α} (sound : ∀ f, x = .error f → f.cause ≠ .stalled) :
    Advances n ahead never (ofExcept x) := by
  cases x with
  | error f => exact fail (sound f rfl)
  | ok a => exact pure id

/-- Rules for short streams are only asked for what they do on such streams. -/
theorem forFewer {p : (m : Nat) → m < n → Parser α}
    (h : ∀ m less, Advances (m + 1) whatever must (p m less)) :
    Advances n ahead must (forFewer n p) := by
  intro c proper short _
  rw [forFewer_apply short]
  exact h c.remaining short c proper (Nat.lt_succ_self _) trivial

theorem withRules {p : Rules → Parser α}
    (h : ∀ m, Advances (m + 1) whatever must (p (below m))) :
    Advances n ahead must (withRules p) :=
  fun c proper _ _ => h c.remaining c proper (Nat.lt_succ_self _) trivial

end Advances

end Frontend.Grammar
