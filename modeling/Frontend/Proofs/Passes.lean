import Frontend.Grammar.Cursor

/-!
Where a cursor goes. On the way from one point of a stream to another one tokens are received, events
are told, and tokens are taken, but never a terminal one: `Passes c taken c'`. What a cursor has in
front of it, where it stands and what it has received follow from the tokens that it has passed, and
each of it is shown once, for a single step.
-/
namespace Frontend.Grammar

open Token (Kind)

/-- The token that an event tells to be received. -/
def Event.received? : Event → Option Token
  | .received t => some t
  | _ => none

/-- The tokens of a stream up to its first terminal one, and with it. -/
def uptoEnd (tokens : List Token) : List Token :=
  tokens.takeWhile (!·.kind.isTerminal) ++ (tokens.find? (·.kind.isTerminal)).toList

namespace Cursor

/-- From one point of a stream to another one, past some tokens. None of them is terminal. -/
inductive Passes : Cursor → List Token → Cursor → Prop
  | stay {c : Cursor} : Passes c [] c
  | receive {c mid : Cursor} {taken : List Token} (before : Passes c taken mid) (n : Nat) :
      Passes c taken (mid.receive n)
  | tell {c mid : Cursor} {taken : List Token} (before : Passes c taken mid) (e : Event)
      (other : e.received? = none) : Passes c taken (mid.tell e)
  | take {c mid : Cursor} {taken : List Token} (before : Passes c taken mid)
      (going : (mid.token 0).kind.isTerminal = false) :
      Passes c (taken ++ [mid.token 0]) (mid.receive 0).advance

/-- A point of a stream that ends with its first terminal token. -/
structure Proper (c : Cursor) : Prop where
  plain : ∀ t ∈ c.upcoming, t.kind.isTerminal = false
  ends : c.last.kind.isTerminal = true

/-- The tokens that have been received, in order. -/
def heard (c : Cursor) : List Token := c.events.reverse.filterMap Event.received?

/-- What a cursor has received behind some tokens: these, as many of the upcoming ones as it counts,
and the end only after all of them. -/
structure Hears (taken : List Token) (c : Cursor) : Prop where
  heard_eq : c.heard =
    taken ++ c.upcoming.take c.received ++ if c.ending.isSome then c.terminal.toList else []
  within : c.received ≤ c.upcoming.length
  all : c.ending.isSome = true → c.received = c.upcoming.length

variable {c mid c' : Cursor} {taken further rest : List Token} {t : Token}

theorem Passes.trans (first : Passes c taken mid) (second : Passes mid further c') :
    Passes c (taken ++ further) c' := by
  induction second with
  | stay => simpa using first
  | receive _ n ih => exact ih.receive n
  | tell _ e other ih => exact ih.tell e other
  | take _ going ih =>
    rw [← List.append_assoc]
    exact ih.take going

/-- A token in front of the end is an upcoming one. -/
theorem Proper.upcoming_eq (proper : c.Proper) (going : (c.token 0).kind.isTerminal = false) :
    ∃ rest, c.upcoming = c.token 0 :: rest := by
  unfold token at going ⊢
  cases upcoming : c.upcoming with
  | nil =>
    rw [upcoming] at going
    have ends := proper.ends
    rw [show c.last.kind.isTerminal = false from going] at ends
    cases ends
  | cons t rest => exact ⟨rest, rfl⟩

theorem Proper.isTerminal_token (proper : c.Proper) :
    (c.token 0).kind.isTerminal = true ↔ c.upcoming = [] := by
  unfold token
  cases upcoming : c.upcoming with
  | nil => simpa using proper.ends
  | cons t rest =>
    have going := proper.plain t (by simp [upcoming])
    simp [going]

theorem Proper.receive (proper : c.Proper) (n : Nat) : (c.receive n).Proper :=
  ⟨by simpa using proper.plain, by simpa using proper.ends⟩

theorem Proper.tell (proper : c.Proper) (e : Event) : (c.tell e).Proper :=
  ⟨proper.plain, proper.ends⟩

theorem kind_last_advance (c : Cursor) : c.advance.last.kind = c.last.kind := by
  unfold advance
  split <;> cases ending : c.ending <;> cases terminal : c.terminal <;>
    simp [last, ending, terminal, Token.eofAt]

theorem Proper.advance (proper : c.Proper) : c.advance.Proper := by
  constructor
  · intro t mem
    rw [upcoming_advance] at mem
    exact proper.plain t (List.mem_of_mem_tail mem)
  · rw [kind_last_advance]
    exact proper.ends

theorem Passes.proper (passes : Passes c taken c') (proper : c.Proper) : c'.Proper := by
  induction passes with
  | stay => exact proper
  | receive _ n ih => exact ih.receive n
  | tell _ e _ ih => exact ih.tell e
  | take _ _ ih => exact (ih.receive 0).advance

theorem Passes.plain (passes : Passes c taken c') : ∀ t ∈ taken, t.kind.isTerminal = false := by
  induction passes with
  | stay => exact fun _ mem => absurd mem List.not_mem_nil
  | receive _ _ ih => exact ih
  | tell _ _ _ ih => exact ih
  | take _ going ih =>
    intro t mem
    obtain before | last := List.mem_append.mp mem
    · exact ih t before
    · rw [List.mem_singleton.mp last]
      exact going

/-- What was in front of a cursor is what it has passed and what is in front of it now. -/
theorem Passes.upcoming (passes : Passes c taken c') (proper : c.Proper) :
    c.upcoming = taken ++ c'.upcoming := by
  induction passes with
  | stay => rfl
  | receive _ n ih => simpa using ih
  | tell _ _ _ ih => exact ih
  | take before going ih =>
    obtain ⟨rest, ahead⟩ := (before.proper proper).upcoming_eq going
    rw [ih, upcoming_advance, upcoming_receive, List.append_assoc, List.singleton_append, ahead,
      List.tail_cons]

theorem Passes.remaining (passes : Passes c taken c') (proper : c.Proper) :
    c.remaining = taken.length + c'.remaining := by
  rw [remaining_eq, passes.upcoming proper, List.length_append, ← remaining_eq]

theorem terminal_receive (c : Cursor) (n : Nat) : (c.receive n).terminal = c.terminal := by
  simp only [receive, receiveEnd]
  split
  · rfl
  · split
    · rfl
    · split <;> rfl

theorem terminal_advance (c : Cursor) : c.advance.terminal = c.terminal := by
  unfold advance
  split <;> rfl

theorem Passes.terminal (passes : Passes c taken c') : c'.terminal = c.terminal := by
  induction passes with
  | stay => rfl
  | receive _ n ih => exact (terminal_receive _ n).trans ih
  | tell _ _ _ ih => exact ih
  | take _ _ ih => rw [terminal_advance, terminal_receive, ih]

/-- Once the end is received it shows at every position past the last token. -/
theorem ending_receive {n : Nat} (past : c.upcoming.length ≤ n) (unheard : c.received ≤ n) :
    (c.receive n).ending = some c.last := by
  have short : ¬ n < c.remaining := by
    rw [remaining_eq]
    omega
  simp only [receive, if_neg (Nat.not_lt.mpr unheard), if_neg short, receiveEnd]
  split <;> simp_all [last]

namespace Hears

theorem tell (hears : Hears taken c) {e : Event} (other : e.received? = none) :
    Hears taken (c.tell e) := by
  have same : (c.tell e).heard = c.heard := by
    simp [heard, Cursor.tell, List.filterMap_append, other]
  exact ⟨same.trans hears.heard_eq, hears.within, hears.all⟩

theorem receiveEnd (hears : Hears taken c) (whole : c.received = c.upcoming.length) :
    Hears taken c.receiveEnd := by
  have heard_eq := hears.heard_eq
  unfold Cursor.receiveEnd
  split
  next => exact hears
  next ending terminal =>
    refine ⟨?_, hears.within, fun _ => whole⟩
    simp_all [heard, List.filterMap_append, Event.received?]
  next ending terminal =>
    refine ⟨?_, hears.within, fun _ => whole⟩
    simp_all [heard]

/-- Some more of the upcoming tokens are received. -/
theorem fetch (hears : Hears taken c) (k : Nat) :
    let fresh := (c.upcoming.drop c.received).take k
    Hears taken { c with
      received := c.received + fresh.length
      events := (fresh.map Event.received).reverse ++ c.events } := by
  intro fresh
  have grown : c.upcoming.take (c.received + fresh.length) =
      c.upcoming.take c.received ++ fresh := by
    rw [List.take_add]
    congr 1
    exact (List.prefix_iff_eq_take.mp (List.take_prefix _ _)).symm
  have size : fresh.length ≤ c.upcoming.length - c.received := by
    simp only [fresh, List.length_take, List.length_drop]
    omega
  have told : ((fresh.map Event.received).reverse ++ c.events).reverse.filterMap Event.received? =
      c.heard ++ fresh := by
    simp [heard, List.filterMap_append, Function.comp_def, Event.received?]
  have within := hears.within
  refine ⟨?_, ?_, ?_⟩
  · refine told.trans ?_
    rw [hears.heard_eq]
    dsimp only
    rw [grown]
    by_cases ended : c.ending.isSome = true
    · have none : fresh = [] := by
        have whole := hears.all ended
        apply List.eq_nil_of_length_eq_zero
        omega
      simp [none, ended]
    · simp [ended]
  · dsimp only
    omega
  · intro ended
    have whole := hears.all ended
    dsimp only
    omega

theorem receive (hears : Hears taken c) (n : Nat) : Hears taken (c.receive n) := by
  have received := hears.fetch (n + 1 - c.received)
  have within := hears.within
  simp only [Cursor.receive]
  split
  · exact hears
  next unheard =>
    split
    · exact received
    next past =>
      apply receiveEnd received
      rw [remaining_eq] at past
      simp only [List.length_take, List.length_drop]
      omega

/-- The next token, received before, is passed. -/
theorem advance (hears : Hears taken c) (received : 0 < c.received)
    (ahead : c.upcoming = t :: rest) : Hears (taken ++ [t]) c.advance := by
  have upcoming : c.advance.upcoming = rest := by simp [ahead]
  have fields : c.advance.received = c.received - 1 ∧ c.advance.ending = c.ending ∧
      c.advance.heard = c.heard := by
    unfold Cursor.advance
    split
    next empty => simp [ahead] at empty
    next => exact ⟨rfl, rfl, rfl⟩
  obtain ⟨received_eq, ending_eq, heard_eq⟩ := fields
  have front : c.upcoming.take c.received = t :: rest.take (c.received - 1) := by
    rw [ahead, List.take_cons received]
  have within := hears.within
  have size : c.upcoming.length = rest.length + 1 := by simp [ahead]
  refine ⟨?_, ?_, ?_⟩
  · rw [heard_eq, hears.heard_eq, front, received_eq, upcoming, ending_eq, terminal_advance]
    simp
  · rw [received_eq, upcoming]
    omega
  · intro ended
    have whole := hears.all (ending_eq ▸ ended)
    rw [received_eq, upcoming]
    omega

end Hears

@[simp] theorem received_receiveEnd (c : Cursor) : c.receiveEnd.received = c.received := by
  unfold receiveEnd
  split <;> rfl

theorem received_receive_pos (ahead : c.upcoming ≠ []) (n : Nat) : 0 < (c.receive n).received := by
  have some := List.length_pos_iff.mpr ahead
  simp only [receive]
  split
  · omega
  · split <;> simp only [received_receiveEnd, List.length_take, List.length_drop] <;> omega

/-- Behind the tokens that it has passed, a cursor has received what it counts. -/
theorem Passes.hears (passes : Passes c taken c') (proper : c.Proper) (start : Hears [] c) :
    Hears taken c' := by
  induction passes with
  | stay => exact start
  | receive _ n ih => exact ih.receive n
  | tell _ e other ih => exact ih.tell other
  | @take mid taken before going ih =>
    obtain ⟨rest, ahead⟩ := (before.proper proper).upcoming_eq going
    have received := received_receive_pos (ahead ▸ List.cons_ne_nil _ _) 0
    exact (ih.receive 0).advance received ((upcoming_receive mid 0).trans ahead)

/-- A stream starts with nothing received, in front of its tokens that are no comments. -/
theorem hears_ofTokens (tokens : List Token) : Hears [] (ofTokens tokens) :=
  ⟨rfl, Nat.zero_le _, nofun⟩

theorem proper_ofTokens (tokens : List Token) : (ofTokens tokens).Proper := by
  constructor
  · intro t mem
    have going := List.all_eq_true.mp List.all_takeWhile t mem
    simpa using going
  · show (((none : Option Token).or ((tokens.filter (·.kind != .comment)).find?
      (·.kind.isTerminal))).getD (.eofAt .start)).kind.isTerminal = true
    cases found : (tokens.filter (·.kind != .comment)).find? (·.kind.isTerminal) with
    | none => rfl
    | some t =>
      have terminal := List.find?_some found
      exact terminal

end Cursor

end Frontend.Grammar
