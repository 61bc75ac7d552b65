import Frontend.Proofs.Streams

/-!
What a consumer gets. A run for a consumer who hangs up is the run for one who stays, cut off: the
tokens taken are the first ones, and a lexical error is reported just before its token is offered,
so that it is reported to a consumer who hangs up on that token and to no one who has gone before.
-/
namespace Frontend

namespace Scan

/-- The token that an event offers to the consumer. -/
def Event.offered? : Event → Option Token
  | .lexed t => some t
  | _ => none

/-- The fault that an event reports. -/
def Event.reported? : Event → Option Lexeme.Fault
  | .failed fault => some fault
  | _ => none

/-- Behind the first event that offers a token to a consumer who has taken `n` nothing is
reported. -/
def QuietBehind (n : Nat) (events : List Event) : Prop :=
  ∀ before t after, events = before ++ .lexed t :: after →
    n ≤ (before.filterMap Event.offered?).length → after.filterMap Event.reported? = []

section Quiet

variable {n : Nat} {e : Event} {events : List Event}

/-- Where nothing is reported at all, nothing is reported behind some event. -/
theorem quietBehind_of_silent (silent : events.filterMap Event.reported? = []) :
    QuietBehind n events := by
  rintro before t after rfl _
  rw [List.filterMap_append, List.append_eq_nil_iff] at silent
  exact silent.2

theorem QuietBehind.cons (idle : e.offered? = none) (more : QuietBehind n events) :
    QuietBehind n (e :: events) := by
  rintro (_ | ⟨first, before⟩) t after split offered
  · cases split
    cases idle
  · obtain ⟨rfl, rest⟩ := List.cons.inj split
    rw [List.filterMap_cons_none idle] at offered
    exact more before t after rest offered

theorem QuietBehind.cons_lexed {t : Token} (more : QuietBehind n events) :
    QuietBehind (n + 1) (.lexed t :: events) := by
  rintro (_ | ⟨e, before⟩) u after split offered
  · cases offered
  · obtain ⟨rfl, rest⟩ := List.cons.inj split
    exact more before u after rest (Nat.le_of_succ_le_succ offered)

end Quiet

/-- What a run for a consumer with room for `n` tokens has to do with a run without a limit. -/
structure CutAt (n : Nat) (full run : Outcome) : Prop where
  tokens : run.tokens = full.tokens.take n
  errors : run.errors = if full.tokens.length ≤ n + 1 then full.errors else []
  offered : run.events.filterMap Event.offered? = full.tokens.take (n + 1)
  reported : run.events.filterMap Event.reported? = run.errors.map (·.fault)
  quiet : QuietBehind n run.events

section Cut

variable {n : Nat} {full run : Outcome} {token : Token} {e : LexError} {name : String}
  {last : Event}

/-- Both runs meet the only error at once. It is reported whether or not the consumer has gone. -/
theorem cutAt_of_fault :
    CutAt n ⟨[token], [e], [.failed e.fault, .lexed token, .finished name]⟩
      ⟨if some n = some 0 then [] else [token], [e],
        [.failed e.fault, .lexed token, .finished name]⟩ where
  tokens := by cases n <;> simp
  errors := (if_pos (Nat.le_add_left 1 n)).symm
  offered := by
    rw [List.take_succ_cons, List.take_nil]
    rfl
  reported := rfl
  quiet := (quietBehind_of_silent rfl).cons rfl

/-- Both runs meet the end of the text at once, and the consumer stays for it. -/
theorem cutAt_of_end :
    CutAt (n + 1) ⟨[token], [], [.lexed token, .finished name]⟩
      ⟨[token], [], [.lexed token, .finished name]⟩ where
  tokens := by rw [List.take_succ_cons, List.take_nil]
  errors := (ite_self _).symm
  offered := by
    rw [List.take_succ_cons, List.take_nil]
    rfl
  reported := rfl
  quiet := quietBehind_of_silent rfl

/-- The first token finds no consumer. What the run without a limit reports comes with a later
token, if at all. -/
theorem cutAt_of_refused (first : full.tokens.head? = some token)
    (alone : full.tokens.length ≤ 1 → full.errors = [])
    (offers : last.offered? = none) (reports : last.reported? = none) :
    CutAt 0 full ⟨[], [], [.lexed token, last]⟩ := by
  have silent : [Event.lexed token, last].filterMap Event.reported? = [] := by
    rw [List.filterMap_cons_none rfl, List.filterMap_cons_none reports, List.filterMap_nil]
  obtain ⟨ts, tokens⟩ := List.head?_eq_some_iff.mp first
  have taken : [Event.lexed token, last].filterMap Event.offered? = full.tokens.take 1 := by
    have behind : [last].filterMap Event.offered? = [] := by
      rw [List.filterMap_cons_none offers, List.filterMap_nil]
    rw [tokens, List.take_succ_cons, List.take_zero, ← behind]
    rfl
  have errors : [] = if full.tokens.length ≤ 1 then full.errors else [] := by
    split
    next short => exact (alone short).symm
    next => rfl
  exact ⟨rfl, errors, taken, silent, quietBehind_of_silent silent⟩

/-- The consumer takes one more token in front of two runs. -/
theorem CutAt.cons (more : CutAt n full run) :
    CutAt (n + 1) ⟨token :: full.tokens, full.errors, .lexed token :: full.events⟩
      ⟨token :: run.tokens, run.errors, .lexed token :: run.events⟩ where
  tokens := congrArg (token :: ·) more.tokens
  errors := by simpa using more.errors
  offered := congrArg (token :: ·) more.offered
  reported := more.reported
  quiet := more.quiet.cons_lexed

end Cut

/-- A run for a consumer who hangs up after `n` tokens is a run without a limit, cut off there. -/
theorem onward_cutAt (name : String) (cut : Option UInt8) (here : Position) (text : List Char)
    (n : Nat) :
    CutAt n (onward name cut none here text) (onward name cut (some n) here text) := by
  generalize unlimited : (none : Option Nat) = room
  -- The induction is along the run without a limit, so that the limit may go down with the text.
  fun_induction onward name cut room here text generalizing n with
  | case1 room here text blank rest start fault size read word span token =>
    subst unlimited
    rw [onward_of_fault rfl rfl read]
    exact cutAt_of_fault
  | case2 => cases unlimited
  | case3 room here text blank rest start size word stop present read token =>
    rw [onward_of_token rfl rfl read]
    cases n with
    | zero =>
      rw [if_pos rfl]
      exact cutAt_of_refused rfl (fun _ => rfl) rfl rfl
    | succ n =>
      rw [if_neg (by simp), if_pos rfl]
      exact cutAt_of_end
  | case4 room here text blank rest start kind size read word stop token present going more ih =>
    subst unlimited
    rw [onward_of_token rfl rfl read]
    cases n with
    | zero =>
      have later : more.tokens ≠ [] := by
        obtain ⟨init, last, tokens, _⟩ := onward_last name cut stop (rest.drop size)
        simp [more, tokens]
      have alone : (token :: more.tokens).length ≤ 1 → more.errors = [] := fun short =>
        absurd (List.eq_nil_of_length_eq_zero (Nat.le_zero.mp (Nat.le_of_succ_le_succ short))) later
      rw [if_pos rfl]
      split
      · exact cutAt_of_refused rfl alone rfl rfl
      · exact cutAt_of_refused rfl alone rfl rfl
    | succ n =>
      rw [if_neg (by simp), if_neg going]
      exact (ih n rfl).cons

/-- What a consumer who hangs up gets of a source is what one who stays gets, cut off. -/
theorem run_cutAt (source : Source) (n : Nat) : CutAt n (scan source) (run source (some n)) := by
  have cut := onward_cutAt source.name (Utf8.readable source.code).2 .start
    (Utf8.readable source.code).1 n
  exact ⟨cut.tokens, cut.errors, cut.offered, cut.reported, cut.quiet.cons rfl⟩

end Scan

/-- The tokens of a source end with their only terminal one: the end if no error is reported, and
the stretch of the error if there is one. A consumer who hangs up after `n` tokens gets the first
of them, and hears of an error only if it comes with the token that it hangs up on or before; after
that nothing is reported. -/
theorem scan_for_consumers (source : Source) :
    (∃ init last, (scan source).tokens = init ++ [last] ∧
      (∀ t ∈ init, t.kind ≠ .eof ∧ t.kind ≠ .illegal) ∧
      (last.kind = .eof ∨ last.kind = .illegal) ∧
      (last.kind = .illegal ↔ ∃ e, (scan source).errors = [e]) ∧
      (last.kind = .eof ↔ (scan source).errors = []) ∧
      ∀ e ∈ (scan source).errors, e.span = last.span) ∧
    ∀ n, let run := Scan.run source (some n)
      run.tokens = (scan source).tokens.take n ∧
      run.errors = (if (scan source).tokens.length ≤ n + 1 then (scan source).errors else []) ∧
      run.events.filterMap Scan.Event.offered? = (scan source).tokens.take (n + 1) ∧
      run.events.filterMap Scan.Event.reported? = run.errors.map (·.fault) ∧
      Scan.QuietBehind n run.events := by
  constructor
  · obtain ⟨init, last, tokens, plain, ends⟩ := Scan.onward_last source.name
      (Utf8.readable source.code).2 .start (Utf8.readable source.code).1
    have plain : ∀ t ∈ init, t.kind ≠ .eof ∧ t.kind ≠ .illegal := by
      intro t mem
      have going := plain t mem
      constructor <;> intro terminal <;> rw [terminal] at going <;> cases going
    refine ⟨init, last, tokens, plain, ?_⟩
    obtain ⟨eof, clean⟩ | ⟨illegal, e, error, place⟩ := ends
    · have clean : (scan source).errors = [] := clean
      simp [eof, clean]
    · have error : (scan source).errors = [e] := error
      simp [illegal, error, place]
  · intro n
    obtain ⟨tokens, errors, offered, reported, quiet⟩ := Scan.run_cutAt source n
    exact ⟨tokens, errors, offered, reported, quiet⟩

end Frontend
