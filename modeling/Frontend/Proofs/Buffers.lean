import Frontend.Proofs.Covers
import Frontend.Proofs.Passes

/-!
Streams that are read through a buffer. A reader receives tokens from a channel into its buffer, where
they wait to be taken; comments are dropped on the way in, and a terminal token is kept for good.
What it will hand out is known at any time: some tokens, and the end of the stream behind them. A
cursor has no buffer, and shows and takes the same tokens.
-/
namespace Frontend.Grammar

/-- The tokens of a channel that are no comments. -/
abbrev audible (channel : List Token) : List Token := channel.filter (·.kind != .comment)

/-- Tokens in front of the first terminal one. -/
abbrev going (tokens : List Token) : List Token := tokens.takeWhile (!·.kind.isTerminal)

/-- The first terminal token. -/
abbrev end? (tokens : List Token) : Option Token := tokens.find? (·.kind.isTerminal)

theorem audible_of_dropWhile (channel : List Token) :
    audible channel = audible (channel.dropWhile (·.kind = .comment)) := by
  induction channel with
  | nil => rfl
  | cons t channel ih =>
    by_cases comment : t.kind = .comment
    · simpa [audible, comment] using ih
    · simp [audible, comment]

/-- A reader of a channel: the tokens that have not been received, those that have been and wait to
be taken, the token that the stream has ended with, and where the last token taken ends. -/
structure Reader where
  channel : List Token
  buffer : List Token
  terminal : Option Token
  place : Position

namespace Reader

/-- The start of a channel. -/
def ofTokens (tokens : List Token) : Reader := ⟨tokens, [], none, .start⟩

/-- The next token of the channel that is no comment. Behind a terminal token that one is seen
again; a channel that is closed without one ends where reading has come to. -/
def pull (r : Reader) : Token × Reader :=
  match r.terminal with
  | some t => (t, r)
  | none =>
    match r.channel.dropWhile (·.kind = .comment) with
    | t :: rest =>
      (t, { r with channel := rest, terminal := if t.kind.isTerminal then some t else none })
    | [] => (.eofAt r.place, { r with channel := [], terminal := some (.eofAt r.place) })

/-- One more token in the buffer. -/
def wait (r : Reader) : Reader := { r.pull.2 with buffer := r.pull.2.buffer ++ [r.pull.1] }

theorem pull_stays (r : Reader) : r.pull.2.buffer = r.buffer ∧ r.pull.2.place = r.place := by
  unfold pull
  split
  · exact ⟨rfl, rfl⟩
  · split <;> exact ⟨rfl, rfl⟩

@[simp] theorem buffer_wait (r : Reader) : r.wait.buffer = r.buffer ++ [r.pull.1] := by
  simp [wait, r.pull_stays.1]

@[simp] theorem place_wait (r : Reader) : r.wait.place = r.place := r.pull_stays.2

theorem terminal_wait (r : Reader) : r.wait.terminal = r.pull.2.terminal := rfl

theorem channel_wait (r : Reader) : r.wait.channel = r.pull.2.channel := rfl

/-- More than `n` tokens in the buffer. -/
def fill (n : Nat) (r : Reader) : Reader := if r.buffer.length ≤ n then fill n r.wait else r
termination_by n + 1 - r.buffer.length
decreasing_by
  rw [buffer_wait, List.length_append, List.length_singleton]
  omega

theorem lt_length_fill (n : Nat) (r : Reader) : n < (r.fill n).buffer.length := by
  fun_induction fill n r with
  | case1 r short ih => exact ih
  | case2 r long => exact Nat.lt_of_not_le long

@[simp] theorem place_fill (n : Nat) (r : Reader) : (r.fill n).place = r.place := by
  fun_induction fill n r with
  | case1 r short ih => exact ih.trans r.place_wait
  | case2 => rfl

/-- The n-th token from here, counted from zero. -/
def peekAt (n : Nat) (r : Reader) : Token := (r.fill n).buffer.get ⟨n, r.lt_length_fill n⟩

/-- Takes the next token: the first one in the buffer, or one from the channel. -/
def next (r : Reader) : Token × Reader :=
  match r.buffer with
  | t :: rest => (t, { r with buffer := rest, place := t.span.stop })
  | [] => (r.pull.1, { r.pull.2 with place := r.pull.1.span.stop })

/-- What a reader will hand out: some tokens, and then its end again and again. The end of a channel
that has none is not known as long as it is not received. -/
inductive Holds : Reader → List Token → Option Token → Prop
  | running {r : Reader} (unended : r.terminal = none) :
      Holds r (r.buffer ++ going (audible r.channel)) (end? (audible r.channel))
  | ended {r : Reader} {ahead : List Token} {t : Token} {k : Nat} (known : r.terminal = some t)
      (buffer : r.buffer = ahead ++ List.replicate k t) : Holds r ahead (some t)

theorem holds_ofTokens (tokens : List Token) :
    (ofTokens tokens).Holds (going (audible tokens)) (end? (audible tokens)) := .running rfl

variable {r : Reader} {ahead : List Token} {last : Option Token}

/-- One more token waits behind those in the buffer. Where that is the end, it is known now. -/
theorem Holds.wait (holds : r.Holds ahead last) : r.wait.Holds ahead
    (if r.buffer.length < ahead.length then last else some (last.getD (.eofAt r.place))) := by
  cases holds with
  | @ended _ t k known buffer =>
    have pulled : r.pull = (t, r) := by simp [pull, known]
    rw [Option.getD_some, ite_self]
    refine .ended (k := k + 1) (by rw [terminal_wait, pulled, known]) ?_
    rw [buffer_wait, pulled, buffer, List.append_assoc, List.replicate_succ']
  | running unended =>
    rw [audible_of_dropWhile r.channel]
    cases found : r.channel.dropWhile (·.kind = .comment) with
    | nil =>
      have pulled : r.pull =
          (.eofAt r.place, { r with channel := [], terminal := some (.eofAt r.place) }) := by
        simp only [pull, unended, found]
      simp only [List.filter_nil, List.takeWhile_nil, List.find?_nil, List.append_nil,
        Nat.lt_irrefl, if_false, Option.getD_none]
      exact .ended (k := 1) (by rw [terminal_wait, pulled]) (by rw [buffer_wait, pulled]; rfl)
    | cons t rest =>
      have pulled : r.pull = (t,
          { r with channel := rest, terminal := if t.kind.isTerminal then some t else none }) := by
        simp only [pull, unended, found]
      have heard : t.kind ≠ .comment := by
        have first := List.head?_dropWhile_not (fun t : Token => t.kind = .comment) r.channel
        simpa [found] using first
      have audible_eq : audible (t :: rest) = t :: audible rest := by simp [heard]
      rw [audible_eq]
      cases terminal : t.kind.isTerminal with
      | true =>
        have known : r.wait.terminal = some t := by simp [terminal_wait, pulled, terminal]
        have finished : r.wait.Holds r.buffer (some t) := .ended (k := 1) known (by simp [pulled])
        simpa [terminal] using finished
      | false =>
        have still : r.wait.terminal = none := by simp [terminal_wait, pulled, terminal]
        have onward := Holds.running still
        rw [channel_wait, buffer_wait, pulled] at onward
        simpa [terminal] using onward

/-- Filling the buffer changes nothing, but for the end of the stream: where it is looked at, it is
known from then on. -/
theorem Holds.fill (holds : r.Holds ahead last) (n : Nat) : (r.fill n).Holds ahead
    (if n < ahead.length then last else some (last.getD (.eofAt r.place))) := by
  fun_induction Reader.fill n r generalizing last with
  | case1 r short ih =>
    have onward := ih holds.wait
    rw [place_wait] at onward
    by_cases before : r.buffer.length < ahead.length
    · rwa [if_pos before] at onward
    · have past : ¬ n < ahead.length := by omega
      rw [if_neg past]
      rwa [if_neg past, if_neg before, Option.getD_some] at onward
  | case2 r long =>
    by_cases before : n < ahead.length
    · rwa [if_pos before]
    · rw [if_neg before]
      cases holds with
      | running =>
        rw [List.length_append] at before
        omega
      | ended known buffer => exact .ended known buffer

/-- What waits in the buffer are the tokens ahead, and the end behind them. -/
theorem Holds.get? (holds : r.Holds ahead last) {n : Nat} (within : n < r.buffer.length)
    (end_ : Token) : r.buffer[n]? = some (ahead[n]?.getD (last.getD end_)) := by
  cases holds with
  | running => simp [List.getElem?_append_left within, List.getElem?_eq_getElem within]
  | @ended _ t k known buffer =>
    have some_ahead : n < ahead.length + k := by
      rw [buffer] at within
      simpa using within
    rw [buffer]
    by_cases before : n < ahead.length
    · simp [List.getElem?_append_left before, List.getElem?_eq_getElem before]
    · have past := Nat.not_lt.mp before
      have fits : n - ahead.length < k := by omega
      simp [List.getElem?_append_right past, fits, List.getElem?_eq_none past]

theorem Holds.peekAt (holds : r.Holds ahead last) (n : Nat) :
    r.peekAt n = ahead[n]?.getD (last.getD (.eofAt r.place)) := by
  have within := r.lt_length_fill n
  have found := (holds.fill n).get? within (.eofAt r.place)
  rw [List.getElem?_eq_getElem within] at found
  refine (Option.some.inj found).trans ?_
  by_cases before : n < ahead.length
  · rw [if_pos before]
  · rw [if_neg before, Option.getD_some]

/-- Taking a token is the same whether or not it has been looked at. -/
theorem next_fill (r : Reader) : (r.fill 0).next = r.next := by
  rw [Reader.fill]
  split
  next short =>
    have empty : r.buffer = [] := List.length_eq_zero_iff.mp (Nat.le_zero.mp short)
    have one : r.wait.buffer = [r.pull.1] := by rw [buffer_wait, empty, List.nil_append]
    rw [Reader.fill, if_neg (by simp), next, next, one, empty]
    simp [Reader.wait, r.pull_stays.1, empty]
  next => rfl

/-- The first token of the buffer, taken. -/
theorem Holds.pop {t : Token} {rest : List Token} (holds : r.Holds ahead last)
    (waiting : r.buffer = t :: rest) (p : Position) :
    Holds { r with buffer := rest, place := p } ahead.tail last := by
  cases holds with
  | running unended =>
    rw [waiting]
    exact .running unended
  | @ended _ e k known buffer =>
    rw [waiting] at buffer
    cases ahead with
    | nil =>
      cases k with
      | zero => cases buffer
      | succ k => exact .ended (k := k) known (List.cons.inj buffer).2
    | cons _ ahead => exact .ended known (List.cons.inj buffer).2

/-- What is taken is what would have been looked at. -/
theorem Holds.next (holds : r.Holds ahead last) :
    r.next.1 = r.peekAt 0 ∧ r.next.2.place = (r.peekAt 0).span.stop ∧ r.next.2.Holds ahead.tail
      (if 0 < ahead.length then last else some (last.getD (.eofAt r.place))) := by
  have within := r.lt_length_fill 0
  have shown : (r.fill 0).buffer[0]? = some (r.peekAt 0) := List.getElem?_eq_getElem within
  cases waiting : (r.fill 0).buffer with
  | nil => simp [waiting] at within
  | cons t rest =>
    obtain rfl : t = r.peekAt 0 := by simpa [waiting] using shown
    rw [← next_fill, Reader.next, waiting]
    exact ⟨rfl, rfl, (holds.fill 0).pop waiting _⟩

end Reader

namespace Cursor

/-- The token that a stream ends with, if that is known. -/
def known (c : Cursor) : Option Token := c.ending.or c.terminal

variable {c : Cursor}

theorem token_eq (c : Cursor) (n : Nat) :
    c.token n = c.upcoming[n]?.getD (c.known.getD (.eofAt c.place)) := rfl

theorem known_receive (within : c.received ≤ c.upcoming.length) (n : Nat) :
    (c.receive n).known =
      if n < c.upcoming.length then c.known else some (c.known.getD (.eofAt c.place)) := by
  by_cases before : n < c.upcoming.length
  · have going : n < c.remaining := by rwa [remaining_eq]
    rw [if_pos before]
    simp only [receive, if_pos going]
    split <;> rfl
  · rw [if_neg before]
    have past := Nat.not_lt.mp before
    rw [known, ending_receive past (Nat.le_trans within past)]
    rfl

theorem known_advance (c : Cursor) : c.advance.known = c.known := by
  unfold advance
  split <;> rfl

theorem received_receive_le (within : c.received ≤ c.upcoming.length) (n : Nat) :
    (c.receive n).received ≤ (c.receive n).upcoming.length := by
  rw [upcoming_receive]
  simp only [receive]
  split
  · exact within
  · split <;> simp only [received_receiveEnd, List.length_take, List.length_drop] <;> omega

theorem received_advance_le (within : c.received ≤ c.upcoming.length) :
    c.advance.received ≤ c.advance.upcoming.length := by
  unfold advance
  split
  · exact within
  next t rest ahead =>
    rw [ahead, List.length_cons] at within
    exact Nat.sub_le_of_le_add within

end Cursor

namespace Reader

variable {r : Reader} {c : Cursor}

/-- A reader and a cursor at the same point of a stream. -/
structure Follows (r : Reader) (c : Cursor) : Prop where
  place : r.place = c.place
  holds : r.Holds c.upcoming c.known
  within : c.received ≤ c.upcoming.length

theorem follows_ofTokens (tokens : List Token) : (ofTokens tokens).Follows (.ofTokens tokens) :=
  ⟨rfl, holds_ofTokens tokens, Nat.zero_le _⟩

theorem Follows.token (follows : r.Follows c) (n : Nat) : r.peekAt n = c.token n := by
  rw [follows.holds.peekAt, follows.place, c.token_eq]

theorem Follows.receive (follows : r.Follows c) (n : Nat) : (r.fill n).Follows (c.receive n) where
  place := by simpa using follows.place
  holds := by
    rw [c.upcoming_receive, Cursor.known_receive follows.within, ← follows.place]
    exact follows.holds.fill n
  within := c.received_receive_le follows.within n

theorem Follows.next (follows : r.Follows c) :
    r.next.1 = c.token 0 ∧ r.next.2.Follows (c.receive 0).advance := by
  obtain ⟨first, place, holds⟩ := follows.holds.next
  refine ⟨first.trans (follows.token 0), ?_, ?_, ?_⟩
  · rw [place, follows.token 0, Cursor.place_advance, c.token_receive]
  · rw [Cursor.upcoming_advance, c.upcoming_receive, Cursor.known_advance,
      Cursor.known_receive follows.within, ← follows.place]
    exact holds
  · exact Cursor.received_advance_le (c.received_receive_le follows.within 0)

end Reader

end Frontend.Grammar
