import Frontend.Proofs.Buffers

/-!
Looking ahead in a stream. Whatever is asked of it, in whatever order, what is handed out is the
stream, token by token, and what is looked at is what will be handed out. So nobody can tell how far
others have looked ahead, but for the place of the end where a stream is closed without one.
-/
namespace Frontend.Grammar

open Token (Kind)

/-- What may be asked of a stream. -/
inductive Request where
  | peek (n : Nat)
  | next
  | eat (k : Kind)

/-- What comes of a request: a token that is looked at, one that is handed out, or none because the
next one is of another kind. -/
inductive Answer where
  | shown (t : Token)
  | taken (t : Token)
  | refused

/-- The token that an answer has. -/
def Answer.token? : Answer → Option Token
  | .shown t | .taken t => some t
  | .refused => none

/-- The token that an answer hands out. -/
def Answer.taken? : Answer → Option Token
  | .taken t => some t
  | .shown _ | .refused => none

/-- The tokens that are handed out, in order. -/
def handed (answers : List Answer) : List Token := answers.filterMap Answer.taken?

/-- Whether a request only looks. -/
def Request.looks : Request → Bool
  | .peek _ => true
  | .next | .eat _ => false

/-- The answer to a request. -/
def Request.serve : Request → Parser Answer
  | .peek n => do
    let t ← Parser.peekAt n
    pure (.shown t)
  | .next => do
    let t ← Parser.next
    pure (.taken t)
  | .eat k => do
    match ← Parser.eat k with
    | some t => pure (.taken t)
    | none => pure .refused

/-- The answer to a request, and the reader behind it. -/
def Reader.serve (r : Reader) : Request → Answer × Reader
  | .peek n => (.shown (r.peekAt n), r.fill n)
  | .next => (.taken r.next.1, r.next.2)
  | .eat k =>
    if (r.peekAt 0).kind = k then (.taken (r.fill 0).next.1, (r.fill 0).next.2)
    else (.refused, r.fill 0)

/-- The answers to requests, one after the other. -/
def Reader.serveAll : Reader → List Request → List Answer
  | _, [] => []
  | r, q :: requests => (r.serve q).1 :: (r.serve q).2.serveAll requests

/-- Requests that are answered from the stream itself, one after the other. -/
inductive Served : (Nat → Token) → List Request → List Answer → Prop
  | done {stream : Nat → Token} : Served stream [] []
  | peek {stream : Nat → Token} {n : Nat} {requests : List Request} {answers : List Answer}
      (rest : Served stream requests answers) :
      Served stream (.peek n :: requests) (.shown (stream n) :: answers)
  | next {stream : Nat → Token} {requests : List Request} {answers : List Answer}
      (rest : Served (fun i => stream (i + 1)) requests answers) :
      Served stream (.next :: requests) (.taken (stream 0) :: answers)
  | eat {stream : Nat → Token} {k : Kind} {requests : List Request} {answers : List Answer}
      (same : (stream 0).kind = k) (rest : Served (fun i => stream (i + 1)) requests answers) :
      Served stream (.eat k :: requests) (.taken (stream 0) :: answers)
  | refuse {stream : Nat → Token} {k : Kind} {requests : List Request} {answers : List Answer}
      (other : (stream 0).kind ≠ k) (rest : Served stream requests answers) :
      Served stream (.eat k :: requests) (.refused :: answers)

/-- Where reading has come to behind some tokens. -/
def placeBehind (place : Position) (taken : List Token) : Position :=
  taken.foldl (fun _ t => t.span.stop) place

/-- The end that a stream shows in some answers. If it has none of its own, that is an end of file at
the place that reading had come to at a time when nobody had seen the end. -/
inductive EndsAs (place : Position) (answers : List Answer) : Option Token → Token → Prop
  | known {t : Token} : EndsAs place answers (some t) t
  | closed (k : Nat)
      (unseen : ∀ a ∈ answers.take k, ∀ t, a.token? = some t → t.kind.isTerminal = false) :
      EndsAs place answers none (.eofAt (placeBehind place (handed (answers.take k))))

namespace Reader

variable {r : Reader} {c : Cursor}

/-- Both give the same answer, and go on at the same point. -/
theorem Follows.serve (follows : r.Follows c) (q : Request) :
    ∃ c', q.serve c = .ok (r.serve q).1 c' ∧ (r.serve q).2.Follows c' := by
  cases q with
  | peek n =>
    refine ⟨c.receive n, ?_, follows.receive n⟩
    rw [Reader.serve, follows.token n, ← c.token_receive n n]
    rfl
  | next =>
    obtain ⟨first, behind⟩ := follows.next
    refine ⟨(c.receive 0).advance, ?_, behind⟩
    rw [Reader.serve, first, ← c.token_receive 0 0]
    rfl
  | eat k =>
    have run : (Request.eat k).serve c = (Parser.eat k >>= fun found =>
      match found with
      | some t => pure (.taken t)
      | none => pure .refused) c := rfl
    rw [run, Reader.serve, follows.token 0]
    by_cases same : (c.token 0).kind = k
    · obtain ⟨first, behind⟩ := (follows.receive 0).next
      rw [c.token_receive] at first
      refine ⟨_, ?_, by rw [if_pos same]; exact behind⟩
      simp [bind, EStateM.bind, eat_run, same, first, pure, EStateM.pure]
    · refine ⟨_, ?_, by rw [if_neg same]; exact follows.receive 0⟩
      simp [bind, EStateM.bind, eat_run, same, pure, EStateM.pure]

theorem Follows.serveAll (follows : r.Follows c) (requests : List Request) :
    ∃ c', requests.mapM Request.serve c = .ok (r.serveAll requests) c' := by
  induction requests generalizing r c with
  | nil => exact ⟨c, rfl⟩
  | cons q requests ih =>
    obtain ⟨mid, first, behind⟩ := follows.serve q
    obtain ⟨c', rest⟩ := ih behind
    refine ⟨c', ?_⟩
    rw [List.mapM_cons]
    exact bind_eq_ok.mpr ⟨_, mid, first, bind_eq_ok.mpr ⟨_, c', rest, rfl⟩⟩

end Reader

theorem handed_cons (a : Answer) (answers : List Answer) :
    handed (a :: answers) = a.taken?.toList ++ handed answers := by
  cases a <;> rfl

theorem placeBehind_append (place : Position) (first second : List Token) :
    placeBehind place (first ++ second) = placeBehind (placeBehind place first) second :=
  List.foldl_append

/-- A request reaches to the n-th token from here. What is there is one of the tokens ahead, or the
end, which is known from then on. -/
theorem EndsAs.step {place : Position} {ahead : List Token} {last : Option Token} {a : Answer}
    {answers : List Answer} {e : Token} {n : Nat}
    (plain : n < ahead.length → ∀ t, a.token? = some t → t.kind.isTerminal = false)
    (rest : EndsAs (placeBehind place a.taken?.toList) answers
      (if n < ahead.length then last else some (last.getD (.eofAt place))) e) :
    EndsAs place (a :: answers) last e ∧
      ahead[n]?.getD (last.getD (.eofAt place)) = ahead[n]?.getD e := by
  by_cases before : n < ahead.length
  · rw [if_pos before] at rest
    refine ⟨?_, by simp [List.getElem?_eq_getElem before]⟩
    cases rest with
    | known => exact .known
    | closed k unseen =>
      rw [← placeBehind_append, ← handed_cons, ← List.take_succ_cons]
      exact .closed (k + 1) (List.forall_mem_cons.mpr ⟨plain before, unseen⟩)
  · rw [if_neg before] at rest
    have nothing : ahead[n]? = none := List.getElem?_eq_none (Nat.not_lt.mp before)
    rw [nothing, Option.getD_none, Option.getD_none]
    cases last with
    | some t =>
      cases rest
      exact ⟨.known, rfl⟩
    | none =>
      cases rest
      exact ⟨.closed 0 nofun, rfl⟩

/-- Requests that are answered from some tokens ahead and one end behind them. -/
def Answered (place : Position) (ahead : List Token) (last : Option Token)
    (requests : List Request) (answers : List Answer) : Prop :=
  ∃ e, EndsAs place answers last e ∧ Served (fun i => ahead[i]?.getD e) requests answers

namespace Answered

variable {place : Position} {ahead : List Token} {last : Option Token} {requests : List Request}
  {answers : List Answer} {t : Token} {n : Nat} {k : Kind}

/-- The token at a position is none that ends the stream, if there are tokens ahead up to there. -/
theorem plain_at (plain : ∀ t ∈ ahead, t.kind.isTerminal = false)
    (at_ : t = ahead[n]?.getD (last.getD (.eofAt place))) (before : n < ahead.length) :
    ∀ u, some t = some u → u.kind.isTerminal = false := by
  rintro _ ⟨⟩
  rw [List.getElem?_eq_getElem before] at at_
  exact at_ ▸ plain _ (List.getElem_mem before)

theorem peek (plain : ∀ t ∈ ahead, t.kind.isTerminal = false)
    (at_ : t = ahead[n]?.getD (last.getD (.eofAt place)))
    (rest : Answered place ahead
      (if n < ahead.length then last else some (last.getD (.eofAt place))) requests answers) :
    Answered place ahead last (.peek n :: requests) (.shown t :: answers) := by
  obtain ⟨e, ends, served⟩ := rest
  obtain ⟨ends, same⟩ := EndsAs.step (a := .shown t) (plain_at plain at_) ends
  rw [at_.trans same] at ends ⊢
  exact ⟨e, ends, .peek served⟩

theorem take (plain : ∀ t ∈ ahead, t.kind.isTerminal = false)
    (at_ : t = ahead[0]?.getD (last.getD (.eofAt place)))
    (rest : Answered t.span.stop ahead.tail
      (if 0 < ahead.length then last else some (last.getD (.eofAt place))) requests answers) :
    ∃ e, EndsAs place (.taken t :: answers) last e ∧ t = ahead[0]?.getD e ∧
      Served (fun i => ahead[i + 1]?.getD e) requests answers := by
  obtain ⟨e, ends, served⟩ := rest
  obtain ⟨ends, same⟩ := EndsAs.step (a := .taken t) (plain_at plain at_) ends
  exact ⟨e, ends, at_.trans same, by simpa [List.getElem?_tail] using served⟩

theorem next (plain : ∀ t ∈ ahead, t.kind.isTerminal = false)
    (at_ : t = ahead[0]?.getD (last.getD (.eofAt place)))
    (rest : Answered t.span.stop ahead.tail
      (if 0 < ahead.length then last else some (last.getD (.eofAt place))) requests answers) :
    Answered place ahead last (.next :: requests) (.taken t :: answers) := by
  obtain ⟨e, ends, first, served⟩ := take plain at_ rest
  exact ⟨e, ends, first ▸ .next served⟩

theorem eat (plain : ∀ t ∈ ahead, t.kind.isTerminal = false)
    (at_ : t = ahead[0]?.getD (last.getD (.eofAt place))) (same : t.kind = k)
    (rest : Answered t.span.stop ahead.tail
      (if 0 < ahead.length then last else some (last.getD (.eofAt place))) requests answers) :
    Answered place ahead last (.eat k :: requests) (.taken t :: answers) := by
  obtain ⟨e, ends, first, served⟩ := take plain at_ rest
  exact ⟨e, ends, first ▸ .eat (first ▸ same) served⟩

theorem refuse (at_ : t = ahead[0]?.getD (last.getD (.eofAt place))) (other : t.kind ≠ k)
    (rest : Answered place ahead
      (if 0 < ahead.length then last else some (last.getD (.eofAt place))) requests answers) :
    Answered place ahead last (.eat k :: requests) (.refused :: answers) := by
  obtain ⟨e, ends, served⟩ := rest
  obtain ⟨ends, same⟩ := EndsAs.step (a := .refused) (fun _ => nofun) ends
  exact ⟨e, ends, .refuse (at_.trans same ▸ other) served⟩

end Answered

/-- Whatever is asked, a reader answers from what it holds. -/
theorem Reader.Holds.answered {r : Reader} {ahead : List Token} {last : Option Token}
    (holds : r.Holds ahead last) (plain : ∀ t ∈ ahead, t.kind.isTerminal = false)
    (requests : List Request) : Answered r.place ahead last requests (r.serveAll requests) := by
  induction requests generalizing r ahead last with
  | nil =>
    cases last with
    | some t => exact ⟨t, .known, .done⟩
    | none => exact ⟨_, .closed 0 nofun, .done⟩
  | cons q requests ih =>
    obtain ⟨first, place, behind⟩ := holds.next
    have taken := ih behind fun t mem => plain t (List.mem_of_mem_tail mem)
    rw [place] at taken
    have looked (n : Nat) := ih (holds.fill n) plain
    simp only [Reader.place_fill] at looked
    cases q with
    | peek n => exact .peek plain (holds.peekAt n) (looked n)
    | next =>
      rw [Reader.serveAll, Reader.serve, first]
      exact .next plain (holds.peekAt 0) taken
    | eat k =>
      rw [Reader.serveAll, Reader.serve, Reader.next_fill, first]
      by_cases same : (r.peekAt 0).kind = k
      · rw [if_pos same]
        exact .eat plain (holds.peekAt 0) same taken
      · rw [if_neg same]
        exact .refuse (holds.peekAt 0) same (looked 0)

namespace Served

variable {stream other : Nat → Token} {requests : List Request} {answers : List Answer}

/-- What is handed out is the stream, token by token. -/
theorem handed_eq (served : Served stream requests answers) {i : Nat} {t : Token}
    (out : (handed answers)[i]? = some t) : t = stream i := by
  induction served generalizing i with
  | done => cases out
  | peek rest ih => exact ih out
  | next rest ih | eat same rest ih =>
    cases i with
    | zero => exact (Option.some.inj out).symm
    | succ i => exact ih out
  | refuse _ rest ih => exact ih out

/-- A token that is looked at is handed out when it is its turn, whatever is asked in between. -/
theorem shown_comes (served : Served stream requests answers) {m n : Nat} {t u : Token}
    (looks : requests[m]? = some (.peek n)) (shows_ : answers[m]? = some (.shown t))
    (out : (handed (answers.drop (m + 1)))[n]? = some u) : u = t := by
  induction served generalizing m with
  | done => cases looks
  | peek rest ih =>
    cases m with
    | zero =>
      cases looks
      cases shows_
      exact rest.handed_eq out
    | succ m => exact ih looks shows_ out
  | next rest ih | eat same rest ih | refuse _ rest ih =>
    cases m with
    | zero => cases looks
    | succ m => exact ih looks shows_ out

/-- Without the requests that only look the same words are handed out. -/
theorem handed_quiet {answers' : List Answer} (served : Served stream requests answers)
    (like : ∀ i, (stream i).kind = (other i).kind ∧ (stream i).text = (other i).text)
    (quiet : Served other (requests.filter (!·.looks)) answers') :
    (handed answers').map (fun t => (t.kind, t.text)) =
      (handed answers).map fun t => (t.kind, t.text) := by
  induction served generalizing other answers' with
  | done =>
    cases quiet
    rfl
  | peek rest ih => exact ih like quiet
  | next rest ih =>
    cases quiet with
    | next rest' =>
      have onward := ih (fun i => like (i + 1)) rest'
      simp only [handed_cons, Answer.taken?, Option.toList_some, List.map_append, onward]
      simp [like 0]
  | eat same rest ih =>
    cases quiet with
    | eat same' rest' =>
      have onward := ih (fun i => like (i + 1)) rest'
      simp only [handed_cons, Answer.taken?, Option.toList_some, List.map_append, onward]
      simp [like 0]
    | refuse different _ => exact absurd ((like 0).1.symm.trans same) different
  | refuse different rest ih =>
    cases quiet with
    | eat same _ => exact absurd ((like 0).1.trans same) different
    | refuse _ rest' =>
      have onward := ih like rest'
      exact onward

end Served

/-- A stream ends alike in two runs, but for the place of an end of file that it has not itself. -/
theorem EndsAs.like {place : Position} {answers answers' : List Answer} {last : Option Token}
    {e e' : Token} (ends : EndsAs place answers last e) (ends' : EndsAs place answers' last e') :
    e.kind = e'.kind ∧ e.text = e'.text := by
  cases ends <;> cases ends' <;> exact ⟨rfl, rfl⟩

/-- Whatever is asked of a stream, it is answered as by a reader with a buffer, and the answers come
from the tokens of the channel that are no comments, up to the first terminal one, and an end that
is shown ever after: that token, or else an end of file at a place which reading had come to by the
time when it was seen first. What is handed out is that stream, token by token; a token that is
looked at is the one that is handed out when it is its turn; and looking changes at most the place
of the end. -/
theorem lookahead_transparent (tokens : List Token) (requests : List Request) :
    ∃ answers c e, requests.mapM Request.serve (.ofTokens tokens) = .ok answers c ∧
      (Reader.ofTokens tokens).serveAll requests = answers ∧
      EndsAs .start answers (end? (audible tokens)) e ∧
      let stream := fun i => (going (audible tokens))[i]?.getD e
      Served stream requests answers ∧
      (∀ i t, (handed answers)[i]? = some t → t = stream i) ∧
      (∀ m n t u, requests[m]? = some (.peek n) → answers[m]? = some (.shown t) →
        (handed (answers.drop (m + 1)))[n]? = some u → u = t) ∧
      ∃ answers' c', (requests.filter (!·.looks)).mapM Request.serve (.ofTokens tokens) =
          .ok answers' c' ∧
        (handed answers').map (fun t => (t.kind, t.text)) =
          (handed answers).map fun t => (t.kind, t.text) := by
  have plain : ∀ t ∈ going (audible tokens), t.kind.isTerminal = false :=
    (Cursor.proper_ofTokens tokens).plain
  have holds := Reader.holds_ofTokens tokens
  obtain ⟨c, run⟩ := (Reader.follows_ofTokens tokens).serveAll requests
  obtain ⟨c', quiet_run⟩ := (Reader.follows_ofTokens tokens).serveAll (requests.filter (!·.looks))
  obtain ⟨e, ends, served⟩ := holds.answered plain requests
  obtain ⟨e', ends', quiet⟩ := holds.answered plain (requests.filter (!·.looks))
  refine ⟨_, c, e, run, rfl, ends, served, fun i t => served.handed_eq,
    fun m n t u => served.shown_comes, _, c', quiet_run, served.handed_quiet (fun i => ?_) quiet⟩
  cases (going (audible tokens))[i]? with
  | none => exact ends.like ends'
  | some t => exact ⟨rfl, rfl⟩

end Frontend.Grammar
