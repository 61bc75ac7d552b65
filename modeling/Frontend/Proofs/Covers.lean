import Frontend.Attempt
import Frontend.Grammar.Full
import Frontend.Proofs.Lexicon
import Frontend.Proofs.Rows
import Frontend.Proofs.Yields

/-!
Where parsers go. The tokens in front of a cursor stand one behind the other, and a parser takes a
stretch of them: `Covers good lo seen p post` speaks of the runs of `p` that begin at the offset
`lo` in front of a token that `seen` holds of. What such a run yields is told with the offset that
it comes to, and a fault has a good place. Each way to put parsers together has a rule.
-/
namespace Frontend.Grammar

open Token (Kind)

/-- Tokens one behind the other between two offsets. -/
inductive Spread (good : Position → Prop) : Nat → List Token → Nat → Prop
  | nil {lo hi : Nat} (order : lo ≤ hi) : Spread good lo [] hi
  | cons {lo hi : Nat} {t : Token} {rest : List Token}
      (lies : t.span.Lies good lo t.span.stop.offset)
      (behind : Spread good t.span.stop.offset rest hi) : Spread good lo (t :: rest) hi

namespace Spread

variable {good : Position → Prop} {lo hi : Nat} {tokens : List Token}

theorem order (h : Spread good lo tokens hi) : lo ≤ hi := by
  induction h with
  | nil order => exact order
  | cons lies _ ih => exact Nat.le_trans (Nat.le_of_lt lies.order) ih

/-- Tokens behind an offset are at places behind it. -/
theorem onward {from_ : Nat} (h : Spread good lo tokens hi) (le : from_ ≤ lo) :
    Spread (from_ ≤ ·.offset) lo tokens hi := by
  induction h with
  | nil order => exact .nil order
  | cons lies _ ih =>
    have start := Nat.le_trans le lies.lower
    have stop := Nat.le_trans start (Nat.le_of_lt lies.wide)
    exact .cons ⟨start, stop, lies.lower, lies.wide, lies.upper⟩ (ih stop)

end Spread

/-- A fault at a good place. If it is about a stretch, that does not end before it starts. -/
structure Fault.Placed (good : Position → Prop) (f : Fault) : Prop where
  start_good : good f.start
  stop_good : ∀ p, f.stop = some p → good p
  order : ∀ p, f.stop = some p → f.start.offset ≤ p.offset

theorem Fault.Placed.across {good : Position → Prop} {s : Span} {cause : Cause}
    (start_good : good s.start) (stop_good : good s.stop)
    (order : s.start.offset ≤ s.stop.offset) : (Fault.across s cause).Placed good where
  start_good := start_good
  stop_good _ eq := Option.some.inj eq ▸ stop_good
  order _ eq := Option.some.inj eq ▸ order

theorem Fault.Placed.of_lies {good : Position → Prop} {lo hi : Nat} {s : Span} {cause : Cause}
    (h : s.Lies good lo hi) : (Fault.across s cause).Placed good :=
  .across h.start_good h.stop_good (Nat.le_of_lt h.wide)

theorem Fault.Placed.pointAt {good : Position → Prop} {p : Position} {cause : Cause}
    (h : good p) : (Fault.pointAt p cause).Placed good :=
  ⟨h, nofun, nofun⟩

theorem Fault.Placed.inBranch {good : Position → Prop} {f : Fault} {p : Position} {branch : Branch}
    (h : f.Placed good) : (f.inBranch p branch).Placed good :=
  ⟨h.start_good, h.stop_good, h.order⟩

namespace Cursor

/-- A cursor in front of words that stand one behind the other, up to the end of a file. -/
structure Lined (good : Position → Prop) (c : Cursor) : Prop where
  place_good : good c.place
  spread : Spread good c.place.offset c.upcoming c.last.span.start.offset
  words : ∀ t ∈ c.upcoming, Lexicon.IsWord t.kind t.text.toList
  ends : c.ending.or c.terminal = some c.last
  eof : c.last.kind = .eof
  last_start : good c.last.span.start
  last_stop : good c.last.span.stop
  last_empty : c.last.span.stop.offset = c.last.span.start.offset

variable {good : Position → Prop} {c : Cursor}

@[simp] theorem place_receive (c : Cursor) (n : Nat) : (c.receive n).place = c.place := by
  simp only [receive, receiveEnd]
  split
  · rfl
  · split
    · rfl
    · split <;> rfl

theorem ends_receive {t : Token} (h : c.ending.or c.terminal = some t) (n : Nat) :
    (c.receive n).ending.or (c.receive n).terminal = some t := by
  simp only [receive, receiveEnd]
  split
  · exact h
  · split
    · exact h
    · split <;> simp_all

theorem ends_advance (c : Cursor) :
    c.advance.ending.or c.advance.terminal = c.ending.or c.terminal := by
  unfold advance
  split <;> rfl

theorem place_advance (c : Cursor) : c.advance.place = (c.token 0).span.stop := by
  unfold advance
  split <;> simp [token, *]

namespace Lined

theorem receive (h : c.Lined good) (n : Nat) : (c.receive n).Lined good where
  place_good := by simpa using h.place_good
  spread := by simpa using h.spread
  words := by simpa using h.words
  ends := by simpa using ends_receive h.ends n
  eof := by simpa using h.eof
  last_start := by simpa using h.last_start
  last_stop := by simpa using h.last_stop
  last_empty := by simpa using h.last_empty

theorem tell (h : c.Lined good) (e : Event) : (c.tell e).Lined good :=
  ⟨h.place_good, h.spread, h.words, h.ends, h.eof, h.last_start, h.last_stop, h.last_empty⟩

/-- What the next token shows of where it stands, also at the end of a file. -/
theorem token (h : c.Lined good) :
    good (c.token 0).span.start ∧ good (c.token 0).span.stop ∧
      c.place.offset ≤ (c.token 0).span.start.offset ∧
      (c.token 0).span.start.offset ≤ (c.token 0).span.stop.offset := by
  have spread := h.spread
  unfold Cursor.token
  generalize c.upcoming = upcoming at spread ⊢
  cases spread with
  | nil order => exact ⟨h.last_start, h.last_stop, order, Nat.le_of_eq h.last_empty.symm⟩
  | cons lies => exact ⟨lies.start_good, lies.stop_good, lies.lower, Nat.le_of_lt lies.wide⟩

theorem last_advance (h : c.Lined good) : c.advance.last = c.last := by
  have ends : c.advance.ending.or c.advance.terminal = some c.last := by
    rw [ends_advance, h.ends]
  simp [last, ends]

theorem advance (h : c.Lined good) : c.advance.Lined good where
  place_good := by
    rw [place_advance]
    exact h.token.2.1
  spread := by
    have spread := h.spread
    rw [place_advance, upcoming_advance, h.last_advance]
    unfold Cursor.token
    generalize c.upcoming = upcoming at spread ⊢
    cases spread with
    | nil => exact .nil (Nat.le_of_eq h.last_empty)
    | cons _ behind => exact behind
  words t mem := h.words t (List.mem_of_mem_tail (c.upcoming_advance ▸ mem))
  ends := by rw [ends_advance, h.last_advance, h.ends]
  eof := by rw [h.last_advance, h.eof]
  last_start := by simpa [h.last_advance] using h.last_start
  last_stop := by simpa [h.last_advance] using h.last_stop
  last_empty := by simpa [h.last_advance] using h.last_empty

/-- What is in front of a cursor is not before its place. -/
theorem onward (h : c.Lined good) : c.Lined (c.place.offset ≤ ·.offset) where
  place_good := Nat.le_refl _
  spread := h.spread.onward (Nat.le_refl _)
  words := h.words
  ends := h.ends
  eof := h.eof
  last_start := h.spread.order
  last_stop := by
    rw [h.last_empty]
    exact h.spread.order
  last_empty := h.last_empty

/-- A token before the end of a file stands behind the cursor. -/
theorem lies (h : c.Lined good) (more : (c.token 0).kind ≠ .eof) :
    (c.token 0).span.Lies good c.place.offset (c.token 0).span.stop.offset := by
  have spread := h.spread
  unfold Cursor.token at more ⊢
  generalize c.upcoming = upcoming at spread more ⊢
  cases spread with
  | nil => exact absurd h.eof more
  | cons lies => exact lies

/-- A token before the end of a file is a word. -/
theorem word (h : c.Lined good) (more : (c.token 0).kind ≠ .eof) :
    Lexicon.IsWord (c.token 0).kind (c.token 0).text.toList := by
  have words := h.words
  unfold Cursor.token at more ⊢
  generalize c.upcoming = upcoming at words more ⊢
  cases upcoming with
  | nil => exact absurd h.eof more
  | cons t rest => exact words t List.mem_cons_self

end Lined

end Cursor

/-- A run that keeps the order of its stream and ends no earlier than it began. What it yields is
told with the offset that it came to. A fault is no further on than the token that it stops at. -/
def Lands {α : Type} (good : Position → Prop) (lo : Nat) (post : α → Nat → Prop) :
    EStateM.Result Fault Cursor α → Prop
  | .ok a c => c.Lined good ∧ lo ≤ c.place.offset ∧ post a c.place.offset
  | .error f c => c.Lined good ∧ lo ≤ c.place.offset ∧ f.Placed good ∧
      f.start.offset ≤ (c.token 0).span.start.offset

theorem Lands.after {α : Type} {good : Position → Prop} {lo lo' : Nat} {post : α → Nat → Prop}
    {r : EStateM.Result Fault Cursor α} (h : Lands good lo' post r) (le : lo ≤ lo') :
    Lands good lo post r := by
  cases r with
  | ok a c => exact ⟨h.1, Nat.le_trans le h.2.1, h.2.2⟩
  | error f c => exact ⟨h.1, Nat.le_trans le h.2.1, h.2.2⟩

/-- The runs of a parser from an offset on, in front of a token of which something is known. -/
def Covers {α : Type} (good : Position → Prop) (lo : Nat) (seen : Token → Prop) (p : Parser α)
    (post : α → Nat → Prop) : Prop :=
  ∀ c : Cursor, c.Lined good → c.place.offset = lo → seen (c.token 0) → Lands good lo post (p c)

/-- Nothing is known of the next token. -/
abbrev anything (_ : Token) : Prop := True

/-- A parser that takes nothing and never fails. -/
def Looks {α : Type} (p : Parser α) : Prop :=
  ∀ c, ∃ a c', p c = .ok a c' ∧ c'.token 0 = c.token 0 ∧ c'.place = c.place ∧
    ∀ good, c.Lined good → c'.Lined good

namespace Looks

variable {α β : Type} {p q : Parser α} {k : α → Parser β}

theorem receiving (answer : Cursor → α) (n : Cursor → Nat) :
    Looks fun c => .ok (answer c) (c.receive (n c)) :=
  fun c => ⟨_, _, rfl, by simp, by simp, fun _ lined => lined.receive _⟩

theorem pure {a : α} : Looks (Pure.pure a : Parser α) :=
  fun c => ⟨a, c, rfl, rfl, rfl, fun _ lined => lined⟩

theorem bind (first : Looks p) (then_ : ∀ a, Looks (k a)) : Looks (p >>= k) := by
  intro c
  obtain ⟨a, mid, run, token, place, lined⟩ := first c
  obtain ⟨b, c', run', token', place', lined'⟩ := then_ a mid
  refine ⟨b, c', bind_eq_ok.mpr ⟨a, mid, run, run'⟩, token'.trans token, place'.trans place, ?_⟩
  exact fun good known => lined' good (lined good known)

theorem ite {cond : Prop} [Decidable cond] (yes : Looks p) (no : Looks q) :
    Looks (if cond then p else q) := by
  split
  · exact yes
  · exact no

theorem kindAt (n : Nat) : Looks (Parser.kindAt n) :=
  (receiving (fun c => (c.receive n).token n) fun _ => n).bind fun _ => pure

end Looks

namespace Covers

open Frontend.Grammar.Parser
open Node (Row)

variable {α β σ ρ : Type} {good : Position → Prop} {lo hi : Nat} {seen : Token → Prop}
  {p q : Parser α} {k : α → Parser β} {mid post : α → Nat → Prop} {final : β → Nat → Prop}
  {kind : Kind}

theorem mono (h : Covers good lo seen p mid) (weaker : ∀ a hi, mid a hi → post a hi) :
    Covers good lo seen p post := by
  intro c lined here known
  have ends := h c lined here known
  cases run : p c with
  | ok a c' =>
    rw [run] at ends
    exact ⟨ends.1, ends.2.1, weaker _ _ ends.2.2⟩
  | error f c' =>
    rw [run] at ends
    exact ends

/-- A run does not go back. -/
theorem onward (h : Covers good lo seen p post) :
    Covers good lo seen p fun a hi => lo ≤ hi ∧ post a hi := by
  intro c lined here known
  have ends := h c lined here known
  cases run : p c with
  | ok a c' =>
    rw [run] at ends
    exact ⟨ends.1, ends.2.1, ends.2⟩
  | error f c' =>
    rw [run] at ends
    exact ends

/-- What is known of the next token may be forgotten. -/
theorem forget {known : Token → Prop} (h : Covers good lo seen p post)
    (weaker : ∀ t, known t → seen t) : Covers good lo known p post :=
  fun c lined here ahead => h c lined here (weaker _ ahead)

/-- The next token is known to be a word, unless it is the end. -/
theorem word (h : Covers good lo
    (fun t => seen t ∧ (t.kind ≠ .eof → Lexicon.IsWord t.kind t.text.toList)) p post) :
    Covers good lo seen p post :=
  fun c lined here known => h c lined here ⟨known, lined.word⟩

theorem pure {a : α} (h : post a lo) : Covers good lo seen (Pure.pure a) post :=
  fun _ lined here _ => ⟨lined, Nat.le_of_eq here.symm, here ▸ h⟩

theorem absurd (never : ∀ t, ¬ seen t) : Covers good lo seen p post :=
  fun _ _ _ known => (never _ known).elim

theorem fail {f : Fault} (h : f.Placed good) (early : f.start.offset ≤ lo) :
    Covers good lo seen (fail f) post := by
  intro c lined here _
  exact ⟨lined, Nat.le_of_eq here.symm, h, Nat.le_trans (here ▸ early) lined.token.2.2.1⟩

/-- A fault about a stretch that has been taken. -/
theorem fail_across {s : Span} {cause : Cause} {from_ : Nat} (lies : s.Lies good from_ lo) :
    Covers good lo seen (Parser.fail (.across s cause)) post :=
  fail (.of_lies lies) (Nat.le_of_lt lies.begins)

theorem bind (first : Covers good lo seen p mid)
    (then_ : ∀ a hi, lo ≤ hi → mid a hi → Covers good hi anything (k a) final) :
    Covers good lo seen (p >>= k) final := by
  intro c lined here known
  have ends := first c lined here known
  simp only [Bind.bind, EStateM.bind]
  cases run : p c with
  | error f c' =>
    rw [run] at ends
    exact ends
  | ok a c' =>
    rw [run] at ends
    obtain ⟨lined, le, a_mid⟩ := ends
    exact (then_ a _ le a_mid c' lined rfl trivial).after le

/-- A look ahead changes nothing, and the next token is known as before. -/
theorem look_bind (look : Looks p) (then_ : ∀ a, Covers good lo seen (k a) final) :
    Covers good lo seen (p >>= k) final := by
  intro c lined here known
  obtain ⟨a, c', run, token, place, still⟩ := look c
  simp only [Bind.bind, EStateM.bind, run]
  exact then_ a c' (still good lined) (place ▸ here) (token ▸ known)

theorem peek_bind {k : Token → Parser β}
    (then_ : ∀ t, seen t → good t.span.start → lo ≤ t.span.start.offset →
      Covers good lo (· = t) (k t) final) :
    Covers good lo seen (peekAt 0 >>= k) final := by
  intro c lined here known
  obtain ⟨start_good, -, lower, -⟩ := lined.token
  refine then_ _ ?_ ?_ ?_ (c.receive 0) (lined.receive 0) ?_ rfl
  · simpa using known
  · simpa using start_good
  · simpa [← here] using lower
  · simpa using here

theorem kind_bind {k : Kind → Parser β}
    (then_ : ∀ kind, Covers good lo (fun t => seen t ∧ t.kind = kind) (k kind) final) :
    Covers good lo seen (Parser.kind >>= k) final := by
  intro c lined here known
  refine then_ _ (c.receive 0) (lined.receive 0) (by simpa using here) ⟨?_, rfl⟩
  simpa using known

theorem place_bind {k : Position → Parser β}
    (then_ : ∀ p, good p → p.offset = lo → Covers good lo seen (k p) final) :
    Covers good lo seen (place >>= k) final :=
  fun c lined here known => then_ c.place lined.place_good here c lined here known

theorem tell_bind {e : Event} {k : Unit → Parser β} (then_ : Covers good lo seen (k ()) final) :
    Covers good lo seen (tell e >>= k) final :=
  fun c lined here known => then_ (c.tell e) (lined.tell e) here known

theorem ite {cond : Prop} [Decidable cond] (yes : cond → Covers good lo seen p post)
    (no : ¬ cond → Covers good lo seen q post) :
    Covers good lo seen (if cond then p else q) post := by
  split
  · exact yes ‹_›
  · exact no ‹_›

theorem attempt (h : Covers good lo seen p post) :
    Covers good lo seen (attempt p) fun found hi =>
      match found with
      | .ok a => post a hi
      | .error f => f.Placed good := by
  intro c lined here known
  have ends := h c lined here known
  unfold Frontend.attempt
  cases run : p c with
  | ok a c' =>
    rw [run] at ends
    exact ends
  | error f c' =>
    rw [run] at ends
    exact ⟨ends.1, ends.2.1, ends.2.2.1⟩

/-- Any token, also the end of a file, which may be taken again and again. -/
theorem next_any : Covers good lo seen next fun t hi =>
    good t.span.stop ∧ lo ≤ t.span.stop.offset ∧ t.span.stop.offset ≤ hi := by
  intro c lined here known
  have lined := lined.receive 0
  have place : (c.receive 0).advance.place.offset = ((c.receive 0).token 0).span.stop.offset := by
    rw [Cursor.place_advance]
  obtain ⟨-, stop_good, lower, order⟩ := lined.token
  rw [Cursor.place_receive] at lower
  have le := Nat.le_trans lower order
  rw [here] at le
  exact ⟨lined.advance, place ▸ le, stop_good, le, Nat.le_of_eq place.symm⟩

/-- A token before the end of a file. -/
theorem next (more : ∀ t, seen t → t.kind ≠ .eof) :
    Covers good lo seen next fun t hi => seen t ∧ t.span.Lies good lo hi := by
  intro c lined here known
  have lined := lined.receive 0
  rw [← Cursor.token_receive c 0 0] at known
  have place : (c.receive 0).advance.place.offset = ((c.receive 0).token 0).span.stop.offset := by
    rw [Cursor.place_advance]
  have lies := lined.lies (more _ known)
  rw [Cursor.place_receive, here, ← place] at lies
  exact ⟨lined.advance, Nat.le_of_lt lies.order, known, lies⟩

theorem unexpected {what : String} : Covers good lo seen (unexpected what) post := by
  intro c lined here known
  obtain ⟨start_good, stop_good, -, order⟩ := lined.token
  refine ⟨lined.receive 0, by simp [here], ?_, by simp [Fault.across]⟩
  apply Fault.Placed.across <;> simpa

/-- A token of a kind is taken, or the next token is known to be of another kind. -/
theorem eat_bind {k : Option Token → Parser β} (real : kind ≠ .eof)
    (found : ∀ t hi, seen t → t.kind = kind → t.span.Lies good lo hi →
      Covers good hi anything (k (some t)) final)
    (other : Covers good lo (fun t => seen t ∧ t.kind ≠ kind) (k none) final) :
    Covers good lo seen (eat kind >>= k) final := by
  unfold eat
  rw [bind_assoc]
  apply kind_bind
  intro next_kind
  by_cases same : next_kind = kind
  · subst same
    rw [if_pos rfl, bind_assoc]
    have more : ∀ t, seen t ∧ t.kind = next_kind → t.kind ≠ .eof := fun t known => known.2 ▸ real
    apply bind (next more)
    intro t hi _ taken
    rw [pure_bind]
    exact found t hi taken.1.1 taken.1.2 taken.2
  · rw [if_neg same, pure_bind]
    exact other.forget fun t known => ⟨known.1, known.2 ▸ same⟩

/-- A token of a kind decides how a parser goes on. -/
theorem ate_ite (real : kind ≠ .eof)
    (yes : ∀ hi, lo < hi → Covers good hi anything p post)
    (no : Covers good lo (fun t => seen t ∧ t.kind ≠ kind) q post) :
    Covers good lo seen (ate kind >>= fun found => if found then p else q) post := by
  unfold ate
  rw [bind_assoc]
  apply eat_bind real
  · intro t hi _ _ lies
    exact yes hi lies.order
  · exact no

theorem ate (real : kind ≠ .eof) : Covers good lo seen (ate kind) fun _ _ => True :=
  eat_bind real (fun _ _ _ _ _ => pure trivial) (pure trivial)

theorem expect {what : String} (real : kind ≠ .eof) :
    Covers good lo seen (expect kind what) fun t hi =>
      (seen t ∧ t.kind = kind) ∧ t.span.Lies good lo hi := by
  apply eat_bind real
  · intro t hi known same lies
    exact pure ⟨⟨known, same⟩, lies⟩
  · exact unexpected

theorem expectIdent {what : String} : Covers good lo seen (expectIdent what) fun t hi =>
    (seen t ∧ t.kind = .ident) ∧ t.span.Lies good lo hi :=
  expect nofun

/-- The text of an identifier is a word. -/
theorem expectIdent_word {what : String} : Covers good lo seen (Parser.expectIdent what) fun t _ =>
    Lexicon.IsWord .ident t.text.toList := by
  apply word
  apply expectIdent.mono
  rintro t hi ⟨⟨⟨_, is_word⟩, ident⟩, _⟩
  exact ident ▸ is_word (ident ▸ nofun)

/-- The invariant holds before every turn of a repetition. -/
theorem iterate {turn : σ → Parser (Turn σ β)} (inv : σ → Nat → Prop) {s : σ} (start : inv s lo)
    (turns : ∀ s lo, inv s lo → Covers good lo anything (turn s) fun t hi =>
      t.Keeps (inv · hi) (final · hi)) :
    Covers good lo seen (Parser.iterate turn s) final := by
  intro c lined here known
  subst here
  clear known
  induction s, c using Parser.iterate.induct turn with
  | case1 s c f c' failed =>
    have ends := turns s _ start c lined rfl trivial
    rw [failed] at ends
    rw [iterate_error failed]
    exact ends
  | case2 s c b c' last =>
    have ends := turns s _ start c lined rfl trivial
    rw [last] at ends
    rw [iterate_done last]
    exact ends
  | case3 s c s' c' again less ih =>
    have ends := turns s _ start c lined rfl trivial
    rw [again] at ends
    obtain ⟨lined', le, kept⟩ := ends
    rw [iterate_again again less]
    exact (ih lined' kept).after le
  | case4 s c s' c' again stuck =>
    have ends := turns s _ start c lined rfl trivial
    rw [again] at ends
    obtain ⟨lined', le, -⟩ := ends
    rw [Parser.iterate, again]
    simp only [if_neg stuck]
    exact ⟨lined', le, .pointAt lined'.place_good, lined'.token.2.2.1⟩

theorem skipWhile {p : Kind → Bool} : Covers good lo seen (skipWhile p) fun _ _ => True := by
  apply iterate (fun _ _ => True) trivial
  intro _ lo _
  apply kind_bind
  intro kind
  apply ite
  · intro _
    apply bind next_any
    intro _ _ _ _
    exact pure trivial
  · intro _
    exact pure trivial

/-- A list between commas. What is known of the items so far stays known further on. -/
theorem commaList (inv : List α → Nat → Prop)
    (further : ∀ all {lo hi}, lo ≤ hi → inv all lo → inv all hi)
    (first : Covers good lo seen p fun a hi => inv [a] hi)
    (more : ∀ all lo, inv all lo → Covers good lo anything p fun a hi => inv (all ++ [a]) hi) :
    Covers good lo seen (commaList p) inv := by
  apply bind first
  intro a lo _ known
  apply iterate (fun items => inv items.reverse)
  · exact known
  intro items lo known
  apply ate_ite (by decide)
  · intro lo' less
    apply bind skipWhile
    intro _ lo'' le _
    apply bind (more _ _ (further _ (Nat.le_trans (Nat.le_of_lt less) le) known))
    intro a hi _ known
    apply pure
    simpa [Turn.Keeps] using known
  · exact pure known

/-- A list up to a closing token, each item of which may depend on those before it. -/
theorem closedList {close : Kind} {item : List α → Parser α} (inv : List α → Nat → Prop)
    (further : ∀ all {lo hi}, lo ≤ hi → inv all lo → inv all hi) (start : inv [] lo)
    (items : ∀ before lo, inv before.reverse lo →
      Covers good lo anything (item before) fun a hi => inv (before.reverse ++ [a]) hi) :
    Covers good lo seen (closedList close item) inv := by
  apply bind skipWhile
  intro _ lo le _
  apply iterate (fun before => inv before.reverse)
  · exact further _ le start
  intro before lo known
  apply kind_bind
  intro kind
  apply ite
  · intro _
    exact pure known
  intro _
  apply bind ((items before lo known).forget fun _ _ => trivial)
  intro a lo _ known
  apply bind skipWhile
  intro _ lo' le _
  have known : inv (a :: before).reverse lo' := by simpa using further _ le known
  apply ate_ite (by decide)
  · intro lo less
    apply bind skipWhile
    intro _ hi le _
    exact pure (further _ (Nat.le_trans (Nat.le_of_lt less) le) known)
  · exact pure known

/-- A list up to a closing token that may end with a rest. -/
theorem closedListWithRest {close : Kind} {rest : Parser ρ} (inv : List α → Nat → Prop)
    (further : ∀ all {lo hi}, lo ≤ hi → inv all lo → inv all hi) (start : inv [] lo)
    (items : ∀ all lo, inv all lo → Covers good lo anything p fun a hi => inv (all ++ [a]) hi)
    {both : List α × Option ρ → Nat → Prop}
    (ended : ∀ all lo hi, lo ≤ hi → inv all lo → both (all, none) hi)
    (rested : ∀ all lo, inv all lo → Covers good lo (fun t => t.kind = .ellipsis) rest
      fun r mid => ∀ hi, mid ≤ hi → both (all, some r) hi) :
    Covers good lo seen (closedListWithRest close p rest) both := by
  apply bind skipWhile
  intro _ lo le _
  apply iterate (fun before => inv before.reverse)
  · exact further _ le start
  intro before lo known
  apply kind_bind
  intro kind
  apply ite
  · intro _
    exact pure (ended _ _ _ (Nat.le_refl _) known)
  intro _
  apply ite
  · intro dots
    subst dots
    apply bind ((rested _ _ known).forget fun _ ahead => ahead.2)
    intro r lo _ found
    apply bind skipWhile
    intro _ hi le _
    exact pure (found hi le)
  intro _
  apply bind ((items _ lo known).forget fun _ _ => trivial)
  intro a lo _ known
  apply bind skipWhile
  intro _ lo' le _
  have known : inv (a :: before).reverse lo' := by simpa using further _ le known
  apply ate_ite (by decide)
  · intro lo less
    apply bind skipWhile
    intro _ hi le _
    exact pure (further _ (Nat.le_trans (Nat.le_of_lt less) le) known)
  · exact pure (ended _ _ _ (Nat.le_refl _) known)

section Rows

variable {item : List α → Parser α} {rest : Parser ρ} (nodes : α → List Node) {close : Kind}

theorem commaList_row
    (each : ∀ lo, Covers good lo anything p fun a hi => Row good lo (nodes a) hi) :
    Covers good lo seen (Parser.commaList p) fun all hi => Row good lo (all.flatMap nodes) hi := by
  apply commaList fun all hi => Row good lo (all.flatMap nodes) hi
  · intro all _ _ le row
    exact row.upper le
  · apply ((each lo).forget fun _ _ => trivial).mono
    intro a hi row
    simpa using row
  · intro all mid row
    apply (each mid).mono
    intro a hi more
    simpa using row.append more

/-- Items whose nodes stand in a row, one item behind the other. -/
theorem closedList_row
    (each : ∀ before lo, Covers good lo anything (item before) fun a hi => Row good lo (nodes a) hi) :
    Covers good lo seen (Parser.closedList close item) fun all hi =>
      Row good lo (all.flatMap nodes) hi := by
  apply closedList (fun all hi => Row good lo (all.flatMap nodes) hi)
  · intro all _ _ le row
    exact row.upper le
  · exact .nil (Nat.le_refl _)
  · intro before mid row
    apply (each before mid).mono
    intro a hi more
    simpa using row.append more

theorem closedListWithRest_row (restNode : ρ → Node)
    (each : ∀ lo, Covers good lo anything p fun a hi => Row good lo (nodes a) hi)
    (last : ∀ lo, Covers good lo (fun t => t.kind = .ellipsis) rest fun r hi =>
      Row good lo [restNode r] hi) :
    Covers good lo seen (Parser.closedListWithRest close p rest) fun found hi =>
      Row good lo (found.1.flatMap nodes ++ Node.maybe restNode found.2) hi := by
  apply closedListWithRest (fun all hi => Row good lo (all.flatMap nodes) hi)
  · intro all _ _ le row
    exact row.upper le
  · exact .nil (Nat.le_refl _)
  · intro all mid row
    apply (each mid).mono
    intro a hi more
    simpa using row.append more
  · intro all mid hi le row
    simpa [Node.maybe] using row.upper le
  · intro all mid row
    apply (last mid).mono
    intro r end_ found hi le
    simpa [Node.maybe] using row.append (found.upper le)

end Rows

theorem forFewer {n : Nat} {p : (m : Nat) → m < n → Parser α}
    (h : ∀ m less, Covers good lo seen (p m less) post) :
    Covers good lo seen (forFewer n p) post := by
  intro c lined here known
  unfold Grammar.forFewer
  split
  · exact h _ _ c lined here known
  · exact ⟨lined, Nat.le_of_eq here.symm, .pointAt lined.place_good, lined.token.2.2.1⟩

theorem withRules {p : Rules → Parser α} (h : ∀ n, Covers good lo seen (p (below n)) post) :
    Covers good lo seen (withRules p) post :=
  fun c => h c.remaining c

end Covers

end Frontend.Grammar
