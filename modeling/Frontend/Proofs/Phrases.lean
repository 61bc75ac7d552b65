import Frontend.Proofs.Echoes

/-!
What parsers admit. A phrase stands between the head of a stream and the rest of it and has a
meaning; a parser admits a phrase if its runs read that phrase and nothing else, and every such
phrase is read. Each way to put parsers together has a rule, which says both at once. Phrases depend
on what is upcoming only, so a parser that admits one does not see how far tokens are received.
-/
namespace Frontend.Grammar

open Frontend.Grammar.Parser
open Token (Kind)

/-- What may stand between the tokens of a stream and the rest of them, and what it means. -/
abbrev Phrase (α : Type) : Type := List Token → α → List Token → Prop

/-- Newlines, or none. -/
def Newlines (tokens rest : List Token) : Prop :=
  ∃ lines, tokens = lines ++ rest ∧ ∀ t ∈ lines, t.kind = .newline

/-- Items between commas, with a comma behind the last one or without. Newlines may stand in front
of a comma and behind it, and behind the last item. -/
inductive ItemRow {α : Type} (item : Phrase α) : Phrase (List α)
  | none {rest : List Token} : ItemRow item rest [] rest
  | last {tokens behind rest : List Token} {a : α} (first : item tokens a behind)
      (lines : Newlines behind rest) : ItemRow item tokens [a] rest
  | more {tokens behind after following rest : List Token} {a : α} {comma : Token} {items : List α}
      (first : item tokens a behind) (lines : Newlines behind (comma :: after))
      (is_comma : comma.kind = .comma) (lines' : Newlines after following)
      (others : ItemRow item following items rest) : ItemRow item tokens (a :: items) rest

/-- A point of a stream in front of tokens that allow no expression in a type. -/
structure Cursor.Typeless (c : Cursor) : Prop where
  proper : c.Proper
  free : ∀ t ∈ c.upcoming, t.kind ≠ .typeofWord

/-- The runs of a parser from a point of a stream are those that a phrase allows. -/
structure AdmitsAt {α : Type} (c : Cursor) (p : Parser α) (phrase : Phrase α) : Prop where
  passes : ∀ a c', p c = .ok a c' → ∃ taken, c.Passes taken c'
  sound : ∀ a c', p c = .ok a c' → phrase c.upcoming a c'.upcoming
  complete : ∀ a rest, phrase c.upcoming a rest → ∃ c', p c = .ok a c' ∧ c'.upcoming = rest

/-- The runs of a parser in front of less than `n` tokens are those that a phrase allows. -/
def Admits {α : Type} (n : Nat) (p : Parser α) (phrase : Phrase α) : Prop :=
  ∀ c : Cursor, c.Typeless → c.remaining < n → AdmitsAt c p phrase

variable {α β : Type} {n : Nat} {c c' : Cursor} {p : Parser α} {k : α → Parser β}
  {phrase : Phrase α} {further : α → Phrase β} {whole : Phrase β} {tokens rest taken : List Token}
  {t : Token} {kind : Kind}

section Lines

theorem Newlines.refl (rest : List Token) : Newlines rest rest := ⟨[], rfl, by simp⟩

/-- In front of no newline, the lines that end there are all newlines there are. -/
theorem lines_dropWhile : Newlines tokens rest ∧ Lacking .newline rest ↔
    rest = tokens.dropWhile (·.kind = .newline) := by
  constructor
  · rintro ⟨⟨lines, rfl, newlines⟩, other⟩
    rw [List.dropWhile_append_of_pos (by simpa using newlines)]
    cases rest with
    | nil => rfl
    | cons t rest => simp [other t rfl]
  · rintro rfl
    constructor
    · refine ⟨tokens.takeWhile (·.kind = .newline), List.takeWhile_append_dropWhile.symm, ?_⟩
      intro t mem
      simpa using List.all_eq_true.mp List.all_takeWhile t mem
    · intro t head newline
      rw [← List.head?_eq_getElem?] at head
      have other := List.head?_dropWhile_not (fun t : Token => decide (t.kind = .newline)) tokens
      rw [head] at other
      simp [newline] at other

end Lines

@[simp] theorem lacking_cons : Lacking kind (t :: rest) ↔ t.kind ≠ kind := by
  simp [Lacking]

namespace Cursor

theorem Typeless.behind (h : c.Typeless) (passes : c.Passes taken c') : c'.Typeless := by
  refine ⟨passes.proper h.proper, fun t mem => h.free t ?_⟩
  rw [passes.upcoming h.proper]
  exact List.mem_append_right _ mem

theorem Typeless.receive (h : c.Typeless) (n : Nat) : (c.receive n).Typeless :=
  h.behind (.receive .stay n)

theorem token_of_upcoming (ahead : c.upcoming = t :: rest) : c.token 0 = t := by
  simp [token, ahead]

/-- A token that is no end and whose kind shows is the first of those ahead. -/
theorem Proper.upcoming_of_kind (proper : c.Proper) (shown : (c.token 0).kind = kind)
    (going : kind.isTerminal = false) : ∃ t rest, c.upcoming = t :: rest ∧ t.kind = kind := by
  obtain ⟨rest, ahead⟩ := proper.upcoming_eq (shown ▸ going)
  exact ⟨_, rest, ahead, shown⟩

end Cursor

namespace AdmitsAt

theorem congr {other : Phrase α} (h : AdmitsAt c p phrase)
    (same : ∀ a rest, phrase c.upcoming a rest ↔ other c.upcoming a rest) :
    AdmitsAt c p other where
  passes := h.passes
  sound a c' run := (same _ _).mp (h.sound a c' run)
  complete a rest phrase := h.complete a rest ((same _ _).mpr phrase)

/-- Only what is read from this point counts. -/
theorem of_run {q : Parser α} (h : AdmitsAt c q phrase) (same : p c = q c) :
    AdmitsAt c p phrase := by
  constructor
  · rw [same]
    exact h.passes
  · rw [same]
    exact h.sound
  · rw [same]
    exact h.complete

theorem pure {a : α} : AdmitsAt c (Pure.pure a) fun tokens b rest => b = a ∧ rest = tokens where
  passes := by
    rintro _ _ ⟨⟩
    exact ⟨[], .stay⟩
  sound := by
    rintro _ _ ⟨⟩
    exact ⟨rfl, rfl⟩
  complete := by
    rintro _ _ ⟨rfl, rfl⟩
    exact ⟨c, rfl, rfl⟩

/-- A parser that fails admits nothing. -/
theorem of_fails (fails : ∀ a c', p c ≠ .ok a c') : AdmitsAt c p fun _ _ _ => False where
  passes a c' run := absurd run (fails a c')
  sound a c' run := absurd run (fails a c')
  complete _ _ := False.elim

/-- One phrase behind another one. -/
theorem bind (first : AdmitsAt c p phrase)
    (then_ : ∀ a c' taken, c.Passes taken c' → phrase c.upcoming a c'.upcoming →
      AdmitsAt c' (k a) (further a)) :
    AdmitsAt c (p >>= k) fun tokens b rest =>
      ∃ a mid, phrase tokens a mid ∧ further a mid b rest where
  passes b c' run := by
    obtain ⟨a, mid, head, tail⟩ := bind_eq_ok.mp run
    obtain ⟨taken, passes⟩ := first.passes a mid head
    obtain ⟨taken', passes'⟩ := (then_ a mid taken passes (first.sound a mid head)).passes b c' tail
    exact ⟨_, passes.trans passes'⟩
  sound b c' run := by
    obtain ⟨a, mid, head, tail⟩ := bind_eq_ok.mp run
    obtain ⟨taken, passes⟩ := first.passes a mid head
    have here := first.sound a mid head
    exact ⟨a, mid.upcoming, here, (then_ a mid taken passes here).sound b c' tail⟩
  complete b rest := by
    rintro ⟨a, between, here, there⟩
    obtain ⟨mid, head, rfl⟩ := first.complete a between here
    obtain ⟨taken, passes⟩ := first.passes a mid head
    obtain ⟨c', tail, behind⟩ := (then_ a mid taken passes here).complete b rest there
    exact ⟨c', bind_eq_ok.mpr ⟨a, mid, head, tail⟩, behind⟩

/-- To look at a kind changes nothing. -/
theorem kind_bind {k : Kind → Parser β} (h : AdmitsAt (c.receive 0) (k (c.token 0).kind) whole) :
    AdmitsAt c (Parser.kind >>= k) whole where
  passes b c' run := by
    obtain ⟨_, mid, looked, run⟩ := bind_eq_ok.mp run
    obtain ⟨rfl, rfl⟩ := kind_eq_ok looked
    obtain ⟨taken, passes⟩ := h.passes b c' run
    exact ⟨_, (Cursor.Passes.receive .stay 0).trans passes⟩
  sound b c' run := by
    obtain ⟨_, mid, looked, run⟩ := bind_eq_ok.mp run
    obtain ⟨rfl, rfl⟩ := kind_eq_ok looked
    simpa using h.sound b c' run
  complete b rest there := by
    obtain ⟨c', run, behind⟩ := h.complete b rest (by simpa using there)
    exact ⟨c', bind_eq_ok.mpr ⟨_, _, kind_run c, run⟩, behind⟩

theorem expect (proper : c.Proper) (going : kind.isTerminal = false) {what : String} :
    AdmitsAt c (Parser.expect kind what) fun tokens t rest =>
      tokens = t :: rest ∧ t.kind = kind where
  passes t c' run := ⟨_, (expect_passes going run).2.2⟩
  sound t c' run := by
    obtain ⟨shown, rfl, passes⟩ := expect_passes going run
    exact ⟨passes.upcoming proper, shown⟩
  complete t rest := by
    rintro ⟨ahead, rfl⟩
    have here := Cursor.token_of_upcoming ahead
    refine ⟨((c.receive 0).receive 0).advance, expect_of_eat ?_, by simp [ahead]⟩
    rw [eat_run, here, if_pos rfl]

/-- A token whose kind has been seen. -/
theorem next (proper : c.Proper) (going : kind.isTerminal = false)
    (shown : (c.token 0).kind = kind) :
    AdmitsAt c Parser.next fun tokens t rest => tokens = t :: rest ∧ t.kind = kind := by
  obtain ⟨t, rest, ahead, rfl⟩ := proper.upcoming_of_kind shown going
  have here := Cursor.token_of_upcoming ahead
  have passes : c.Passes [t] (c.receive 0).advance := by
    simpa [here] using Cursor.Passes.take (.stay (c := c)) (by rwa [here])
  have run : Parser.next c = .ok t (c.receive 0).advance := by simp [Parser.next, here]
  have behind : (c.receive 0).advance.upcoming = rest := by simp [ahead]
  constructor
  · intro u c' ran
    cases run.symm.trans ran
    exact ⟨_, passes⟩
  · intro u c' ran
    cases run.symm.trans ran
    exact ⟨by rw [ahead, behind], rfl⟩
  · rintro u rest' ⟨ahead', -⟩
    obtain ⟨rfl, rfl⟩ := List.cons_eq_cons.mp (ahead.symm.trans ahead')
    exact ⟨_, run, behind⟩

/-- All newlines ahead. -/
theorem skipNewlines (proper : c.Proper) :
    AdmitsAt c Parser.skipNewlines fun tokens _ rest =>
      Newlines tokens rest ∧ Lacking .newline rest := by
  have going : ∀ k : Kind, decide (k = .newline) = true → k.isTerminal = false := by
    intro k newline
    rw [of_decide_eq_true newline]
    rfl
  obtain ⟨taken, mid, run, passes, behind⟩ := skipWhile_ok going proper
  have run : Parser.skipNewlines c = .ok () mid := run
  constructor
  · intro _ c' ran
    cases run.symm.trans ran
    exact ⟨_, passes⟩
  · intro _ c' ran
    cases run.symm.trans ran
    exact lines_dropWhile.mpr behind
  · intro _ rest lines
    exact ⟨mid, run, behind.trans (lines_dropWhile.mp lines).symm⟩

end AdmitsAt

namespace Admits

theorem congr {other : Phrase α} (h : Admits n p phrase)
    (same : ∀ tokens a rest, phrase tokens a rest ↔ other tokens a rest) : Admits n p other :=
  fun c typeless short => (h c typeless short).congr (same _)

theorem pure {a : α} : Admits n (Pure.pure a) fun tokens b rest => b = a ∧ rest = tokens :=
  fun _ _ _ => .pure

theorem fail {f : Fault} : Admits n (Parser.fail f) fun _ (_ : α) _ => False := by
  intro c _ _
  apply AdmitsAt.of_fails
  intro a c' run
  cases run

theorem bind (first : Admits n p phrase) (then_ : ∀ a, Admits n (k a) (further a)) :
    Admits n (p >>= k) fun tokens b rest =>
      ∃ a mid, phrase tokens a mid ∧ further a mid b rest := by
  intro c typeless short
  apply (first c typeless short).bind
  intro a c' taken passes _
  have left := passes.remaining typeless.proper
  exact then_ a c' (typeless.behind passes) (by omega)

/-- A parser that looks at a kind first. -/
theorem kind_bind {k : Kind → Parser β}
    (then_ : ∀ c : Cursor, c.Typeless → c.remaining < n →
      AdmitsAt c (k (c.token 0).kind) whole) : Admits n (Parser.kind >>= k) whole := by
  intro c typeless short
  apply AdmitsAt.kind_bind
  have there := then_ (c.receive 0) (typeless.receive 0) (by simpa using short)
  rwa [Cursor.token_receive] at there

/-- A token whose kind has been seen, and what may stand behind this token. There are less tokens
then. -/
theorem behind_token {p : Parser Token} {k : Token → Parser β}
    (first : AdmitsAt c p fun tokens t rest => tokens = t :: rest ∧ t.kind = kind)
    (going : kind.isTerminal = false) (typeless : c.Typeless) (short : c.remaining < n + 1)
    (shown : (c.token 0).kind = kind)
    (then_ : ∀ t, t.kind = kind → Admits n (k t) fun tokens b rest => whole (t :: tokens) b rest) :
    AdmitsAt c (p >>= k) whole := by
  have chained : AdmitsAt c (p >>= k) fun tokens b rest =>
      ∃ t mid, (tokens = t :: mid ∧ t.kind = kind) ∧ whole (t :: mid) b rest := by
    apply first.bind
    rintro t c' taken passes ⟨ahead, same⟩
    apply then_ t same c' (typeless.behind passes)
    rw [c.remaining_eq, ahead, List.length_cons, ← c'.remaining_eq] at short
    omega
  refine chained.congr fun b rest => ?_
  constructor
  · rintro ⟨t, mid, ⟨ahead, -⟩, there⟩
    rwa [ahead]
  · intro there
    obtain ⟨t, mid, ahead, same⟩ := typeless.proper.upcoming_of_kind shown going
    exact ⟨t, mid, ⟨ahead, same⟩, ahead ▸ there⟩

theorem expect_bind {what : String} {k : Token → Parser β} (going : kind.isTerminal = false)
    (typeless : c.Typeless) (short : c.remaining < n + 1) (shown : (c.token 0).kind = kind)
    (then_ : ∀ t, t.kind = kind → Admits n (k t) fun tokens b rest => whole (t :: tokens) b rest) :
    AdmitsAt c (expect kind what >>= k) whole :=
  behind_token (.expect typeless.proper going) going typeless short shown then_

theorem next_bind {k : Token → Parser β} (going : kind.isTerminal = false)
    (typeless : c.Typeless) (short : c.remaining < n + 1) (shown : (c.token 0).kind = kind)
    (then_ : ∀ t, t.kind = kind → Admits n (k t) fun tokens b rest => whole (t :: tokens) b rest) :
    AdmitsAt c (next >>= k) whole :=
  behind_token (.next typeless.proper going shown) going typeless short shown then_

theorem expect {what : String} (going : kind.isTerminal = false) :
    Admits n (Parser.expect kind what) fun tokens t rest => tokens = t :: rest ∧ t.kind = kind :=
  fun _ typeless _ => .expect typeless.proper going

theorem skipNewlines : Admits n Parser.skipNewlines fun tokens _ rest =>
    Newlines tokens rest ∧ Lacking .newline rest :=
  fun _ typeless _ => .skipNewlines typeless.proper

end Admits

section Choices

/-- Whether a token of a kind stands ahead, which is taken then. -/
theorem AdmitsAt.ate (proper : c.Proper) (going : kind.isTerminal = false) :
    AdmitsAt c (Parser.ate kind) fun tokens found rest =>
      found = true ∧ (∃ t, tokens = t :: rest ∧ t.kind = kind) ∨
        found = false ∧ rest = tokens ∧ Lacking kind tokens := by
  have outcome : ∀ found c', Parser.ate kind c = .ok found c' →
      (∃ taken, c.Passes taken c') ∧
        (found = true ∧ (∃ t, c.upcoming = t :: c'.upcoming ∧ t.kind = kind) ∨
          found = false ∧ c'.upcoming = c.upcoming ∧ Lacking kind c.upcoming) := by
    intro found c' run
    obtain ⟨eaten, mid, run, done⟩ := bind_eq_ok.mp run
    cases done
    obtain ⟨shown, rfl, passes⟩ | ⟨other, rfl, passes⟩ := eat_passes going run
    · exact ⟨⟨_, passes⟩, .inl ⟨rfl, _, passes.upcoming proper, shown⟩⟩
    · refine ⟨⟨_, passes⟩, .inr ⟨rfl, (passes.upcoming proper).symm, ?_⟩⟩
      exact (proper.showing 0).lacking other
  refine ⟨fun found c' run => (outcome found c' run).1,
    fun found c' run => (outcome found c' run).2, ?_⟩
  rintro found rest (⟨rfl, t, ahead, same⟩ | ⟨rfl, rfl, lacking⟩)
  · have taken : AdmitsAt c (Parser.expect kind "") _ := .expect proper going
    obtain ⟨c', run, behind⟩ := taken.complete t rest ⟨ahead, same⟩
    exact ⟨c', bind_eq_ok.mpr ⟨_, _, eat_of_expect run, rfl⟩, behind⟩
  · refine ⟨c.receive 0, ate_run fun shown => ?_, c.upcoming_receive 0⟩
    obtain ⟨t, rest, ahead, same⟩ := proper.upcoming_of_kind shown going
    exact lacking t (by simp [ahead]) same

theorem Admits.ate_ite {q : Parser α} {other : Phrase α} (going : kind.isTerminal = false)
    (yes : Admits n p phrase) (no : Admits n q other) :
    Admits n (ate kind >>= fun found => if found then p else q) fun tokens a rest =>
      (∃ t mid, tokens = t :: mid ∧ t.kind = kind ∧ phrase mid a rest) ∨
        Lacking kind tokens ∧ other tokens a rest := by
  intro c typeless short
  have chosen (found : Bool) (c' : Cursor) (taken : List Token) (passes : c.Passes taken c') :
      AdmitsAt c' (if found then p else q) (if found then phrase else other) := by
    have left := passes.remaining typeless.proper
    cases found with
    | true => exact yes c' (typeless.behind passes) (by omega)
    | false => exact no c' (typeless.behind passes) (by omega)
  have first := AdmitsAt.ate typeless.proper going
  refine (first.bind fun found c' taken passes _ => chosen found c' taken passes).congr
    fun a rest => ?_
  constructor
  · rintro ⟨found, mid, ⟨rfl, t, ahead, same⟩ | ⟨rfl, rfl, lacking⟩, there⟩
    · exact .inl ⟨t, mid, ahead, same, there⟩
    · exact .inr ⟨lacking, there⟩
  · rintro (⟨t, mid, ahead, same, there⟩ | ⟨lacking, there⟩)
    · exact ⟨true, mid, .inl ⟨rfl, t, ahead, same⟩, there⟩
    · exact ⟨false, _, .inr ⟨rfl, rfl, lacking⟩, there⟩

end Choices

section Repetitions

variable {σ : Type} {turn : σ → Parser (Turn σ β)} {turns : σ → Phrase (Turn σ β)} {inv : σ → Prop}
  {s : σ}

/-- Turns behind each other, up to one that is the last. -/
inductive Turns {σ β : Type} (turn : σ → Phrase (Turn σ β)) : σ → Phrase β
  | done {s : σ} {b : β} {tokens rest : List Token} (last : turn s tokens (.done b) rest) :
      Turns turn s tokens b rest
  | again {s s' : σ} {b : β} {tokens mid rest : List Token} (first : turn s tokens (.again s') mid)
      (others : Turns turn s' mid b rest) : Turns turn s tokens b rest

/-- A repetition admits its turns, if each of them that is not the last takes a token. -/
theorem Admits.iterate (goes : ∀ s, Advances n whatever Turn.GoesOn (turn s))
    (admits : ∀ s, inv s → Admits n (turn s) (turns s))
    (keeps : ∀ s tokens s' rest, inv s → turns s tokens (.again s') rest → inv s')
    (start : inv s) :
    Admits n (Parser.iterate turn s) (Turns turns s) := by
  intro c typeless short
  -- Along a run it is kept that what follows from here follows from the start as well.
  have sound : ∀ b c', Parser.iterate turn s c = .ok b c' →
      (∃ taken, c.Passes taken c') ∧ Turns turns s c.upcoming b c'.upcoming := by
    intro b c'
    refine iterate_ends (fun s' mid => inv s' ∧ (∃ taken, c.Passes taken mid) ∧
      ∀ b rest, Turns turns s' mid.upcoming b rest → Turns turns s c.upcoming b rest)
      (fun b c' => (∃ taken, c.Passes taken c') ∧ Turns turns s c.upcoming b c'.upcoming)
      ⟨start, ⟨[], .stay⟩, fun _ _ => id⟩ ?_
    rintro s' mid t c' ⟨inv_mid, ⟨taken, passes⟩, leads⟩ run
    have left := passes.remaining typeless.proper
    have here := admits s' inv_mid mid (typeless.behind passes) (by omega)
    obtain ⟨taken', passes'⟩ := here.passes t c' run
    have taken_turn := here.sound t c' run
    cases t with
    | done b => exact ⟨⟨_, passes.trans passes'⟩, leads b _ (.done taken_turn)⟩
    | again s'' =>
      exact ⟨keeps s' _ s'' _ inv_mid taken_turn, ⟨_, passes.trans passes'⟩,
        fun b rest others => leads b rest (.again taken_turn others)⟩
  refine ⟨fun b c' run => (sound b c' run).1, fun b c' run => (sound b c' run).2, ?_⟩
  intro b rest there
  -- The other way round the induction is on the turns, each of which begins where one has ended.
  generalize upcoming : c.upcoming = tokens at there
  clear sound
  induction there generalizing c with
  | done last =>
    obtain ⟨c', run, behind⟩ := (admits _ start c typeless short).complete _ _ (upcoming ▸ last)
    exact ⟨c', iterate_done run, behind⟩
  | again first _ ih =>
    have here := admits _ start c typeless short
    obtain ⟨mid, run, rfl⟩ := here.complete _ _ (upcoming ▸ first)
    obtain ⟨taken, passes, some⟩ := (goes _).passes typeless.proper short run
    have inv_mid := keeps _ _ _ _ start first
    have left := passes.remaining typeless.proper
    have positive := List.length_pos_iff.mpr (some trivial)
    have less : mid.remaining < c.remaining := by omega
    obtain ⟨c', run', behind⟩ := ih inv_mid mid (typeless.behind passes) (by omega) rfl
    exact ⟨c', (iterate_again run less).trans run', behind⟩

end Repetitions

section Rows

variable {item : List α → Parser α} {close : Kind} {fits : List α → Prop}
  {before items : List α} {a : α}

/-- What one turn of a list in brackets reads. -/
inductive ListTurn (close : Kind) (phrase : Phrase α) (fits : List α → Prop) (before : List α) :
    Phrase (Turn (List α) (List α))
  | close {t : Token} {rest : List Token} (is_close : t.kind = close) :
      ListTurn close phrase fits before (t :: rest) (.done before.reverse) (t :: rest)
  | last {tokens behind rest : List Token} {a : α} (first : phrase tokens a behind)
      (fit : fits (a :: before)) (lines : Newlines behind rest) (ends : Lacking .newline rest)
      (other : Lacking .comma rest) :
      ListTurn close phrase fits before tokens (.done (a :: before).reverse) rest
  | more {tokens behind after rest : List Token} {a : α} {comma : Token}
      (first : phrase tokens a behind) (fit : fits (a :: before))
      (lines : Newlines behind (comma :: after)) (is_comma : comma.kind = .comma)
      (lines' : Newlines after rest) (ends : Lacking .newline rest) :
      ListTurn close phrase fits before tokens (.again (a :: before)) rest

/-- Items of lists that end with a kind: they begin with a token of their own, and an item is read
behind others if it fits to them. -/
structure ListItems (n : Nat) (close : Kind) (item : List α → Parser α) (phrase : Phrase α)
    (fits : List α → Prop) : Prop where
  going : close.isTerminal = false
  free : close ≠ .comma ∧ close ≠ .newline
  begins : ∀ tokens a rest, phrase tokens a rest →
    ∃ t more, tokens = t :: more ∧ t.kind ≠ close ∧ t.kind ≠ .newline
  none : fits []
  fewer : ∀ a before, fits (a :: before) → fits before
  advances : ∀ before, Advances n whatever always (item before)
  admits : ∀ before, fits before →
    Admits n (item before) fun tokens a rest => phrase tokens a rest ∧ fits (a :: before)

theorem admits_listItem (list : ListItems n close item phrase fits) (fit : fits before) :
    Admits n (do
        let more ← item before
        skipNewlines
        if ← ate .comma then
          skipNewlines
          pure (.again (more :: before))
        else pure (Turn.done (more :: before).reverse)) fun tokens turn rest =>
      ∃ a behind, (phrase tokens a behind ∧ fits (a :: before)) ∧
        ∃ following, (Newlines behind following ∧ Lacking .newline following) ∧
          ((∃ comma after, following = comma :: after ∧ comma.kind = .comma ∧
              (Newlines after rest ∧ Lacking .newline rest) ∧ turn = .again (a :: before)) ∨
            Lacking .comma following ∧ rest = following ∧ turn = .done (a :: before).reverse) := by
  refine ((list.admits before fit).bind fun a => Admits.skipNewlines.bind fun _ =>
    Admits.ate_ite rfl (Admits.skipNewlines.bind fun _ => .pure) .pure).congr ?_
  intro tokens turn rest
  constructor
  · rintro ⟨a, behind, first, -, following, lines, comma | ⟨other, rfl, rfl⟩⟩
    · obtain ⟨comma, after, rfl, is_comma, -, mid, lines', rfl, rfl⟩ := comma
      exact ⟨a, behind, first, _, lines, .inl ⟨comma, after, rfl, is_comma, lines', rfl⟩⟩
    · exact ⟨a, behind, first, _, lines, .inr ⟨other, rfl, rfl⟩⟩
  · rintro ⟨a, behind, first, following, lines, comma | ⟨other, rfl, rfl⟩⟩
    · obtain ⟨comma, after, rfl, is_comma, lines', rfl⟩ := comma
      exact ⟨a, behind, first, (), _, lines,
        .inl ⟨comma, after, rfl, is_comma, (), rest, lines', rfl, rfl⟩⟩
    · exact ⟨a, behind, first, (), _, lines, .inr ⟨other, rfl, rfl⟩⟩

theorem admits_listTurn (list : ListItems n close item phrase fits) (fit : fits before) :
    Admits n (listTurn close item before) (ListTurn close phrase fits before) := by
  apply Admits.kind_bind
  intro c typeless short
  by_cases shown : (c.token 0).kind = close
  · rw [if_pos shown]
    obtain ⟨t, more, ahead, is_close⟩ := typeless.proper.upcoming_of_kind shown list.going
    refine AdmitsAt.pure.congr fun found rest => ?_
    rw [ahead]
    constructor
    · rintro ⟨rfl, rfl⟩
      exact .close is_close
    · rintro (_ | ⟨first, _⟩ | ⟨first, _⟩)
      · exact ⟨rfl, rfl⟩
      all_goals
        obtain ⟨t', more', same, other, -⟩ := list.begins _ _ _ first
        exact absurd ((List.cons_eq_cons.mp same).1 ▸ is_close) other
  · rw [if_neg shown]
    refine (admits_listItem list fit c typeless short).congr fun turn rest => ?_
    constructor
    · rintro ⟨a, behind, ⟨first, fit⟩, following, ⟨lines, ends⟩, comma | last⟩
      · obtain ⟨comma, after, rfl, is_comma, ⟨lines', ends'⟩, rfl⟩ := comma
        exact .more first fit lines is_comma lines' ends'
      · obtain ⟨other, rfl, rfl⟩ := last
        exact .last first fit lines ends other
    · generalize ahead : c.upcoming = tokens
      intro turn
      cases turn with
      | close is_close =>
        exact absurd ((congrArg Token.kind (Cursor.token_of_upcoming ahead)).trans is_close) shown
      | last first fit lines ends other =>
        exact ⟨_, _, ⟨first, fit⟩, _, ⟨lines, ends⟩, .inr ⟨other, rfl, rfl⟩⟩
      | more first fit lines is_comma lines' ends =>
        exact ⟨_, _, ⟨first, fit⟩, _, ⟨lines, by simp [is_comma]⟩,
          .inl ⟨_, _, rfl, is_comma, ⟨lines', ends⟩, rfl⟩⟩

/-- Turns of a list that lead up to its end are a row, behind the items before. -/
theorem row_of_turns {tokens rest : List Token} (fit : fits before)
    (turns : Turns (ListTurn close phrase fits) before tokens items rest) :
    ∃ more, items = before.reverse ++ more ∧ ItemRow phrase tokens more rest ∧
      fits (more.reverse ++ before) := by
  induction turns with
  | done last =>
    cases last with
    | close => exact ⟨[], by simp, .none, fit⟩
    | @last _ behind _ a first fit lines =>
      exact ⟨[a], by simp, .last first lines, by simpa using fit⟩
  | again first _ ih =>
    cases first with
    | @more _ behind after _ a comma first fit lines is_comma lines' ends =>
      obtain ⟨more, rfl, row, fits⟩ := ih fit
      exact ⟨a :: more, by simp, .more first lines is_comma lines' row, by simpa using fits⟩

namespace ListItems

variable (list : ListItems n close item phrase fits)

include list

theorem fits_of_append {more : List α} (fit : fits (more ++ before)) : fits before := by
  induction more with
  | nil => exact fit
  | cons a more ih => exact ih (list.fewer a _ fit)

/-- No newline is ahead of an item. -/
theorem lacking (first : phrase tokens a rest) : Lacking .newline tokens := by
  obtain ⟨t, more, rfl, -, other⟩ := list.begins _ _ _ first
  exact lacking_cons.mpr other

theorem row_lacking (row : ItemRow phrase tokens items (t :: rest)) (is_close : t.kind = close) :
    Lacking .newline tokens := by
  cases row with
  | none => exact lacking_cons.mpr (is_close ▸ list.free.2)
  | last first => exact list.lacking first
  | more first => exact list.lacking first

/-- A row in front of the token that closes it makes turns. -/
theorem turns_of_row (is_close : t.kind = close) (row : ItemRow phrase tokens items (t :: rest))
    (fit : fits (items.reverse ++ before)) :
    Turns (ListTurn close phrase fits) before tokens (before.reverse ++ items) (t :: rest) := by
  -- All rows of the induction end in front of the same closing token.
  generalize stop : t :: rest = tail at row ⊢
  induction row generalizing before with
  | none =>
    subst stop
    rw [List.append_nil]
    exact .done (.close is_close)
  | @last _ _ _ a first lines =>
    subst stop
    rw [← List.reverse_cons]
    exact .done (.last first fit lines (lacking_cons.mpr (is_close ▸ list.free.2))
      (lacking_cons.mpr (is_close ▸ list.free.1)))
  | @more _ _ _ _ _ a _ items first lines is_comma lines' others ih =>
    have fit_more : fits (items.reverse ++ a :: before) := by simpa using fit
    have turns := ih fit_more stop
    rw [List.reverse_cons, List.append_assoc, List.singleton_append] at turns
    exact .again (.more first (list.fits_of_append fit_more) lines is_comma lines'
      (list.row_lacking (stop ▸ others) is_close)) turns

/-- A list in brackets and what stands behind it. The opening bracket has been read. -/
theorem closed_bind {what : String} {k : List α → Token → Parser β}
    {further : List α → Token → Phrase β}
    (then_ : ∀ items t, Admits n (k items t) (further items t)) :
    Admits n (closedList close item >>= fun items => expect close what >>= fun t => k items t)
      fun tokens b rest => ∃ start items t behind, Newlines tokens start ∧
        ItemRow phrase start items (t :: behind) ∧ t.kind = close ∧ fits items.reverse ∧
          further items t behind b rest := by
  have repetition := Admits.iterate (Advances.listTurn list.advances)
    (fun before fit => admits_listTurn list fit)
    (fun before tokens more rest _ turn => by cases turn with | more _ fit => exact fit) list.none
  refine ((Admits.skipNewlines.bind fun _ => repetition).bind fun items =>
    (Admits.expect list.going).bind fun t => then_ items t).congr ?_
  intro tokens b rest
  constructor
  · rintro ⟨items, mid, ⟨-, start, ⟨lines, -⟩, turns⟩, t, behind, ⟨rfl, is_close⟩, there⟩
    obtain ⟨more, rfl, row, fit⟩ := row_of_turns list.none turns
    exact ⟨start, items, t, behind, lines, row, is_close, by simpa using fit, there⟩
  · rintro ⟨start, items, t, behind, lines, row, is_close, fit, there⟩
    have turns : Turns _ [] start items _ := list.turns_of_row is_close row (by simpa using fit)
    exact ⟨items, _, ⟨(), start, ⟨lines, list.row_lacking row is_close⟩, turns⟩, t, behind,
      ⟨rfl, is_close⟩, there⟩

end ListItems

end Rows

end Frontend.Grammar
