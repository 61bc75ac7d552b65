import Frontend.Grammar.Full
import Frontend.Proofs.Spelling

/-!
Parsers that come to an end on given words. `Reads n p i o good` says that `p`, in front of the
words `i` up to the end of a file, yields something good and leaves the words `o`, and `Takes` that
it takes a word at least. Both speak of less than `n` words only, because rules may be called on
less words than the rule that calls them.
-/
namespace Frontend.Grammar

open Frontend.Grammar.Parser
open Token (Kind)

/-- The kind that the n-th word shows, which is that of the end past all words. -/
def kindOf (words : List Word) (n : Nat) : Kind := (words[n]?.map (·.1)).getD .eof

/-- The kind of the first word. -/
abbrev headKind (words : List Word) : Kind := kindOf words 0

@[simp] theorem kindOf_zero {w : Word} {words : List Word} : kindOf (w :: words) 0 = w.1 := rfl

@[simp] theorem kindOf_succ {w : Word} {words : List Word} {n : Nat} :
    kindOf (w :: words) (n + 1) = kindOf words n := rfl

@[simp] theorem spelled_kind (k : Kind) : (spelled k).1 = k := rfl

@[simp] theorem ident_kind (name : String) : (ident name).1 = .ident := rfl

theorem text_of_word {t : Token} {kind : Kind} {text : String} (h : t.word = (kind, text)) :
    t.text = text :=
  congrArg Prod.snd h

theorem kind_of_word {t : Token} {kind : Kind} {text : String} (h : t.word = (kind, text)) :
    t.kind = kind :=
  congrArg Prod.fst h

/-- A cursor in front of some words and the end of a file. -/
def Cursor.Shows (c : Cursor) (words : List Word) : Prop :=
  c.upcoming.map Token.word = words ∧ c.last.kind = .eof

namespace Cursor.Shows

variable {c : Cursor} {w : Word} {words : List Word}

theorem kind_token (h : c.Shows words) (n : Nat) : (c.token n).kind = kindOf words n := by
  unfold Cursor.token kindOf
  rw [← h.1, List.getElem?_map]
  cases c.upcoming[n]? with
  | none => exact h.2
  | some t => rfl

theorem receive (h : c.Shows words) (n : Nat) : (c.receive n).Shows words := by
  simpa [Shows] using h

theorem word_token (h : c.Shows (w :: words)) : (c.token 0).word = w := by
  obtain ⟨t, more, upcoming, word, -⟩ := List.map_eq_cons_iff.mp h.1
  simpa [Cursor.token, upcoming] using word

theorem advance (h : c.Shows (w :: words)) : c.advance.Shows words := by
  obtain ⟨t, more, upcoming, -, rest⟩ := List.map_eq_cons_iff.mp h.1
  refine ⟨by simpa [upcoming] using rest, ?_⟩
  have same : c.advance.last.kind = c.last.kind := by
    unfold Cursor.advance
    split
    next empty => simp [upcoming] at empty
    next => cases ending : c.ending <;> cases terminal : c.terminal <;> simp [last, *, Token.eofAt]
  rw [same, h.2]

end Cursor.Shows

/-- In front of `i`, the parser yields something good and leaves `o`. -/
def Reads {α : Type} (n : Nat) (p : Parser α) (i o : List Word) (good : α → Prop) : Prop :=
  ∀ c : Cursor, c.Shows i → c.remaining < n →
    ∃ a c', p c = .ok a c' ∧ c'.Shows o ∧ c'.remaining ≤ c.remaining ∧ good a

/-- In front of `i`, the parser yields something good, takes a word and leaves `o`. -/
def Takes {α : Type} (n : Nat) (p : Parser α) (i o : List Word) (good : α → Prop) : Prop :=
  ∀ c : Cursor, c.Shows i → c.remaining < n →
    ∃ a c', p c = .ok a c' ∧ c'.Shows o ∧ c'.remaining < c.remaining ∧ good a

variable {α β σ ρ : Type} {n : Nat} {p : Parser α} {i m o : List Word} {good : α → Prop}
  {other : β → Prop} {w : Word} {k : Kind}

theorem Takes.reads (h : Takes n p i o good) : Reads n p i o good := by
  intro c shows_ short
  obtain ⟨a, c', run, shows', less, a_good⟩ := h c shows_ short
  exact ⟨a, c', run, shows', Nat.le_of_lt less, a_good⟩

theorem Takes.mono {better : α → Prop} (h : Takes n p i o better)
    (weaker : ∀ a, better a → good a) : Takes n p i o good := by
  intro c shows_ short
  obtain ⟨a, c', run, shows', less, a_good⟩ := h c shows_ short
  exact ⟨a, c', run, shows', less, weaker a a_good⟩

theorem Reads.mono {better : α → Prop} (h : Reads n p i o better)
    (weaker : ∀ a, better a → good a) : Reads n p i o good := by
  intro c shows_ short
  obtain ⟨a, c', run, shows', less, a_good⟩ := h c shows_ short
  exact ⟨a, c', run, shows', less, weaker a a_good⟩

theorem bind_ok {next : α → Parser β} {c mid c' : Cursor} {a : α} {b : β} (first : p c = .ok a mid)
    (second : next a mid = .ok b c') : (p >>= next) c = .ok b c' := by
  simp only [bind, EStateM.bind, first, second]

theorem Reads.bind {P : α → Prop} {next : α → Parser β} (first : Reads n p i m P)
    (second : ∀ a, P a → Reads n (next a) m o other) : Reads n (p >>= next) i o other := by
  intro c shows_ short
  obtain ⟨a, mid, head, mid_shows, le, a_good⟩ := first c shows_ short
  obtain ⟨b, c', tail, shows', le', b_good⟩ :=
    second a a_good mid mid_shows (Nat.lt_of_le_of_lt le short)
  exact ⟨b, c', bind_ok head tail, shows', Nat.le_trans le' le, b_good⟩

/-- What a parser takes first, it has taken in all. -/
theorem Takes.bind {P : α → Prop} {next : α → Parser β} (first : Takes n p i m P)
    (second : ∀ a, P a → Reads n (next a) m o other) : Takes n (p >>= next) i o other := by
  intro c shows_ short
  obtain ⟨a, mid, head, mid_shows, less, a_good⟩ := first c shows_ short
  obtain ⟨b, c', tail, shows', le', b_good⟩ :=
    second a a_good mid mid_shows (Nat.lt_trans less short)
  exact ⟨b, c', bind_ok head tail, shows', Nat.lt_of_le_of_lt le' less, b_good⟩

/-- After the first word there are less words than before. -/
theorem Takes.first {P : α → Prop} {next : α → Parser β} (first : Takes (n + 1) p i m P)
    (second : ∀ a, P a → Reads n (next a) m o other) : Takes (n + 1) (p >>= next) i o other := by
  intro c shows_ short
  obtain ⟨a, mid, head, mid_shows, less, a_good⟩ := first c shows_ short
  obtain ⟨b, c', tail, shows', le', b_good⟩ := second a a_good mid mid_shows (by omega)
  exact ⟨b, c', bind_ok head tail, shows', Nat.lt_of_le_of_lt le' less, b_good⟩

theorem Takes.after {P : α → Prop} {next : α → Parser β} (first : Reads n p i m P)
    (second : ∀ a, P a → Takes n (next a) m o other) : Takes n (p >>= next) i o other := by
  intro c shows_ short
  obtain ⟨a, mid, head, mid_shows, le, a_good⟩ := first c shows_ short
  obtain ⟨b, c', tail, shows', less, b_good⟩ :=
    second a a_good mid mid_shows (Nat.lt_of_le_of_lt le short)
  exact ⟨b, c', bind_ok head tail, shows', Nat.lt_of_lt_of_le less le, b_good⟩

namespace Reads

theorem pure {P : α → Prop} {a : α} (h : P a) : Reads n (Pure.pure a) i i P :=
  fun c shows_ _ => ⟨a, c, rfl, shows_, Nat.le_refl _, h⟩

theorem kindAt (j : Nat) : Reads n (kindAt j) i i (· = kindOf i j) := by
  intro c shows_ _
  refine ⟨_, c.receive j, rfl, shows_.receive j, by simp, ?_⟩
  rw [Cursor.token_receive]
  exact shows_.kind_token j

theorem kind : Reads n kind i i (· = headKind i) := kindAt 0

theorem place : Reads n place i i fun _ => True :=
  fun c shows_ _ => ⟨c.place, c, rfl, shows_, Nat.le_refl _, trivial⟩

theorem tell {e : Event} : Reads n (tell e) i i fun _ => True :=
  fun c shows_ _ => ⟨(), c.tell e, rfl, shows_, Nat.le_refl _, trivial⟩

theorem peekAt (j : Nat) : Reads n (peekAt j) i i fun _ => True := by
  intro c shows_ _
  exact ⟨_, c.receive j, rfl, shows_.receive j, by simp, trivial⟩

theorem ofExcept {x : Except Fault α} {a : α} (value : x = .ok a) (h : good a) :
    Reads n (MonadExcept.ofExcept x) i i good := by
  subst value
  exact pure h

theorem eat_other (different : headKind i ≠ k) : Reads n (eat k) i i (· = none) := by
  refine kind.bind fun found same => ?_
  rw [if_neg (same ▸ different)]
  exact pure rfl

theorem ate_other (different : headKind i ≠ k) : Reads n (ate k) i i (· = false) :=
  (eat_other different).bind fun _ none => pure (none ▸ rfl)

end Reads

theorem Takes.next : Takes n next (w :: i) i (·.word = w) := by
  intro c shows_ _
  have received := shows_.receive 0
  refine ⟨_, (c.receive 0).advance, rfl, received.advance, ?_, received.word_token⟩
  obtain ⟨t, more, upcoming, -⟩ := List.map_eq_cons_iff.mp shows_.1
  rw [Cursor.remaining_advance, Cursor.remaining_receive, c.remaining_eq, upcoming]
  exact Nat.lt_succ_self _

theorem Takes.eat (same : w.1 = k) :
    Takes n (eat k) (w :: i) i fun found => ∃ t, found = some t ∧ t.word = w := by
  refine .after .kind fun found here => ?_
  rw [if_pos (here.trans same)]
  exact Takes.next.bind fun t word => .pure ⟨t, rfl, word⟩

theorem Takes.ate (same : w.1 = k) : Takes n (ate k) (w :: i) i (· = true) := by
  refine (Takes.eat same).bind fun found there => .pure ?_
  obtain ⟨t, rfl, -⟩ := there
  rfl

theorem Takes.expect (same : w.1 = k) {what : String} :
    Takes n (expect k what) (w :: i) i (·.word = w) := by
  refine (Takes.eat same).bind fun found there => ?_
  obtain ⟨t, rfl, word⟩ := there
  exact .pure word

/-- Rules are called on less words than the rule that calls them. -/
theorem Takes.forFewer {p : (m : Nat) → m < n → Parser α}
    (h : ∀ m less, Takes (m + 1) (p m less) i o good) : Takes n (forFewer n p) i o good := by
  intro c shows_ short
  obtain ⟨a, c', run, rest⟩ := h c.remaining short c shows_ (Nat.lt_succ_self _)
  exact ⟨a, c', (forFewer_apply short).trans run, rest⟩

section Iterate

variable {turn : σ → Parser (Turn σ β)} {s : σ}

/-- The last turn of a repetition. -/
theorem Reads.iterate_done
    (last : Reads n (turn s) i o fun t => ∃ b, t = .done b ∧ other b) :
    Reads n (iterate turn s) i o other := by
  intro c shows_ short
  obtain ⟨_, c', run, shows', le, b, rfl, b_good⟩ := last c shows_ short
  exact ⟨b, c', Parser.iterate_done run, shows', le, b_good⟩

/-- A turn of a repetition that is followed by others. -/
theorem Takes.iterate_again (inv : σ → Prop)
    (once : Takes n (turn s) i m fun t => ∃ s', t = .again s' ∧ inv s')
    (more : ∀ s', inv s' → Reads n (iterate turn s') m o other) :
    Takes n (iterate turn s) i o other := by
  intro c shows_ short
  obtain ⟨_, mid, run, mid_shows, less, s', rfl, s'_inv⟩ := once c shows_ short
  obtain ⟨b, c', tail, shows', le, b_good⟩ := more s' s'_inv mid mid_shows (by omega)
  exact ⟨b, c', (Parser.iterate_again run less).trans tail, shows', by omega, b_good⟩

/-- Repetition that collects items one by one, each in front of what is left of them. -/
theorem Reads.iterate_suffixes {X γ : Type} (value : α → γ) (expected : X → γ)
    (words : List X → List Word) {turn : List α → Parser (Turn (List α) (List α))}
    (last : ∀ before, Reads n (turn before) (words []) o (· = .done before.reverse))
    {items : List X}
    (again : ∀ x more before, x :: more <:+ items →
      Takes n (turn before) (words (x :: more)) (words more)
        fun t => ∃ a, t = .again (a :: before) ∧ value a = expected x)
    (before : List α) :
    Reads n (iterate turn before) (words items) o fun all =>
      all.map value = before.reverse.map value ++ items.map expected := by
  induction items generalizing before with
  | nil =>
    refine .iterate_done ((last before).mono fun t done => ⟨_, done, ?_⟩)
    rw [List.map_nil, List.append_nil]
  | cons x items ih =>
    refine Takes.reads (.iterate_again (m := words items)
      (fun all => ∃ a, all = a :: before ∧ value a = expected x) ?_ ?_)
    · exact (again x items before (List.suffix_refl _)).mono
        fun t ⟨a, here, eq⟩ => ⟨_, here, a, rfl, eq⟩
    · rintro _ ⟨a, rfl, eq⟩
      have rest := ih (fun y more before suffix =>
        again y more before (suffix.trans (List.suffix_cons x items))) (a :: before)
      refine rest.mono fun all all_eq => ?_
      simp [all_eq, eq]

/-- Repetition that collects items one by one. -/
theorem Reads.iterate_list {X γ : Type} (value : α → γ) (expected : X → γ)
    (words : List X → List Word) {turn : List α → Parser (Turn (List α) (List α))}
    (last : ∀ before, Reads n (turn before) (words []) o (· = .done before.reverse))
    {items : List X}
    (again : ∀ x ∈ items, ∀ more before, Takes n (turn before) (words (x :: more)) (words more)
      fun t => ∃ a, t = .again (a :: before) ∧ value a = expected x)
    (before : List α) :
    Reads n (iterate turn before) (words items) o fun all =>
      all.map value = before.reverse.map value ++ items.map expected :=
  .iterate_suffixes value expected words last
    (fun x more before suffix => again x (suffix.subset List.mem_cons_self) more before) before

end Iterate

/-- Words of such a kind begin trees. None of them ends a list, a block or a line. -/
def starters : List Kind :=
  [.ident, .int, .uint, .bool, .string, .minus, .plus, .not, .lparen, .lbrace, .lbracket, .arrow,
    .ifWord, .switchWord, .matchWord, .typeofWord, .letWord, .varWord, .retWord, .forWord]

/-- Words of such a kind stand behind trees. None of them goes on with an expression or a type. -/
def enders : List Kind :=
  [.newline, .comma, .rparen, .rbracket, .rbrace, .thenWord, .assign, .fatArrow, .inWord]

/-- Words that begin with a tree. -/
def Begins (words : List Word) : Prop := headKind words ∈ starters

/-- Words that a tree may stand in front of. -/
def Ends (words : List Word) : Prop := headKind words ∈ enders

theorem begins_cons {kind : Kind} {text : String} {words : List Word}
    (starter : kind ∈ starters) : Begins ((kind, text) :: words) :=
  starter

theorem ends_cons {kind : Kind} {text : String} {words : List Word}
    (ender : kind ∈ enders) : Ends ((kind, text) :: words) :=
  ender

theorem Begins.ne {words : List Word} {k : Kind} (h : Begins words) (out : k ∉ starters) :
    headKind words ≠ k := by
  rintro rfl
  exact out h

theorem Ends.ne {words : List Word} {k : Kind} (h : Ends words) (out : k ∉ enders) :
    headKind words ≠ k := by
  rintro rfl
  exact out h

/-- What stands behind an item of a list in front of `o`. -/
def Follows (o k : List Word) : Prop := headKind k = .comma ∨ k = o

theorem Follows.ends {k : List Word} (h : Follows o k) (o_ends : Ends o) : Ends k := by
  obtain comma | rfl := h
  · rw [Ends, comma]
    decide
  · exact o_ends

theorem follows_behindCommas (items : List Spelling) : Follows o (behindCommas items o) := by
  cases items with
  | nil => exact .inr rfl
  | cons item items => exact .inl rfl

section Skip

variable {p : Kind → Bool}

theorem Reads.skipWhile (stop : p (headKind i) = false) :
    Reads n (skipWhile p) i i fun _ => True := by
  refine .iterate_done ?_
  refine Reads.kind.bind fun found here => ?_
  rw [if_neg (by simp [here, stop])]
  exact .pure ⟨(), rfl, trivial⟩

theorem Takes.skipWhile (one : p w.1 = true) (stop : p (headKind i) = false) :
    Takes n (skipWhile p) (w :: i) i fun _ => True := by
  refine .iterate_again (m := i) (fun _ => True) ?_ fun _ _ => Reads.skipWhile stop
  refine .after .kind fun found here => ?_
  rw [if_pos (show p found = true from here ▸ one)]
  exact Takes.next.bind fun _ _ => .pure ⟨(), rfl, trivial⟩

theorem Reads.skipNewlines (stop : headKind i ≠ .newline) :
    Reads n skipNewlines i i fun _ => True :=
  .skipWhile (by simpa using stop)

theorem Reads.skipSeparators (stop : (headKind i).isSeparator = false) :
    Reads n skipSeparators i i fun _ => True :=
  .skipWhile stop

theorem Takes.skipSeparators (stop : (headKind i).isSeparator = false) :
    Takes n skipSeparators (spelled .newline :: i) i fun _ => True :=
  .skipWhile rfl stop

theorem Begins.isSeparator {words : List Word} (h : Begins words) :
    (headKind words).isSeparator = false := by
  have none : ∀ k ∈ starters, k.isSeparator = false := by decide
  exact none _ h

end Skip

section Lists

variable {X γ : Type} {items : List X} {words : X → Spelling} {value : α → γ} {expected : X → γ}

/-- A list between commas, with items that are read one by one. -/
theorem Takes.commaList {item : Parser α} (some : items ≠ [])
    (each : ∀ x ∈ items, ∀ k, Follows o k →
      Takes n item (words x k) k fun a => value a = expected x)
    (begins : ∀ x ∈ items, ∀ k, Begins (words x k)) (stop : headKind o ≠ .comma) :
    Takes n (commaList item) (listed (items.map words) o) o fun all =>
      all.map value = items.map expected := by
  cases items with
  | nil => exact absurd rfl some
  | cons x items =>
    have ⟨each_first, each_rest⟩ := List.forall_mem_cons.mp each
    have ⟨_, begins_rest⟩ := List.forall_mem_cons.mp begins
    refine (each_first _ (follows_behindCommas _)).bind fun a eq => ?_
    refine (Reads.iterate_list value expected (fun items => behindCommas (items.map words) o)
      (fun before => ?_) (fun x mem more before => ?_) [a]).mono fun all all_eq => ?_
    · refine (Reads.ate_other stop).bind fun comma none => ?_
      rw [none]
      exact .pure rfl
    · refine (Takes.ate rfl).bind fun comma there => ?_
      rw [there]
      refine (Reads.skipNewlines ((begins_rest x mem _).ne (by decide))).bind fun _ _ => ?_
      refine (each_rest x mem _ (follows_behindCommas _)).reads.bind fun a eq => ?_
      exact .pure ⟨a, rfl, eq⟩
    · simpa [eq] using all_eq

/-- A list up to a closing word. An item may depend on the items before it, of which an invariant
holds. -/
theorem Reads.closedList_of {item : List α → Parser α} (inv : List α → Prop) (start : inv [])
    (close : headKind o = k) (closes : k ∉ starters) (plain : k ≠ .comma ∧ k ≠ .newline)
    (each : ∀ x ∈ items, ∀ before, inv before → ∀ k, Follows o k →
      Takes n (item before) (words x k) k fun a => value a = expected x ∧ inv (a :: before))
    (begins : ∀ x ∈ items, ∀ k, Begins (words x k)) :
    Reads n (closedList k item) (listed (items.map words) o) o fun all =>
      all.map value = items.map expected := by
  subst close
  have turns : ∀ (items : List X) (before : List α), inv before →
      (∀ x ∈ items, ∀ before, inv before → ∀ k, Follows o k → Takes n (item before) (words x k) k
        fun a => value a = expected x ∧ inv (a :: before)) →
      (∀ x ∈ items, ∀ k, Begins (words x k)) →
      Reads n (iterate (fun items => do
        if (← Parser.kind) = headKind o then Pure.pure (Turn.done items.reverse)
        else
          let more ← item items
          Parser.skipNewlines
          if ← Parser.ate .comma then
            Parser.skipNewlines
            Pure.pure (Turn.again (more :: items))
          else Pure.pure (Turn.done (more :: items).reverse)) before)
        (listed (items.map words) o) o fun all =>
        all.map value = before.reverse.map value ++ items.map expected := by
    intro items
    induction items with
    | nil =>
      intro before _ _ _
      refine .iterate_done (Reads.kind.bind fun found here => ?_)
      rw [if_pos (show found = headKind o from here)]
      exact .pure ⟨_, rfl, by simp⟩
    | cons x items ih =>
      intro before known each begins
      have ⟨each_first, each_rest⟩ := List.forall_mem_cons.mp each
      have ⟨begins_first, begins_rest⟩ := List.forall_mem_cons.mp begins
      have opens : ∀ k, headKind (words x k) ≠ headKind o := fun k => (begins_first k).ne closes
      cases items with
      | nil =>
        refine .iterate_done (Reads.kind.bind fun found here => ?_)
        rw [if_neg (here ▸ opens _)]
        refine (each_first before known o (.inr rfl)).reads.bind fun a ⟨eq, _⟩ => ?_
        refine (Reads.skipNewlines plain.2).bind fun _ _ => ?_
        refine (Reads.ate_other plain.1).bind fun comma none => ?_
        rw [none]
        exact .pure ⟨_, rfl, by simp [eq]⟩
      | cons y items =>
        refine Takes.reads (.iterate_again (m := listed ((y :: items).map words) o)
          (fun all => ∃ a, all = a :: before ∧ value a = expected x ∧ inv (a :: before))
          ?_ ?_)
        · refine .after .kind fun found here => ?_
          rw [if_neg (here ▸ opens _)]
          refine (each_first before known _ (.inl rfl)).bind fun a ⟨eq, known⟩ => ?_
          refine (Reads.skipNewlines (by simp [behindCommas])).bind fun _ _ => ?_
          refine (Takes.ate rfl).reads.bind fun comma there => ?_
          rw [if_pos there]
          refine (Reads.skipNewlines ?_).bind fun _ _ => .pure ⟨_, rfl, a, rfl, eq, known⟩
          exact (begins_rest y (by simp) _).ne (by decide)
        · rintro _ ⟨a, rfl, eq, known⟩
          refine (ih (a :: before) known each_rest begins_rest).mono fun all all_eq => ?_
          simpa [eq] using all_eq
  refine (Reads.skipNewlines ?_).bind fun _ _ => ?_
  · cases items with
    | nil => exact plain.2
    | cons x items => exact (begins x (by simp) _).ne (by decide)
  · exact (turns items [] start each begins).mono fun all all_eq => by simpa using all_eq

/-- A list up to a closing word. -/
theorem Reads.closedList {item : Parser α} (close : headKind o = k) (closes : k ∉ starters)
    (plain : k ≠ .comma ∧ k ≠ .newline)
    (each : ∀ x ∈ items, ∀ k, Follows o k →
      Takes n item (words x k) k fun a => value a = expected x)
    (begins : ∀ x ∈ items, ∀ k, Begins (words x k)) :
    Reads n (closedList k fun _ => item) (listed (items.map words) o) o fun all =>
      all.map value = items.map expected :=
  .closedList_of (fun _ => True) trivial close closes plain
    (fun x mem _ _ k follows => (each x mem k follows).mono fun _ eq => ⟨eq, trivial⟩) begins

/-- A list up to a closing word, which may end with a rest. -/
theorem Reads.closedListWithRest {item : Parser α} {rest : Parser ρ} {name : ρ → Option String}
    {others : Option (Option String)} (close : headKind o = k)
    (closes : k ∉ starters) (plain : k ≠ .comma ∧ k ≠ .newline ∧ k ≠ .ellipsis)
    (each : ∀ x ∈ items, ∀ k, Follows o k →
      Takes n item (words x k) k fun a => value a = expected x)
    (begins : ∀ x ∈ items, ∀ k, Begins (words x k))
    (last : ∀ binder, others = some binder →
      Takes n rest (restWords binder o) o fun r => name r = binder) :
    Reads n (closedListWithRest k item rest)
      (listed (items.map words ++ (others.map restWords).toList) o) o fun found =>
      found.1.map value = items.map expected ∧ found.2.map name = others := by
  subst close
  have plain_head : ∀ (items : List X), (∀ x ∈ items, ∀ k, Begins (words x k)) →
      headKind (listed (items.map words ++ (others.map restWords).toList) o) ≠ .newline := by
    intro items begins
    cases items with
    | cons x items => exact (begins x (by simp) _).ne (by decide)
    | nil =>
      cases others with
      | none => exact plain.2.1
      | some binder => simp [listed, restWords]
  have turns : ∀ (items : List X) (before : List α),
      (∀ x ∈ items, ∀ k, Follows o k → Takes n item (words x k) k fun a => value a = expected x) →
      (∀ x ∈ items, ∀ k, Begins (words x k)) →
      Reads n (iterate (fun items => do
        let k ← Parser.kind
        if k = headKind o then Pure.pure (Turn.done (items.reverse, none))
        else if k = .ellipsis then
          let r ← rest
          Parser.skipNewlines
          Pure.pure (Turn.done (items.reverse, some r))
        else
          let more ← item
          Parser.skipNewlines
          if ← Parser.ate .comma then
            Parser.skipNewlines
            Pure.pure (Turn.again (more :: items))
          else Pure.pure (Turn.done ((more :: items).reverse, none))) before)
        (listed (items.map words ++ (others.map restWords).toList) o) o fun found =>
        found.1.map value = before.reverse.map value ++ items.map expected ∧
          found.2.map name = others := by
    intro items
    induction items with
    | nil =>
      intro before _ _
      refine .iterate_done (Reads.kind.bind fun found here => ?_)
      cases others with
      | none =>
        rw [if_pos (show found = headKind o from here)]
        exact .pure ⟨_, rfl, by simp, rfl⟩
      | some binder =>
        obtain rfl : found = .ellipsis := here
        rw [if_neg (Ne.symm plain.2.2), if_pos rfl]
        refine (last binder rfl).reads.bind fun r eq => ?_
        refine (Reads.skipNewlines plain.2.1).bind fun _ _ => .pure ⟨_, rfl, by simp, ?_⟩
        simp [eq]
    | cons x items ih =>
      intro before each begins
      have ⟨each_first, each_rest⟩ := List.forall_mem_cons.mp each
      have ⟨begins_first, begins_rest⟩ := List.forall_mem_cons.mp begins
      have opens : ∀ k, headKind (words x k) ≠ headKind o := fun k => (begins_first k).ne closes
      have following := plain_head items begins_rest
      rw [List.map_cons, List.cons_append, listed]
      cases more : items.map words ++ (others.map restWords).toList with
      | nil =>
        obtain ⟨none_left, no_rest⟩ := List.append_eq_nil_iff.mp more
        obtain rfl : items = [] := by simpa using none_left
        obtain rfl : others = none := by simpa using no_rest
        refine .iterate_done (Reads.kind.bind fun found here => ?_)
        rw [if_neg (here ▸ opens _), if_neg (here ▸ (begins_first _).ne (by decide))]
        refine (each_first o (.inr rfl)).reads.bind fun a eq => ?_
        refine (Reads.skipNewlines plain.2.1).bind fun _ _ => ?_
        refine (Reads.ate_other plain.1).bind fun comma none => ?_
        rw [none]
        exact .pure ⟨_, rfl, by simp [eq], rfl⟩
      | cons y rest =>
        rw [more] at ih following
        refine Takes.reads (.iterate_again (m := listed (y :: rest) o)
          (fun all => ∃ a, all = a :: before ∧ value a = expected x) ?_ ?_)
        · refine .after .kind fun found here => ?_
          rw [if_neg (here ▸ opens _), if_neg (here ▸ (begins_first _).ne (by decide))]
          refine (each_first _ (.inl rfl)).bind fun a eq => ?_
          refine (Reads.skipNewlines (by simp [behindCommas])).bind fun _ _ => ?_
          refine (Takes.ate rfl).reads.bind fun comma there => ?_
          rw [if_pos there]
          exact (Reads.skipNewlines following).bind fun _ _ => .pure ⟨_, rfl, a, rfl, eq⟩
        · rintro _ ⟨a, rfl, eq⟩
          refine (ih (a :: before) each_rest begins_rest).mono fun all all_eq => ?_
          simpa [eq] using all_eq
  refine (Reads.skipNewlines (plain_head items begins)).bind fun _ _ => ?_
  exact (turns items [] each begins).mono fun all all_eq => by simpa using all_eq

end Lists

end Frontend.Grammar
