import Frontend.Proofs.LooseStmts
import Frontend.Proofs.ReadExprs
import Frontend.Proofs.Yields

/-!
Elements of an array are read one by one: what is read of an element in front of a `]` is read of it
in front of a comma too, whatever stands behind the comma. The exception is an element that ends
with the arrow of a lambda and names, since a comma behind those goes on with the parameters of the
lambda.
-/
namespace Frontend.Grammar

open Token (Kind)
open Frontend.Grammar.Parser Context

/-- An expression is read from some words, up to a `]` behind them. -/
def ReadsAlone (words : List Word) (e : Expr) : Prop :=
  ∃ c c', c.Proper ∧ c.Shows (words ++ [spelled .rbracket]) ∧ full.expr c = .ok e c' ∧
    c'.Shows [spelled .rbracket]

/-- Words that end with the arrow of a lambda, which does not follow a `)`, and with `names` behind
it, between which there may be commas and line ends. -/
def EndsInLambda (words names : List Word) : Prop :=
  ∃ front arrow, words = front ++ arrow :: names ∧ arrow.1 = .arrow ∧
    (front.getLast?.map (·.1)) ≠ some .rparen ∧
    ∀ w ∈ names, w.1 = .ident ∨ w.1 = .comma ∨ w.1 = .newline

/-- Words that end with names that may be the parameters of a lambda. -/
def EndsInParams (words : List Word) : Prop := ∃ names, names ≠ [] ∧ EndsInLambda words names

/-- Behind the words of an element stands the last `]`, or a comma that does not go on with the
parameters of a lambda. -/
def MayFollowElement (words rest : List Word) : Prop :=
  rest = [spelled .rbracket] ∨ headKind rest = .comma ∧ ¬ EndsInParams words

/-- Behind the arrow of a lambda, as long as its parameters may go on. -/
def Phase.isLambda : Phase → Bool
  | arrow | param | params => true
  | _ => false

section Trails

variable {words names : List Word} {x y : Context} {k : Kind} {ts : List Token} {w : Word}

theorem EndsInLambda.snoc (ends : EndsInLambda words names)
    (more : w.1 = .ident ∨ w.1 = .comma ∨ w.1 = .newline) :
    EndsInLambda (words ++ [w]) (names ++ [w]) := by
  obtain ⟨front, arrow, rfl, is_arrow, apart, each⟩ := ends
  refine ⟨front, arrow, by simp, is_arrow, apart, fun v mem => ?_⟩
  obtain mem | rfl := List.mem_append.mp mem |>.imp_right List.mem_singleton.mp
  · exact each v mem
  · exact more

/-- Words with something else at their end. -/
theorem not_endsInParams (other : ¬ (w.1 = .ident ∨ w.1 = .comma ∨ w.1 = .newline)) :
    ¬ EndsInParams (words ++ [w]) := by
  rintro ⟨names, some, front, arrow, same, -, -, each⟩
  rw [← List.dropLast_concat_getLast some, ← List.cons_append, ← List.append_assoc] at same
  obtain rfl : w = names.getLast some := by simpa using (List.append_inj' same rfl).2
  exact other (each _ (List.getLast_mem some))

theorem isLambda_phaseAfter (behind : (x.phaseAfter k).isLambda = true) :
    k = .arrow ∧ x.phase ≠ .closed ∨
      x.phase.isLambda = true ∧ (k = .ident ∨ k = .comma ∨ k = .newline) := by
  obtain ⟨stack, ph⟩ := x
  cases k
  case arrow =>
    refine .inl ⟨rfl, ?_⟩
    rintro rfl
    cases behind
  case ident | newline =>
    refine .inr ⟨?_, by simp⟩
    cases ph <;> first | rfl | cases behind
  case comma =>
    refine .inr ⟨?_, by simp⟩
    simp only [phaseAfter] at behind
    split at behind
    next param => simp_all [Phase.isLambda]
    next => split at behind <;> cases behind
  all_goals
    first
    | cases behind
    | simp only [phaseAfter] at behind
      split at behind <;> cases behind

/-- What the words up to a point say of the phase there. Nothing is said directly in a block. -/
structure Trail (words : List Word) (x : Context) : Prop where
  closed : words.getLast?.map (·.1) = some .rparen →
    x.phase = .closed ∨ x.stack.head? = some .block
  names : x.phase.isLambda = true →
    (∃ names, (x.phase = .param → names ≠ []) ∧ EndsInLambda words names) ∨
      x.stack.head? = some .block

theorem Trail.take (trail : Trail words x) (w : Word) : Trail (words ++ [w]) (x.take w.1) := by
  constructor
  · intro last
    have close : w.1 = .rparen := by simpa using last
    rw [close]
    exact .inl rfl
  · intro behind
    have block : ∀ k, k = .arrow ∨ k = .ident ∨ k = .comma ∨ k = .newline →
        x.stack.head? = some .block → (x.take k).stack.head? = some .block := by
      intro k kind block
      obtain ⟨outer, open_⟩ := List.head?_eq_some_iff.mp block
      obtain rfl | rfl | rfl | rfl := kind <;> simp [Context.take, stackAfter, open_]
    obtain ⟨arrow, other⟩ | ⟨before, more⟩ := isLambda_phaseAfter behind
    · by_cases last : words.getLast?.map (·.1) = some .rparen
      · exact .inr (block _ (.inl arrow) ((trail.closed last).resolve_left other))
      · refine .inl ⟨[], fun param => ?_, words, w, rfl, arrow, last, List.forall_mem_nil _⟩
        rw [arrow] at param
        simp [Context.take, phaseAfter, other] at param
    · obtain ⟨names, -, ends⟩ | inside := trail.names before
      · exact .inl ⟨names ++ [w], by simp, ends.snoc more⟩
      · exact .inr (block _ (.inr more) inside)

theorem Trail.step (trail : Trail words x) (t : Token) : Trail (words ++ [t.word]) (x.step t) := by
  unfold Context.step
  split
  next h outer open_ =>
    split
    next h' next =>
      have there : Trail words ⟨.head h' :: outer, x.phase⟩ := by
        refine ⟨fun last => .inl ?_, fun behind => .inl ?_⟩
        · exact (trail.closed last).resolve_right (by simp [open_])
        · exact (trail.names behind).resolve_right (by simp [open_])
      exact there.take t.word
    next =>
      have there : Trail words ⟨.block :: outer, .fresh⟩ := ⟨fun _ => .inr rfl, nofun⟩
      exact there.take t.word
  next => exact trail.take t.word

/-- In brackets a name may be a parameter of a lambda only if the words end in such names. -/
theorem Trail.leads (trail : Trail words x) (leads : x.Leads ts y) :
    Trail (words ++ ts.map Token.word) y := by
  induction leads generalizing words with
  | stay => simpa using trail
  | @take x y t ts _ _ ih => simpa using ih (trail.step t)

end Trails

section Elements

variable {words rest : List Word} {e : Expr} {c c' : Cursor} {rules : Rules} {n power : Nat}

theorem primary_begins (run : primary rules c = .ok e c') : isPause (c.token 0).kind = false := by
  obtain ⟨k, c₁, seen, run⟩ := bind_eq_ok.mp run
  obtain ⟨rfl, -⟩ := kind_eq_ok seen
  refine Bool.eq_false_iff.mpr fun pause => ?_
  generalize (c.token 0).kind = k at run pause
  obtain rfl | rfl | rfl | rfl | rfl | rfl | rfl := of_isPause pause <;> cases run

/-- No expression begins with a separator, or with what separates or closes. -/
theorem binary_begins (run : binary rules power c = .ok e c') :
    isPause (c.token 0).kind = false := by
  obtain ⟨_, c₁, run, -⟩ := bind_eq_ok.mp run
  obtain ⟨_, c₂, run, -⟩ := bind_eq_ok.mp run
  obtain ⟨k, c₃, seen, run⟩ := bind_eq_ok.mp run
  obtain ⟨rfl, rfl⟩ := kind_eq_ok seen
  refine Bool.eq_false_iff.mpr fun pause => ?_
  have plain : unaryOp? (c.token 0).kind = none := by
    generalize (c.token 0).kind = k at pause
    obtain rfl | rfl | rfl | rfl | rfl | rfl | rfl := of_isPause pause <;> rfl
  rw [plain] at run
  obtain ⟨_, c₄, run, -⟩ := bind_eq_ok.mp run
  have begins := primary_begins run
  rw [Cursor.token_receive, pause] at begins
  cases begins

/-- An element has words, and does not begin with a line end or what separates or closes. -/
theorem ReadsAlone.begins (alone : ReadsAlone words e) :
    ∃ w more, words = w :: more ∧ isPause w.1 = false := by
  obtain ⟨c, c', -, shows_, run, -⟩ := alone
  have begins := binary_begins run
  rw [shows_.kind_token] at begins
  cases words with
  | nil => cases begins
  | cons w more => exact ⟨w, more, rfl, begins⟩

/-- The end of a stream is not among the words of an element. -/
theorem ReadsAlone.going (alone : ReadsAlone words e) : ∀ w ∈ words, w.1.isTerminal = false := by
  obtain ⟨c, c', proper, shows_, -⟩ := alone
  intro w mem
  have mem : w ∈ c.upcoming.map Token.word := shows_.1 ▸ List.mem_append_left _ mem
  obtain ⟨t, there, rfl⟩ := List.mem_map.mp mem
  exact proper.plain t there

/-- An element begins with the same token in both streams. -/
theorem starts_element {d : Cursor} (first : (c.token 0).kind = (d.token 0).kind) :
    Starts [.square .first] .opened (view c d) :=
  Plain.starts_open (.cons nofun) rfl (.inl first)

/-- In square brackets the words of an element lead to where an element may end. -/
theorem ReadsAlone.leads (alone : ReadsAlone words e) : ∃ c c' front close ph, c.Proper ∧
    c.last.kind = .eof ∧ c.upcoming = front ++ [close] ∧ front.map Token.word = words ∧
    close.word = spelled .rbracket ∧ full.expr c = .ok e c' ∧ c'.Shows [spelled .rbracket] ∧
    Leads ⟨[.square .first], .opened⟩ front ⟨[.square .first], ph⟩ ∧ ph.isEnd = true := by
  obtain ⟨c, c', proper, shows_, run, behind⟩ := alone
  obtain ⟨front, back, upcoming, front_eq, back_eq⟩ := List.map_eq_append_iff.mp shows_.1
  obtain ⟨close, rfl, word⟩ := List.map_eq_singleton_iff.mp back_eq
  have near : Near [] ⟨[.square .first], .opened⟩ c c :=
    ⟨proper, proper, rfl, .refl _, .inl rfl⟩
  obtain ⟨_, _, _, -, -, moves, -, ⟨ph, rfl, ended⟩, -⟩ :=
    match_full.binary 1 (starts_element rfl) c c e c' near rfl
      (Int.le_add_of_nonneg_right (Int.le_refl 0)) run
  obtain ⟨taken, split_, leads⟩ := moves.leads
  obtain ⟨_, left, -⟩ := List.map_eq_singleton_iff.mp behind.1
  rw [upcoming, left] at split_
  have same : front = taken := (List.append_inj' split_ rfl).1
  exact ⟨c, c', front, close, ph, proper, shows_.2, upcoming, front_eq, word, run, behind,
    same ▸ leads, ended⟩

/-- Behind the words of an element, where it is read alone, there is a `]`; elsewhere the last `]`
or a comma, which makes a looser stream. -/
theorem Loose.behind_element {front back : List Token} {close : Token} {ph : Phase}
    (leads : Leads ⟨[.square .first], .opened⟩ front ⟨[.square .first], ph⟩)
    (word : close.word = spelled .rbracket)
    (next : MayFollowElement (front.map Token.word) (back.map Token.word)) :
    ∃ far, Loose far ⟨[.square .first], ph⟩ [close] back ∧
      (far = [] ∧ back.map Token.word = [spelled .rbracket] ∨ far = back) := by
  obtain last | ⟨comma, apart⟩ := next
  · obtain ⟨close', rfl, word'⟩ := List.map_eq_singleton_iff.mp last
    exact ⟨[], .token (word.trans word'.symm) .nil, .inl ⟨rfl, last⟩⟩
  · obtain ⟨u, us, rfl, comma⟩ : ∃ u us, back = u :: us ∧ u.kind = .comma := by
      cases back with
      | nil => cases comma
      | cons u us => exact ⟨u, us, rfl, comma⟩
    have other : ph ≠ .param := by
      rintro rfl
      have start : Trail [] ⟨[.square .first], .opened⟩ := ⟨nofun, nofun⟩
      obtain ⟨names, some, ends⟩ | block := (start.leads leads).names rfl
      · exact apart ⟨names, some rfl, ends⟩
      · cases block
    exact ⟨_, .edge rfl other (congrArg Prod.fst word) comma, .inr rfl⟩

/-- Where an element may end there may be a `]`. -/
theorem accepts_close {ph : Phase} {close : Token} (ended : ph.isEnd = true)
    (word : close.word = spelled .rbracket) :
    (⟨[.square .first], ph⟩ : Context).Accepts close.kind := by
  have close_kind : close.kind = .rbracket := congrArg Prod.fst word
  rw [close_kind]
  have other : ph ≠ .case := Phase.ne_case_of_isQuiet (Phase.isQuiet_of_isEnd ended)
  exact ⟨nofun, fun behind => absurd behind other⟩

/-- Behind an element the looser stream has come no further than to what follows the element. -/
theorem Loose.at_close {far back us : List Token} {x : Context} {close : Token}
    (loose : Loose far x [close] us) (word : close.word = spelled .rbracket)
    (far_eq : far = [] ∧ back.map Token.word = [spelled .rbracket] ∨ far = back)
    (short : us.length ≤ back.length) : us.map Token.word = back.map Token.word := by
  obtain ⟨rest, rfl⟩ := loose.suffix
  obtain ⟨rfl, last⟩ | rfl := far_eq
  · have single := congrArg List.length last
    simp only [List.length_map, List.length_singleton, List.append_nil] at single short
    rw [List.append_nil] at loose ⊢
    obtain ⟨u, rfl⟩ :=
      List.length_eq_one_iff.mp (Nat.le_antisymm (single ▸ short) loose.length_le)
    cases loose with
    | token same => rw [last, List.map_singleton, ← same, word]
    | line _ semicolon =>
      have close_kind : close.kind = .rbracket := congrArg Prod.fst word
      rw [close_kind] at semicolon
      cases semicolon
    | extra _ rest => exact absurd rest.length_le (by simp)
  · rw [List.length_append] at short
    rw [List.length_eq_zero_iff.mp (show rest.length = 0 by omega), List.nil_append]

/-- What is read of an element alone is read of it in front of the other elements too. -/
theorem ReadsAlone.takes (alone : ReadsAlone words e) (next : MayFollowElement words rest)
    (going : ∀ w ∈ rest, w.1.isTerminal = false) :
    Takes n (below n).expr (words ++ rest) rest fun e' => e'.bare = e.bare := by
  obtain ⟨w, more, words_eq, -⟩ := alone.begins
  have going_words := alone.going
  obtain ⟨c, c', front, close, ph, proper, ends, upcoming, rfl, word, run, behind, leads, ended⟩ :=
    alone.leads
  obtain ⟨close', left, word'⟩ := List.map_eq_singleton_iff.mp behind.1
  intro d shows_ short
  obtain ⟨front', back, upcoming', same, rfl⟩ := List.map_eq_append_iff.mp shows_.1
  obtain ⟨far, loose, far_eq⟩ := Loose.behind_element leads word next
  -- The stream of the element alone and the whole stream are next to each other.
  have proper' : d.Proper := by
    refine ⟨fun t mem => ?_, by rw [shows_.2]; rfl⟩
    have mem : t.word ∈ front.map Token.word ++ back.map Token.word :=
      shows_.1 ▸ List.mem_map_of_mem mem
    exact (List.mem_append.mp mem).elim (going_words t.word) (going t.word)
  have all := leads.trans (.take (accepts_close ended word) .stay)
  have near : Near far ⟨[.square .first], .opened⟩ c d := by
    refine ⟨proper, proper', ends.trans shows_.2.symm, ?_, .inr ⟨_, upcoming ▸ all⟩⟩
    rw [upcoming, upcoming']
    exact loose.through leads same.symm
  have first : (c.token 0).kind = (d.token 0).kind := by
    obtain ⟨t, front, rfl, -, -⟩ := List.map_eq_cons_iff.mp words_eq
    obtain ⟨u, front', rfl, word, -⟩ := List.map_eq_cons_iff.mp same
    rw [Cursor.token, Cursor.token, upcoming, upcoming']
    exact congrArg Prod.fst word.symm
  have enough : (d.remaining : ℤ) ≤ c.remaining + (d.remaining - c.remaining : ℤ) := by omega
  obtain ⟨e', d', y, run', near', moves, same_bare, -, -⟩ :=
    match_full.binary 1 (starts_element first) c d e c' near rfl enough run
  -- The second run is at least as far in the whole stream, so it is where the element ends.
  have pace := moves.pace
  have lengths := congrArg List.length same
  have some := congrArg List.length words_eq
  simp only [Cursor.remaining_eq, upcoming, upcoming', left, List.length_append, List.length_map,
    List.length_cons] at pace lengths some
  have here : d'.upcoming.map Token.word = back.map Token.word :=
    (left ▸ near'.loose).at_close word' far_eq (by omega)
  have same_back := congrArg List.length here
  simp only [List.length_map] at same_back
  refine ⟨e', d', (below_binary short).trans run', ⟨here, ?_⟩, ?_, same_bare.symm⟩
  · rw [← near'.last, behind.2]
  · rw [d'.remaining_eq, d.remaining_eq, upcoming', List.length_append]
    omega

/-- An element as it is spelled: its words. -/
def elementWords (element : List Word × Expr) : Spelling := (element.1 ++ ·)

theorem behindCommas_elements (elements : List (List Word × Expr)) (o : List Word) :
    behindCommas (elements.map elementWords) o =
      elements.flatMap (spelled .comma :: ·.1) ++ o := by
  induction elements with
  | nil => rfl
  | cons element elements ih =>
    rw [List.map_cons, behindCommas, ih]
    simp [elementWords]

theorem listed_elements {elements : List (List Word × Expr)} {o : List Word} :
    listed (elements.map elementWords) o =
      [spelled .comma].intercalate (elements.map (·.1)) ++ o := by
  cases elements with
  | nil => rfl
  | cons element elements =>
    rw [List.map_cons, listed, behindCommas_elements]
    induction elements generalizing element with
    | nil => simp [elementWords]
    | cons next elements ih =>
      have rest := ih next
      simp only [elementWords, List.flatMap_cons, List.map_cons,
        List.intercalate_cons_cons] at rest ⊢
      simp [rest]

/-- Elements that are read alone are read in an array, each in front of what is left of them. -/
theorem readAsElements {elements : List (List Word × Expr)}
    (alone : ∀ i ∈ elements, ReadsAlone i.1 i.2)
    (apart : ∀ i ∈ elements.dropLast, ¬ EndsInParams i.1) :
    ReadAsElements n elementWords (·.2) elements [spelled .rbracket] := by
  intro element more suffix
  have here : element ∈ elements := suffix.subset List.mem_cons_self
  have next : MayFollowElement element.1
      (behindCommas (more.map elementWords) [spelled .rbracket]) := by
    cases more with
    | nil => exact .inl rfl
    | cons _ more =>
      refine .inr ⟨rfl, apart element ?_⟩
      obtain ⟨before, rfl⟩ := suffix
      rw [List.dropLast_append_of_ne_nil (by simp)]
      exact List.mem_append_right _ (by simp)
  have going : ∀ w ∈ behindCommas (more.map elementWords) [spelled .rbracket],
      w.1.isTerminal = false := by
    rw [behindCommas_elements]
    intro w mem
    simp only [List.mem_append, List.mem_flatMap, List.mem_cons, List.not_mem_nil,
      or_false] at mem
    obtain ⟨other, there, rfl | mem⟩ | rfl := mem
    · rfl
    · exact (alone other (suffix.subset (List.mem_cons_of_mem _ there))).going w mem
    · rfl
  refine ⟨?_, (alone element here).takes next going⟩
  obtain ⟨w, words, words_eq, begins⟩ := (alone element here).begins
  rw [elementWords, words_eq]
  intro mem
  show False
  simp only [List.cons_append, kindOf_zero, List.mem_cons, List.not_mem_nil, or_false] at mem
  obtain same | same | same := mem <;> rw [same] at begins <;> cases begins

/-- The elements of an array are read as they are read alone, each in front of a `]`. No element but
the last one may end with names that are parameters of a lambda if a comma follows. -/
theorem array_of_elements {elements : List (List Word × Expr)} {c : Cursor} (some : elements ≠ [])
    (alone : ∀ i ∈ elements, ReadsAlone i.1 i.2)
    (apart : ∀ i ∈ elements.dropLast, ¬ EndsInParams i.1)
    (shows_ : c.Shows (spelled .lbracket ::
      [spelled .comma].intercalate (elements.map (·.1)) ++ [spelled .rbracket])) :
    ∃ span elems c', full.expr c = .ok ⟨span, .array elems⟩ c' ∧ c'.upcoming = [] ∧
      elems.map Expr.bare = elements.map (·.2.bare) := by
  rw [List.cons_append, ← listed_elements] at shows_
  have array := Takes.array some (readAsElements alone apart (n := c.remaining))
  have primary : Takes (c.remaining + 1) (primary (below c.remaining)) (spelled .lbracket ::
      listed (elements.map elementWords) [spelled .rbracket]) [] fun e =>
        ∃ span elems, e = ⟨span, .array elems⟩ ∧
          elems.map Expr.bare = elements.map (·.2.bare) := by
    refine .after .kind fun kind here => ?_
    obtain rfl : kind = .lbracket := here
    exact array
  have whole : Takes (c.remaining + 1) (binary (below c.remaining) 1) _ _ _ :=
    (((primary.chained (by decide)).unary rfl).coerced (by decide)).binary rfl
  obtain ⟨e, c', run, behind, -, span, elems, rfl, same⟩ := whole c shows_ (Nat.lt_succ_self _)
  exact ⟨span, elems, c', run, List.map_eq_nil_iff.mp behind.1, same⟩

/-- What is left behind an expression, if one is read: some words and the end. -/
def leftBehind (c : Cursor) : Option (List Word × Kind) :=
  match full.expr c with
  | .ok _ c' => some (c'.upcoming.map Token.word, c'.last.kind)
  | .error .. => none

/-- Some words and the end of a stream, all of them at one place. -/
def cursorOf (words : List Word) : Cursor :=
  .ofTokens ((words ++ [(Kind.eof, "")]).map fun w => ⟨w.1, w.2, default⟩)

theorem exists_readsAlone (words : List Word)
    (shows_ : (cursorOf (words ++ [spelled .rbracket])).Shows (words ++ [spelled .rbracket]))
    (left : leftBehind (cursorOf (words ++ [spelled .rbracket])) =
      some ([spelled .rbracket], .eof)) : ∃ e, ReadsAlone words e := by
  unfold leftBehind at left
  split at left
  next e c' run =>
    obtain ⟨words_eq, ends⟩ := Prod.mk.inj (Option.some.inj left)
    exact ⟨e, _, c', Cursor.proper_ofTokens _, shows_, run, words_eq, ends⟩
  next => cases left

/-- `-> x + 1` -/
def successor : List Word := [spelled .arrow, ident "x", spelled .plus, (.int, "1")]

theorem array_of_successor_and_name :
    ∃ e e', ReadsAlone successor e ∧ ReadsAlone [ident "y"] e' ∧
      ∃ span elems c', full.expr (cursorOf (spelled .lbracket :: successor ++
          [spelled .comma, ident "y", spelled .rbracket])) = .ok ⟨span, .array elems⟩ c' ∧
        c'.upcoming = [] ∧ elems.map Expr.bare = [e.bare, e'.bare] := by
  obtain ⟨e, alone⟩ := exists_readsAlone successor ⟨rfl, rfl⟩ (by decide +kernel)
  obtain ⟨e', alone'⟩ := exists_readsAlone [ident "y"] ⟨rfl, rfl⟩ (by decide +kernel)
  refine ⟨e, e', alone, alone', ?_⟩
  have elements_ne : [(successor, e), ([ident "y"], e')] ≠ [] := nofun
  refine array_of_elements elements_ne ?_ ?_ ⟨rfl, rfl⟩
  · simpa using ⟨alone, alone'⟩
  · intro i mem
    obtain rfl : i = (successor, e) := by simpa using mem
    show ¬ EndsInParams ([spelled .arrow, ident "x", spelled .plus] ++ [(.int, "1")])
    exact not_endsInParams (by simp)

/-- A comma behind `-> x` goes on with the parameters of the lambda. -/
theorem lambda_goes_on_behind_comma :
    (∃ e, ReadsAlone [spelled .arrow, ident "x"] e) ∧ (∃ e, ReadsAlone [ident "y"] e) ∧
      ¬ ∃ e c', full.expr (cursorOf [spelled .lbracket, spelled .arrow, ident "x", spelled .comma,
        ident "y", spelled .rbracket]) = .ok e c' := by
  refine ⟨exists_readsAlone _ ⟨rfl, rfl⟩ (by decide +kernel),
    exists_readsAlone _ ⟨rfl, rfl⟩ (by decide +kernel), ?_⟩
  have refused : leftBehind (cursorOf [spelled .lbracket, spelled .arrow, ident "x",
      spelled .comma, ident "y", spelled .rbracket]) = none := by
    decide +kernel
  rintro ⟨e, c', run⟩
  rw [leftBehind, run] at refused
  cases refused

end Elements

end Frontend.Grammar
