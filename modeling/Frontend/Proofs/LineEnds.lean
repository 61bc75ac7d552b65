import Frontend.Proofs.LooseFiles

/-!
Where line ends and other separators do not matter. Line ends may be added behind an opening
bracket, in front of a closing one, around the commas and the `=>` of a list in brackets, and behind
an operator between operands, but for one place: in front of the comma behind the first pair of a
dictionary. Everywhere a separator may be repeated, and a line end stand for a semicolon.
-/
namespace Frontend

namespace Grammar

open Token (Kind)
open Context

/-- The kind of the first token that ends a stream; that of the end of a file if there is none. -/
def endKind (tokens : List Token) : Kind :=
  ((tokens.find? (·.kind.isTerminal)).map (·.kind)).getD .eof

/-- The tokens of a stream up to its end. -/
def beforeEnd (tokens : List Token) : List Token := tokens.takeWhile (!·.kind.isTerminal)

section Ends

variable {t : Token} {tokens ts : List Token}

theorem Cursor.kind_last_ofTokens :
    (Cursor.ofTokens tokens).last.kind = endKind (tokens.filter (·.kind != .comment)) := by
  show (((tokens.filter (·.kind != .comment)).find? (·.kind.isTerminal)).getD
    (.eofAt .start)).kind = _
  unfold endKind
  cases (tokens.filter (·.kind != .comment)).find? (·.kind.isTerminal) <;> rfl

theorem beforeEnd_cons (going : t.kind.isTerminal = false) :
    beforeEnd (t :: ts) = t :: beforeEnd ts := by
  simp [beforeEnd, going]

theorem endKind_cons (going : t.kind.isTerminal = false) : endKind (t :: ts) = endKind ts := by
  simp [endKind, going]

theorem beforeEnd_terminal (ends : t.kind.isTerminal = true) : beforeEnd (t :: ts) = [] := by
  simp [beforeEnd, ends]

theorem endKind_terminal (ends : t.kind.isTerminal = true) : endKind (t :: ts) = t.kind := by
  simp [endKind, ends]

end Ends

/-- Streams of which the second one has line ends that the first one has not, each in front of a
token or of the end, where a context allows it. -/
inductive Widened (allowed : Context → Kind → Prop) : Context → List Token → List Token → Prop
  | nil {x : Context} : Widened allowed x [] []
  | token {x : Context} {t u : Token} {ts us : List Token} (same : t.word = u.word)
      (rest : Widened allowed (x.step t) ts us) : Widened allowed x (t :: ts) (u :: us)
  | line {x : Context} {u : Token} {ts us : List Token} (newline : u.kind = .newline)
      (here : allowed x (firstKind ts)) (rest : Widened allowed x ts us) :
      Widened allowed x ts (u :: us)

/-- A line end in front of a token of a kind is ignored. -/
def Context.IgnoresLine (x : Context) (k : Kind) : Prop := x.IsBlank k ∧ ¬ x.afterFirstPair k

instance (x : Context) (k : Kind) : Decidable (x.IgnoresLine k) :=
  inferInstanceAs (Decidable (_ ∧ _))

/-- What is ignored in front of the end of a stream does not depend on how the stream ends. -/
theorem Context.IgnoresLine.at_end {x : Context} {k : Kind} (here : x.IgnoresLine k)
    (ends : k.isTerminal = true) : x.IgnoresLine .eof := by
  refine ⟨?_, fun pair => by cases pair.1⟩
  obtain behind | behind | ⟨-, close | ⟨rfl, -⟩ | ⟨rfl, -⟩⟩ := here.1
  · exact .inl behind
  · exact .inr (.inl behind)
  · obtain ⟨f, -, close⟩ := Option.bind_eq_some_iff.mp close
    cases f <;> simp [Frame.closer?] at close <;> subst close <;> cases ends
  · cases ends
  · cases ends

/-- Streams that begin with the same word mean the same up to their ends, where those behind do
unless the word is the end. -/
theorem loose_beforeEnd_cons {x : Context} {t u : Token} {ts us : List Token}
    (same : t.word = u.word) (rest : t.kind.isTerminal = false →
      Loose [] (x.step t) (beforeEnd ts) (beforeEnd us) ∧ endKind ts = endKind us) :
    Loose [] x (beforeEnd (t :: ts)) (beforeEnd (u :: us)) ∧
      endKind (t :: ts) = endKind (u :: us) := by
  have kind : t.kind = u.kind := congrArg Prod.fst same
  by_cases ends : t.kind.isTerminal = true
  · rw [beforeEnd_terminal ends, beforeEnd_terminal (kind ▸ ends), endKind_terminal ends,
      endKind_terminal (kind ▸ ends)]
    exact ⟨.nil, kind⟩
  · have going := Bool.eq_false_iff.mpr ends
    obtain ⟨loose, same_end⟩ := rest going
    rw [beforeEnd_cons going, beforeEnd_cons (kind ▸ going), endKind_cons going,
      endKind_cons (kind ▸ going)]
    exact ⟨.token same loose, same_end⟩

theorem Widened.loose {x : Context} {ts us : List Token}
    (widened : Widened Context.IgnoresLine x ts us) :
    Loose [] x (beforeEnd ts) (beforeEnd us) ∧ endKind ts = endKind us := by
  induction widened with
  | nil => exact ⟨.nil, rfl⟩
  | token same _ ih => exact loose_beforeEnd_cons same fun _ => ih
  | @line x u ts us newline here _ ih =>
    have going : u.kind.isTerminal = false := by rw [newline]; rfl
    rw [beforeEnd_cons going, endKind_cons going]
    have here : x.IgnoresLine (firstKind (beforeEnd ts)) := by
      cases ts with
      | nil => exact here
      | cons t ts =>
        by_cases ends : t.kind.isTerminal = true
        · rw [beforeEnd_terminal ends]
          exact here.at_end ends
        · rw [beforeEnd_cons (Bool.eq_false_iff.mpr ends)]
          exact here
    refine ⟨.extra ?_ ih.1, ih.2⟩
    rw [newline]
    exact .blank here.1 here.2

/-- A token stands for a separator: the same one, or a line end for a semicolon. -/
def Replaces (u t : Token) : Prop :=
  t.kind.isSeparator = true ∧ u.word = t.word ∨ t.kind = .semicolon ∧ u.kind = .newline

/-- Streams of which the second one has line ends for semicolons of the first one, and repeats
separators. -/
inductive Respaced : List Token → List Token → Prop
  | nil : Respaced [] []
  | token {t u : Token} {ts us : List Token} (same : t.word = u.word) (rest : Respaced ts us) :
      Respaced (t :: ts) (u :: us)
  | line {t u : Token} {ts us : List Token} (semicolon : t.kind = .semicolon)
      (newline : u.kind = .newline) (rest : Respaced ts us) : Respaced (t :: ts) (u :: us)
  | again {t u : Token} {ts us : List Token} (replaces : Replaces u t)
      (rest : Respaced (t :: ts) us) : Respaced (t :: ts) (u :: us)

theorem Replaces.isSeparator {u t : Token} (replaces : Replaces u t) :
    t.kind.isSeparator = true ∧ u.kind.isSeparator = true := by
  obtain ⟨separator, same⟩ | ⟨semicolon, newline⟩ := replaces
  · have kind : u.kind = t.kind := congrArg Prod.fst same
    exact ⟨separator, kind ▸ separator⟩
  · rw [semicolon, newline]
    exact ⟨rfl, rfl⟩

theorem Replaces.adds {x : Context} {u t : Token} (replaces : Replaces u t)
    (accepts : x.Accepts t.kind) : x.Adds u.kind t.kind := by
  obtain ⟨separator, separator'⟩ := replaces.isSeparator
  have phase : x.phase ≠ .case := fun behind => by
    rw [accepts.2 behind] at separator
    cases separator
  obtain newline | semicolon : t.kind = .newline ∨ t.kind = .semicolon := by
    simpa [Kind.isSeparator] using separator
  · obtain ⟨-, same⟩ | ⟨semicolon, -⟩ := replaces
    · have kind : u.kind = t.kind := congrArg Prod.fst same
      rw [kind, newline]
      exact .line phase
    · rw [newline] at semicolon
      cases semicolon
  · rw [semicolon]
    exact .separator phase (accepts.1 semicolon) separator'

/-- Contexts that accept the separators of a stream allow them to be repeated and replaced. -/
theorem Respaced.loose {x y : Context} {ts us : List Token} (respaced : Respaced ts us)
    (leads : x.Leads (beforeEnd ts) y) :
    Loose [] x (beforeEnd ts) (beforeEnd us) ∧ endKind ts = endKind us := by
  induction respaced generalizing x with
  | nil => exact ⟨.nil, rfl⟩
  | token same _ ih =>
    refine loose_beforeEnd_cons same fun going => ?_
    rw [beforeEnd_cons going] at leads
    exact ih leads.tail
  | @line t u ts us semicolon newline _ ih =>
    have going : t.kind.isTerminal = false := by rw [semicolon]; rfl
    have going' : u.kind.isTerminal = false := by rw [newline]; rfl
    rw [beforeEnd_cons going] at leads
    rw [beforeEnd_cons going, beforeEnd_cons going', endKind_cons going, endKind_cons going']
    have closed : x.isOpen = false := by
      cases leads with
      | take accepts => exact accepts.1 semicolon
    exact ⟨.line closed semicolon newline (ih leads.tail).1, (ih leads.tail).2⟩
  | @again t u ts us replaces _ ih =>
    obtain ⟨separator, separator'⟩ := replaces.isSeparator
    have going := Advances.going_of_isSeparator separator
    have going' := Advances.going_of_isSeparator separator'
    rw [beforeEnd_cons going', endKind_cons going']
    refine ⟨.extra ?_ (ih leads).1, (ih leads).2⟩
    rw [beforeEnd_cons going] at leads ⊢
    show x.Adds u.kind t.kind
    have accepts : x.Accepts t.kind := by
      cases leads with
      | take accepts => exact accepts
    exact replaces.adds accepts

end Grammar

open Grammar

variable {source source' : Source} {tokens tokens' : List Token} {decls : List Toplevel}

theorem exists_of_isOk {ε α : Type} {x : Except ε α} (h : x.isOk = true) : ∃ a, x = .ok a := by
  cases x with
  | error e => cases h
  | ok a => exact ⟨a, rfl⟩

/-- Line ends are ignored inside of brackets, around what separates and behind what opens, and
behind operators: tokens that are parsed to declarations are parsed to the same ones with line ends
added there, but for places. In front of the comma behind the first pair of a dictionary no line may
end. -/
theorem parseTokens_widened (parsed : (parseTokens source tokens).result = .ok decls)
    (widened : Widened Context.IgnoresLine .start (tokens.filter (·.kind != .comment))
      (tokens'.filter (·.kind != .comment))) :
    ∃ decls', (parseTokens source' tokens').result = .ok decls' ∧
      decls.map Toplevel.bare = decls'.map Toplevel.bare := by
  obtain ⟨loose, ends⟩ := widened.loose
  rw [← Cursor.kind_last_ofTokens, ← Cursor.kind_last_ofTokens] at ends
  exact parseTokens_loose parsed loose ends

/-- `func f ⏎ ret g(a, b) + [1] ⏎ end`, with some tokens wherever line ends are ignored. -/
def calledSum (lines : List Token) : List Token :=
  [⟨.funcWord, "func", default⟩, ⟨.ident, "f", default⟩, ⟨.newline, "\n", default⟩,
    ⟨.retWord, "ret", default⟩, ⟨.ident, "g", default⟩, ⟨.lparen, "(", default⟩] ++ lines ++
  [⟨.ident, "a", default⟩] ++ lines ++ [⟨.comma, ",", default⟩] ++ lines ++
  [⟨.ident, "b", default⟩] ++ lines ++ [⟨.rparen, ")", default⟩, ⟨.plus, "+", default⟩] ++ lines ++
  [⟨.lbracket, "[", default⟩] ++ lines ++ [⟨.int, "1", default⟩] ++ lines ++
  [⟨.rbracket, "]", default⟩, ⟨.newline, "\n", default⟩, ⟨.endWord, "end", default⟩]

theorem parseTokens_widened_sum :
    let source : Source := .inMemory "a" []
    let line : Token := ⟨.newline, "\n", default⟩
    Widened Context.IgnoresLine .start ((calledSum []).filter (·.kind != .comment))
      ((calledSum [line]).filter (·.kind != .comment)) ∧
    ∃ decls, (parseTokens source (calledSum [])).result = .ok decls ∧
      ∃ decls', (parseTokens source (calledSum [line])).result = .ok decls' ∧
        decls.map Toplevel.bare = decls'.map Toplevel.bare := by
  intro source line
  have widened : Widened Context.IgnoresLine .start ((calledSum []).filter (·.kind != .comment))
      ((calledSum [line]).filter (·.kind != .comment)) := by
    have kept : (calledSum []).filter (·.kind != .comment) = calledSum [] := by rfl
    have kept' : (calledSum [⟨.newline, "\n", default⟩]).filter (·.kind != .comment) =
        calledSum [⟨.newline, "\n", default⟩] := by rfl
    rw [kept, kept']
    repeat first | exact .nil | apply Widened.token rfl | apply Widened.line rfl (by decide)
  have accepted : (parseTokens (.inMemory "a" []) (calledSum [])).result.isOk = true := by
    decide +kernel
  obtain ⟨decls, parsed⟩ := exists_of_isOk accepted
  exact ⟨widened, decls, parsed, parseTokens_widened parsed widened⟩

/-- `func f ⏎ ret [a => b, c => d] ⏎ end`, with some tokens behind the first pair. -/
def returnedDict (lines : List Token) : List Token :=
  [⟨.funcWord, "func", default⟩, ⟨.ident, "f", default⟩, ⟨.newline, "\n", default⟩,
    ⟨.retWord, "ret", default⟩, ⟨.lbracket, "[", default⟩, ⟨.ident, "a", default⟩,
    ⟨.fatArrow, "=>", default⟩, ⟨.ident, "b", default⟩] ++ lines ++
  [⟨.comma, ",", default⟩, ⟨.ident, "c", default⟩, ⟨.fatArrow, "=>", default⟩,
    ⟨.ident, "d", default⟩, ⟨.rbracket, "]", default⟩, ⟨.newline, "\n", default⟩,
    ⟨.endWord, "end", default⟩]

/-- In front of the comma behind the first pair of a dictionary a line end is a fault. -/
theorem first_pair_refuses_line :
    let source : Source := .inMemory "a" []
    let line : Token := ⟨.newline, "\n", default⟩
    Widened Context.IsBlank .start (returnedDict []) (returnedDict [line]) ∧
      (∃ decls, (parseTokens source (returnedDict [])).result = .ok decls) ∧
      ¬ ∃ decls, (parseTokens source (returnedDict [line])).result = .ok decls := by
  intro source line
  have accepted : (parseTokens (.inMemory "a" []) (returnedDict [])).result.isOk = true := by
    decide +kernel
  have refused : (parseTokens (.inMemory "a" [])
      (returnedDict [⟨.newline, "\n", default⟩])).result.isOk = false := by
    decide +kernel
  refine ⟨?_, exists_of_isOk accepted, ?_⟩
  · repeat first | exact .nil | apply Widened.token rfl | apply Widened.line rfl (by decide)
  · rintro ⟨decls, parsed⟩
    rw [parsed] at refused
    cases refused

/-- Separators may be repeated, and line ends stand for semicolons: the declarations that are parsed
are the same, but for places. -/
theorem parseTokens_respaced (parsed : (parseTokens source tokens).result = .ok decls)
    (respaced : Respaced (tokens.filter (·.kind != .comment))
      (tokens'.filter (·.kind != .comment))) :
    ∃ decls', (parseTokens source' tokens').result = .ok decls' ∧
      decls.map Toplevel.bare = decls'.map Toplevel.bare := by
  obtain ⟨y, leads⟩ := leads_of_parsed parsed
  obtain ⟨loose, ends⟩ := respaced.loose leads
  rw [← Cursor.kind_last_ofTokens, ← Cursor.kind_last_ofTokens] at ends
  exact parseTokens_loose parsed loose ends

/-- `func f ⏎ ret 1 ⏎ end`, with some tokens for each of its line ends. -/
def returnedOne (separators : List Token) : List Token :=
  [⟨.funcWord, "func", default⟩, ⟨.ident, "f", default⟩] ++ separators ++
  [⟨.retWord, "ret", default⟩, ⟨.int, "1", default⟩] ++ separators ++ [⟨.endWord, "end", default⟩]

theorem parseTokens_respaced_one :
    let source : Source := .inMemory "a" []
    let semicolon : Token := ⟨.semicolon, ";", default⟩
    let line : Token := ⟨.newline, "\n", default⟩
    Respaced ((returnedOne [semicolon]).filter (·.kind != .comment))
      ((returnedOne [line, semicolon, line]).filter (·.kind != .comment)) ∧
    ∃ decls, (parseTokens source (returnedOne [semicolon])).result = .ok decls ∧
      ∃ decls', (parseTokens source (returnedOne [line, semicolon, line])).result = .ok decls' ∧
        decls.map Toplevel.bare = decls'.map Toplevel.bare := by
  intro source semicolon line
  have lines : ∀ {ts us}, Respaced ts us →
      Respaced (semicolon :: ts) (line :: semicolon :: line :: us) := fun rest =>
    .again (.inr ⟨rfl, rfl⟩) (.again (.inl ⟨rfl, rfl⟩) (.line rfl rfl rest))
  have respaced : Respaced ((returnedOne [semicolon]).filter (·.kind != .comment))
      ((returnedOne [line, semicolon, line]).filter (·.kind != .comment)) :=
    .token rfl (.token rfl (lines (.token rfl (.token rfl (lines (.token rfl .nil))))))
  have accepted : (parseTokens (.inMemory "a" [])
      (returnedOne [⟨.semicolon, ";", default⟩])).result.isOk = true := by
    decide +kernel
  obtain ⟨decls, parsed⟩ := exists_of_isOk accepted
  exact ⟨respaced, decls, parsed, parseTokens_respaced parsed respaced⟩

end Frontend
