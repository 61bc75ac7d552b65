import Frontend.Proofs.ReadCalls

/-!
Each form of a statement is read as what it is spelled from, as long as its parts are; and all trees
of the grammar are legible, by induction on how they are formed.
-/
namespace Frontend.Grammar

open Frontend.Grammar.Parser
open Token (Kind)

variable {n : Nat} {k o : List Word} {span : Span}

section Statements

variable {values : List Expr}

theorem ends_of_newline (line : headKind k = .newline) : Ends k := by
  rw [Ends, line]
  decide

/-- The values behind an assignment sign, up to the end of the line. -/
theorem Takes.valueList (some : values ≠ []) (legible : ∀ e ∈ values, e.Legible)
    (line : headKind k = .newline) :
    Takes n (below n).exprList (listed (values.map Expr.words) k) k fun values' =>
      values'.map Expr.bare = values.map Expr.bare :=
  .exprList some legible (ends_of_newline line) (by simp [line])

theorem headKind_values (some : values ≠ []) :
    headKind (listed (values.map Expr.words) k) = .lparen := by
  cases values with
  | nil => exact absurd rfl some
  | cons e values => rfl

theorem legible_declare {mutable : Bool} {targets : List Destructuring}
    (some_targets : targets ≠ [])
    (targets_legible : ∀ d ∈ targets, d.Legible) (some_values : values ≠ [])
    (values_legible : ∀ e ∈ values, e.Legible) :
    (Stmt.mk span (.declare mutable targets values)).Legible := by
  refine ⟨fun k => by cases mutable <;> exact begins_cons (by decide), fun n k line => ?_⟩
  rw [Stmt.words, Expr.items_eq]
  have declaration : Takes (n + 1) (declaration (below n))
      (spelled (if mutable then .varWord else .letWord) :: listed (targets.map Destructuring.words)
        (spelled .assign :: listed (values.map Expr.words) k)) k
      fun s => s.bare = (Stmt.mk span (.declare mutable targets values)).bare := by
    refine .first .next fun word word_eq => ?_
    have kind : word.kind = if mutable then .varWord else .letWord := kind_of_word word_eq
    have list : Takes n (Parser.commaList (below n).destructuring)
        (listed (targets.map Destructuring.words)
          (spelled .assign :: listed (values.map Expr.words) k))
        (spelled .assign :: listed (values.map Expr.words) k) fun targets' =>
        targets'.map Destructuring.bare = targets.map Destructuring.bare :=
      .commaList some_targets
        (fun d mem _ follows => .below_destructuring (targets_legible d mem)
          (follows.ends (ends_cons (by decide))))
        (fun d mem => (targets_legible d mem).begins) (by simp)
    refine list.reads.bind fun targets' targets_same => ?_
    refine (Takes.expect rfl).reads.bind fun _ _ => ?_
    refine (Reads.skipNewlines (by simp [headKind_values some_values])).bind fun _ _ => ?_
    refine (Takes.valueList some_values values_legible line).reads.bind
      fun values' values_same => ?_
    refine Reads.place.bind fun stop _ => .pure ?_
    rw [kind]
    cases mutable <;> simp [Stmt.bare, targets_same, values_same]
  refine .after .kind fun kind here => ?_
  cases mutable with
  | false =>
    obtain rfl : kind = .letWord := here
    exact declaration
  | true =>
    obtain rfl : kind = .varWord := here
    exact declaration

theorem legible_assign {names : List String} (some_names : names ≠ []) (some_values : values ≠ [])
    (values_legible : ∀ e ∈ values, e.Legible) :
    (Stmt.mk span (.assign names values)).Legible := by
  have starts : ∀ k, ∃ name more, (Stmt.mk span (.assign names values)).words k =
      ident name :: more ∧ (headKind more = .comma ∨ headKind more = .assign) := by
    intro k
    cases names with
    | nil => exact absurd rfl some_names
    | cons name names =>
      refine ⟨name, _, rfl, ?_⟩
      cases names with
      | nil => exact .inr rfl
      | cons name' names => exact .inl rfl
  refine ⟨fun k => ?_, fun n k line => ?_⟩
  · obtain ⟨name, more, eq, -⟩ := starts k
    exact eq ▸ begins_cons (by decide)
  obtain ⟨name, more, eq, next⟩ := starts k
  have assignment : Takes (n + 1) (assignment (below n))
      ((Stmt.mk span (.assign names values)).words k) k
      fun s => s.bare = (Stmt.mk span (.assign names values)).bare := by
    rw [Stmt.words, Expr.items_eq]
    have list : Takes (n + 1) (Parser.commaList (expectIdent "variable name"))
        (nameWords names (spelled .assign :: listed (values.map Expr.words) k))
        (spelled .assign :: listed (values.map Expr.words) k) fun tokens =>
        tokens.map (·.text) = names.map id := by
      refine .commaList some_names (fun name _ k _ => ?_)
        (fun _ _ _ => begins_cons (by decide)) (by simp)
      exact (Takes.expect rfl).mono fun t word => text_of_word word
    refine .after (.peekAt 0) fun first _ => .first list fun tokens tokens_same => ?_
    refine (Takes.expect rfl).reads.bind fun _ _ => ?_
    refine (Reads.skipNewlines (by simp [headKind_values some_values])).bind fun _ _ => ?_
    refine (Takes.valueList some_values values_legible line).reads.bind
      fun values' values_same => ?_
    refine Reads.place.bind fun stop _ => .pure ?_
    rw [List.map_id] at tokens_same
    simp [Stmt.bare, tokens_same, values_same]
  refine .after .kind fun kind here => ?_
  obtain rfl : kind = .ident := by rw [here, eq]; rfl
  refine .after (.kindAt 1) fun after here => ?_
  rw [eq] at here
  obtain comma | assign := next
  · obtain rfl : after = .comma := here.trans comma
    exact assignment
  · obtain rfl : after = .assign := here.trans assign
    exact assignment

theorem legible_assignIndex {target index value : Expr} (target_legible : target.Legible)
    (index_legible : index.Legible) (value_legible : value.Legible) :
    (Stmt.mk span (.assignIndex target index value)).Legible := by
  refine ⟨fun k => begins_cons (by decide), fun n k line => ?_⟩
  have words : (Stmt.mk span (.assignIndex target index value)).words k =
      (Expr.mk span (.index target index)).inner (spelled .assign :: value.words k) := rfl
  rw [words]
  refine .after .kind fun kind here => ?_
  obtain rfl : kind = .lparen := here
  have place := Takes.index span (n := n) (k := spelled .assign :: value.words k)
    target_legible index_legible (by simp [chainers])
  refine .first (.binary_of_chained place rfl (ends_cons (by decide))) fun e same => ?_
  refine (Takes.ate rfl).reads.bind fun assign there => ?_
  rw [there]
  obtain ⟨span', form⟩ := e
  cases form with
  | index target' index' =>
    obtain ⟨target_same, index_same⟩ : target'.bare = target.bare ∧ index'.bare = index.bare := by
      simpa [Expr.bare] using same
    refine (Reads.skipNewlines (by simp [Expr.words, parens])).bind fun _ _ => ?_
    refine (Takes.below_expr value_legible (ends_of_newline line)).reads.bind ?_
    refine fun value' value_same => .pure ?_
    simp [Stmt.bare, target_same, index_same, value_same]
  | _ => simp [Expr.bare] at same

theorem legible_ret (values_legible : ∀ e ∈ values, e.Legible) :
    (Stmt.mk span (.ret values)).Legible := by
  refine ⟨fun k => begins_cons (by decide), fun n k line => ?_⟩
  rw [Stmt.words, Expr.items_eq]
  refine .after .kind fun kind here => ?_
  obtain rfl : kind = .retWord := here
  refine .first .next fun word _ => Reads.kind.bind fun kind here => ?_
  have rest : ∀ values' : List Expr, values'.map Expr.bare = values.map Expr.bare →
      Reads n (Parser.place >>= fun stop =>
        pure (⟨⟨word.span.start, stop⟩, .ret values'⟩ : Stmt)) k k
        fun s => s.bare = (Stmt.mk span (.ret values)).bare := by
    refine fun values' same => Reads.place.bind fun stop _ => .pure ?_
    simp [Stmt.bare, same]
  cases values with
  | nil =>
    have separator : kind.isSeparator = true := by
      obtain rfl : kind = headKind k := here
      rw [line]
      rfl
    rw [if_pos (.inl separator)]
    exact rest [] rfl
  | cons e values =>
    obtain rfl : kind = .lparen := here
    rw [if_neg (by decide)]
    exact (Takes.valueList (by simp) values_legible line).reads.bind rest

end Statements

section Branches

theorem legible_ifThen_stmt {cond : Expr} {thenBlock elseBlock : List Stmt}
    (cond_legible : cond.Legible) (then_legible : ∀ s ∈ thenBlock, s.Legible)
    (else_legible : ∀ s ∈ elseBlock, s.Legible) :
    (Stmt.mk span (.ifThen cond thenBlock elseBlock)).Legible := by
  refine ⟨fun k => begins_cons (by decide), fun n k line => .after .kind fun kind here => ?_⟩
  obtain rfl : kind = .ifWord := here
  exact .ifStmt cond_legible then_legible else_legible

theorem legible_switch_stmt {cases : List (Expr × List Stmt)} {elseBlock : List Stmt}
    (some : cases ≠ []) (conds_legible : ∀ c ∈ cases, c.1.Legible)
    (blocks_legible : ∀ c ∈ cases, ∀ s ∈ c.2, s.Legible)
    (else_legible : ∀ s ∈ elseBlock, s.Legible) :
    (Stmt.mk span (.switch cases elseBlock)).Legible := by
  refine ⟨fun k => begins_cons (by decide), fun n k line => .after .kind fun kind here => ?_⟩
  obtain rfl : kind = .switchWord := here
  exact .switchStmt some conds_legible blocks_legible else_legible

theorem legible_matchWith_stmt {subject : Expr} {arms : List (Pattern × List Stmt)}
    {elseBlock : List Stmt} (subject_legible : subject.Legible) (some : arms ≠ [])
    (patterns_legible : ∀ a ∈ arms, a.1.Legible)
    (blocks_legible : ∀ a ∈ arms, ∀ s ∈ a.2, s.Legible)
    (else_legible : ∀ s ∈ elseBlock, s.Legible) :
    (Stmt.mk span (.matchWith subject arms elseBlock)).Legible := by
  refine ⟨fun k => begins_cons (by decide), fun n k line => .after .kind fun kind here => ?_⟩
  obtain rfl : kind = .matchWord := here
  exact .matchStmt subject_legible some patterns_legible blocks_legible else_legible

end Branches

section Loops

/-- Words with a closing brace for every opening one. -/
inductive Balanced : List Word → Prop
  | nil : Balanced []
  | word {w : Word} {words : List Word} (opens : w.1 ≠ .lbrace) (closes : w.1 ≠ .rbrace)
      (more : Balanced words) : Balanced (w :: words)
  | nest {inner words : List Word} (inside : Balanced inner) (more : Balanced words) :
      Balanced (spelled .lbrace :: inner ++ spelled .rbrace :: words)

/-- A spelling that closes the braces that it opens. -/
def PutsBalanced (words : Spelling) : Prop := ∀ k, ∃ front, words k = front ++ k ∧ Balanced front

theorem Balanced.append {front back : List Word} (h : Balanced front) (h' : Balanced back) :
    Balanced (front ++ back) := by
  induction h with
  | nil => exact h'
  | word opens closes more ih => exact .word opens closes ih
  | nest inside more _ ih =>
    rw [List.append_assoc, List.cons_append]
    exact .nest inside ih

/-- A search for the brace that closes another passes over balanced words. -/
theorem Balanced.bracesSize_append {words : List Word} (h : Balanced words) :
    ∀ tokens : List Token, tokens.map Token.word = words → ∀ depth more, 1 ≤ depth →
      bracesSize depth (tokens ++ more) = tokens.length + bracesSize depth more := by
  induction h with
  | nil =>
    intro tokens none depth more _
    obtain rfl : tokens = [] := by simpa using none
    simp
  | word opens closes _ ih =>
    intro tokens shown depth more some_open
    obtain ⟨t, rest, rfl, rfl, shown_rest⟩ := List.map_eq_cons_iff.mp shown
    have opens : t.kind ≠ .lbrace := opens
    have closes : t.kind ≠ .rbrace := closes
    rw [List.cons_append, bracesSize, if_neg opens, if_neg closes, ih rest shown_rest _ _ some_open,
      List.length_cons]
    omega
  | nest _ _ ih_inside ih =>
    intro tokens shown depth more some_open
    obtain ⟨before, after, rfl, shown, shown_after⟩ := List.map_eq_append_iff.mp shown
    obtain ⟨opening, inside, rfl, opening_word, shown_inside⟩ := List.map_eq_cons_iff.mp shown
    obtain ⟨closing, after, rfl, closing_word, shown_after⟩ := List.map_eq_cons_iff.mp shown_after
    have opens : opening.kind = .lbrace := kind_of_word opening_word
    have closes : closing.kind = .rbrace := kind_of_word closing_word
    rw [List.append_assoc, List.cons_append, bracesSize, if_pos opens,
      ih_inside inside shown_inside _ _ (by omega), List.cons_append, bracesSize,
      if_neg (by simp [closes]), if_pos closes, if_neg (by omega), Nat.add_sub_cancel,
      ih after shown_after _ _ some_open, List.length_append, List.length_cons, List.length_cons]
    omega

theorem balanced_plain {w : Word} (opens : w.1 ≠ .lbrace) (closes : w.1 ≠ .rbrace) :
    PutsBalanced (w :: ·) :=
  fun _ => ⟨[w], rfl, .word opens closes .nil⟩

theorem balanced_ident (name : String) : PutsBalanced (ident name :: ·) :=
  balanced_plain (by simp) (by simp)

theorem PutsBalanced.comp {first second : Spelling} (h : PutsBalanced first)
    (h' : PutsBalanced second) : PutsBalanced fun k => first (second k) := by
  intro k
  obtain ⟨back, back_eq, back_balanced⟩ := h' k
  obtain ⟨front, front_eq, front_balanced⟩ := h (second k)
  refine ⟨front ++ back, ?_, front_balanced.append back_balanced⟩
  show first (second k) = _
  rw [front_eq, back_eq, List.append_assoc]

theorem PutsBalanced.braces {inner : Spelling} (h : PutsBalanced inner) :
    PutsBalanced fun k => spelled .lbrace :: inner (spelled .rbrace :: k) := by
  intro k
  obtain ⟨inside, eq, balanced⟩ := h (spelled .rbrace :: k)
  refine ⟨spelled .lbrace :: inside ++ spelled .rbrace :: [], ?_, .nest balanced .nil⟩
  simp [eq]

theorem balanced_listed {items : List Spelling} (h : ∀ item ∈ items, PutsBalanced item) :
    PutsBalanced (listed items) := by
  have nothing : PutsBalanced fun k => k := fun k => ⟨[], rfl, .nil⟩
  have behind : ∀ items : List Spelling, (∀ item ∈ items, PutsBalanced item) →
      PutsBalanced (behindCommas items) := by
    intro items
    induction items with
    | nil => exact fun _ => nothing
    | cons item items ih =>
      intro h
      have ⟨first, rest⟩ := List.forall_mem_cons.mp h
      exact (balanced_plain (by simp) (by simp)).comp (first.comp (ih rest))
  cases items with
  | nil => exact nothing
  | cons item items =>
    have ⟨first, rest⟩ := List.forall_mem_cons.mp h
    exact first.comp (behind items rest)

theorem balanced_rest (name : Option String) : PutsBalanced (restWords name) := by
  have dots : PutsBalanced (spelled .ellipsis :: ·) := balanced_plain (by simp) (by simp)
  cases name with
  | none => exact dots
  | some name => exact dots.comp (balanced_ident name)

theorem balanced_head (head : RecordHead) : PutsBalanced head.words := by
  obtain ⟨_ | name, _ | case⟩ := head
  · exact fun k => ⟨[], rfl, .nil⟩
  · exact fun k => ⟨[], rfl, .nil⟩
  · exact balanced_ident name
  · exact (balanced_ident name).comp
      ((balanced_plain (by simp) (by simp)).comp (balanced_ident case))

/-- The items between the braces of a record destructuring. -/
def Destructuring.braced (fields : List (String × Option Destructuring))
    (others : Option Destructuring) : Spelling :=
  listed (Destructuring.fieldItems fields ++ Destructuring.restItems others)

theorem balanced_braced {fields : List (String × Option Destructuring)}
    {others : Option Destructuring}
    (fields_balanced : ∀ f ∈ fields, ∀ d, f.2 = some d → PutsBalanced d.words)
    (others_rest : ∀ d, others = some d → ∃ span name, d = .rest span name) :
    PutsBalanced (Destructuring.braced fields others) := by
  refine balanced_listed fun item mem => ?_
  rw [Destructuring.fieldItems_eq] at mem
  obtain mem | mem := List.mem_append.mp mem
  · obtain ⟨⟨name, d⟩, field, rfl⟩ := List.mem_map.mp mem
    cases d with
    | none => exact balanced_ident name
    | some d =>
      exact (balanced_ident name).comp
        ((balanced_plain (by simp) (by simp)).comp (fields_balanced _ field d rfl))
  · cases others with
    | none => cases mem
    | some d =>
      obtain rfl := List.mem_singleton.mp mem
      obtain ⟨span, name, rfl⟩ := others_rest d rfl
      exact balanced_rest name

theorem balanced_destructuring {d : Destructuring} (formed : d.Formed) : PutsBalanced d.words := by
  induction formed with
  | «variable» => exact balanced_ident _
  | record _ _ _ others_rest fields_balanced =>
    exact (balanced_head _).comp (balanced_braced fields_balanced others_rest).braces

theorem kindOf_append (front back : List Word) (j : Nat) :
    kindOf (front ++ back) (front.length + j) = kindOf back j := by
  unfold kindOf
  rw [List.getElem?_append_right (Nat.le_add_right _ _), Nat.add_sub_cancel_left]

/-- Braces ahead end behind the brace that closes them. -/
theorem Reads.bracesEnd {front inner : List Word} (inside : Balanced inner) :
    Reads n (bracesEnd front.length)
      (front ++ spelled .lbrace :: (inner ++ spelled .rbrace :: k))
      (front ++ spelled .lbrace :: (inner ++ spelled .rbrace :: k))
      (· = front.length + (inner.length + 2)) := by
  intro c shows_ _
  refine ⟨_, c.receive _, rfl, shows_.receive _, by simp, ?_⟩
  obtain ⟨before, after, upcoming, shown_before, shown⟩ := List.map_eq_append_iff.mp shows_.1
  obtain ⟨opening, after, rfl, opening_word, shown⟩ := List.map_eq_cons_iff.mp shown
  obtain ⟨between, after, rfl, shown_between, shown⟩ := List.map_eq_append_iff.mp shown
  obtain ⟨closing, after, rfl, closing_word, -⟩ := List.map_eq_cons_iff.mp shown
  have opens : opening.kind = .lbrace := kind_of_word opening_word
  have closes : closing.kind = .rbrace := kind_of_word closing_word
  subst shown_before shown_between
  rw [upcoming, List.length_map, List.drop_left, bracesSize, if_pos opens,
    inside.bracesSize_append between rfl _ _ (Nat.le_refl _), bracesSize, if_neg (by simp [closes]),
    if_pos closes, if_pos (Nat.le_refl _), List.length_map]
  omega

/-- What decides about `in` behind the destructuring that ends with the n-th token. -/
theorem Reads.inWord_at (front : List Word) (some : front ≠ []) :
    Reads n (if front.length = 0 then Pure.pure false
      else do
        let after ← Parser.kindAt front.length
        Pure.pure (decide (after = .inWord)))
      (front ++ spelled .inWord :: k) (front ++ spelled .inWord :: k) (· = true) := by
  rw [if_neg (by simpa using some)]
  refine (Reads.kindAt _).bind fun after here => .pure ?_
  have inWord : after = .inWord := here.trans (kindOf_append front _ 0)
  simpa using inWord

/-- A destructuring and `in` are seen as what they are. -/
theorem Reads.destructuringThenIn {target : Destructuring} (formed : target.Formed) :
    Reads n destructuringThenIn (target.words (spelled .inWord :: k))
      (target.words (spelled .inWord :: k)) (· = true) := by
  refine (Reads.kindAt 0).bind fun first first_eq => ?_
  cases formed with
  | @«variable» _ name =>
    obtain rfl : first = .ident := first_eq
    rw [if_pos rfl]
    refine (Reads.kindAt 1).bind fun second second_eq => ?_
    obtain rfl : second = .inWord := second_eq
    rw [if_neg (by decide)]
    refine (Reads.pure (P := (· = 1)) rfl).bind fun nameEnd nameEnd_eq => ?_
    subst nameEnd_eq
    refine (Reads.kindAt 1).bind fun second second_eq => ?_
    obtain rfl : second = .inWord := second_eq
    exact .inWord_at [ident name] (by simp)
  | @record span head fields others head_formed fields_formed fields_named others_rest =>
    obtain ⟨inner, inner_eq, balanced⟩ := balanced_braced (fun f mem d eq =>
      balanced_destructuring (fields_formed f mem d eq)) others_rest
      (spelled .rbrace :: spelled .inWord :: k)
    have words : (Destructuring.record span head fields others).words (spelled .inWord :: k) =
        head.words (spelled .lbrace :: (inner ++ spelled .rbrace :: spelled .inWord :: k)) := by
      rw [← inner_eq]
      rfl
    rw [words] at first_eq ⊢
    have braces : ∀ front : List Word, Reads n (do
        let brace ← Parser.kindAt front.length
        let stop ← if brace = .lbrace then Grammar.bracesEnd front.length
          else Pure.pure front.length
        if stop = 0 then Pure.pure false
        else
          let after ← Parser.kindAt stop
          Pure.pure (decide (after = .inWord)))
        (front ++ spelled .lbrace :: (inner ++ spelled .rbrace :: spelled .inWord :: k))
        (front ++ spelled .lbrace :: (inner ++ spelled .rbrace :: spelled .inWord :: k))
        (· = true) := by
      intro front
      refine (Reads.kindAt _).bind fun brace here => ?_
      obtain rfl : brace = .lbrace := here.trans (kindOf_append front _ 0)
      rw [if_pos rfl]
      refine (Reads.bracesEnd balanced).bind fun stop stop_eq => ?_
      have through := Reads.inWord_at (n := n) (k := k)
        (front ++ spelled .lbrace :: (inner ++ [spelled .rbrace])) (by simp)
      subst stop_eq
      simpa [Nat.add_assoc] using through
    obtain ⟨_ | name, case⟩ := head
    · obtain rfl : first = .lbrace := first_eq
      exact braces []
    · obtain rfl : first = .ident := by cases case <;> exact first_eq
      cases case with
      | none =>
        refine (Reads.kindAt 1).bind fun second second_eq => ?_
        obtain rfl : second = .lbrace := second_eq
        exact braces [ident name]
      | some case =>
        refine (Reads.kindAt 1).bind fun second second_eq => ?_
        obtain rfl : second = .colonColon := second_eq
        exact braces [ident name, spelled .colonColon, ident case]

theorem Reads.destructuringThenIn_lparen : Reads n Grammar.destructuringThenIn
    (spelled .lparen :: k) (spelled .lparen :: k) (· = false) := by
  refine (Reads.kindAt 0).bind fun first first_eq => ?_
  obtain rfl : first = .lparen := first_eq
  refine (Reads.pure (P := (· = 0)) rfl).bind fun nameEnd nameEnd_eq => ?_
  subst nameEnd_eq
  refine (Reads.kindAt 0).bind fun brace brace_eq => ?_
  obtain rfl : brace = .lparen := brace_eq
  exact .pure rfl

theorem legible_forEach {target : Destructuring} {range : Expr} {body : List Stmt}
    (target_formed : target.Formed) (range_legible : range.Legible)
    (body_legible : ∀ s ∈ body, s.Legible) :
    (Stmt.mk span (.forEach target range body)).Legible := by
  refine ⟨fun k => begins_cons (by decide), fun n k line => .after .kind fun kind here => ?_⟩
  obtain rfl : kind = .forWord := here
  rw [Stmt.words, Stmt.items_eq]
  have target_legible := legible_destructuring target_formed
  have form : Reads n (forBody (below n)) (target.words (spelled .inWord :: range.words
      (spelled .newline :: lines (body.map Stmt.words) (spelled .endWord :: k))))
      (spelled .endWord :: k) fun form =>
      ∀ span', (Stmt.mk span' form).bare = (Stmt.mk span (.forEach target range body)).bare := by
    refine (Reads.destructuringThenIn target_formed).bind fun ahead there => ?_
    rw [there]
    refine (Takes.below_destructuring target_legible (ends_cons (by decide))).reads.bind ?_
    refine fun target' target_same => (Takes.expect rfl).reads.bind fun _ _ => ?_
    refine (Takes.below_expr range_legible (ends_cons (by decide))).reads.bind
      fun range' range_same => ?_
    refine (Reads.block (reads_below n) body_legible (by decide) (by simp)).bind ?_
    refine fun body' body_same => .pure fun span' => ?_
    simp [Stmt.bare, target_same, range_same, body_same]
  refine .first .next fun word _ => form.bind fun form same => ?_
  exact (Takes.expect rfl).reads.bind fun close _ => .pure (same _)

theorem legible_whileTrue {cond : Expr} {body : List Stmt} (cond_legible : cond.Legible)
    (body_legible : ∀ s ∈ body, s.Legible) : (Stmt.mk span (.whileTrue cond body)).Legible := by
  refine ⟨fun k => begins_cons (by decide), fun n k line => .after .kind fun kind here => ?_⟩
  obtain rfl : kind = .forWord := here
  rw [Stmt.words, Stmt.items_eq]
  have form : Reads n (forBody (below n)) (cond.words
      (spelled .newline :: lines (body.map Stmt.words) (spelled .endWord :: k)))
      (spelled .endWord :: k) fun form =>
      ∀ span', (Stmt.mk span' form).bare = (Stmt.mk span (.whileTrue cond body)).bare := by
    refine Reads.destructuringThenIn_lparen.bind fun ahead there => ?_
    rw [there]
    refine (Takes.below_expr cond_legible (ends_cons (by decide))).reads.bind
      fun cond' cond_same => ?_
    refine (Reads.block (reads_below n) body_legible (by decide) (by simp)).bind ?_
    refine fun body' body_same => .pure fun span' => ?_
    simp [Stmt.bare, cond_same, body_same]
  refine .first .next fun word _ => form.bind fun form same => ?_
  exact (Takes.expect rfl).reads.bind fun close _ => .pure (same _)

end Loops

section Trees

theorem isSeq_of_formed {fits : Literal → Prop} {e : Expr} (formed : e.Formed fits) :
    e.isSeq = false := by
  cases formed with
  | @literal _ value _ => cases value <;> rfl
  | _ => rfl

mutual

/-- Every type is read as what it is. -/
theorem legible_type : ∀ {t : TypeExpr}, t.Formed Literal.Spelled → t.Legible
  | _, .named plain => legible_named plain
  | _, .variable marked => legible_variable_type marked
  | _, .instantiate plain args_formed =>
    legible_instantiate plain fun t mem => legible_type (args_formed t mem)
  | _, .record named fields_formed =>
    legible_record_type named fun f mem => legible_type (fields_formed f mem)
  | _, .tuple nonempty elems_formed =>
    legible_tuple_type nonempty fun t mem => legible_type (elems_formed t mem)
  | _, .function params_formed result_formed =>
    legible_function_type (fun t mem => legible_type (params_formed t mem))
      (legible_type result_formed)
  | _, .case plain => legible_case plain
  | _, .typeOf value_formed => legible_typeOf (legible_expr value_formed)

/-- Every statement is read as what it is. -/
theorem legible_stmt : ∀ {s : Stmt}, s.Formed Literal.Spelled → s.Legible
  | _, .declare some_targets targets_formed some_values values_formed =>
    legible_declare some_targets (fun d mem => legible_destructuring (targets_formed d mem))
      some_values fun e mem => legible_expr (values_formed e mem)
  | _, .assign some_names some_values values_formed =>
    legible_assign some_names some_values fun e mem => legible_expr (values_formed e mem)
  | _, .assignIndex target_formed index_formed value_formed =>
    legible_assignIndex (legible_expr target_formed) (legible_expr index_formed)
      (legible_expr value_formed)
  | _, .ret values_formed => legible_ret fun e mem => legible_expr (values_formed e mem)
  | _, .ifThen cond_formed then_formed else_formed =>
    legible_ifThen_stmt (legible_expr cond_formed)
      (fun s mem => legible_stmt (then_formed s mem)) fun s mem => legible_stmt (else_formed s mem)
  | _, .switch nonempty conds_formed blocks_formed else_formed =>
    legible_switch_stmt nonempty (fun c mem => legible_expr (conds_formed c mem))
      (fun c mem s mem' => legible_stmt (blocks_formed c mem s mem'))
      fun s mem => legible_stmt (else_formed s mem)
  | _, .matchWith subject_formed nonempty patterns_formed blocks_formed else_formed =>
    legible_matchWith_stmt (legible_expr subject_formed) nonempty
      (fun a mem => legible_pattern (patterns_formed a mem))
      (fun a mem s mem' => legible_stmt (blocks_formed a mem s mem'))
      fun s mem => legible_stmt (else_formed s mem)
  | _, .forEach target_formed range_formed body_formed =>
    legible_forEach target_formed (legible_expr range_formed)
      fun s mem => legible_stmt (body_formed s mem)
  | _, .whileTrue cond_formed body_formed =>
    legible_whileTrue (legible_expr cond_formed) fun s mem => legible_stmt (body_formed s mem)
  | _, .value value_formed => legible_value (legible_expr value_formed)

/-- Every expression is read as what it is. -/
theorem legible_expr : ∀ {e : Expr}, e.Formed Literal.Spelled → e.Legible
  | _, .literal spelled => legible_literal spelled
  | _, .variable => legible_variable
  | _, .array elems_formed => legible_array fun e mem => legible_expr (elems_formed e mem)
  | _, .dict keys_formed values_formed =>
    legible_dict (fun kv mem => legible_expr (keys_formed kv mem))
      fun kv mem => legible_expr (values_formed kv mem)
  | _, .unary operand_formed => legible_unary (legible_expr operand_formed)
  | _, .binary lhs_formed rhs_formed =>
    legible_binary (legible_expr lhs_formed) (legible_expr rhs_formed)
  | _, .ifThen cond_formed then_formed else_formed =>
    legible_ifThen (legible_expr cond_formed) (legible_body then_formed)
      (legible_body else_formed)
  | _, .switch nonempty conds_formed values_formed else_formed =>
    legible_switch nonempty (fun c mem => legible_expr (conds_formed c mem))
      (fun c mem => legible_body (values_formed c mem)) (legible_body else_formed)
  | _, .matchWith subject_formed nonempty patterns_formed values_formed else_formed =>
    legible_matchWith (legible_expr subject_formed) nonempty
      (fun a mem => legible_pattern (patterns_formed a mem))
      (fun a mem => legible_body (values_formed a mem)) (legible_body else_formed)
  | _, .coerce value_formed type_formed =>
    legible_coerce (legible_expr value_formed) (legible_type type_formed)
  | _, .index target_formed index_formed =>
    legible_index (legible_expr target_formed) (legible_expr index_formed)
  | _, .field target_formed => legible_field (legible_expr target_formed)
  | _, .record named fields_formed =>
    legible_record named fun f mem => legible_expr (fields_formed f mem)
  | _, .tuple nonempty elems_formed =>
    legible_tuple nonempty fun e mem => legible_expr (elems_formed e mem)
  | _, .call callee_formed args_formed block_formed =>
    legible_call (legible_expr callee_formed) (fun e mem => legible_expr (args_formed e mem))
      fun b eq => legible_doBlock (block_formed b eq)
  | _, .callNamed callee_formed nonempty args_formed block_formed =>
    legible_callNamed (legible_expr callee_formed) nonempty
      (fun a mem => legible_expr (args_formed a mem))
      fun b eq => legible_doBlock (block_formed b eq)
  | _, .lambda untyped body_formed => legible_lambda untyped (legible_body body_formed)

theorem legible_body : ∀ {e : Expr}, e.IsBody Literal.Spelled → e.LegibleBody
  | _, .plain formed => .plain (isSeq_of_formed formed) (legible_expr formed)
  | _, .seq nonempty stmts_formed last_formed =>
    .seq nonempty (fun s mem => legible_stmt (stmts_formed s mem)) (legible_expr last_formed)

theorem legible_doBlock : ∀ {e : Expr}, e.IsDoBlock Literal.Spelled → e.LegibleDo
  | _, .lambda untyped body_formed => .lambda untyped (legible_body body_formed)

end

end Trees

end Frontend.Grammar
