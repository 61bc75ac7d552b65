import Frontend.Proofs.ReadExprs

/-!
Lambdas, `do` blocks and calls are read as what they are spelled from, as long as their parts are.
What stands ahead tells parameters from the body, and named arguments from others.
-/
namespace Frontend.Grammar

open Frontend.Grammar.Parser
open Token (Kind)

variable {n : Nat} {k o : List Word} {span : Span} {params : List Param} {body : Expr}

section Params

/-- Names in front of the end of a line are seen as what they are. -/
theorem identsThenSeparator_names (names : List String) {tokens : List Token}
    (h : tokens.map Token.word = nameWords names (spelled .newline :: k)) :
    (identsThenSeparator tokens).1 = !names.isEmpty := by
  induction names generalizing tokens with
  | nil =>
    obtain ⟨t, more, rfl, word, -⟩ := List.map_eq_cons_iff.mp h
    have kind : t.kind = .newline := kind_of_word word
    cases more <;> simp [identsThenSeparator, kind]
  | cons name names ih =>
    obtain ⟨t, more, rfl, word, h⟩ := List.map_eq_cons_iff.mp h
    have kind : t.kind = .ident := kind_of_word word
    cases names with
    | nil =>
      obtain ⟨t', more, rfl, word', -⟩ := List.map_eq_cons_iff.mp h
      have kind' : t'.kind = .newline := kind_of_word word'
      simp [identsThenSeparator, kind, kind', Kind.isSeparator]
    | cons name' names =>
      obtain ⟨t', more, rfl, word', h⟩ := List.map_eq_cons_iff.mp h
      have kind' : t'.kind = .comma := kind_of_word word'
      simpa [identsThenSeparator, kind, kind'] using ih h

theorem Reads.doParamsAhead (names : List String) :
    Reads n doParamsAhead (nameWords names (spelled .newline :: k))
      (nameWords names (spelled .newline :: k)) (· = !names.isEmpty) := by
  intro c shows_ _
  refine ⟨_, c.receive (identsThenSeparator c.upcoming).2, rfl, shows_.receive _, by simp, ?_⟩
  exact identsThenSeparator_names names shows_.1

theorem params_of_names {params : List Param} (untyped : ∀ p ∈ params, p.type = none) :
    (params.map (·.name)).map (fun name => Param.mk name none) = params := by
  induction params with
  | nil => rfl
  | cons p params ih =>
    have ⟨first, rest⟩ := List.forall_mem_cons.mp untyped
    obtain ⟨name, type⟩ := p
    obtain rfl : type = none := first
    rw [List.map_cons, List.map_cons, ih rest]

theorem Takes.lambdaParams (untyped : ∀ p ∈ params, p.type = none) (some : params ≠ [])
    (stop : headKind o ≠ .comma) :
    Takes n lambdaParams (nameWords (params.map (·.name)) o) o (· = params) := by
  have names : Takes n (Parser.commaList (expectIdent "parameter name"))
      (nameWords (params.map (·.name)) o) o fun tokens =>
      tokens.map (·.text) = (params.map (·.name)).map id := by
    refine .commaList (by simpa using some) (fun name _ k _ => ?_)
      (fun _ _ _ => begins_cons (by decide)) stop
    exact (Takes.expect rfl).mono fun t word => text_of_word word
  refine names.bind fun tokens same => .pure ?_
  rw [List.map_id] at same
  rw [← params_of_names untyped, ← same, List.map_map]
  rfl

end Params

section Bodies

/-- A block that is a value, up to its `end`. -/
theorem Reads.blockBody (legible : body.LegibleBody) (hint : Position) :
    Reads n (blockBody (below n) hint)
      (spelled .newline :: bodyWords body body.inner (spelled .endWord :: k)) k
      fun e => e.bare = body.bare := by
  rw [bodyWords_eq]
  refine (Reads.block (reads_below n) (legible_asBlock legible) (by decide)
    (by simp)).bind fun stmts same => ?_
  refine (Takes.expect rfl).reads.bind fun close _ => ?_
  obtain ⟨parts, run, parts_same⟩ := promoteLast_asBlock legible same hint
  exact .ofExcept (by rw [promoteBlock, run]; rfl) parts_same

theorem bare_lambda {isDo : Bool} {body' : Expr} {span' : Span} (same : body'.bare = body.bare) :
    (Expr.mk span' (.lambda isDo params body')).bare =
      (Expr.mk span (.lambda isDo params body)).bare := by
  simp [Expr.bare, same]

theorem Takes.doBlock {e : Expr} (legible : e.LegibleDo) :
    Takes n (doBlock (below n)) (e.inner k) k fun e' => e'.bare = e.bare := by
  cases legible with
  | @lambda span params body untyped legible =>
    refine Takes.next.bind fun word _ => ?_
    refine (Reads.doParamsAhead (params.map (·.name))).bind fun ahead there => ?_
    have rest : ∀ params', params' = params →
        Reads n (Grammar.blockBody (below n) word.span.start >>= fun body =>
          Parser.place >>= fun stop =>
            pure (⟨⟨word.span.start, stop⟩, .lambda true params' body⟩ : Expr))
          (spelled .newline :: bodyWords body body.inner (spelled .endWord :: k)) k
          fun e => e.bare = (Expr.mk span (.lambda true params body)).bare := by
      rintro _ rfl
      refine (Reads.blockBody legible _).bind fun body' same => Reads.place.bind fun stop _ => ?_
      exact .pure (bare_lambda same)
    cases params with
    | nil =>
      obtain rfl : ahead = false := there
      exact rest [] rfl
    | cons p params =>
      obtain rfl : ahead = true := there
      exact (Takes.lambdaParams untyped (by simp) (by simp)).reads.bind rest

end Bodies

section Calls

variable {callee callee' : Expr} {args : List Expr} {named : List (String × Expr)}
  {block : Option Expr}

/-- The end of the arguments, and the block that may follow. -/
theorem Reads.callEnd (legible : ∀ b, block = some b → b.LegibleDo)
    (stop : headKind k ≠ .doWord) :
    Reads n (callEnd (below n)) (spelled .rparen :: Expr.blockWords block k) k fun found =>
      found.2.map Expr.bare = block.map Expr.bare := by
  refine (Takes.expect rfl).reads.bind fun close _ => Reads.kind.bind fun kind here => ?_
  cases block with
  | none =>
    obtain rfl : kind = headKind k := here
    rw [if_neg stop]
    exact .pure rfl
  | some b =>
    have starts : headKind (b.inner k) = .doWord := by
      cases legible b rfl
      rfl
    rw [if_pos (here.trans starts)]
    refine (Takes.doBlock (legible b rfl)).reads.bind fun body same => .pure ?_
    rw [Option.map_some, Option.map_some, same]

theorem Takes.call (span : Span) (same : callee'.bare = callee.bare)
    (legible : ∀ e ∈ args, e.Legible)
    (block_legible : ∀ b, block = some b → b.LegibleDo) (stop : headKind k ≠ .doWord) :
    Takes n (call (below n) callee') (spelled .lparen ::
      listed (args.map Expr.words) (spelled .rparen :: Expr.blockWords block k)) k
      fun e => e.bare = (Expr.mk span (.call callee args block)).bare := by
  have starts : headKind (listed (args.map Expr.words)
      (spelled .rparen :: Expr.blockWords block k)) ∈ [Kind.lparen, .rparen] := by
    cases args <;> simp [listed, Expr.words, parens]
  refine Takes.next.bind fun opening _ => (Reads.skipNewlines ?_).bind fun _ _ => ?_
  · rintro newline
    rw [newline] at starts
    exact absurd starts (by decide)
  refine Reads.kind.bind fun kind here => ?_
  have no_name : kind ≠ .ident := by
    rintro rfl
    rw [← here] at starts
    exact absurd starts (by decide)
  rw [if_neg no_name]
  have list : Reads n (Parser.closedList .rparen fun _ => (below n).expr)
      (listed (args.map Expr.words) (spelled .rparen :: Expr.blockWords block k))
      (spelled .rparen :: Expr.blockWords block k) fun args' =>
      args'.map Expr.bare = args.map Expr.bare :=
    .closedList rfl (by decide) (by decide)
      (fun e mem _ follows => .below_expr (legible e mem) (follows.ends (ends_cons (by decide))))
      fun _ _ _ => begins_cons (by decide)
  refine list.bind fun args' args_same => ?_
  refine (Reads.callEnd block_legible stop).bind ?_
  rintro ⟨stop, block'⟩ block_same
  exact .pure (by simp [Expr.bare, same, args_same, block_same])

theorem Takes.callNamed (span : Span) (same : callee'.bare = callee.bare) (some_args : named ≠ [])
    (legible : ∀ a ∈ named, a.2.Legible)
    (block_legible : ∀ b, block = some b → b.LegibleDo) (stop : headKind k ≠ .doWord) :
    Takes n (Grammar.call (below n) callee') (spelled .lparen ::
      listed (named.map Expr.fieldItem) (spelled .rparen :: Expr.blockWords block k)) k
      fun e => e.bare = (Expr.mk span (.callNamed callee named block)).bare := by
  have list : Reads n (Parser.closedList .rparen fun _ => namedArg (below n))
      (listed (named.map Expr.fieldItem) (spelled .rparen :: Expr.blockWords block k))
      (spelled .rparen :: Expr.blockWords block k) fun args' =>
      args'.map (Prod.map id Expr.bare) = named.map (Prod.map id Expr.bare) := by
    refine .closedList rfl (by decide) (by decide) (fun a mem k follows => ?_)
      fun _ _ _ => begins_cons (by decide)
    refine (Takes.expect rfl).bind fun t word => (Takes.expect rfl).reads.bind fun _ _ => ?_
    refine (Reads.skipNewlines (by simp [Expr.words, parens])).bind fun _ _ => ?_
    refine (Takes.below_expr (legible a mem) (follows.ends (ends_cons (by decide)))).reads.bind ?_
    exact fun value same => .pure (by simp [Prod.map, text_of_word word, same])
  cases named with
  | nil => exact absurd rfl some_args
  | cons a more =>
    refine Takes.next.bind fun opening _ => ?_
    refine (Reads.skipNewlines (by simp [listed, Expr.fieldItem, fieldWords])).bind fun _ _ => ?_
    refine Reads.kind.bind fun kind here => ?_
    obtain rfl : kind = .ident := here
    refine Reads.bind (P := (· = true)) ((Reads.kindAt 1).bind fun after here => .pure ?_)
      fun answer yes => ?_
    · obtain rfl : after = .colon := here
      rfl
    subst yes
    refine list.bind fun args' args_same => ?_
    refine (Reads.callEnd block_legible stop).bind ?_
    rintro ⟨stop, block'⟩ block_same
    exact .pure (by simp [Expr.bare, same, args_same, block_same])

theorem legible_call (callee_legible : callee.Legible) (legible : ∀ e ∈ args, e.Legible)
    (block_legible : ∀ b, block = some b → b.LegibleDo) :
    (Expr.mk span (.call callee args block)).Legible := by
  refine ⟨fun k => begins_cons (by decide), fun n k => ?_⟩
  refine .binary_of_chained ?_ rfl (ends_cons (by decide))
  rw [Expr.inner, Expr.items_eq]
  refine .first (.primary callee_legible) fun callee' same => Takes.reads (.iterate_again
    (m := spelled .rparen :: k)
    (fun e => e.bare = (Expr.mk span (.call callee args block)).bare) ?_
    fun e same => (Reads.chain_end (by simp [chainers])).mono fun _ eq => eq ▸ same)
  refine .after .kind fun kind here => ?_
  obtain rfl : kind = .lparen := here
  refine (Takes.call span same legible block_legible (by simp)).bind fun e same => ?_
  exact .pure ⟨e, rfl, same⟩

theorem legible_callNamed (callee_legible : callee.Legible) (some_args : named ≠ [])
    (legible : ∀ a ∈ named, a.2.Legible) (block_legible : ∀ b, block = some b → b.LegibleDo) :
    (Expr.mk span (.callNamed callee named block)).Legible := by
  refine ⟨fun k => begins_cons (by decide), fun n k => ?_⟩
  refine .binary_of_chained ?_ rfl (ends_cons (by decide))
  rw [Expr.inner, Expr.fieldItems_eq]
  refine .first (.primary callee_legible) fun callee' same => Takes.reads (.iterate_again
    (m := spelled .rparen :: k)
    (fun e => e.bare = (Expr.mk span (.callNamed callee named block)).bare) ?_
    fun e same => (Reads.chain_end (by simp [chainers])).mono fun _ eq => eq ▸ same)
  refine .after .kind fun kind here => ?_
  obtain rfl : kind = .lparen := here
  refine (Takes.callNamed span same some_args legible block_legible
    (by simp)).bind fun e same => ?_
  exact .pure ⟨e, rfl, same⟩

end Calls

section Lambdas

/-- What follows the parameters of a lambda. -/
def lambdaTail (params : List Param) (body : Expr) (k : List Word) : List Word :=
  if body.isSeq then spelled .doWord :: spelled .newline :: body.inner (spelled .endWord :: k)
  else if params.isEmpty then body.words k
  else spelled .inWord :: body.words k

theorem headKind_lambdaTail : headKind (lambdaTail params body k) ∈
    [Kind.doWord, .inWord, .lparen] := by
  unfold lambdaTail
  split
  · simp
  · split <;> simp [Expr.words, parens]

theorem Reads.lambdaParamsAhead : Reads n lambdaParamsAhead
    (nameWords (params.map (·.name)) (lambdaTail params body k))
    (nameWords (params.map (·.name)) (lambdaTail params body k)) (· = !params.isEmpty) := by
  refine Reads.kind.bind fun kind here => ?_
  cases params with
  | nil =>
    have other : kind ≠ .ident := by
      have none : ∀ kind ∈ [Kind.doWord, .inWord, .lparen], kind ≠ .ident := by decide
      exact here ▸ none _ headKind_lambdaTail
    rw [if_neg other]
    exact .pure rfl
  | cons p params =>
    obtain rfl : kind = .ident := here
    rw [if_pos rfl]
    refine (Reads.kindAt 1).bind fun after here => .pure ?_
    cases params with
    | cons q params =>
      obtain rfl : after = .comma := here
      rfl
    | nil =>
      obtain rfl : after = headKind (lambdaTail [p] body k) := here
      unfold lambdaTail
      split <;> rfl

theorem Reads.lambdaBody (legible : body.LegibleBody) (ends : Ends k) :
    Reads n (lambdaBody (below n) (!params.isEmpty)) (lambdaTail params body k) k
      fun e => e.bare = body.bare := by
  cases legible with
  | plain single legible =>
    unfold lambdaTail
    rw [single]
    cases params with
    | nil =>
      refine (Reads.eat_other (by simp [Expr.words, parens])).bind fun word none => ?_
      rw [none]
      exact (Takes.below_expr legible ends).reads
    | cons p params =>
      refine (Reads.eat_other (by simp)).bind fun word none => ?_
      rw [none]
      refine (Takes.expect rfl).reads.bind fun _ _ => ?_
      refine (Reads.skipNewlines (by simp [Expr.words, parens])).bind fun _ _ => ?_
      exact (Takes.below_expr legible ends).reads
  | @seq span stmts last some stmts_legible last_legible =>
    refine (Takes.eat rfl).reads.bind ?_
    rintro found ⟨word, there, _⟩
    rw [there]
    exact Reads.blockBody (.seq some stmts_legible last_legible) _

theorem legible_lambda (untyped : ∀ p ∈ params, p.type = none) (legible : body.LegibleBody) :
    (Expr.mk span (.lambda false params body)).Legible := by
  refine ⟨fun k => begins_cons (by decide), fun n k => ?_⟩
  refine .binary_of_primary ?_ rfl (ends_cons (by decide))
  have words : (Expr.mk span (.lambda false params body)).inner (spelled .rparen :: k) =
      spelled .arrow :: nameWords (params.map (·.name))
        (lambdaTail params body (spelled .rparen :: k)) := rfl
  rw [words]
  refine .after .kind fun kind here => ?_
  obtain rfl : kind = .arrow := here
  refine .first .next fun arrow _ => Reads.lambdaParamsAhead.bind fun ahead there => ?_
  subst there
  have rest : ∀ params', params' = params →
      Reads n (Grammar.lambdaBody (below n) (!params.isEmpty) >>= fun body =>
        Parser.place >>= fun stop =>
          pure (⟨⟨arrow.span.start, stop⟩, .lambda false params' body⟩ : Expr))
        (lambdaTail params body (spelled .rparen :: k)) (spelled .rparen :: k)
        fun e => e.bare = (Expr.mk span (.lambda false params body)).bare := by
    rintro _ rfl
    refine (Reads.lambdaBody legible (ends_cons (by decide))).bind fun body' same => ?_
    exact Reads.place.bind fun stop _ => .pure (bare_lambda same)
  cases params with
  | nil => exact rest [] rfl
  | cons p params =>
    have stop : headKind (lambdaTail (p :: params) body (spelled .rparen :: k)) ≠ .comma := by
      have none : ∀ kind ∈ [Kind.doWord, .inWord, .lparen], kind ≠ .comma := by decide
      exact none _ headKind_lambdaTail
    exact (Takes.lambdaParams untyped (by simp) stop).reads.bind rest

end Lambdas

end Frontend.Grammar
