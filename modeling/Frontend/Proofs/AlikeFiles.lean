import Frontend.Grammar.File
import Frontend.Proofs.AlikeExprs

/-!
Where the words of a source stand has no influence on what it is parsed to. The rules for short
streams yield the same on streams of the same words by induction on the length, and so do the rules
for all streams; two sources whose tokens differ in places and in comments only are two such streams
to begin with.
-/
namespace Frontend

namespace Grammar

open Frontend.Grammar.Parser
open Token (Kind)

/-- The rules for short streams yield the same wherever the words stand. -/
theorem free_below (n : Nat) : (below n).Free := by
  induction n using Nat.strongRecOn with
  | ind n ih =>
    rw [below_eq]
    constructor
    · exact fun power => .forFewer fun m less => alike_binary (ih m less) power
    · exact .forFewer fun m less => alike_unary (ih m less)
    · exact .forFewer fun m less => alike_typeExpr (ih m less)
    · exact .forFewer fun m less => alike_pattern (ih m less)
    · exact .forFewer fun m less => alike_destructuring (ih m less)
    · exact .forFewer fun m less => alike_statement (ih m less)

/-- The rules for all streams yield the same wherever the words stand. -/
theorem free_full : full.Free where
  binary power := .withRules (p := fun rules => binary rules power)
    (q := fun rules => binary rules power) fun n => alike_binary (free_below n) power
  unary := .withRules fun n => alike_unary (free_below n)
  typeExpr := .withRules fun n => alike_typeExpr (free_below n)
  pattern := .withRules fun n => alike_pattern (free_below n)
  destructuring := .withRules fun n => alike_destructuring (free_below n)
  statement := .withRules fun n => alike_statement (free_below n)

variable {rules : Rules}

theorem alike_importEnd (parents : List String) :
    Alike (importEnd parents) (importEnd parents) (Turn.Alike Eq Eq) := by
  apply Alike.kind_bind
  intro k
  split
  · apply Alike.next.bind
    intro _ _ _
    exact .pure rfl
  · apply Alike.next.bind
    intro _ _ _
    apply Alike.skipWhile.bind
    intro _ _ _
    have name : LayoutFree (do
        let name ← expectIdent "imported name"
        skipNewlines
        pure name.text) id := by
      apply Alike.token_bind .expectIdent
      intro kind text span span'
      apply Alike.skipWhile.bind
      intro _ _ _
      exact .pure rfl
    apply (Alike.commaList name).bind
    intro names names' same
    apply Alike.expect.bind
    intro _ _ _
    apply Alike.pure
    rw [List.map_id, List.map_id] at same
    exact congrArg (Prod.mk _) same
  · apply Alike.token_bind .expectIdent
    intro kind text span span'
    apply Alike.ate_ite
    · exact .pure rfl
    · exact .pure rfl
  · exact .unexpected

theorem alike_importDecl : LayoutFree importDecl fun i => { i with span := default } := by
  have names : ∀ first, Alike (iterate importEnd [first]) (iterate importEnd [first]) Eq := by
    intro first
    apply Alike.iterate Eq rfl
    rintro parents _ rfl
    exact alike_importEnd parents
  apply Alike.next.bind
  intro _ _ _
  apply Alike.ate_bind
  intro relative
  apply Alike.token_bind .expectIdent
  intro kind text span span'
  apply Alike.expect.bind
  intro _ _ _
  apply (names text).bind
  rintro ⟨parents, imported⟩ _ rfl
  apply Alike.place.bind
  intro _ _ _
  apply Alike.tell.bind
  intro _ _ _
  exact .pure rfl

theorem alike_separatorsEnd {n : Nat} : Alike (separatorsEnd n) (separatorsEnd n) Eq := by
  apply Alike.looking
  intro c d like
  have size : ∀ ts : List Token, (ts.takeWhile (·.kind.isSeparator)).length =
      ((ts.map Token.word).takeWhile (·.1.isSeparator)).length := by
    intro ts
    rw [List.takeWhile_map, List.length_map]
    rfl
  rw [size, size, List.map_drop, List.map_drop, like.upcoming]

theorem alike_enumCases (free : rules.Free) :
    LayoutFree (enumCases rules) (List.map (Prod.map id (Option.map TypeExpr.bare))) := by
  apply Alike.iterate fun found found' =>
    found.map (Prod.map id (Option.map TypeExpr.bare)) =
      found'.map (Prod.map id (Option.map TypeExpr.bare))
  · rfl
  intro found found' known
  apply alike_separatorsEnd.bind
  rintro n _ rfl
  apply Alike.kindAt_bind
  intro k
  apply Alike.ite
  · intro _
    apply Alike.skipWhile.bind
    intro _ _ _
    apply Alike.next.bind
    intro _ _ _
    apply Alike.token_bind .expectIdent
    intro kind text span span'
    apply Alike.kind_bind
    intro k
    apply Alike.ite
    · intro _
      apply (alike_recordOrTupleType free).bind
      intro payload payload' same
      apply Alike.pure
      simp [Turn.Alike, same, known]
    · intro _
      apply Alike.pure
      simp [Turn.Alike, known]
  · intro _
    apply Alike.pure
    simp [Turn.Alike, known]

theorem alike_typeDecl (free : rules.Free) : LayoutFree (typeDecl rules) Toplevel.bare := by
  apply Alike.next.bind
  intro _ _ _
  apply Alike.token_bind .expectIdent
  intro kind text span span'
  apply (alike_enumCases free).bind
  intro members members' same
  have empty : members.isEmpty = members'.isEmpty := by
    simpa using congrArg List.isEmpty same
  rw [empty]
  apply Alike.ite
  · intro _
    apply free.typeExpr.bind
    intro type type' type_eq
    apply Alike.pure
    simp [Toplevel.bare, type_eq]
  · intro _
    apply Alike.place.bind
    intro _ _ _
    apply Alike.pure
    simp [Toplevel.bare, same]

theorem alike_typeAfterColon (free : rules.Free) :
    LayoutFree (typeAfterColon rules) (Option.map TypeExpr.bare) := by
  apply Alike.ate_ite
  · apply free.typeExpr.bind
    intro type type' same
    apply Alike.pure
    simp [same]
  · exact .pure rfl

theorem alike_param (free : rules.Free) : LayoutFree (param rules) Param.bare := by
  apply Alike.token_bind .expectIdent
  intro kind text span span'
  apply (alike_typeAfterColon free).bind
  intro type type' same
  apply Alike.pure
  simp [Param.bare, same]

theorem alike_functionDecl (free : rules.Free) :
    LayoutFree (functionDecl rules) fun f => (Toplevel.function f).bare := by
  have params : LayoutFree (do
      let params ← closedList .rparen fun _ => param rules
      let _ ← expect .rparen "')' closing parameters"
      pure params) (List.map Param.bare) := by
    apply Alike.bind (.closedList fun _ _ _ => alike_param free)
    intro params params' same
    apply Alike.expect.bind
    intro _ _ _
    exact .pure same
  apply Alike.next.bind
  intro _ _ _
  apply Alike.token_bind .expectIdent
  intro kind text span span'
  apply Alike.ate_bind
  intro found
  apply Alike.ite_bind params (.pure rfl)
  intro params params' params_eq
  apply (alike_typeAfterColon free).bind
  intro result result' result_eq
  apply (alike_block free).bind
  intro body body' body_eq
  apply Alike.expect.bind
  intro _ _ _
  apply Alike.tell.bind
  intro _ _ _
  apply Alike.pure
  simp [Toplevel.bare, params_eq, result_eq, body_eq]

theorem alike_toplevel (free : rules.Free) : LayoutFree (toplevel rules) Toplevel.bare := by
  apply Alike.kind_bind
  intro k
  split
  · apply alike_importDecl.bind
    intro decl decl' same
    exact .pure (congrArg Toplevel.importing same)
  · exact alike_typeDecl free
  · apply (alike_functionDecl free).bind
    intro decl decl' same
    exact .pure same
  · exact .unexpected

theorem alike_toplevelItem (free : rules.Free) :
    LayoutFree (toplevelItem rules) Toplevel.bare := by
  apply (alike_toplevel free).bind
  intro decl decl' same
  apply Alike.kind_bind
  intro k
  apply Alike.ite
  · intro _
    exact .pure same
  · intro _
    exact .unexpected

theorem alike_recover : Alike recover recover fun _ _ => True := by
  apply Alike.kind_bind
  intro k
  apply Alike.ite
  · intro _
    exact .pure trivial
  · intro _
    apply Alike.next.bind
    intro _ _ _
    exact .skipWhile

/-- The same declarations up to places, and faults that are alike one by one. -/
structure Harvest.Like (h h' : Harvest) : Prop where
  decls : h.decls.map Toplevel.bare = h'.decls.map Toplevel.bare
  messages : h.faults.map Fault.message = h'.faults.map Fault.message
  branches : h.faults.map (·.branches.length) = h'.faults.map (·.branches.length)

/-- Rejections that begin with faults that are alike, and have as many faults. -/
structure Rejection.Like (r r' : Rejection) : Prop where
  first : r.first.Like r'.first
  more : r.more.length = r'.more.length

theorem alike_endFault {h h' : Harvest} (like : h.Like h') :
    Alike (endFault h) (endFault h') Harvest.Like := by
  have no_decls : h.decls.isEmpty = h'.decls.isEmpty := by
    simpa using congrArg List.isEmpty like.decls
  have no_faults : h.faults.isEmpty = h'.faults.isEmpty := by
    simpa using congrArg List.isEmpty like.messages
  apply Alike.kind_bind
  intro k
  rw [no_decls, no_faults]
  apply Alike.ite
  · intro _
    have fails : Alike (unexpected "toplevel") (unexpected "toplevel") fun _ _ : Unit => True :=
      .unexpected
    apply fails.attempt.bind
    intro found found' alike
    cases found with
    | ok _ =>
      cases found' with
      | ok _ => exact .pure like
      | error g => exact alike.elim
    | error f =>
      cases found' with
      | ok _ => exact alike.elim
      | error g =>
        have f_like : f.Like g := alike
        exact .pure ⟨like.decls, by simp [f_like.message], by simp [f_like.branches]⟩
  · intro _
    exact .pure like

theorem alike_fileStep (free : rules.Free) {h h' : Harvest} (like : h.Like h') :
    Alike (fileStep rules h) (fileStep rules h') (Turn.Alike Harvest.Like Harvest.Like) := by
  apply Alike.skipWhile.bind
  intro _ _ _
  apply Alike.kind_bind
  intro k
  apply Alike.ite
  · intro _
    apply (alike_endFault like).bind
    intro h h' like
    exact .pure like
  intro _
  apply (alike_toplevelItem free).attempt.bind
  intro found found' alike
  cases found with
  | ok decl =>
    cases found' with
    | error g => exact alike.elim
    | ok decl' =>
      have same : decl.bare = decl'.bare := alike
      exact .pure ⟨by simp [same, like.decls], like.messages, like.branches⟩
  | error f =>
    cases found' with
    | ok _ => exact alike.elim
    | error g =>
      have f_like : f.Like g := alike
      apply Alike.tell.bind
      intro _ _ _
      apply alike_recover.bind
      intro _ _ _
      exact .pure ⟨like.decls, by simp [f_like.message, like.messages],
        by simp [f_like.branches, like.branches]⟩

theorem alike_file {name name' : String} : Alike (file name) (file name') fun found found' =>
    match found, found' with
    | .ok decls, .ok decls' => decls.map Toplevel.bare = decls'.map Toplevel.bare
    | .error r, .error r' => r.Like r'
    | _, _ => False := by
  apply Alike.tell.bind
  intro _ _ _
  apply Alike.bind (.iterate Harvest.Like ⟨rfl, rfl, rfl⟩ fun _ _ => alike_fileStep free_full)
  intro h h' like
  have messages := congrArg List.reverse like.messages
  have branches := congrArg List.reverse like.branches
  rw [← List.map_reverse, ← List.map_reverse] at messages branches
  cases faults : h.faults.reverse with
  | nil =>
    rw [faults] at messages
    rw [List.map_eq_nil_iff.mp messages.symm]
    apply Alike.tell.bind
    intro _ _ _
    apply Alike.pure
    simp [like.decls]
  | cons first more =>
    rw [faults] at messages branches
    obtain ⟨first', more', faults', message, rest⟩ := List.map_eq_cons_iff.mp messages.symm
    rw [faults'] at branches ⊢
    have size : more.length = more'.length := by simpa using congrArg List.length rest.symm
    exact .pure ⟨⟨message.symm, (List.cons.inj branches).1⟩, size⟩

/-- Streams that differ in places and in comments only begin alike. -/
theorem Cursor.ofTokens_like {tokens tokens' : List Token}
    (same : (tokens.filter (·.kind != .comment)).map Token.word =
      (tokens'.filter (·.kind != .comment)).map Token.word) :
    (Cursor.ofTokens tokens).Like (Cursor.ofTokens tokens') := by
  have going : ∀ ts : List Token, (ts.takeWhile (!·.kind.isTerminal)).map Token.word =
      (ts.map Token.word).takeWhile (!·.1.isTerminal) := by
    intro ts
    rw [List.takeWhile_map]
    rfl
  have ends : ∀ ts : List Token, ((ts.find? (·.kind.isTerminal)).getD (.eofAt .start)).word =
      ((ts.map Token.word).find? (·.1.isTerminal)).getD (Token.eofAt .start).word := by
    intro ts
    rw [List.find?_map]
    show _ = ((ts.find? (·.kind.isTerminal)).map Token.word).getD _
    cases ts.find? (·.kind.isTerminal) <;> rfl
  constructor
  · refine (going _).trans ?_
    rw [same]
    exact (going _).symm
  · refine (ends _).trans ?_
    rw [same]
    exact (ends _).symm

end Grammar

/-- Diagnostics with the same message and as many notes. -/
structure Diagnostic.Like (d d' : Diagnostic) : Prop where
  message : d.message = d'.message
  notes : d.notes.length = d'.notes.length

namespace Grammar

theorem Fault.Like.diagnostic {source source' : Source} {f g : Fault} (like : f.Like g) :
    (f.diagnostic source).Like (g.diagnostic source') := by
  obtain ⟨-, -, message, notes⟩ := Diagnostic.foldl_noteAt source (·.1) (fun b => Branch.message b.2)
    f.branches ⟨source, f.start, f.stop, f.message, []⟩
  obtain ⟨-, -, message', notes'⟩ := Diagnostic.foldl_noteAt source' (·.1) (fun b => Branch.message b.2)
    g.branches ⟨source', g.start, g.stop, g.message, []⟩
  constructor
  · exact message.trans (like.message.trans message'.symm)
  · rw [Fault.diagnostic, Fault.diagnostic, notes, notes', like.branches]

theorem Rejection.Like.diagnostic {source source' : Source} {r q : Rejection}
    (like : r.Like q) : (r.diagnostic source).Like (q.diagnostic source') := by
  have alone : r.more.isEmpty = q.more.isEmpty := by
    rw [Bool.eq_iff_iff, List.isEmpty_iff_length_eq_zero, List.isEmpty_iff_length_eq_zero,
      like.more]
  unfold Rejection.diagnostic
  rw [alone]
  by_cases single : q.more.isEmpty = true
  · rw [if_pos single, if_pos single]
    exact like.first.diagnostic
  rw [if_neg single, if_neg single]
  obtain ⟨-, -, message, notes⟩ := Diagnostic.foldl_noteAt source Fault.start Fault.message
    (r.first :: r.more) (.pointAt source r.first.start s!"{r.more.length + 1} error(s) while parsing")
  obtain ⟨-, -, message', notes'⟩ := Diagnostic.foldl_noteAt source' Fault.start Fault.message
    (q.first :: q.more)
    (.pointAt source' q.first.start s!"{q.more.length + 1} error(s) while parsing")
  constructor
  · refine message.trans (Eq.trans ?_ message'.symm)
    show s!"{r.more.length + 1} error(s) while parsing" =
      s!"{q.more.length + 1} error(s) while parsing"
    rw [like.more]
  · refine notes.trans (Eq.trans ?_ notes'.symm)
    simp [Diagnostic.pointAt, like.more]

end Grammar

/-- What is parsed of tokens without lexical errors depends on their words only. -/
theorem parseTokens_alike {source source' : Source} {tokens tokens' : List Token}
    (same : (tokens.filter (·.kind != .comment)).map Token.word =
      (tokens'.filter (·.kind != .comment)).map Token.word) :
    (∃ decls decls', (parseTokens source tokens).result = .ok decls ∧
      (parseTokens source' tokens').result = .ok decls' ∧
      decls.map Toplevel.bare = decls'.map Toplevel.bare) ∨
    ∃ d d', (parseTokens source tokens).result = .error d ∧
      (parseTokens source' tokens').result = .error d' ∧ d.Like d' := by
  have agree : Grammar.Agree _ (Grammar.file source.name (.ofTokens tokens))
      (Grammar.file source'.name (.ofTokens tokens')) :=
    Grammar.alike_file _ _ (Grammar.Cursor.ofTokens_like same)
  unfold parseTokens
  cases run : Grammar.file source.name (.ofTokens tokens) with
  | error f c =>
    obtain ⟨g, c', run', like, -⟩ := (run ▸ agree).of_error
    rw [run']
    exact .inr ⟨_, _, rfl, rfl, like.diagnostic⟩
  | ok found c =>
    obtain ⟨found', c', run', alike, -⟩ := (run ▸ agree).of_ok
    rw [run']
    cases found with
    | ok decls =>
      cases found' with
      | ok decls' => exact .inl ⟨decls, decls', rfl, rfl, alike⟩
      | error r' => exact alike.elim
    | error r =>
      cases found' with
      | ok decls' => exact alike.elim
      | error r' =>
        have like : r.Like r' := alike
        exact .inr ⟨_, _, rfl, rfl, like.diagnostic⟩

/-- Layout is no part of what a source says. Two sources without lexical errors, whose tokens are
the same words once comments are left out, are parsed to trees that differ in places only, or are
rejected with the same message and as many notes. -/
theorem parse_layout_free (source source' : Source) (clean : (scan source).errors = [])
    (clean' : (scan source').errors = [])
    (same : ((scan source).tokens.filter (·.kind != .comment)).map Token.word =
      ((scan source').tokens.filter (·.kind != .comment)).map Token.word) :
    (∃ decls decls', (parse source).result = .ok decls ∧ (parse source').result = .ok decls' ∧
      decls.map Toplevel.bare = decls'.map Toplevel.bare) ∨
    ∃ d d', (parse source).result = .error d ∧ (parse source').result = .error d' ∧
      d.message = d'.message ∧ d.notes.length = d'.notes.length := by
  rw [parse_of_clean clean, parse_of_clean clean']
  obtain accepted | ⟨d, d', failed, failed', like⟩ := parseTokens_alike same
  · exact .inl accepted
  · exact .inr ⟨d, d', failed, failed', like.message, like.notes⟩

/-- A function on lines of its own, and the same function with a comment and other spaces. -/
theorem parse_layout_free_comment :
    let source : Source := .inMemory "a" (Utf8.ofString "func f\nret 1\nend")
    let source' : Source := .inMemory "b" (Utf8.ofString "func  f !! g\n\tret 1\nend  ")
    (scan source).errors = [] ∧ (scan source').errors = [] ∧
      ((∃ decls decls', (parse source).result = .ok decls ∧ (parse source').result = .ok decls' ∧
        decls.map Toplevel.bare = decls'.map Toplevel.bare) ∨
      ∃ d d', (parse source).result = .error d ∧ (parse source').result = .error d' ∧
        d.message = d'.message ∧ d.notes.length = d'.notes.length) := by
  intro source source'
  have clean : (scan source).errors = [] := by decide +kernel
  have clean' : (scan source').errors = [] := by decide +kernel
  have same : ((scan source).tokens.filter (·.kind != .comment)).map Token.word =
      ((scan source').tokens.filter (·.kind != .comment)).map Token.word := by decide +kernel
  exact ⟨clean, clean', parse_layout_free source source' clean clean' same⟩

end Frontend
