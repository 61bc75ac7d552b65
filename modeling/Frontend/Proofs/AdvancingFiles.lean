import Frontend.Grammar.File
import Frontend.Proofs.AdvancingExprs

/-!
Every run over a file gets on, whatever its tokens are. The rules for short streams take a token
each by induction on the length, and so do the rules for all streams; a declaration that fails is
followed by a recovery that takes a token; and so the reading of a file comes to the end of its
stream without a stall.
-/
namespace Frontend.Grammar

open Frontend.Grammar.Parser
open Token (Kind)

/-- The rules for short streams take a token each. -/
theorem advancing_below (n : Nat) : (below n).Advancing n := by
  induction n using Nat.strongRecOn with
  | ind n ih =>
    rw [below_eq]
    constructor
    · exact fun power => .forFewer fun m less => advances_binary (ih m less) power
    · exact .forFewer fun m less => advances_unary (ih m less)
    · exact .forFewer fun m less => advances_typeExpr (ih m less)
    · exact .forFewer fun m less => advances_pattern (ih m less)
    · exact .forFewer fun m less => advances_destructuring (ih m less)
    · exact .forFewer fun m less => advances_statement (ih m less)

/-- The rules for all streams take a token each. -/
theorem advancing_full (n : Nat) : full.Advancing n where
  binary power := .withRules (p := fun rules => binary rules power) fun m =>
    advances_binary (advancing_below m) power
  unary := .withRules fun m => advances_unary (advancing_below m)
  typeExpr := .withRules fun m => advances_typeExpr (advancing_below m)
  pattern := .withRules fun m => advances_pattern (advancing_below m)
  destructuring := .withRules fun m => advances_destructuring (advancing_below m)
  statement := .withRules fun m => advances_statement (advancing_below m)

variable {n : Nat} {ahead : List Token → Prop} {rules : Rules}

theorem advances_importEnd (parents : List String) :
    Advances n ahead Turn.GoesOn (importEnd parents) := by
  have name : Advances n whatever always (do
      let name ← expectIdent "imported name"
      skipNewlines
      pure name.text) := by
    apply Advances.start .expectIdent
    intro name
    apply Advances.skipNewlines.bind
    exact fun _ => .pure id
  apply Advances.kind_bind
  intro k
  split
  · apply (Advances.next_seen rfl).start
    exact fun _ => .pure id
  · apply (Advances.next_seen rfl).start
    intro _
    apply Advances.skipNewlines.bind
    intro _
    apply Advances.start (.commaList name)
    intro names
    apply Advances.start (.expect rfl)
    exact fun _ => .pure id
  · apply Advances.start .expectIdent
    intro name
    apply Advances.ate_ite rfl
    · exact .pure id
    · exact .pure id
  · exact .unexpected

theorem advances_importDecl (some : ∀ tokens, ahead tokens → tokens ≠ []) :
    Advances n ahead always importDecl := by
  apply Advances.start (.next some)
  intro word
  apply Advances.bind (.ate rfl)
  intro relative
  apply Advances.start .expectIdent
  intro first
  apply Advances.start (.expect rfl)
  intro _
  apply Advances.bind (.iterate advances_importEnd)
  intro found
  apply Advances.place.bind
  intro stop
  apply Advances.bind (.tell rfl)
  exact fun _ => .pure id

/-- A word that is seen behind the separators at the head is there once they are taken. -/
theorem ne_nil_of_behind_separators {stop : Nat} {k : Kind} {tokens : List Token}
    (stop_eq : stop = (tokens.takeWhile (·.kind.isSeparator)).length)
    (seen : Showing stop k tokens) (going : k.isTerminal = false) :
    tokens.dropWhile (·.kind.isSeparator) ≠ [] := by
  have inside := seen.some going
  have size : (tokens.takeWhile (·.kind.isSeparator)).length +
      (tokens.dropWhile (·.kind.isSeparator)).length = tokens.length := by
    rw [← List.length_append, List.takeWhile_append_dropWhile]
  apply List.length_pos_iff.mp
  omega

theorem advances_enumCases (advancing : rules.Advancing n) :
    Advances n ahead never (enumCases rules) := by
  apply Advances.iterate
  intro cases
  apply Advances.separatorsEnd_bind
  intro stop
  apply Advances.kindAt_bind
  intro k
  apply Advances.ite
  · rintro rfl
    apply Advances.skipWhile_bind fun _ => Advances.going_of_isSeparator
    have word : ∀ tokens, (∃ before, ((whatever before ∧
        stop = (before.takeWhile (·.kind.isSeparator)).length) ∧ Showing stop .caseWord before) ∧
        tokens = before.dropWhile (·.kind.isSeparator)) → tokens ≠ [] := by
      rintro _ ⟨before, ⟨⟨-, stop_eq⟩, seen⟩, rfl⟩
      exact ne_nil_of_behind_separators stop_eq seen rfl
    apply Advances.start (.next word)
    intro _
    apply Advances.start .expectIdent
    intro name
    apply Advances.kind_bind
    intro k
    apply Advances.ite
    · intro _
      apply ((advances_recordOrTupleType advancing).shorter (Nat.le_succ n)).bind
      exact fun _ => .pure id
    · exact fun _ => .pure id
  · exact fun _ => .pure id

theorem advances_typeDecl (advancing : rules.Advancing n)
    (some : ∀ tokens, ahead tokens → tokens ≠ []) :
    Advances (n + 1) ahead always (typeDecl rules) := by
  apply Advances.first (.next some)
  intro word
  apply Advances.start .expectIdent
  intro name
  apply (advances_enumCases advancing).bind
  intro cases
  apply Advances.ite
  · intro _
    apply advancing.typeExpr.bind
    exact fun _ => .pure id
  · intro _
    apply Advances.place.bind
    exact fun _ => .pure id

theorem advances_typeAfterColon (advancing : rules.Advancing n) :
    Advances n ahead never (typeAfterColon rules) := by
  apply Advances.ate_ite rfl
  · exact advancing.typeExpr.bind fun _ => .pure id
  · exact .pure id

theorem advances_param (advancing : rules.Advancing n) :
    Advances n ahead always (param rules) := by
  apply Advances.start .expectIdent
  intro name
  apply (advances_typeAfterColon advancing).bind
  exact fun _ => .pure id

theorem advances_functionDecl (advancing : rules.Advancing n)
    (some : ∀ tokens, ahead tokens → tokens ≠ []) :
    Advances (n + 1) ahead always (functionDecl rules) := by
  have params : Advances n whatever never (do
      let params ← closedList .rparen fun _ => param rules
      let _ ← expect .rparen "')' closing parameters"
      pure params) := by
    apply Advances.bind (.closedList fun _ => advances_param advancing)
    intro params
    apply Advances.start (.expect rfl)
    exact fun _ => .pure id
  apply Advances.first (.next some)
  intro word
  apply Advances.start .expectIdent
  intro name
  apply Advances.bind (.ate rfl)
  intro found
  apply params.ite_bind (.pure id)
  intro params
  apply (advances_typeAfterColon advancing).bind
  intro result
  apply (advances_block advancing).bind
  intro body
  apply Advances.start (.expect rfl)
  intro close
  apply Advances.bind (.tell rfl)
  exact fun _ => .pure id

theorem advances_toplevel (advancing : rules.Advancing n) :
    Advances (n + 1) ahead always (toplevel rules) := by
  apply Advances.kind_bind
  intro k
  split
  · apply (advances_importDecl (some_of_showing rfl)).start
    exact fun _ => .pure id
  · exact advances_typeDecl advancing (some_of_showing rfl)
  · apply (advances_functionDecl advancing (some_of_showing rfl)).start
    exact fun _ => .pure id
  · exact .unexpected

theorem advances_toplevelItem (advancing : rules.Advancing n) :
    Advances (n + 1) ahead always (toplevelItem rules) := by
  apply (advances_toplevel advancing).start
  intro decl
  apply Advances.kind_bind
  intro k
  apply Advances.ite
  · exact fun _ => .pure id
  · exact fun _ => .unexpected

section Files

variable {start c c' : Cursor} {before taken : List Token} {h : Harvest}

/-- A parser that gets on in front of any number of tokens gets on in front of these. -/
theorem Advances.goes {α : Type} {must : α → Prop} {p : Parser α}
    (h : ∀ n, Advances (n + 1) whatever must p) (proper : c.Proper) : Goes c must (p c) :=
  h c.remaining c proper (Nat.lt_succ_self _) trivial

/-- At the end of a stream there is nothing to recover. -/
theorem recover_ended (ended : (c.token 0).kind.isTerminal = true) :
    recover c = .ok () (c.receive 0) := by
  simp [recover, kind, kindAt, peekAt, bind, EStateM.bind, pure, EStateM.pure, ended]

/-- A recovery takes the next token, whatever it is, and no word that begins a declaration behind
it. At the end there is no token to take. -/
theorem recover_skips (proper : c.Proper) : ∃ skipped c', recover c = .ok () c' ∧
    c.Passes skipped c' ∧ (∀ t ∈ skipped.tail, beginsToplevel t.kind = false) ∧
    (skipped = [] → c.upcoming = []) := by
  by_cases ended : (c.token 0).kind.isTerminal = true
  · exact ⟨[], c.receive 0, recover_ended ended, .receive .stay 0,
      fun _ mem => absurd mem List.not_mem_nil, fun _ => proper.isTerminal_token.mp ended⟩
  have going : (c.token 0).kind.isTerminal = false := Bool.eq_false_iff.mpr ended
  have one : c.Passes [c.token 0] ((c.receive 0).receive 0).advance := by
    have one := Cursor.Passes.take (.receive (.stay (c := c)) 0) (by simpa using going)
    simpa using one
  have plain : ∀ k : Kind, (!k.isTerminal && !beginsToplevel k) = true → k.isTerminal = false := by
    intro k both
    simp only [Bool.and_eq_true, Bool.not_eq_true'] at both
    exact both.1
  obtain ⟨more, c', run, passes, behind⟩ := skipWhile_ok plain (one.proper proper)
  refine ⟨c.token 0 :: more, c', ?_, one.trans passes, ?_,
    fun none => absurd none (List.cons_ne_nil _ _)⟩
  · simp [recover, kind, kindAt, peekAt, Parser.next, bind, EStateM.bind, pure, EStateM.pure,
      going, run]
  · have parts := passes.upcoming (one.proper proper)
    rw [behind] at parts
    have more_eq := List.append_cancel_right (parts.symm.trans List.takeWhile_append_dropWhile.symm)
    intro t mem
    have held := List.all_eq_true.mp List.all_takeWhile t (more_eq ▸ mem)
    simp only [Bool.and_eq_true, Bool.not_eq_true'] at held
    exact held.2

/-- The recovery behind a failure comes to its end. Unless the end of the stream stood in front of
what has failed, some token is taken until then. -/
theorem recover_ok (proper : start.Proper) (passes : start.Passes before c) :
    ∃ taken c', recover c = .ok () c' ∧ start.Passes taken c' ∧
      ((start.token 0).kind.isTerminal = false → taken ≠ []) := by
  obtain ⟨skipped, c', run, passes', -, some⟩ := recover_skips (passes.proper proper)
  refine ⟨before ++ skipped, c', run, passes.trans passes', fun going none => ?_⟩
  obtain ⟨rfl, rfl⟩ := List.append_eq_nil_iff.mp none
  -- Nothing is taken, so that the end has been in front from the start.
  have none := some rfl
  rw [← List.nil_append c.upcoming, ← passes.upcoming proper, ← proper.isTerminal_token,
    going] at none
  cases none

/-- What is reported of a file at its end, and where its cursor is then: past all of its tokens,
with the end received. Without a fault the end is a legal one. -/
structure Harvest.Ends (h : Harvest) (c : Cursor) : Prop where
  sound : ∀ f ∈ h.faults, f.cause ≠ .stalled
  upcoming : c.upcoming = []
  ending : c.ending = some c.last
  legal : h.faults = [] → c.last.kind ≠ .illegal

/-- The end is received wherever it is looked at. -/
theorem ending_at_end (spent : c.upcoming = []) (hears : c.Hears before) :
    (c.receive 0).ending = some (c.receive 0).last := by
  have within := hears.within
  rw [spent] at within
  rw [Cursor.last_receive]
  exact Cursor.ending_receive (by simp [spent]) within

theorem endFault_ends (sound : ∀ f ∈ h.faults, f.cause ≠ .stalled) (spent : c.upcoming = [])
    (hears : c.Hears before) :
    ∃ h' c', endFault h c = .ok h' c' ∧ c.Passes [] c' ∧ h'.Ends c' := by
  have token : c.token 0 = c.last := by simp [Cursor.token, spent]
  by_cases faulty : (h.decls.isEmpty ∨ c.last.kind = .illegal) ∧ h.faults.isEmpty
  · let f : Fault := .across c.last.span (.expected "toplevel" c.last)
    refine ⟨{ h with faults := [f] }, (c.receive 0).receive 0, ?_, ?_, ?_⟩
    · simp only [endFault, kind, kindAt, peekAt, bind, EStateM.bind, pure, EStateM.pure,
        Cursor.token_receive, token, if_pos faulty]
      simp [attempt, unexpected, Parser.fail, peekAt, bind, EStateM.bind, EStateM.pure, token, f]
    · exact .receive (.receive .stay 0) 0
    · exact ⟨by simp [f, Fault.across], by simpa using spent,
        ending_at_end (by simpa using spent) (hears.receive 0), fun none => by cases none⟩
  · refine ⟨h, c.receive 0, ?_, .receive .stay 0, ?_⟩
    · simp only [endFault, kind, kindAt, peekAt, bind, EStateM.bind, pure, EStateM.pure,
        Cursor.token_receive, token, if_neg faulty]
    · refine ⟨sound, by simpa using spent, ending_at_end spent hears, ?_⟩
      intro none illegal
      rw [Cursor.last_receive] at illegal
      exact faulty ⟨.inr illegal, by simp [none]⟩

/-- What one turn of the reading of a file comes to: one more declaration or fault and some tokens
further, or the end. -/
def FileTurn (taken : List Token) (c' : Cursor) : Turn Harvest Harvest → Prop
  | .again h => taken ≠ [] ∧ ∀ f ∈ h.faults, f.cause ≠ .stalled
  | .done h => h.Ends c'

theorem fileStep_ok (proper : start.Proper) (quiet : start.Hears []) (here : start.Passes before c)
    (sound : ∀ f ∈ h.faults, f.cause ≠ .stalled) :
    ∃ turn taken c', fileStep full h c = .ok turn c' ∧ c.Passes taken c' ∧
      FileTurn taken c' turn := by
  have proper := here.proper proper
  obtain ⟨separators, c₁, skipped, passes, -⟩ :=
    skipWhile_ok (fun _ => Advances.going_of_isSeparator) proper
  have skipped : skipSeparators c = .ok () c₁ := skipped
  have proper₁ := (passes.receive 0).proper proper
  by_cases ended : (c₁.token 0).kind.isTerminal = true
  · have spent := proper₁.isTerminal_token.mp (by simpa using ended)
    have hears := (here.trans (passes.receive 0)).hears ‹start.Proper› quiet
    obtain ⟨h', c', run, passes', ends⟩ := endFault_ends sound spent hears
    refine ⟨.done h', separators ++ [], c', ?_, (passes.receive 0).trans passes', ends⟩
    simp [fileStep, skipped, kind, kindAt, peekAt, bind, EStateM.bind, pure, EStateM.pure, ended,
      run]
  · have going : (c₁.token 0).kind.isTerminal = false := Bool.eq_false_iff.mpr ended
    have item := Advances.goes (fun n => advances_toplevelItem (advancing_full n)) proper₁
    cases run : toplevelItem full (c₁.receive 0) with
    | ok decl c₂ =>
      rw [run] at item
      obtain ⟨taken, passes', some⟩ := item
      refine ⟨.again { h with decls := decl :: h.decls }, separators ++ taken, c₂, ?_,
        (passes.receive 0).trans passes', by simp [some trivial], sound⟩
      simp [fileStep, attempt, skipped, kind, kindAt, peekAt, bind, EStateM.bind, pure,
        EStateM.pure, going, run]
    | error f c₂ =>
      rw [run] at item
      obtain ⟨sound', taken, passes'⟩ := item
      obtain ⟨taken', c₃, recovered, passes'', some⟩ :=
        recover_ok proper₁ (passes'.tell (.rejected f) rfl)
      have taken_some := some (by simpa using going)
      refine ⟨.again { h with faults := f :: h.faults }, separators ++ taken', c₃, ?_,
        (passes.receive 0).trans passes'', by simp [taken_some], by simpa using ⟨sound', sound⟩⟩
      simp [fileStep, attempt, skipped, kind, kindAt, peekAt, Parser.tell, bind, EStateM.bind,
        pure, EStateM.pure, going, run, recovered]

/-- The reading of a file comes to the end of its stream. -/
theorem harvest_ok (proper : start.Proper) (quiet : start.Hears []) (here : start.Passes before c)
    (sound : ∀ f ∈ h.faults, f.cause ≠ .stalled) :
    ∃ h' taken c', iterate (fileStep full) h c = .ok h' c' ∧ start.Passes taken c' ∧
      h'.Ends c' := by
  induction h, c using Parser.iterate.induct (fileStep full) generalizing before with
  | case1 h c f c' failed =>
    obtain ⟨turn, taken, c'', run, -⟩ := fileStep_ok proper quiet here sound
    rw [failed] at run
    cases run
  | case2 h c h' c' last =>
    obtain ⟨turn, taken, c'', run, passes, ends⟩ := fileStep_ok proper quiet here sound
    rw [last] at run
    cases run
    exact ⟨h', before ++ taken, c', iterate_done last, here.trans passes, ends⟩
  | case3 h c h' c' again less ih =>
    obtain ⟨turn, taken, c'', run, passes, ends⟩ := fileStep_ok proper quiet here sound
    rw [again] at run
    cases run
    rw [iterate_again again less]
    exact ih (here.trans passes) ends.2
  | case4 h c h' c' again stuck =>
    obtain ⟨turn, taken, c'', run, passes, ends⟩ := fileStep_ok proper quiet here sound
    rw [again] at run
    cases run
    have left := passes.remaining (here.proper proper)
    have positive := List.length_pos_iff.mpr ends.1
    omega

/-- The faults that a file is rejected with. -/
def Rejection.faults (r : Rejection) : List Fault := r.first :: r.more

/-- The parsing of a stream ends past all of its tokens, with the end received. A stream that is
accepted has a legal end, and no fault is a stall. -/
theorem file_ok (name : String) (tokens : List Token) :
    ∃ found taken c', file name (.ofTokens tokens) = .ok found c' ∧
      (Cursor.ofTokens tokens).Passes taken c' ∧ c'.upcoming = [] ∧ c'.ending = some c'.last ∧
      (∀ decls, found = .ok decls → c'.last.kind ≠ .illegal) ∧
      ∀ r, found = .error r → ∀ f ∈ r.faults, f.cause ≠ .stalled := by
  let start := Cursor.ofTokens tokens
  have begun : start.Passes [] (start.tell (.started name)) := .tell .stay _ rfl
  obtain ⟨h, taken, c', run, passes, ends⟩ := harvest_ok (h := ⟨[], []⟩) (Cursor.proper_ofTokens tokens)
    (Cursor.hears_ofTokens tokens) begun (fun _ mem => absurd mem List.not_mem_nil)
  have run : harvest (start.tell (.started name)) = .ok h c' := run
  cases faults : h.faults.reverse with
  | nil =>
    have none : h.faults = [] := List.reverse_eq_nil_iff.mp faults
    refine ⟨.ok h.decls.reverse, taken, c'.tell (.parsed name), ?_, passes.tell _ rfl,
      ends.upcoming, ends.ending, fun _ _ => ends.legal none, fun _ failed => by cases failed⟩
    simp [file, Parser.tell, bind, EStateM.bind, pure, EStateM.pure, run, faults, start]
  | cons first more =>
    refine ⟨.error ⟨first, more⟩, taken, c', ?_, passes, ends.upcoming, ends.ending,
      fun _ read => (by cases read), ?_⟩
    · simp [file, Parser.tell, bind, EStateM.bind, pure, EStateM.pure, run, faults, start]
    · rintro _ ⟨⟩ f mem
      have mem : f ∈ h.faults.reverse := faults ▸ mem
      exact ends.sound f (List.mem_reverse.mp mem)

/-- What is behind a declaration that has failed is skipped, some token at least unless the end
stands in front of the declaration. -/
theorem recover_behind {α : Type} {p : Parser α} {f : Fault} (proper : c.Proper)
    (goes : Goes c always (p c)) (failed : p c = .error f c') :
    ∃ taken c'', recover c' = .ok () c'' ∧ c.Passes taken c'' ∧
      ((c.token 0).kind.isTerminal = false → taken ≠ []) := by
  rw [failed] at goes
  obtain ⟨-, taken, passes⟩ := goes
  exact recover_ok proper passes

end Files

/-- What is read at a point of a stream takes a token if it is there, and does not stall. What has
failed takes one with the recovery behind it, unless the end stands in front of it. The tokens that
are taken on the way are those in front, and none is terminal. -/
structure Cursor.GetsOn (c : Cursor) : Prop where
  toplevel : Goes c always (toplevel full c)
  toplevelItem : Goes c always (toplevelItem full c)
  statement : Goes c always (full.statement c)
  binary : ∀ power, Goes c always (full.binary power c)
  expr : Goes c always (full.expr c)
  unary : Goes c always (full.unary c)
  pattern : Goes c always (full.pattern c)
  destructuring : Goes c always (full.destructuring c)
  typeExpr : Goes c always (full.typeExpr c)
  recover : ∀ f c', Grammar.toplevel full c = .error f c' ∨ Grammar.toplevelItem full c = .error f c' →
    ∃ taken c'', Grammar.recover c' = .ok () c'' ∧ c.Passes taken c'' ∧
      ((c.token 0).kind.isTerminal = false → taken ≠ [])
  plain : ∀ taken c', c.Passes taken c' →
    c.upcoming = taken ++ c'.upcoming ∧ ∀ t ∈ taken, t.kind.isTerminal = false

theorem getsOn_of_proper {c : Cursor} (proper : c.Proper) : c.GetsOn where
  toplevel := Advances.goes (fun n => advances_toplevel (advancing_full n)) proper
  toplevelItem := Advances.goes (fun n => advances_toplevelItem (advancing_full n)) proper
  statement := Advances.goes (fun n => (advancing_full (n + 1)).statement) proper
  binary power := Advances.goes (fun n => (advancing_full (n + 1)).binary power) proper
  expr := Advances.goes (fun n => (advancing_full (n + 1)).expr) proper
  unary := Advances.goes (fun n => (advancing_full (n + 1)).unary) proper
  pattern := Advances.goes (fun n => (advancing_full (n + 1)).pattern) proper
  destructuring := Advances.goes (fun n => (advancing_full (n + 1)).destructuring) proper
  typeExpr := Advances.goes (fun n => (advancing_full (n + 1)).typeExpr) proper
  recover := by
    rintro f c' (failed | failed)
    · exact recover_behind proper
        (Advances.goes (fun n => advances_toplevel (advancing_full n)) proper) failed
    · exact recover_behind proper
        (Advances.goes (fun n => advances_toplevelItem (advancing_full n)) proper) failed
  plain _ _ passes := ⟨passes.upcoming proper, passes.plain⟩

/-- Parsing gets on, whatever the tokens are. A file comes to its end without a stall, so every turn
of a repetition and every rule called from inside a rule has found fewer tokens than the one before.
The same goes for what is read at any point of a stream; and nothing ever takes the terminal
token. -/
theorem parser_advances (name : String) (tokens : List Token) :
    (∃ found taken c', file name (.ofTokens tokens) = .ok found c' ∧
      (Cursor.ofTokens tokens).Passes taken c' ∧ (∀ t ∈ taken, t.kind.isTerminal = false) ∧
      ∀ r, found = .error r → ∀ f ∈ r.faults, f.cause ≠ .stalled) ∧
    ∀ c : Cursor, c.Proper → c.GetsOn := by
  constructor
  · obtain ⟨found, taken, c', run, passes, -, -, -, sound⟩ := file_ok name tokens
    exact ⟨found, taken, c', run, passes, passes.plain, sound⟩
  · exact fun _ => getsOn_of_proper

/-- A type without a name, on a stream that is closed behind it. -/
theorem parser_advances_broken_type :
    let c := Cursor.ofTokens [⟨.typeWord, "type", default⟩, ⟨.int, "1", default⟩]
    c.Proper ∧ ∃ f c', toplevelItem full c = .error f c' ∧
      ∃ taken c'', recover c' = .ok () c'' ∧ c.Passes taken c'' ∧ taken ≠ [] := by
  intro c
  have proper : c.Proper := Cursor.proper_ofTokens _
  have fails : (match toplevelItem full c with
      | .ok _ _ => false
      | .error _ _ => true) = true := by
    decide +kernel
  cases run : toplevelItem full c with
  | ok decl c' =>
    rw [run] at fails
    cases fails
  | error f c' =>
    have getsOn := (parser_advances "a" []).2 c proper
    obtain ⟨taken, c'', recovered, passes, some⟩ := getsOn.recover f c' (.inr run)
    exact ⟨proper, f, c', rfl, taken, c'', recovered, passes, some (by decide +kernel)⟩

end Frontend.Grammar
