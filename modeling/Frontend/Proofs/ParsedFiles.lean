import Mathlib
import Frontend.Grammar.File
import Frontend.Proofs.ParsedExprs

/-!
Whatever is parsed, the tree is well formed. The rules for short streams are sound by induction on
the length, and so are the rules for all streams; a file without a fault is made of what they yield.
-/
namespace Frontend

namespace Grammar

open Grammar.Parser

namespace Yields

variable {α : Type} {good : α → Prop}

theorem forFewer {n : Nat} {p : (m : Nat) → m < n → Parser α}
    (h : ∀ m less, Yields (p m less) good) : Yields (forFewer n p) good := by
  intro c a c' run
  unfold Grammar.forFewer at run
  split at run
  next less => exact h _ less c a c' run
  next => cases run

theorem withRules {p : Rules → Parser α} (h : ∀ n, Yields (p (below n)) good) :
    Yields (withRules p) good :=
  fun c a c' run => h c.remaining c a c' run

theorem attempt {p : Parser α} (h : Yields p good) :
    Yields (attempt p) fun found => ∀ a, found = .ok a → good a := by
  intro c found c' run a eq
  subst eq
  unfold Frontend.attempt at run
  split at run <;> cases run
  next ran => exact h c a c' ran

end Yields

/-- The rules for short streams yield trees of the grammar only. -/
theorem sound_below (n : Nat) : (below n).Sound := by
  induction n using Nat.strongRecOn with
  | ind n ih =>
    rw [below_eq]
    constructor
    · exact fun power => .forFewer fun m less => yields_binary (ih m less) power
    · exact .forFewer fun m less => yields_unary (ih m less)
    · exact .forFewer fun m less => yields_typeExpr (ih m less)
    · exact .forFewer fun m less => yields_pattern (ih m less)
    · exact .forFewer fun m less => yields_destructuring (ih m less)
    · exact .forFewer fun m less => yields_statement (ih m less)

/-- The rules for all streams yield trees of the grammar only. -/
theorem sound_full : full.Sound where
  binary power := .withRules (p := fun rules => Grammar.binary rules power) fun n =>
    yields_binary (sound_below n) power
  unary := .withRules fun n => yields_unary (sound_below n)
  typeExpr := .withRules fun n => yields_typeExpr (sound_below n)
  pattern := .withRules fun n => yields_pattern (sound_below n)
  destructuring := .withRules fun n => yields_destructuring (sound_below n)
  statement := .withRules fun n => yields_statement (sound_below n)

/-- Parents and imported names of an import, neither of which is empty. -/
def GoodImport (names : List String × List String) : Prop := names.1 ≠ [] ∧ names.2 ≠ []

theorem yields_importEnd {parents : List String} (some : parents ≠ []) :
    Yields (importEnd parents) (Turn.Keeps (· ≠ []) GoodImport) := by
  have some_parents : parents.reverse ≠ [] := by simpa using some
  refine .step fun k => ?_
  split
  · exact .step fun _ => .pure ⟨some_parents, List.cons_ne_nil _ _⟩
  · refine .step fun _ => .step fun _ => (Yields.commaList .any).bind fun names some_names => ?_
    exact .step fun _ => .pure ⟨some_parents, some_names.1⟩
  · refine .step fun name => .step fun dot => .ite (fun _ => .pure ?_) fun _ => .pure ?_
    · exact List.cons_ne_nil _ _
    · exact ⟨some_parents, List.cons_ne_nil _ _⟩
  · exact .unexpected

theorem yields_importDecl :
    Yields importDecl fun decl => (Toplevel.importing decl).Formed Literal.Fits := by
  refine .step fun word => .step fun relative => .step fun first => .step fun _ => ?_
  refine (Yields.iterate ((· ≠ [])) (List.cons_ne_nil _ _)
    fun parents some => yields_importEnd some).bind fun (parents, imported) good => ?_
  exact .step fun stop => .step fun _ => .pure (.importing good.1 good.2)

variable {rules : Rules}

/-- A case of an enum: a payload is a well-formed type with fields in braces. -/
def GoodEnumCase (case : String × Option TypeExpr) : Prop :=
  ∀ t, case.2 = some t → t.Formed Literal.Fits ∧ t.IsPayload

theorem yields_enumCases (sound : rules.Sound) :
    Yields (enumCases rules) fun cases => ∀ c ∈ cases, GoodEnumCase c := by
  refine .iterate (fun cases => ∀ c ∈ cases, GoodEnumCase c) nofun fun cases known => ?_
  refine .step fun n => .step fun k => .ite (fun _ => ?_) fun _ => .pure ?_
  · refine .step fun _ => .step fun _ => .step fun name => .step fun k => ?_
    refine .ite (fun _ => ?_) fun _ => .pure (List.forall_mem_cons.mpr ⟨nofun, known⟩)
    refine (yields_recordOrTupleType sound).bind fun payload good => .pure ?_
    refine List.forall_mem_cons.mpr ⟨fun t eq => ?_, known⟩
    exact Option.some.inj eq ▸ good
  · simpa [Turn.Keeps] using known

theorem yields_typeDecl (sound : rules.Sound) :
    Yields (typeDecl rules) (Toplevel.Formed Literal.Fits) := by
  refine .step fun word => .step fun name => (yields_enumCases sound).bind fun cases good => ?_
  refine .ite (fun _ => ?_) fun some => ?_
  · exact sound.typeExpr.bind fun type formed => .pure (.typedef formed)
  · refine .step fun stop => .pure (.enum (by simpa using some) ?_ ?_)
    · exact fun c mem t eq => (good c mem t eq).1
    · exact fun c mem t eq => (good c mem t eq).2

theorem yields_typeAfterColon (sound : rules.Sound) :
    Yields (typeAfterColon rules) fun found => ∀ t, found = some t → t.Formed Literal.Fits := by
  refine .step fun colon => .ite (fun _ => ?_) fun _ => .pure nofun
  refine sound.typeExpr.bind fun type formed => .pure fun t eq => ?_
  exact Option.some.inj eq ▸ formed

theorem yields_param (sound : rules.Sound) :
    Yields (param rules) fun p => ∀ t, p.type = some t → t.Formed Literal.Fits :=
  .step fun _ => (yields_typeAfterColon sound).bind fun _ formed => .pure formed

theorem yields_functionDecl (sound : rules.Sound) :
    Yields (functionDecl rules) fun decl => (Toplevel.function decl).Formed Literal.Fits := by
  refine .step fun word => .step fun name => .step fun opening => ?_
  have params : Yields (closedList .rparen (fun _ => param rules) >>= fun params =>
      expect .rparen "')' closing parameters" >>= fun _ => pure params) fun params =>
      ∀ p ∈ params, ∀ t, p.type = some t → t.Formed Literal.Fits :=
    (Yields.closedList (yields_param sound)).bind fun params formed => .step fun _ => .pure formed
  refine .ite_bind params nofun fun params params_formed => ?_
  refine (yields_typeAfterColon sound).bind fun result result_formed => ?_
  refine (yields_block sound).bind fun body body_formed => .step fun close => .step fun _ => ?_
  exact .pure (.function params_formed result_formed body_formed)

theorem yields_toplevel (sound : rules.Sound) :
    Yields (toplevel rules) (Toplevel.Formed Literal.Fits) := by
  refine .step fun k => ?_
  split
  · exact yields_importDecl.bind fun decl formed => .pure formed
  · exact yields_typeDecl sound
  · exact (yields_functionDecl sound).bind fun decl formed => .pure formed
  · exact .unexpected

theorem yields_toplevelItem (sound : rules.Sound) :
    Yields (toplevelItem rules) (Toplevel.Formed Literal.Fits) := by
  refine (yields_toplevel sound).bind fun decl formed => .step fun k => ?_
  exact .ite (fun _ => .pure formed) fun _ => .unexpected

/-- What has been read of a file is well formed so far. -/
def Harvest.Good (h : Harvest) : Prop := ∀ d ∈ h.decls, d.Formed Literal.Fits

/-- A file that has come to its end has a declaration or a fault. -/
def Harvest.Complete (h : Harvest) : Prop := h.Good ∧ (h.faults = [] → h.decls ≠ [])

theorem yields_endFault {h : Harvest} (good : h.Good) : Yields (endFault h) Harvest.Complete := by
  refine .step fun k => .ite (fun _ => ?_) fun other => .pure ⟨good, fun clean => ?_⟩
  · have fails : Yields (unexpected "toplevel" : Parser Unit) fun _ => False := .unexpected
    refine (Yields.attempt fails).bind fun found never => ?_
    cases found with
    | error f => exact .pure ⟨good, nofun⟩
    | ok => exact (never () rfl).elim
  · rintro empty
    exact other ⟨.inl (by simp [empty]), by simp [clean]⟩

theorem yields_fileStep (sound : rules.Sound) {h : Harvest} (good : h.Good) :
    Yields (fileStep rules h) (Turn.Keeps Harvest.Good Harvest.Complete) := by
  refine .step fun _ => .step fun k => .ite (fun _ => ?_) fun _ => ?_
  · exact (yields_endFault good).bind fun h complete => .pure complete
  · refine (Yields.attempt (yields_toplevelItem sound)).bind fun found formed => ?_
    cases found with
    | ok decl => exact .pure (List.forall_mem_cons.mpr ⟨formed decl rfl, good⟩)
    | error f => exact .step fun _ => .step fun _ => .pure good

/-- A file that is read without a fault is well formed. -/
theorem yields_file (name : String) : Yields (file name) fun outcome =>
    ∀ decls, outcome = .ok decls → Toplevel.FormedFile Literal.Fits decls := by
  have start : (Harvest.mk [] []).Good := fun d mem => nomatch mem
  refine .step fun _ => ?_
  refine (Yields.iterate Harvest.Good start
    fun h good => yields_fileStep sound_full good).bind fun h complete => ?_
  split
  next clean =>
    refine .step fun _ => .pure fun decls eq => ?_
    obtain rfl := Except.ok.inj eq
    refine ⟨?_, fun d mem => complete.1 d (List.mem_reverse.mp mem)⟩
    simpa using complete.2 (by simpa using clean)
  next => exact .pure nofun

end Grammar

/-- Whatever source is parsed, the declarations that come of it are trees of the grammar. -/
theorem parse_formed (source : Source) (decls : List Toplevel)
    (parsed : (parse source).result = .ok decls) : Toplevel.FormedFile Literal.Fits decls := by
  have of_tokens : ∀ tokens, (parseTokens source tokens).result = .ok decls →
      Toplevel.FormedFile Literal.Fits decls := by
    intro tokens parsed
    unfold parseTokens at parsed
    split at parsed <;> cases parsed
    next run => exact Grammar.yields_file _ _ _ _ run decls rfl
  unfold parse at parsed
  dsimp only at parsed
  split at parsed
  · cases parsed
  · exact of_tokens _ parsed

/-- A file with an import, and its tree. -/
theorem parse_formed_import :
    (parse (.inMemory "a" (Utf8.ofString "import a.b"))).result =
      .ok [.importing ⟨⟨⟨0, 1, 1⟩, ⟨10, 1, 11⟩⟩, false, ["a"], ["b"]⟩] ∧
    Toplevel.FormedFile Literal.Fits
      [.importing ⟨⟨⟨0, 1, 1⟩, ⟨10, 1, 11⟩⟩, false, ["a"], ["b"]⟩] := by
  have parsed : (parse (.inMemory "a" (Utf8.ofString "import a.b"))).result =
      .ok [.importing ⟨⟨⟨0, 1, 1⟩, ⟨10, 1, 11⟩⟩, false, ["a"], ["b"]⟩] := by cbv
  exact ⟨parsed, parse_formed _ _ parsed⟩

end Frontend
