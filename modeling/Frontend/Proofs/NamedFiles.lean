import Frontend.Proofs.LooseFiles
import Frontend.Proofs.NamedExprs

/-!
The names of files. The rules for short streams find trees with good names by induction on the
length, and so do the rules for all streams. What is good may be said of a name without its tree: so
every name of a tree is an identifier of its source, but for the asterisk of an import.
-/
namespace Frontend

namespace Grammar

open Grammar.Parser

variable {good : String → Prop}

namespace Finds

variable {α : Type} {holds : α → Prop}

theorem forFewer {n : Nat} {p : (m : Nat) → m < n → Parser α}
    (h : ∀ m less, Finds good (p m less) holds) : Finds good (forFewer n p) holds := by
  intro c a c' names run
  unfold Grammar.forFewer at run
  split at run
  next less => exact h _ less c a c' names run
  next => cases run

theorem withRules {p : Rules → Parser α} (h : ∀ n, Finds good (p (below n)) holds) :
    Finds good (withRules p) holds :=
  fun c a c' names run => h c.remaining c a c' names run

end Finds

/-- The rules for short streams find trees with good names. -/
theorem naming_below (n : Nat) : (below n).Naming good := by
  induction n using Nat.strongRecOn with
  | ind n ih =>
    rw [below_eq]
    constructor
    · exact fun power => .forFewer fun m less => finds_binary (ih m less) power
    · exact .forFewer fun m less => finds_unary (ih m less)
    · exact .forFewer fun m less => finds_typeExpr (ih m less)
    · exact .forFewer fun m less => finds_pattern (ih m less)
    · exact .forFewer fun m less => finds_destructuring (ih m less)
    · exact .forFewer fun m less => finds_statement (ih m less)

/-- The rules for all streams find trees with good names. -/
theorem naming_full : full.Naming good where
  binary power := .withRules (p := fun rules => Grammar.binary rules power) fun n =>
    finds_binary (naming_below n) power
  unary := .withRules fun n => finds_unary (naming_below n)
  typeExpr := .withRules fun n => finds_typeExpr (naming_below n)
  pattern := .withRules fun n => finds_pattern (naming_below n)
  destructuring := .withRules fun n => finds_destructuring (naming_below n)
  statement := .withRules fun n => finds_statement (naming_below n)

section Imports

variable (asterisk : good "*")

include asterisk

theorem finds_importEnd {parents : List String} (known : ∀ name ∈ parents, good name) :
    Finds good (importEnd parents) (Turn.Keeps (fun parents => ∀ name ∈ parents, good name)
      fun path => ∀ name ∈ path.1 ++ path.2, good name) := by
  have known_back : ∀ name ∈ parents.reverse, good name :=
    fun name mem => known name (List.mem_reverse.mp mem)
  refine .step fun k => ?_
  split
  · refine .step fun _ => .pure (List.forall_mem_append.mpr ⟨known_back, ?_⟩)
    exact List.forall_mem_singleton.mpr asterisk
  · have item : Finds good (do
        let name ← expectIdent "imported name"
        skipNewlines
        pure name.text) good :=
      Finds.expectIdent.bind fun _ name_good => .step fun _ => .pure name_good
    refine .step fun _ => .step fun _ => (Finds.commaList item).bind fun names names_good => ?_
    exact .step fun _ => .pure (List.forall_mem_append.mpr ⟨known_back, names_good⟩)
  · refine Finds.expectIdent.bind fun name name_good => .step fun dot => ?_
    refine .ite (fun _ => .pure ?_) fun _ => .pure ?_
    · exact List.forall_mem_cons.mpr ⟨name_good, known⟩
    · exact List.forall_mem_append.mpr ⟨known_back, List.forall_mem_singleton.mpr name_good⟩
  · exact .unexpected

theorem finds_importDecl :
    Finds good importDecl fun i => Node.Named good (.toplevel (.importing i)) := by
  refine .step fun word => .step fun relative => Finds.expectIdent.bind fun first first_good => ?_
  refine .step fun _ => (Finds.iterate (fun parents => ∀ name ∈ parents, good name)
    (List.forall_mem_singleton.mpr first_good)
    fun parents known => finds_importEnd asterisk known).bind fun (parents, imported) known => ?_
  exact .step fun stop => .step fun _ => .pure (.intro known nofun)

end Imports

section Declarations

variable {rules : Rules}

theorem finds_enumCases (sound : rules.Naming good) :
    Finds good (enumCases rules) (NamedFields good .type) := by
  refine .iterate (NamedFields good .type) nofun fun cases known => ?_
  refine .step fun n => .step fun k => .ite (fun _ => ?_) fun _ => .pure fun c mem => ?_
  · refine .step fun _ => .step fun _ => Finds.expectIdent.bind fun name name_good => .step fun k => ?_
    refine .ite (fun _ => ?_) fun _ => .pure (List.forall_mem_cons.mpr ⟨⟨name_good, nofun⟩, known⟩)
    refine (finds_recordOrTupleType sound).bind fun payload named => .pure ?_
    refine List.forall_mem_cons.mpr ⟨⟨name_good, fun t eq => ?_⟩, known⟩
    exact Option.some.inj eq ▸ named
  · exact known c (List.mem_reverse.mp mem)

theorem finds_typeDecl (sound : rules.Naming good) :
    Finds good (typeDecl rules) fun d => Node.Named good (.toplevel d) := by
  refine .step fun word => Finds.expectIdent.bind fun name name_good => ?_
  refine (finds_enumCases sound).bind fun cases known => .ite (fun _ => ?_) fun _ => ?_
  · exact sound.typeExpr.bind fun type named => .pure
      (.intro (List.forall_mem_singleton.mpr name_good) (List.forall_mem_singleton.mpr named))
  · exact .step fun stop => .pure
      (.intro (List.forall_mem_cons.mpr ⟨name_good, known.names⟩) known.below)

theorem finds_typeAfterColon (sound : rules.Naming good) :
    Finds good (typeAfterColon rules) fun found =>
      ∀ t, found = some t → Node.Named good (.type t) := by
  refine .step fun colon => .ite (fun _ => ?_) fun _ => .pure nofun
  exact sound.typeExpr.bind fun type named => .pure fun t eq => Option.some.inj eq ▸ named

theorem finds_param (sound : rules.Naming good) : Finds good (param rules) fun p =>
    good p.name ∧ ∀ t, p.type = some t → Node.Named good (.type t) :=
  Finds.expectIdent.bind fun _ name_good => (finds_typeAfterColon sound).bind fun _ named =>
    .pure ⟨name_good, named⟩

theorem finds_functionDecl (sound : rules.Naming good) :
    Finds good (functionDecl rules) fun f => Node.Named good (.toplevel (.function f)) := by
  refine .step fun word => Finds.expectIdent.bind fun name name_good => .step fun opening => ?_
  have params : Finds good (closedList .rparen (fun _ => param rules) >>= fun params =>
      expect .rparen "')' closing parameters" >>= fun _ => pure params) fun params =>
      ∀ p ∈ params, good p.name ∧ ∀ t, p.type = some t → Node.Named good (.type t) :=
    (Finds.closedList fun _ => finds_param sound).bind fun params known =>
      .step fun _ => .pure known
  refine .ite_bind params nofun fun params known => ?_
  refine (finds_typeAfterColon sound).bind fun result result_named => ?_
  refine (finds_block sound).bind fun body named => .step fun close => .step fun _ => .pure ?_
  refine .intro (List.forall_mem_cons.mpr
    ⟨name_good, List.forall_mem_map.mpr fun p mem => (known p mem).1⟩) ?_
  have param_types : ∀ m ∈ Node.ofParams params, Node.Named good m :=
    named_branches fun p mem => named_maybe (known p mem).2
  exact List.forall_mem_append.mpr
    ⟨List.forall_mem_append.mpr ⟨param_types, named_maybe result_named⟩, named.nodes⟩

variable (asterisk : good "*")

include asterisk

theorem finds_toplevel (sound : rules.Naming good) :
    Finds good (toplevel rules) fun d => Node.Named good (.toplevel d) := by
  refine .step fun k => ?_
  split
  · exact (finds_importDecl asterisk).bind fun decl named => .pure named
  · exact finds_typeDecl sound
  · exact (finds_functionDecl sound).bind fun decl named => .pure named
  · exact .unexpected

theorem finds_toplevelItem (sound : rules.Naming good) :
    Finds good (toplevelItem rules) fun d => Node.Named good (.toplevel d) := by
  refine (finds_toplevel asterisk sound).bind fun decl named => .step fun k => ?_
  exact .ite (fun _ => .pure named) fun _ => .unexpected

/-- A file without faults has good names. -/
theorem finds_declarations : Finds good declarations fun decls =>
    ∀ d ∈ decls, Node.Named good (.toplevel d) := by
  refine .iterate (fun decls => ∀ d ∈ decls, Node.Named good (.toplevel d)) nofun
    fun decls known => .step fun _ => .step fun k => .ite (fun _ => ?_) fun _ => ?_
  · exact .step fun _ => .ite (fun _ => .unexpected) fun _ => .pure known
  · exact (finds_toplevelItem asterisk naming_full).bind fun decl named =>
      .pure (List.forall_mem_cons.mpr ⟨named, known⟩)

end Declarations

end Grammar

/-- What names of a tree may be: an identifier of the source, or the asterisk of an import. -/
def NameIn (source : Source) (name : String) : Prop :=
  name = "*" ∨ ∃ t ∈ (scan source).tokens, t.kind = .ident ∧ t.text = name

/-- The names of a tree are in the source that is parsed to it. -/
theorem parse_named {source : Source} {decls : List Toplevel}
    (parsed : (parse source).result = .ok decls) :
    Node.Named (NameIn source) (.file decls) := by
  rw [parse_of_clean (clean_of_parse parsed)] at parsed
  obtain ⟨h, c', run, no_faults, rfl⟩ := parseTokens_eq_ok.mp parsed
  obtain ⟨init, last, stream⟩ := stream_scan source
  have names : (Grammar.Cursor.ofTokens (scan source).tokens).Names (NameIn source) := by
    refine ⟨Grammar.Cursor.proper_ofTokens _, fun t mem word => .inr ⟨t, ?_, word, rfl⟩⟩
    rw [stream.upcoming] at mem
    rw [stream.tokens]
    exact List.mem_append_left _ (List.mem_filter.mp mem).1
  have found := Grammar.finds_declarations (.inl rfl) _ _ _ (names.tell _)
    (Grammar.declared_of_harvest run rfl no_faults)
  refine .intro nofun (List.forall_mem_map.mpr fun d mem => found.2 d (List.mem_reverse.mp mem))

end Frontend
