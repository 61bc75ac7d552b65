import Frontend.Grammar.File
import Frontend.Proofs.LongestWords
import Frontend.Proofs.ParsedFiles
import Frontend.Proofs.PlacedExprs
import Frontend.Proofs.Streams

/-!
Whatever is parsed, trees and faults stand in their source as they should. The rules for short
streams place what they yield by induction on the length, and so do the rules for all streams; the
tokens of a source are in order to begin with, and their positions are true of it. They are words,
too, and so the names on the path of an import are identifiers.
-/
namespace Frontend

namespace Grammar

open Grammar.Parser
open Node (Row)
open Token (Kind)

variable {good : Position → Prop} {lo : Nat} {seen : Token → Prop} {rules : Rules}

/-- The rules for short streams yield trees that stand in order. -/
theorem placed_below (n : Nat) : (below n).Placed good := by
  induction n using Nat.strongRecOn with
  | ind n ih =>
    rw [below_eq]
    constructor
    · exact fun power _ _ => .forFewer fun m less => covers_binary (ih m less) power
    · exact .forFewer fun m less => covers_unary (ih m less)
    · exact .forFewer fun m less => covers_typeExpr (ih m less)
    · exact .forFewer fun m less => covers_pattern (ih m less)
    · exact .forFewer fun m less => covers_destructuring (ih m less)
    · exact .forFewer fun m less => covers_statement (ih m less)

/-- The rules for all streams yield trees that stand in order. -/
theorem placed_full : full.Placed good where
  binary power _ _ := .withRules (p := fun rules => binary rules power) fun n =>
    covers_binary (placed_below n) power
  unary := .withRules fun n => covers_unary (placed_below n)
  typeExpr := .withRules fun n => covers_typeExpr (placed_below n)
  pattern := .withRules fun n => covers_pattern (placed_below n)
  destructuring := .withRules fun n => covers_destructuring (placed_below n)
  statement := .withRules fun n => covers_statement (placed_below n)

/-- Identifiers, at least one. -/
def AreNames (names : List String) : Prop :=
  names ≠ [] ∧ ∀ n ∈ names, Lexicon.IsWord .ident n.toList

/-- What an import may end with: the star, or identifiers. -/
def AreImported (names : List String) : Prop := names = ["*"] ∨ AreNames names

/-- An import has identifiers on its path, and ends with the star or with identifiers. -/
def NamesPath : Toplevel → Prop
  | .importing i => AreNames i.parents ∧ AreImported i.imported
  | _ => True

theorem AreNames.reverse {names : List String} (h : AreNames names) : AreNames names.reverse := by
  simpa [AreNames] using h

theorem covers_importEnd {parents : List String} (names : AreNames parents) :
    Covers good lo seen (importEnd parents) fun turn _ =>
      turn.Keeps AreNames fun path => AreNames path.1 ∧ AreImported path.2 := by
  apply Covers.kind_bind
  intro k
  split
  · apply Covers.bind .next_any
    intro _ _ _ _
    exact .pure ⟨names.reverse, .inl rfl⟩
  · apply Covers.bind .next_any
    intro _ _ _ _
    apply Covers.bind .skipWhile
    intro _ mid _ _
    have name : ∀ {lo seen}, Covers good lo seen (do
        let name ← expectIdent "imported name"
        skipNewlines
        pure name.text) fun name _ => Lexicon.IsWord .ident name.toList := by
      intro lo seen
      apply Covers.bind .expectIdent_word
      intro _ _ _ is_word
      apply Covers.bind .skipWhile
      intro _ _ _ _
      exact .pure is_word
    apply Covers.bind (.commaList (fun names _ => AreNames names) (fun _ _ _ _ names => names)
      (name.mono fun _ _ is_word => ⟨List.cons_ne_nil _ _, List.forall_mem_singleton.mpr is_word⟩)
      fun _ _ known => name.mono fun _ _ is_word => ⟨by simp,
        List.forall_mem_append.mpr ⟨known.2, List.forall_mem_singleton.mpr is_word⟩⟩)
    intro imported _ _ imported_names
    apply Covers.bind (.expect (by decide))
    intro _ _ _ _
    exact .pure ⟨names.reverse, .inr imported_names⟩
  · apply Covers.bind .expectIdent_word
    intro name _ _ is_word
    apply Covers.ate_ite (by decide)
    · intro _ _
      exact .pure ⟨List.cons_ne_nil _ _, List.forall_mem_cons.mpr ⟨is_word, names.2⟩⟩
    · exact .pure ⟨names.reverse,
        .inr ⟨List.cons_ne_nil _ _, List.forall_mem_singleton.mpr is_word⟩⟩
  · exact .unexpected

theorem covers_importPath {first : List String} (names : AreNames first) :
    Covers good lo seen (iterate importEnd first) fun path _ =>
      AreNames path.1 ∧ AreImported path.2 := by
  apply Covers.iterate (fun parents _ => AreNames parents) names
  intro parents mid names
  exact covers_importEnd names

theorem covers_importDecl (more : ∀ t, seen t → t.kind ≠ .eof) :
    Covers good lo seen importDecl fun decl hi =>
      Row good lo [.toplevel (.importing decl)] hi ∧ NamesPath (.importing decl) := by
  apply Covers.bind (.next more)
  intro word _ _ ⟨_, word_lies⟩
  apply Covers.bind (.ate (by decide))
  intro relative _ le _
  apply Covers.bind .expectIdent_word
  intro first _ le' is_word
  apply Covers.bind (.expect (by decide))
  intro _ _ le₃ _
  apply Covers.bind (covers_importPath ⟨List.cons_ne_nil _ _, List.forall_mem_singleton.mpr is_word⟩)
  intro (parents, imported) hi le₄ names
  apply Covers.place_bind
  intro stop stop_good here
  subst here
  apply Covers.tell_bind
  apply Covers.pure
  have le := Nat.le_trans (Nat.le_trans le le') (Nat.le_trans le₃ le₄)
  exact ⟨.fromWord word_lies (.nil le) stop_good (Nat.le_refl _) rfl, names⟩

theorem covers_enumCases (placed : rules.Placed good) :
    Covers good lo seen (enumCases rules) fun cases hi =>
      Row good lo (cases.flatMap fun c => Node.maybe .type c.2) hi := by
  apply Covers.iterate fun cases hi =>
    Row good lo (cases.reverse.flatMap fun c => Node.maybe .type c.2) hi
  · exact .nil (Nat.le_refl _)
  intro cases mid row
  apply Covers.look_bind (.receiving _ _)
  intro n
  apply Covers.look_bind (.kindAt n)
  intro k
  apply Covers.ite
  · intro _
    apply Covers.bind .skipWhile
    intro _ _ le _
    apply Covers.bind .next_any
    intro _ _ le' _
    apply Covers.bind .expectIdent
    intro name _ le₃ _
    have row := row.upper (Nat.le_trans (Nat.le_trans le le') le₃)
    apply Covers.kind_bind
    intro k
    apply Covers.ite
    · intro _
      apply Covers.bind (covers_recordOrTupleType placed)
      intro payload hi _ payload_row
      apply Covers.pure
      simpa [Turn.Keeps, Node.maybe] using row.append payload_row
    · intro _
      apply Covers.pure
      simpa [Turn.Keeps, Node.maybe] using row
  · intro _
    exact .pure row

theorem covers_typeDecl (placed : rules.Placed good) (more : ∀ t, seen t → t.kind ≠ .eof) :
    Covers good lo seen (typeDecl rules) fun d hi =>
      Row good lo [.toplevel d] hi ∧ NamesPath d := by
  apply Covers.bind (.next more)
  intro word _ _ ⟨_, word_lies⟩
  apply Covers.bind .expectIdent
  intro name _ le _
  apply Covers.bind (covers_enumCases placed)
  intro cases mid le' row
  apply Covers.ite
  · intro _
    apply Covers.bind placed.typeExpr
    intro type hi _ type_row
    have row := type_row.lower (Nat.le_trans le le')
    exact .pure ⟨.uptoChild word_lies row rfl rfl, trivial⟩
  · intro _
    apply Covers.place_bind
    intro stop stop_good here
    subst here
    exact .pure ⟨.fromWord word_lies (row.lower le) stop_good (Nat.le_refl _) rfl, trivial⟩

theorem covers_typeAfterColon (placed : rules.Placed good) :
    Covers good lo seen (typeAfterColon rules) fun found hi =>
      Row good lo (Node.maybe .type found) hi := by
  apply Covers.ate_ite (by decide)
  · intro _ less
    apply Covers.bind placed.typeExpr
    intro type hi _ row
    exact .pure (row.lower (Nat.le_of_lt less))
  · exact .pure (.nil (Nat.le_refl _))

theorem covers_param (placed : rules.Placed good) :
    Covers good lo seen (param rules) fun p hi => Row good lo (Node.maybe .type p.type) hi := by
  apply Covers.bind .expectIdent
  intro name _ le _
  apply Covers.bind (covers_typeAfterColon placed)
  intro type hi _ row
  exact .pure (row.lower le)

theorem covers_params (placed : rules.Placed good) :
    Covers good lo seen (do
      let params ← closedList .rparen fun _ => param rules
      let _ ← expect .rparen "')' closing parameters"
      pure params) fun params hi => Row good lo (Node.ofParams params) hi := by
  apply Covers.bind (.closedList_row (fun p => Node.maybe .type p.type) fun _ _ =>
    covers_param placed)
  intro params _ _ row
  apply Covers.bind (.expect (by decide))
  intro _ hi le _
  exact .pure (row.upper le)

theorem covers_functionDecl (placed : rules.Placed good) (more : ∀ t, seen t → t.kind ≠ .eof) :
    Covers good lo seen (functionDecl rules) fun decl hi =>
      Row good lo [.toplevel (.function decl)] hi := by
  apply Covers.bind (.next more)
  intro word start _ ⟨_, word_lies⟩
  apply Covers.bind .expectIdent
  intro name mid le _
  have finish : ∀ params {mid' : Nat} {seen : Token → Prop},
      Row good start (Node.ofParams params) mid' → Covers good mid' seen (do
        let result ← typeAfterColon rules
        let body ← block rules [.endWord]
        let close ← expect .endWord "'end' closing function"
        tell (.parsedFunction name.text)
        pure (⟨word.span.through close.span, name.text, params, result, body⟩ : Function))
        fun decl hi => Row good lo [.toplevel (.function decl)] hi := by
    intro params mid' seen params_row
    apply Covers.bind (covers_typeAfterColon placed)
    intro result _ _ result_row
    apply Covers.bind (covers_block placed)
    intro body _ _ body_row
    apply Covers.bind (.expect (by decide))
    intro close hi _ ⟨_, close_lies⟩
    apply Covers.tell_bind
    apply Covers.pure
    exact .enclosed word_lies ((params_row.append result_row).append body_row) close_lies rfl
  apply Covers.ate_ite (by decide)
  · intro _ less
    have le := Nat.le_trans le (Nat.le_of_lt less)
    apply Covers.bind (covers_params placed)
    intro params _ _ row
    exact finish params (row.lower le)
  · exact finish [] (.nil le)

theorem covers_toplevel (placed : rules.Placed good) :
    Covers good lo seen (toplevel rules) fun d hi =>
      Row good lo [.toplevel d] hi ∧ NamesPath d := by
  apply Covers.kind_bind
  intro k
  split
  · apply Covers.bind (covers_importDecl (by simp +contextual))
    intro decl hi _ placed
    exact .pure placed
  · exact covers_typeDecl placed (by simp +contextual)
  · apply Covers.bind (covers_functionDecl placed (by simp +contextual))
    intro decl hi _ row
    exact .pure ⟨row, trivial⟩
  · exact .unexpected

theorem covers_toplevelItem (placed : rules.Placed good) :
    Covers good lo seen (toplevelItem rules) fun d hi =>
      Row good lo [.toplevel d] hi ∧ NamesPath d := by
  apply Covers.bind (covers_toplevel placed)
  intro decl hi _ placed
  apply Covers.kind_bind
  intro k
  apply Covers.ite
  · intro _
    exact .pure placed
  · intro _
    exact .unexpected

theorem covers_recover : Covers good lo seen recover fun _ _ => True := by
  apply Covers.kind_bind
  intro k
  apply Covers.ite
  · intro _
    exact .pure trivial
  · intro _
    apply Covers.bind .next_any
    intro _ _ _ _
    exact .skipWhile

/-- What has been read of a file up to an offset: declarations one behind the other, and faults at
good places. -/
structure Harvest.Placed (good : Position → Prop) (h : Harvest) (hi : Nat) : Prop where
  decls : Row good 0 (h.decls.reverse.map .toplevel) hi
  paths : ∀ d ∈ h.decls, NamesPath d
  faults : ∀ f ∈ h.faults, f.Placed good

theorem Harvest.Placed.upper {h : Harvest} {hi hi' : Nat} (placed : h.Placed good hi)
    (le : hi ≤ hi') : h.Placed good hi' :=
  { placed with decls := placed.decls.upper le }

theorem covers_endFault {h : Harvest} (placed : h.Placed good lo) :
    Covers good lo seen (endFault h) (Harvest.Placed good) := by
  apply Covers.kind_bind
  intro k
  apply Covers.ite
  · intro _
    have fails : ∀ {seen}, Covers good lo seen (unexpected "toplevel" : Parser Unit) fun _ _ => True :=
      .unexpected
    apply Covers.bind (.attempt fails)
    intro found hi le outcome
    cases found with
    | error f =>
      exact .pure ⟨placed.decls.upper le, placed.paths, List.forall_mem_singleton.mpr outcome⟩
    | ok => exact .pure (placed.upper le)
  · intro _
    exact .pure placed

theorem covers_fileStep (rules_placed : rules.Placed good) {h : Harvest} (placed : h.Placed good lo) :
    Covers good lo seen (fileStep rules h) fun t hi =>
      t.Keeps (Harvest.Placed good · hi) (Harvest.Placed good · hi) := by
  apply Covers.bind .skipWhile
  intro _ mid le _
  have placed := placed.upper le
  apply Covers.kind_bind
  intro k
  apply Covers.ite
  · intro _
    apply Covers.bind (covers_endFault placed)
    intro h hi _ placed
    exact .pure placed
  · intro _
    apply Covers.bind (.attempt (covers_toplevelItem rules_placed))
    intro found mid' le outcome
    cases found with
    | ok decl =>
      apply Covers.pure
      refine ⟨?_, List.forall_mem_cons.mpr ⟨outcome.2, placed.paths⟩, placed.faults⟩
      simpa using placed.decls.append outcome.1
    | error f =>
      apply Covers.tell_bind
      apply Covers.bind covers_recover
      intro _ hi le' _
      apply Covers.pure
      exact ⟨placed.decls.upper (Nat.le_trans le le'), placed.paths,
        List.forall_mem_cons.mpr ⟨outcome, placed.faults⟩⟩

/-- What comes of a file: declarations in a row, or faults at good places. -/
def FilePlaced (good : Position → Prop) (outcome : Except Rejection (List Toplevel)) (hi : Nat) :
    Prop :=
  match outcome with
  | .ok decls => Row good 0 (decls.map .toplevel) hi ∧ ∀ d ∈ decls, NamesPath d
  | .error r => r.first.Placed good

theorem covers_file (name : String) : Covers good 0 seen (file name) (FilePlaced good) := by
  apply Covers.tell_bind
  have start : (Harvest.mk [] []).Placed good 0 := ⟨.nil (Nat.le_refl _), nofun, nofun⟩
  apply Covers.bind (.iterate (Harvest.Placed good) start fun h lo placed =>
    covers_fileStep placed_full placed)
  intro h hi _ placed
  split
  next clean =>
    apply Covers.tell_bind
    exact .pure ⟨placed.decls, fun d mem => placed.paths d (List.mem_reverse.mp mem)⟩
  next first more faults =>
    apply Covers.pure
    have mem : first ∈ h.faults := by
      rw [← List.mem_reverse, faults]
      exact List.mem_cons_self
    exact placed.faults first mem

theorem Spread.lower {tokens : List Token} {lo' hi : Nat} (h : Spread good lo tokens hi)
    (le : lo' ≤ lo) : Spread good lo' tokens hi := by
  cases h with
  | nil order => exact .nil (Nat.le_trans le order)
  | cons lies behind => exact .cons (lies.mono le (Nat.le_refl _)) behind

/-- Tokens that tile a source stand one behind the other, also when some are left out. -/
theorem spread_of_tiles {source : Source} {init : List Token} {last : Token}
    (tiles : Tiles source lo (init ++ [last])) (plain : ∀ t ∈ init, t.kind.isTerminal = false)
    (positions : ∀ t ∈ init, good t.span.start ∧ good t.span.stop) (keep : Token → Bool) :
    Spread good lo (init.filter keep) last.span.start.offset := by
  induction init generalizing lo with
  | nil => exact .nil tiles.1
  | cons t init ih =>
    obtain ⟨lower, -, order, wide, -, -, tiles⟩ := tiles
    obtain ⟨t_plain, plain⟩ := List.forall_mem_cons.mp plain
    obtain ⟨t_positions, positions⟩ := List.forall_mem_cons.mp positions
    have rest := ih tiles plain positions
    by_cases kept : keep t = true
    · rw [List.filter_cons_of_pos kept]
      have wide := wide (fun eof => by simp [eof, Kind.isTerminal] at t_plain)
        fun illegal => by simp [illegal, Kind.isTerminal] at t_plain
      exact .cons ⟨t_positions.1, t_positions.2, lower, wide, Nat.le_refl _⟩ rest
    · rw [List.filter_cons_of_neg kept]
      exact rest.lower (Nat.le_trans lower order)

/-- A source without lexical errors is a stream whose tokens are in order, in front of what can be
read of it. -/
theorem lined_scan_of {source : Source} (clean : (scan source).errors = [])
    (of_faces : ∀ p text, Scan.Faces source p text → good p) :
    (Cursor.ofTokens (scan source).tokens).Lined good := by
  obtain ⟨init, last, stream⟩ := stream_scan source
  obtain ⟨tiles, ends⟩ := Scan.onward_tiles source.name none (Scan.stands_start source)
  have positions : ∀ t ∈ init ++ [last], good t.span.start ∧ good t.span.stop := by
    intro t mem
    obtain ⟨⟨_, start⟩, _, stop⟩ := ((Scan.scan_emitted source).1 t (stream.tokens ▸ mem)).faces
    exact ⟨of_faces _ _ start, of_faces _ _ stop⟩
  have last_mem : last ∈ init ++ [last] := List.mem_append_right _ (List.mem_singleton_self _)
  have eof := stream.clean.mpr clean
  have last_eq : (Cursor.ofTokens (scan source).tokens).last = last := by
    rw [Cursor.last, stream.ends]
    rfl
  have mem : last ∈ (scan source).tokens := by rwa [stream.tokens]
  have at_end := ends last mem eof
  constructor
  · exact of_faces _ _ (Scan.faces_start source)
  · rw [stream.upcoming, last_eq]
    have tiles : Tiles source 0 (init ++ [last]) := stream.tokens ▸ tiles
    exact spread_of_tiles tiles stream.plain
      (fun t mem => positions t (List.mem_append_left _ mem)) _
  · rw [stream.upcoming]
    intro t mem
    obtain ⟨mem, -⟩ := List.mem_filter.mp mem
    have emitted : t ∈ (scan source).tokens := stream.tokens ▸ List.mem_append_left _ mem
    exact ((Scan.scan_emitted source).1 t emitted).isWord (stream.plain t mem)
  · rw [last_eq, stream.ends]
    rfl
  · rw [last_eq, eof]
  · rw [last_eq]
    exact (positions last last_mem).1
  · rw [last_eq]
    exact (positions last last_mem).2
  · rw [last_eq, at_end.1, at_end.2.1]

/-- A source without lexical errors is a stream whose tokens are in order, at positions of it. -/
theorem lined_scan {source : Source} (clean : (scan source).errors = []) :
    (Cursor.ofTokens (scan source).tokens).Lined source.HasPosition :=
  lined_scan_of clean fun _ _ faces => faces.hasPosition

end Grammar

/-- An error of a source at good positions. If it has an end, that is not in front of its start. -/
structure Diagnostic.At (good : Position → Prop) (source : Source) (d : Diagnostic) : Prop where
  own : d.source = source
  start : good d.start
  stop : ∀ p, d.stop = some p → good p ∧ d.start.offset ≤ p.offset

theorem Grammar.Fault.Placed.diagnostic {good : Position → Prop} {f : Grammar.Fault}
    (h : f.Placed good) (source : Source) : (f.diagnostic source).At good source := by
  -- the notes on the branches leave the place of the fault as it is
  obtain ⟨start, stop, -, -⟩ := Diagnostic.foldl_noteAt source (·.1) (·.2.message) f.branches
    ⟨source, f.start, f.stop, f.message, []⟩
  constructor
  · rw [Grammar.Fault.diagnostic, Diagnostic.foldl_noteAt_eq]
  · rw [Grammar.Fault.diagnostic, start]
    exact h.start_good
  · intro p eq
    rw [Grammar.Fault.diagnostic, stop] at eq
    rw [Grammar.Fault.diagnostic, start]
    exact ⟨h.stop_good p eq, h.order p eq⟩

theorem Grammar.Rejection.diagnostic_placed {good : Position → Prop} {r : Grammar.Rejection}
    (h : r.first.Placed good) (source : Source) : (r.diagnostic source).At good source := by
  unfold Grammar.Rejection.diagnostic
  split
  · exact h.diagnostic source
  · obtain ⟨start, stop, -, -⟩ := Diagnostic.foldl_noteAt source Grammar.Fault.start
      Grammar.Fault.message (r.first :: r.more)
      (.pointAt source r.first.start s!"{r.more.length + 1} error(s) while parsing")
    constructor
    · rw [Diagnostic.foldl_noteAt_eq]
      rfl
    · rw [start]
      exact h.start_good
    · intro p eq
      rw [stop] at eq
      cases eq

/-- What comes of a stream of tokens at good positions: a tree that stands in order, or an error at
such positions. -/
theorem parseTokens_at {good : Position → Prop} {source : Source} {tokens : List Token}
    (lined : (Grammar.Cursor.ofTokens tokens).Lined good) :
    (∀ decls, (parseTokens source tokens).result = .ok decls →
      (∃ hi, Node.Row good 0 (decls.map .toplevel) hi) ∧ ∀ d ∈ decls, Grammar.NamesPath d) ∧
    ∀ d, (parseTokens source tokens).result = .error d → d.At good source := by
  have covers : Grammar.Covers good 0 Grammar.anything (Grammar.file source.name) _ :=
    Grammar.covers_file source.name
  have ends := covers (.ofTokens tokens) lined rfl trivial
  unfold parseTokens
  cases run : Grammar.file source.name (.ofTokens tokens) with
  | error f c =>
    rw [run] at ends
    refine ⟨nofun, fun d eq => ?_⟩
    cases eq
    exact ends.2.2.1.diagnostic source
  | ok outcome c =>
    rw [run] at ends
    obtain ⟨-, -, placed⟩ := ends
    cases outcome with
    | ok decls =>
      refine ⟨fun decls' eq => ?_, nofun⟩
      cases eq
      exact ⟨⟨_, placed.1⟩, placed.2⟩
    | error r =>
      refine ⟨nofun, fun d eq => ?_⟩
      cases eq
      exact Grammar.Rejection.diagnostic_placed placed source

/-- What comes of a source without lexical errors: a tree that stands in order, at positions of the
source, or an error at such positions. -/
theorem parseTokens_placed {source : Source} (clean : (scan source).errors = []) :
    (∀ decls, (parseTokens source (scan source).tokens).result = .ok decls →
      (∃ hi, Node.Row source.HasPosition 0 (decls.map .toplevel) hi) ∧
        ∀ d ∈ decls, Grammar.NamesPath d) ∧
    ∀ d, (parseTokens source (scan source).tokens).result = .error d →
      d.At source.HasPosition source :=
  parseTokens_at (Grammar.lined_scan clean)

/-- The error of a source stands in front of what can be read of it, with the source as its own. -/
theorem parse_error_at {source : Source} {d : Diagnostic} {good : Position → Prop}
    (of_faces : ∀ p text, Scan.Faces source p text → good p)
    (failed : (parse source).result = .error d) : d.At good source := by
  unfold parse at failed
  dsimp only at failed
  split at failed
  next e _ found =>
    cases failed
    obtain ⟨⟨_, start⟩, ⟨_, stop⟩, order⟩ :=
      ((Scan.scan_emitted source).2 e (found ▸ List.mem_cons_self)).faces
    refine ⟨rfl, of_faces _ _ start, fun p eq => ?_⟩
    cases eq
    exact ⟨of_faces _ _ stop, order⟩
  next clean => exact (parseTokens_at (Grammar.lined_scan_of clean of_faces)).2 d failed

/-- A file without declarations is rejected. -/
theorem parseTokens_ne_nil {source : Source} {tokens : List Token} {decls : List Toplevel}
    (parsed : (parseTokens source tokens).result = .ok decls) : decls ≠ [] := by
  unfold parseTokens at parsed
  split at parsed <;> cases parsed
  next run => exact (Grammar.yields_file _ _ _ _ run decls rfl).nonempty

/-- The tree of a file stands in order, at positions of its source. -/
theorem row_file {source : Source} {decls : List Toplevel}
    (parsed : (parse source).result = .ok decls) :
    ∃ hi, Node.Row source.HasPosition 0 [.file decls] hi := by
  have clean := clean_of_parse parsed
  rw [parse_of_clean clean] at parsed
  obtain ⟨⟨hi, row⟩, -⟩ := (parseTokens_placed clean).1 decls parsed
  obtain ⟨a, rest, rfl⟩ := List.exists_cons_of_ne_nil (parseTokens_ne_nil parsed)
  have last := List.getLast?_eq_getLast_of_ne_nil (List.cons_ne_nil a rest)
  exists hi
  apply Node.Row.spanning row rfl
  · show ((a :: rest).map Node.toplevel).getLast? = _
    rw [List.getLast?_map, last]
    rfl
  · show Toplevel.fileSpan (a :: rest) = _
    rw [Toplevel.fileSpan, last]
    rfl

/-- The names on the path of an import are identifiers, and so are those that it ends with. -/
theorem path_of_import {source : Source} {decls : List Toplevel}
    (parsed : (parse source).result = .ok decls) {i : Import} (mem : i ∈ Toplevel.imports decls) :
    Grammar.AreNames i.parents ∧ Grammar.AreImported i.imported := by
  have clean := clean_of_parse parsed
  rw [parse_of_clean clean] at parsed
  obtain ⟨d, there, found⟩ := List.mem_filterMap.mp mem
  have names := ((parseTokens_placed clean).1 decls parsed).2 d there
  cases d <;> cases found
  exact names

/-- A tree that comes of a source stands in it in order. Every node spans something, its children
are inside of it, and none of them begins before the one in front of it ends; so a walk over the
tree, whatever it passes by, goes through the source from its start to its end. -/
theorem parse_nested (source : Source) (decls : List Toplevel)
    (parsed : (parse source).result = .ok decls) :
    (∀ n, Node.Within (.file decls) n →
      n.span.start.offset < n.span.stop.offset ∧
      (∀ m ∈ n.children, n.span.start.offset ≤ m.span.start.offset ∧
        m.span.stop.offset ≤ n.span.stop.offset) ∧
      n.children.Pairwise fun a b => a.span.stop.offset ≤ b.span.start.offset) ∧
    ∀ skip, ((Node.file decls).trace skip).Pairwise fun earlier later =>
      earlier.offset ≤ later.offset := by
  obtain ⟨hi, row⟩ := row_file parsed
  refine ⟨fun n below => ?_, fun skip => row.trace_sorted skip⟩
  have found := row.within below
  refine ⟨found.lies.wide, fun m mem => ?_, found.inside.pairwise⟩
  have lies := (found.inside.of_mem mem).lies
  exact ⟨lies.lower, lies.upper⟩

/-- A record type, and the field inside of it. -/
theorem parse_nested_record :
    let source : Source := .inMemory "a" (Utf8.ofString "type A \x7bb: C\x7d")
    let field : TypeExpr := ⟨⟨⟨11, 1, 12⟩, ⟨12, 1, 13⟩⟩, .named "C"⟩
    let record : TypeExpr := ⟨⟨⟨7, 1, 8⟩, ⟨13, 1, 14⟩⟩, .record [("b", field)]⟩
    let decls : List Toplevel := [.typedef ⟨⟨0, 1, 1⟩, "A", record⟩]
    (parse source).result = .ok decls ∧ Node.Within (.file decls) (.type record) ∧
      ∀ m ∈ (Node.type record).children, record.span.start.offset ≤ m.span.start.offset ∧
        m.span.stop.offset ≤ record.span.stop.offset := by
  intro source field record decls
  have parsed : (parse source).result = .ok decls := by cbv
  have decl : Node.Within (.file decls) (.toplevel (.typedef ⟨⟨0, 1, 1⟩, "A", record⟩)) :=
    .child .root List.mem_cons_self
  have below : Node.Within (.file decls) (.type record) := .child decl List.mem_cons_self
  exact ⟨parsed, below, ((parse_nested source decls parsed).1 _ below).2.1⟩

/-- Every position that comes of a source is true of it: those of tokens, of lexical errors, of the
nodes of a tree, and of the error that a source is rejected with. -/
theorem positions_true (source : Source) :
    (∀ t ∈ (scan source).tokens,
      source.HasPosition t.span.start ∧ source.HasPosition t.span.stop) ∧
    (∀ e ∈ (scan source).errors,
      source.HasPosition e.span.start ∧ source.HasPosition e.span.stop) ∧
    (∀ decls, (parse source).result = .ok decls → ∀ n, Node.Within (.file decls) n →
      source.HasPosition n.span.start ∧ source.HasPosition n.span.stop) ∧
    ∀ d, (parse source).result = .error d →
      source.HasPosition d.start ∧
      ∀ p, d.stop = some p → source.HasPosition p ∧ d.start.offset ≤ p.offset := by
  obtain ⟨tokens, errors⟩ := Scan.scan_emitted source
  refine ⟨fun t mem => (tokens t mem).hasPosition, fun e mem => ?_, ?_, fun d failed => ?_⟩
  · obtain ⟨start, stop, -⟩ := (errors e mem).hasPosition
    exact ⟨start, stop⟩
  · intro decls parsed n below
    obtain ⟨hi, row⟩ := row_file parsed
    have lies := (row.within below).lies
    exact ⟨lies.start_good, lies.stop_good⟩
  · have placed : d.At source.HasPosition source :=
      parse_error_at (fun _ _ faces => faces.hasPosition) failed
    exact ⟨placed.start, placed.stop⟩

/-- The error behind a line with characters of two bytes. -/
theorem positions_true_second_line :
    let source : Source := .inMemory "a" (Utf8.ofString "type é é\nend")
    ∃ d, (parse source).result = .error d ∧ d.start = ⟨11, 2, 1⟩ ∧ d.stop = some ⟨14, 2, 4⟩ ∧
      source.HasPosition ⟨11, 2, 1⟩ ∧ source.HasPosition ⟨14, 2, 4⟩ := by
  intro source
  have ends : ((parse source).result.casesOn (fun d => some (d.start, d.stop)) fun _ => none :
      Option (Position × Option Position)) = some (⟨11, 2, 1⟩, some ⟨14, 2, 4⟩) := by
    decide +kernel
  cases failed : (parse source).result with
  | ok decls =>
    rw [failed] at ends
    cases ends
  | error d =>
    rw [failed] at ends
    obtain ⟨start_eq, stop_eq⟩ := Prod.mk.inj (Option.some.inj ends)
    obtain ⟨start, stop⟩ := (positions_true source).2.2.2 d failed
    exact ⟨d, rfl, start_eq, stop_eq, start_eq ▸ start, (stop _ stop_eq).1⟩

end Frontend
