import Mathlib
import Frontend.Grammar.File
import Frontend.Proofs.ReadStmts
import Frontend.Proofs.Streams

/-!
Declarations are read as what they are spelled from, and so are whole files: a source whose tokens
spell a tree of the grammar is parsed without a fault, and what comes of it is the tree.
-/
namespace Frontend

open Grammar Grammar.Parser
open Token (Kind)

/-- Words that begin a declaration. -/
def Grammar.toplevelWords : List Kind := [.importWord, .typeWord, .funcWord]

/-- What may stand behind the end of the line of a declaration. -/
def Grammar.MayFollow (k : List Word) : Prop := headKind k ∈ .eof :: toplevelWords

/-- A declaration that is read as what it is, up to the places where it stands. -/
structure Toplevel.Legible (d : Toplevel) : Prop where
  begins : ∀ k, headKind (d.words k) ∈ toplevelWords
  takes : ∀ n k, MayFollow k → Takes (n + 1) (toplevel full) (d.words (spelled .newline :: k))
    (spelled .newline :: k) fun d' => d'.bare = d.bare

namespace Grammar

variable {n : Nat} {k o : List Word}

theorem Takes.withRules {α : Type} {p : Rules → Parser α} {i : List Word} {good : α → Prop}
    (h : ∀ m, Takes (m + 1) (p (below m)) i o good) : Takes n (withRules p) i o good :=
  fun c shows_ _ => h c.remaining c shows_ (Nat.lt_succ_self _)

theorem reads_full (n : Nat) : full.Read n :=
  ⟨fun _ k legible ends => .withRules fun m => legible.takes m k ends,
    fun _ k legible line => .withRules fun m => legible.takes m k line⟩

section Imports

/-- The words of a path: its parents with a dot behind each of them, and what it ends with. -/
def pathWords (parents imported : List String) : Spelling := fun k =>
  parents.foldr (fun name k => ident name :: spelled .dot :: k) (importedWords imported k)

/-- Names in braces, up to the brace that closes them. -/
theorem Takes.importedNames {names : List String} (some : names ≠ []) {what : String} :
    Takes n (Parser.commaList do
      let name ← expectIdent what
      Parser.skipNewlines
      Pure.pure name.text) (nameWords names (spelled .rbrace :: k)) (spelled .rbrace :: k)
      fun names' => names'.map id = names.map id := by
  refine .commaList some (fun name _ k follows => ?_)
    (fun _ _ _ => begins_cons (by decide)) (by simp)
  refine (Takes.expect rfl).bind fun t word => ?_
  refine (Reads.skipNewlines ?_).bind fun _ _ => .pure (text_of_word word)
  obtain comma | rfl := follows
  · simp [comma]
  · simp

/-- The last turn of a path. -/
theorem Reads.importEnd_last {before imported : List String} (some : imported ≠ [])
    (line : headKind k = .newline) :
    Reads n (importEnd before) (importedWords imported k) k
      (· = .done (before.reverse, imported)) := by
  have names_in_braces : ∀ names : List String, names ≠ [] →
      Reads n (importEnd before) (spelled .lbrace :: nameWords names (spelled .rbrace :: k)) k
        (· = .done (before.reverse, names)) := by
    intro names some
    refine Reads.kind.bind fun kind here => ?_
    obtain rfl : kind = .lbrace := here
    refine Takes.next.reads.bind fun _ _ => ?_
    refine (Reads.skipNewlines ?_).bind fun _ _ => ?_
    · cases names with
      | nil => exact absurd rfl some
      | cons name names => simp [nameWords, listed]
    refine (Takes.importedNames some).reads.bind fun names' same => ?_
    rw [List.map_id, List.map_id] at same
    exact (Takes.expect rfl).reads.bind fun _ _ => .pure (by rw [same])
  rcases imported with _ | ⟨name, _ | ⟨name', names⟩⟩
  · exact absurd rfl some
  · rw [importedWords]
    refine Reads.kind.bind fun kind here => ?_
    split at here
    next star =>
      obtain rfl : kind = .star := here
      exact Takes.next.reads.bind fun _ _ => .pure (by rw [star])
    next other =>
      obtain rfl : kind = .ident := here
      rw [if_neg other]
      refine (Takes.expect rfl).reads.bind fun t word => ?_
      refine (Reads.ate_other (by simp [line])).bind fun dot none => ?_
      rw [none, text_of_word word]
      exact .pure rfl
  · exact names_in_braces _ some

/-- A path, up to the end of its line. -/
theorem Reads.importPath {parents imported : List String} (some : imported ≠ [])
    (line : headKind k = .newline) (before : List String) :
    Reads n (iterate importEnd before) (pathWords parents imported k) k
      (· = (before.reverse ++ parents, imported)) := by
  induction parents generalizing before with
  | nil =>
    refine .iterate_done ((Reads.importEnd_last some line).mono fun turn done => ⟨_, done, ?_⟩)
    rw [List.append_nil]
  | cons name parents ih =>
    refine Takes.reads (.iterate_again (m := pathWords parents imported k)
      ((· = name :: before)) ?_ ?_)
    · refine .after .kind fun kind here => ?_
      obtain rfl : kind = .ident := here
      refine (Takes.expect rfl).bind fun t word => (Takes.ate rfl).reads.bind fun dot there => ?_
      rw [there, text_of_word word]
      exact .pure ⟨_, rfl, rfl⟩
    · rintro _ rfl
      exact (ih (name :: before)).mono fun found same => by simp [same]

theorem Takes.importDecl {span : Span} {relative : Bool} {parents imported : List String}
    (some_parents : parents ≠ []) (some_imported : imported ≠ []) (line : headKind k = .newline) :
    Takes n importDecl ((Toplevel.importing ⟨span, relative, parents, imported⟩).words k) k
      fun decl => { decl with span } = ⟨span, relative, parents, imported⟩ := by
  have dot : Reads n (Parser.ate .dot)
      ((if relative then (spelled .dot :: ·) else id) (pathWords parents imported k))
      (pathWords parents imported k) (· = relative) := by
    cases relative with
    | true => exact (Takes.ate rfl).reads
    | false =>
      refine Reads.ate_other ?_
      cases parents with
      | nil => exact absurd rfl some_parents
      | cons name parents => simp [pathWords]
  refine Takes.next.bind fun word _ => dot.bind fun relative' same => ?_
  cases parents with
  | nil => exact absurd rfl some_parents
  | cons name parents =>
    refine (Takes.expect rfl).reads.bind fun first first_word => ?_
    refine (Takes.expect rfl).reads.bind fun _ _ => ?_
    refine (Reads.importPath some_imported line _).bind fun (parents', imported') path => ?_
    refine Reads.place.bind fun stop _ => Reads.tell.bind fun _ _ => .pure ?_
    obtain ⟨rfl, rfl⟩ := Prod.mk.inj path
    simp [same, text_of_word first_word]

theorem legible_importing {span : Span} {relative : Bool} {parents imported : List String}
    (some_parents : parents ≠ []) (some_imported : imported ≠ []) :
    (Toplevel.importing ⟨span, relative, parents, imported⟩).Legible := by
  refine ⟨fun k => List.mem_cons_self, fun n k _ => .after .kind fun kind here => ?_⟩
  obtain rfl : kind = .importWord := here
  refine (Takes.importDecl some_parents some_imported rfl).bind fun decl same => .pure ?_
  have named := congrArg (fun decl : Import => { decl with span := default }) same
  exact congrArg Toplevel.importing named

end Imports

section Types

/-- The separators ahead are counted. -/
theorem Reads.separatorsEnd {i : List Word} : Reads n (separatorsEnd 0) i i
    (· = (i.takeWhile (·.1.isSeparator)).length) := by
  intro c shows_ _
  refine ⟨_, c.receive _, rfl, shows_.receive _, by simp, ?_⟩
  rw [Nat.zero_add, List.drop_zero, ← shows_.1, List.takeWhile_map, List.length_map]
  rfl

variable {rules : Rules}

/-- The payload of a case is a type in braces. -/
theorem Takes.payload {t : TypeExpr} (reads : rules.Read n) (formed : t.Formed Literal.Spelled)
    (payload : t.IsPayload) : headKind (t.words k) = .lbrace ∧
      Takes (n + 1) (Grammar.recordOrTupleType rules) (t.words k) k fun t' => t'.bare = t.bare := by
  cases formed with
  | record named fields_formed =>
    exact ⟨rfl, .recordType reads named fun f mem => legible_type (fields_formed f mem)⟩
  | tuple nonempty elems_formed =>
    exact ⟨rfl, .tupleType reads nonempty fun t mem => legible_type (elems_formed t mem)⟩
  | _ => simp [TypeExpr.IsPayload] at payload

/-- The words of the cases of an enum. -/
def casesWords (cases : List (String × Option TypeExpr)) : Spelling := fun k =>
  cases.foldr (fun case => enumCaseWords case) k

/-- The cases of an enum, up to what follows them. No case goes on behind separators. -/
theorem Reads.enumCases {cases : List (String × Option TypeExpr)} (reads : rules.Read n)
    (payloads_formed : ∀ c ∈ cases, ∀ t, c.2 = some t → t.Formed Literal.Spelled)
    (payloads : ∀ c ∈ cases, ∀ t, c.2 = some t → t.IsPayload)
    (stop : kindOf k (k.takeWhile (·.1.isSeparator)).length ≠ .caseWord)
    (apart : cases ≠ [] → headKind k ≠ .lbrace) :
    Reads (n + 1) (enumCases rules) (casesWords cases k) k fun cases' =>
      cases'.map (Prod.map id (Option.map TypeExpr.bare)) =
        cases.map (Prod.map id (Option.map TypeExpr.bare)) := by
  refine (Reads.iterate_list _ _ (fun cases => casesWords cases k) (fun before => ?_)
    (fun c mem more before => ?_) []).mono fun all same => by simpa using same
  · refine Reads.separatorsEnd.bind fun size size_eq => (Reads.kindAt size).bind fun kind here => ?_
    subst size_eq
    rw [if_neg (here ▸ stop)]
    exact .pure rfl
  · have no_braces : headKind (casesWords more k) ≠ .lbrace := by
      cases more with
      | nil => exact apart (List.ne_nil_of_mem mem)
      | cons c more => simp [casesWords, enumCaseWords]
    refine .after Reads.separatorsEnd fun size size_eq => .after (.kindAt size) fun kind here => ?_
    obtain rfl : size = 0 := size_eq
    obtain rfl : kind = .caseWord := here
    rw [if_pos rfl]
    refine .after (Reads.skipSeparators rfl) fun _ _ => Takes.next.bind fun _ _ => ?_
    refine (Takes.expect rfl).reads.bind fun name word => Reads.kind.bind fun kind here => ?_
    rw [text_of_word word]
    obtain ⟨case, none | payload⟩ := c
    · rw [if_neg (here ▸ no_braces)]
      exact .pure ⟨_, rfl, rfl⟩
    · obtain ⟨brace, takes⟩ := Takes.payload (k := casesWords more k) reads
        (payloads_formed _ mem payload rfl) (payloads _ mem payload rfl)
      rw [if_pos (here.trans brace)]
      exact takes.reads.bind fun payload' same => .pure ⟨_, rfl, by simp [same]⟩

/-- Separators behind a declaration lead to the next one, which is no case. -/
theorem MayFollow.no_case (h : MayFollow k) :
    kindOf (spelled .newline :: k) ((spelled .newline :: k).takeWhile (·.1.isSeparator)).length ≠
      .caseWord := by
  have plain : ∀ kind ∈ Kind.eof :: toplevelWords, kind.isSeparator = false ∧ kind ≠ .caseWord := by
    decide
  obtain ⟨apart, other⟩ := plain _ h
  have none : (k.takeWhile (·.1.isSeparator)) = [] := by
    cases k with
    | nil => rfl
    | cons w k => exact List.takeWhile_cons_of_neg (by simpa using apart)
  rw [List.takeWhile_cons_of_pos rfl, none]
  exact other

theorem Begins.no_case {i : List Word} (h : Begins i) :
    kindOf i (i.takeWhile (·.1.isSeparator)).length ≠ .caseWord := by
  have none : (i.takeWhile (·.1.isSeparator)) = [] := by
    cases i with
    | nil => rfl
    | cons w i => exact List.takeWhile_cons_of_neg (by simpa using h.isSeparator)
  rw [none]
  exact h.ne (by decide)

theorem legible_typedef {start : Position} {name : String} {type : TypeExpr}
    (type_formed : type.Formed Literal.Spelled) :
    (Toplevel.typedef ⟨start, name, type⟩).Legible := by
  have legible := legible_type type_formed
  refine ⟨fun k => by simp [Toplevel.words, toplevelWords], fun n k follows => ?_⟩
  refine .after .kind fun kind here => ?_
  obtain rfl : kind = .typeWord := here
  refine Takes.next.bind fun word _ => (Takes.expect rfl).reads.bind fun t t_word => ?_
  have no_cases : Reads (n + 1) (Grammar.enumCases full) (type.words (spelled .newline :: k))
      (type.words (spelled .newline :: k)) fun cases =>
      cases.map (Prod.map id (Option.map TypeExpr.bare)) = [] :=
    Reads.enumCases (reads_full n) (List.forall_mem_nil _) (List.forall_mem_nil _)
      (legible.begins _).no_case (by simp)
  refine no_cases.bind fun cases none => ?_
  obtain rfl : cases = [] := by simpa using none
  refine ((reads_full (n + 1)).type type _ legible (ends_cons (by decide))).reads.bind
    fun type' same => .pure ?_
  simp [Toplevel.bare, same, text_of_word t_word]

theorem legible_enum {span : Span} {name : String} {cases : List (String × Option TypeExpr)}
    (nonempty : cases ≠ [])
    (payloads_formed : ∀ c ∈ cases, ∀ t, c.2 = some t → t.Formed Literal.Spelled)
    (payloads : ∀ c ∈ cases, ∀ t, c.2 = some t → t.IsPayload) :
    (Toplevel.enum ⟨span, name, cases⟩).Legible := by
  refine ⟨fun k => by simp [Toplevel.words, toplevelWords], fun n k follows => ?_⟩
  refine .after .kind fun kind here => ?_
  obtain rfl : kind = .typeWord := here
  refine Takes.next.bind fun word _ => (Takes.expect rfl).reads.bind fun t t_word => ?_
  refine (Reads.enumCases (reads_full n) payloads_formed payloads follows.no_case
    (by simp)).bind fun cases' same => ?_
  have some : cases' ≠ [] := by
    rintro rfl
    exact nonempty (by simpa using same.symm)
  rw [if_neg (by simpa using some)]
  refine Reads.place.bind fun stop _ => .pure ?_
  simp [Toplevel.bare, same, text_of_word t_word]

end Types

section Functions

/-- A type behind a colon, or nothing. -/
def typeWords (type : Option TypeExpr) : Spelling := fun k =>
  (match type with
    | none => id
    | some t => fun k => spelled .colon :: t.words k) k

theorem Reads.typeAfterColon {type : Option TypeExpr}
    (formed : ∀ t, type = some t → t.Formed Literal.Spelled) (ends : Ends k) :
    Reads n (typeAfterColon full) (typeWords type k) k
      fun type' => type'.map TypeExpr.bare = type.map TypeExpr.bare := by
  cases type with
  | none =>
    refine (Reads.ate_other (ends.ne (by decide))).bind fun colon none => ?_
    rw [none]
    exact .pure rfl
  | some t =>
    have legible := legible_type (formed t rfl)
    refine (Takes.ate rfl).reads.bind fun colon there => ?_
    rw [there]
    refine ((reads_full n).type t k legible ends).reads.bind fun t' same => .pure ?_
    simp [same]

theorem param_words (p : Param) : p.words k = ident p.name :: typeWords p.type k := by
  obtain ⟨name, none | type⟩ := p <;> rfl

theorem Takes.param {p : Param} (formed : ∀ t, p.type = some t → t.Formed Literal.Spelled)
    (ends : Ends k) : Takes n (param full) (p.words k) k fun p' => p'.bare = p.bare := by
  rw [param_words]
  refine (Takes.expect rfl).bind fun t word => ?_
  refine (Reads.typeAfterColon formed ends).bind fun type same => .pure ?_
  obtain ⟨name, type⟩ := p
  simp [Param.bare, same, text_of_word word]

theorem Takes.functionDecl {f : Function}
    (params_formed : ∀ p ∈ f.params, ∀ t, p.type = some t → t.Formed Literal.Spelled)
    (result_formed : ∀ t, f.result = some t → t.Formed Literal.Spelled)
    (body_formed : ∀ s ∈ f.body, s.Formed Literal.Spelled) :
    Takes n (functionDecl full) ((Toplevel.function f).words k) k
      fun f' => (Toplevel.function f').bare = (Toplevel.function f).bare := by
  have words : (Toplevel.function f).words k =
      spelled .funcWord :: ident f.name :: spelled .lparen :: listed (f.params.map Param.words)
        (spelled .rparen :: typeWords f.result (spelled .newline ::
          lines (f.body.map Stmt.words) (spelled .endWord :: k))) := rfl
  rw [words]
  refine Takes.next.bind fun word _ => (Takes.expect rfl).reads.bind fun name name_word => ?_
  refine (Takes.ate rfl).reads.bind fun opening there => ?_
  rw [there]
  have list : Reads n (Parser.closedList .rparen fun _ => Grammar.param full)
      (listed (f.params.map Param.words) (spelled .rparen :: typeWords f.result
        (spelled .newline :: lines (f.body.map Stmt.words) (spelled .endWord :: k))))
      (spelled .rparen :: typeWords f.result
        (spelled .newline :: lines (f.body.map Stmt.words) (spelled .endWord :: k)))
      fun params => params.map Param.bare = f.params.map Param.bare := by
    refine .closedList rfl (by decide) (by decide) (fun p mem k follows => ?_) fun p _ k => ?_
    · exact .param (params_formed p mem) (follows.ends (ends_cons (by decide)))
    · exact param_words p ▸ begins_cons (by decide)
  have params : Reads n (do
      let params ← Parser.closedList .rparen fun _ => Grammar.param full
      let _ ← Parser.expect .rparen "')' closing parameters"
      Pure.pure params)
      (listed (f.params.map Param.words) (spelled .rparen :: typeWords f.result
        (spelled .newline :: lines (f.body.map Stmt.words) (spelled .endWord :: k))))
      (typeWords f.result (spelled .newline ::
        lines (f.body.map Stmt.words) (spelled .endWord :: k)))
      fun params => params.map Param.bare = f.params.map Param.bare :=
    list.bind fun params same => (Takes.expect rfl).reads.bind fun _ _ => .pure same
  refine params.bind fun params params_same => ?_
  refine (Reads.typeAfterColon result_formed (ends_cons (by decide))).bind
    fun result result_same => ?_
  refine (Reads.block (reads_full n) (fun s mem => legible_stmt (body_formed s mem)) (by decide)
    (by simp)).bind fun body body_same => ?_
  refine (Takes.expect rfl).reads.bind fun close _ => Reads.tell.bind fun _ _ => .pure ?_
  simp [Toplevel.bare, params_same, result_same, body_same, text_of_word name_word]

theorem legible_function {f : Function}
    (params_formed : ∀ p ∈ f.params, ∀ t, p.type = some t → t.Formed Literal.Spelled)
    (result_formed : ∀ t, f.result = some t → t.Formed Literal.Spelled)
    (body_formed : ∀ s ∈ f.body, s.Formed Literal.Spelled) : (Toplevel.function f).Legible := by
  refine ⟨fun k => by simp [Toplevel.words, toplevelWords], fun n k follows => ?_⟩
  refine .after .kind fun kind here => ?_
  obtain rfl : kind = .funcWord := here
  exact (Takes.functionDecl params_formed result_formed body_formed).bind fun f' same => .pure same

end Functions

/-- Every declaration is read as what it is. -/
theorem legible_toplevel {d : Toplevel} (formed : d.Formed Literal.Spelled) : d.Legible := by
  cases formed with
  | typedef type_formed => exact legible_typedef type_formed
  | enum nonempty payloads_formed payloads => exact legible_enum nonempty payloads_formed payloads
  | function params_formed result_formed body_formed =>
    exact legible_function params_formed result_formed body_formed
  | importing some_parents some_imported => exact legible_importing some_parents some_imported

section Files

theorem Takes.toplevelItem {d : Toplevel} (legible : d.Legible) (follows : MayFollow k) :
    Takes (n + 1) (toplevelItem full) (d.words (spelled .newline :: k)) (spelled .newline :: k)
      fun d' => d'.bare = d.bare := by
  refine (legible.takes n k follows).bind fun d' same => Reads.kind.bind fun kind here => ?_
  obtain rfl : kind = .newline := here
  exact .pure same

theorem Takes.attempt {α : Type} {p : Parser α} {i : List Word} {good : α → Prop}
    (h : Takes n p i o good) :
    Takes n (attempt p) i o fun found => ∃ a, found = .ok a ∧ good a := by
  intro c shows_ short
  obtain ⟨a, c', run, shows', less, a_good⟩ := h c shows_ short
  refine ⟨.ok a, c', ?_, shows', less, a, rfl, a_good⟩
  simp only [Frontend.attempt, run]

theorem mayFollow_lines {decls : List Toplevel} (legible : ∀ d ∈ decls, d.Legible) :
    MayFollow (lines (decls.map Toplevel.words) []) := by
  cases decls with
  | nil => exact List.mem_cons_self
  | cons d decls => exact List.mem_cons_of_mem _ ((legible d List.mem_cons_self).begins _)

/-- The declarations of a file, behind the end of the line of the one before or without it. -/
theorem Reads.declarations {decls : List Toplevel} (legible : ∀ d ∈ decls, d.Legible)
    (before : List Toplevel) (some : before ++ decls ≠ []) {i : List Word}
    (start : Reads (n + 1) Parser.skipSeparators i (lines (decls.map Toplevel.words) [])
      fun _ => True) :
    Reads (n + 1) (iterate (fileStep full) ⟨before, []⟩) i [] fun h =>
      h.faults = [] ∧ h.decls.reverse.map Toplevel.bare =
        before.reverse.map Toplevel.bare ++ decls.map Toplevel.bare := by
  induction decls generalizing before i with
  | nil =>
    refine .iterate_done (start.bind fun _ _ => Reads.kind.bind fun kind here => ?_)
    obtain rfl : kind = .eof := here
    rw [if_pos (show Kind.eof.isTerminal = true from rfl)]
    refine Reads.bind (P := (· = ⟨before, []⟩)) (Reads.kind.bind fun kind here => ?_)
      fun h same => .pure ⟨h, rfl, by simp [same]⟩
    obtain rfl : kind = .eof := here
    rw [if_neg (by simpa using some)]
    exact .pure rfl
  | cons d decls ih =>
    have ⟨first, rest⟩ := List.forall_mem_cons.mp legible
    have follows := mayFollow_lines rest
    refine Takes.reads (.iterate_again
      (m := spelled .newline :: lines (decls.map Toplevel.words) [])
      (fun h => ∃ d', h = ⟨d' :: before, []⟩ ∧ d'.bare = d.bare) ?_ ?_)
    · refine .after start fun _ _ => .after .kind fun kind here => ?_
      have goes_on : ¬ kind.isTerminal = true := by
        have none : ∀ k ∈ toplevelWords, ¬ k.isTerminal = true := by decide
        exact here ▸ none _ (first.begins _)
      rw [if_neg goes_on]
      refine (Takes.attempt (.toplevelItem first follows)).bind fun found ⟨d', there, same⟩ => ?_
      rw [there]
      exact .pure ⟨_, rfl, d', rfl, same⟩
    · rintro _ ⟨d', rfl, same⟩
      refine (ih rest (d' :: before) (by simp) ?_).mono
        fun h ⟨clean, all⟩ => ⟨clean, by simpa [same] using all⟩
      refine (Takes.skipSeparators ?_).reads
      have plain : ∀ kind ∈ Kind.eof :: toplevelWords, kind.isSeparator = false := by decide
      exact plain _ follows

/-- A file is read as the declarations that it is spelled from. -/
theorem Reads.file {decls : List Toplevel} (some : decls ≠ []) (legible : ∀ d ∈ decls, d.Legible)
    (name : String) : Reads (n + 1) (file name) (fileWords decls) [] fun outcome =>
      ∃ decls', outcome = .ok decls' ∧ decls'.map Toplevel.bare = decls.map Toplevel.bare := by
  refine Reads.tell.bind fun _ _ => ?_
  have start : Reads (n + 1) Parser.skipSeparators (fileWords decls) (fileWords decls)
      fun _ => True := by
    refine .skipSeparators ?_
    have plain : ∀ kind ∈ Kind.eof :: toplevelWords, kind.isSeparator = false := by decide
    exact plain _ (mayFollow_lines legible)
  refine (Reads.declarations legible [] (by simpa using some) start).bind ?_
  rintro ⟨read, faults⟩ ⟨rfl, same⟩
  exact Reads.tell.bind fun _ _ => .pure ⟨_, rfl, by simpa using same⟩

end Files

end Grammar

/-- Tokens of a run that spell a text and its end are a stream that shows the text. -/
theorem shows_scan {source : Source} {words : List Word}
    (spelling : ((scan source).tokens.filter (·.kind != .comment)).map Token.word =
      words ++ [(.eof, "")]) :
    (Cursor.ofTokens (scan source).tokens).Shows words ∧ (scan source).errors = [] := by
  obtain ⟨init, last, stream⟩ := stream_scan source
  rw [stream.seen, List.map_append] at spelling
  obtain ⟨words_eq, last_eq⟩ := List.append_inj' spelling rfl
  have eof : last.kind = .eof := kind_of_word (List.singleton_inj.mp last_eq)
  refine ⟨⟨?_, ?_⟩, stream.clean.mp eof⟩
  · rw [stream.upcoming, words_eq]
  · rw [Cursor.last, stream.ends]
    exact eof

/-- A source whose tokens spell declarations that are read as what they are is parsed without a
fault, and what comes of it are these declarations, up to where things stand. -/
theorem parse_legible {decls : List Toplevel} (some : decls ≠ []) (legible : ∀ d ∈ decls, d.Legible)
    {source : Source}
    (spelling : ((scan source).tokens.filter (·.kind != .comment)).map Token.word =
      fileWords decls ++ [(.eof, "")]) :
    ∃ decls', (parse source).result = .ok decls' ∧
      decls'.map Toplevel.bare = decls.map Toplevel.bare := by
  obtain ⟨shows_, clean⟩ := shows_scan spelling
  obtain ⟨_, c', run, -, -, decls', rfl, same⟩ :=
    Grammar.Reads.file some legible source.name _ shows_ (Nat.lt_succ_self _)
  refine ⟨decls', ?_, same⟩
  simp only [parse, clean, parseTokens, run]

/-- A source whose tokens spell a tree of the grammar without decimals is parsed without a fault,
and what comes of it is the tree, up to where things stand. -/
theorem parse_fileWords {decls : List Toplevel} (formed : Toplevel.FormedFile Literal.Spelled decls)
    {source : Source}
    (spelling : ((scan source).tokens.filter (·.kind != .comment)).map Token.word =
      fileWords decls ++ [(.eof, "")]) :
    ∃ decls', (parse source).result = .ok decls' ∧
      decls'.map Toplevel.bare = decls.map Toplevel.bare :=
  parse_legible formed.nonempty (fun d mem => legible_toplevel (formed.formed d mem)) spelling

/-- A function that returns the negative of its parameter, as it is written. -/
theorem parse_fileWords_negative :
    let decls : List Toplevel := [.function ⟨default, "f", [⟨"x", none⟩], none,
      [⟨default, .ret [⟨default, .unary .neg ⟨default, .variable "x"⟩⟩]⟩]⟩]
    let source : Source := .inMemory "a" (Utf8.ofString "func f(x)\nret (-(x))\nend\n")
    Toplevel.FormedFile Literal.Spelled decls ∧
      ((scan source).tokens.filter (·.kind != .comment)).map Token.word =
        fileWords decls ++ [(.eof, "")] ∧
      ∃ decls', (parse source).result = .ok decls' ∧
        decls'.map Toplevel.bare = decls.map Toplevel.bare := by
  intro decls source
  have formed : Toplevel.FormedFile Literal.Spelled decls := by
    refine ⟨List.cons_ne_nil _ _, List.forall_mem_singleton.mpr (.function ?_ nofun ?_)⟩
    · exact List.forall_mem_singleton.mpr nofun
    · exact List.forall_mem_singleton.mpr (.ret (List.forall_mem_singleton.mpr (.unary .variable)))
  have spelling : ((scan source).tokens.filter (·.kind != .comment)).map Token.word =
      fileWords decls ++ [(.eof, "")] := by cbv
  exact ⟨formed, spelling, parse_fileWords formed spelling⟩

end Frontend
