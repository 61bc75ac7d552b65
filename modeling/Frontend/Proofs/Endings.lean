import Frontend.Proofs.AdvancingFiles
import Frontend.Proofs.Consumers

/-!
The parser hears its stream out. Whatever it comes to, it has received everything up to the first
terminal token, and nothing behind it; it accepts a stream only with a legal end and with all other
tokens taken. A scanner that works for it is therefore never left before it has reported its error.
-/
namespace Frontend

open Token (Kind)

namespace Grammar

/-- Comments do not end a stream, so it does not matter when they are left out. -/
theorem takeWhile_seen (tokens : List Token) :
    (tokens.filter (·.kind != .comment)).takeWhile (!·.kind.isTerminal) =
      (tokens.takeWhile (!·.kind.isTerminal)).filter (·.kind != .comment) := by
  induction tokens with
  | nil => rfl
  | cons t rest ih =>
    by_cases comment : t.kind = .comment
    · have going : Kind.isTerminal .comment = false := rfl
      simp [comment, going, ih]
    · by_cases terminal : t.kind.isTerminal = true
      · simp [comment, terminal]
      · simp [comment, terminal, ih]

theorem find?_seen (tokens : List Token) :
    (tokens.filter (·.kind != .comment)).find? (·.kind.isTerminal) =
      tokens.find? (·.kind.isTerminal) := by
  rw [List.find?_filter]
  congr 1
  funext t
  cases t.kind <;> rfl

/-- What of a stream up to its end is no comment: what a cursor has in front, and the end. -/
theorem uptoEnd_seen (tokens : List Token) :
    (uptoEnd tokens).filter (·.kind != .comment) =
      (Cursor.ofTokens tokens).upcoming ++ (Cursor.ofTokens tokens).terminal.toList := by
  have upcoming : (Cursor.ofTokens tokens).upcoming =
      (tokens.takeWhile (!·.kind.isTerminal)).filter (·.kind != .comment) := takeWhile_seen tokens
  have terminal : (Cursor.ofTokens tokens).terminal = tokens.find? (·.kind.isTerminal) :=
    find?_seen tokens
  rw [upcoming, terminal, uptoEnd, List.filter_append]
  congr 1
  cases found : tokens.find? (·.kind.isTerminal) with
  | none => rfl
  | some t =>
    have ends := List.find?_some found
    have no_comment : (t.kind != .comment) = true := by
      refine bne_iff_ne.mpr fun comment => ?_
      rw [comment] at ends
      cases ends
    simp [no_comment]

/-- The kind of the end stays what it is. -/
theorem Cursor.Passes.kind_last {c c' : Cursor} {taken : List Token} (passes : c.Passes taken c') :
    c'.last.kind = c.last.kind := by
  induction passes with
  | stay => rfl
  | receive _ n ih => rwa [last_receive]
  | tell _ e _ ih => exact ih
  | take _ _ ih => rwa [kind_last_advance, last_receive]

end Grammar

open Grammar in
/-- How the parsing of a stream ends: everything before the end is taken, the end is received, and
what has been received is told in order. -/
theorem parseTokens_ends (source : Source) (tokens : List Token) :
    (∃ found c', file source.name (.ofTokens tokens) = .ok found c' ∧
      (Cursor.ofTokens tokens).Passes
        ((tokens.takeWhile (!·.kind.isTerminal)).filter (·.kind != .comment)) c' ∧
      c'.upcoming = [] ∧ c'.ending = some c'.last) ∧
    (parseTokens source tokens).events.filterMap Event.received? =
      (uptoEnd tokens).filter (·.kind != .comment) ∧
    ∀ decls, (parseTokens source tokens).result = .ok decls →
      ∀ t, tokens.find? (·.kind.isTerminal) = some t → t.kind ≠ .illegal := by
  obtain ⟨found, taken, c', run, passes, spent, ending, legal, -⟩ := file_ok source.name tokens
  have all : taken = (tokens.takeWhile (!·.kind.isTerminal)).filter (·.kind != .comment) := by
    have upcoming := passes.upcoming (Cursor.proper_ofTokens tokens)
    rw [spent, List.append_nil] at upcoming
    rw [← upcoming, ← takeWhile_seen]
    rfl
  have hears := passes.hears (Cursor.proper_ofTokens tokens) (Cursor.hears_ofTokens tokens)
  have heard : c'.heard = (uptoEnd tokens).filter (·.kind != .comment) := by
    have upcoming := passes.upcoming (Cursor.proper_ofTokens tokens)
    rw [spent, List.append_nil] at upcoming
    rw [hears.heard_eq, spent, ending, passes.terminal, uptoEnd_seen, upcoming]
    simp
  refine ⟨⟨found, c', run, all ▸ passes, spent, ending⟩, ?_, ?_⟩
  · rw [← heard]
    unfold parseTokens
    rw [run]
    cases found <;> rfl
  · intro decls accepted t terminal
    cases found with
    | error r =>
      unfold parseTokens at accepted
      rw [run] at accepted
      cases accepted
    | ok decls' =>
      have last : (Cursor.ofTokens tokens).last = t := by
        show ((none : Option Token).or ((tokens.filter (·.kind != .comment)).find?
          (·.kind.isTerminal))).getD (.eofAt .start) = t
        rw [find?_seen, terminal]
        rfl
      rw [← last, ← passes.kind_last]
      exact legal decls' rfl

/-- All tokens of a source are up to its end. -/
theorem uptoEnd_scan (source : Source) :
    Grammar.uptoEnd (scan source).tokens = (scan source).tokens := by
  obtain ⟨init, last, tokens, plain, terminal, -⟩ := Scan.onward_ends source.name
    (Utf8.readable source.code).2 .start (Utf8.readable source.code).1
  have tokens : (scan source).tokens = init ++ [last] := tokens
  have going : ∀ t ∈ init, (!t.kind.isTerminal) = true := fun t mem => by simp [plain t mem]
  have none : init.find? (·.kind.isTerminal) = none :=
    List.find?_eq_none.mpr fun t mem => by simp [plain t mem]
  rw [tokens, Grammar.uptoEnd, List.takeWhile_append_of_pos going, List.find?_append, none]
  simp [terminal]

/-- The parser hears its stream out. When it returns, with a tree or with errors, it has received
all tokens up to the first terminal one or the close of the stream, and none behind it, and it has
taken all of them but the end and the comments; it returns a tree only if the end is not an illegal
token. So a scanner whose consumer hangs up on what the parser has not received reports what it
reports to a consumer who stays, and a source with a lexical error is rejected with just that
error. -/
theorem parsing_hears_out (source : Source) (tokens : List Token) :
    (∃ found c', Grammar.file source.name (.ofTokens tokens) = .ok found c' ∧
      (Grammar.Cursor.ofTokens tokens).Passes
        ((tokens.takeWhile (!·.kind.isTerminal)).filter (·.kind != .comment)) c' ∧
      c'.upcoming = [] ∧ c'.ending = some c'.last) ∧
    (parseTokens source tokens).events.filterMap Grammar.Event.received? =
      (Grammar.uptoEnd tokens).filter (·.kind != .comment) ∧
    (∀ decls, (parseTokens source tokens).result = .ok decls →
      ∀ t, tokens.find? (·.kind.isTerminal) = some t → t.kind ≠ .illegal) ∧
    (Scan.run source (some (Grammar.uptoEnd (scan source).tokens).length)).errors =
      (scan source).errors ∧
    ((scan source).errors ≠ [] →
      ∃ e, (scan source).errors = [e] ∧ (parse source).result = .error (e.diagnostic source)) := by
  obtain ⟨ends, heard, legal⟩ := parseTokens_ends source tokens
  refine ⟨ends, heard, legal, ?_, ?_⟩
  · have cut := Scan.run_cutAt source (Grammar.uptoEnd (scan source).tokens).length
    rw [cut.errors, uptoEnd_scan, if_pos (Nat.le_succ _)]
  · intro faulty
    obtain ⟨init, last, -, -, ⟨-, clean⟩ | ⟨-, e, error, -⟩⟩ := Scan.onward_last source.name
      (Utf8.readable source.code).2 .start (Utf8.readable source.code).1
    · exact absurd clean faulty
    · have error : (scan source).errors = [e] := error
      refine ⟨e, error, ?_⟩
      simp only [parse, error]

/-- Two declarations that are broken, and a string that is not closed behind them. -/
theorem parsing_hears_out_open_string :
    let source : Source := .inMemory "a" (Utf8.ofString "func 1\ntype 2\n\"s")
    (scan source).errors ≠ [] ∧
      ∃ e, (scan source).errors = [e] ∧ (parse source).result = .error (e.diagnostic source) := by
  intro source
  have faulty : (scan source).errors ≠ [] := by decide +kernel
  obtain ⟨-, -, -, -, rejected⟩ := parsing_hears_out source []
  exact ⟨faulty, rejected faulty⟩

end Frontend
