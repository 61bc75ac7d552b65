import Frontend.Grammar.Cursor
import Frontend.Proofs.Tiling

/-!
What a parser sees of a scanned source. A run of the scanner ends with its only terminal token, and
the tokens in front of it that are no comments are what a cursor at the start has ahead.
-/
namespace Frontend

namespace Scan

/-- A run ends with a terminal token, its only one: the end, or the stretch of the only error. -/
theorem onward_last (name : String) (cut : Option UInt8) (here : Position) (text : List Char) :
    ∃ init last, (onward name cut none here text).tokens = init ++ [last] ∧
      (∀ t ∈ init, t.kind.isTerminal = false) ∧
      (last.kind = .eof ∧ (onward name cut none here text).errors = [] ∨
        last.kind = .illegal ∧
          ∃ e, (onward name cut none here text).errors = [e] ∧ e.span = last.span) := by
  generalize unlimited : (none : Option Nat) = room
  fun_induction onward name cut room here text with
  | case1 room here text blank rest start fault size read word span token =>
    subst unlimited
    refine ⟨[], token, rfl, fun _ mem => absurd mem List.not_mem_nil, .inr ⟨rfl, ?_⟩⟩
    exact ⟨⟨fault, span⟩, rfl, rfl⟩
  | case2 => cases unlimited
  | case3 room here text blank rest start size word stop present read token =>
    exact ⟨[], token, rfl, fun _ mem => absurd mem List.not_mem_nil, .inl ⟨rfl, rfl⟩⟩
  | case4 room here text blank rest start kind size read word stop token present going more ih =>
    subst unlimited
    obtain ⟨init, last, tokens, plain, ends⟩ := ih rfl
    refine ⟨token :: init, last, congrArg (token :: ·) tokens, ?_, ends⟩
    refine List.forall_mem_cons.mpr ⟨Bool.eq_false_iff.mpr fun terminal => ?_, plain⟩
    exact going (Lexeme.read_terminal read terminal).1

/-- The only terminal token of a run marks the end unless there is an error. -/
theorem onward_ends (name : String) (cut : Option UInt8) (here : Position) (text : List Char) :
    ∃ init last, (onward name cut none here text).tokens = init ++ [last] ∧
      (∀ t ∈ init, t.kind.isTerminal = false) ∧ last.kind.isTerminal = true ∧
      (last.kind = .eof ↔ (onward name cut none here text).errors = []) := by
  obtain ⟨init, last, tokens, plain, ⟨eof, clean⟩ | ⟨illegal, e, error, _⟩⟩ :=
    onward_last name cut here text
  · exact ⟨init, last, tokens, plain, by simp [eof, Token.Kind.isTerminal], by simp [eof, clean]⟩
  · exact ⟨init, last, tokens, plain, by simp [illegal, Token.Kind.isTerminal],
      by simp [illegal, error]⟩

end Scan

/-- The tokens of a source, and the cursor at their start. -/
structure Stream (source : Source) (init : List Token) (last : Token) : Prop where
  tokens : (scan source).tokens = init ++ [last]
  plain : ∀ t ∈ init, t.kind.isTerminal = false
  terminal : last.kind.isTerminal = true
  clean : last.kind = .eof ↔ (scan source).errors = []
  seen : (scan source).tokens.filter (·.kind != .comment) =
    init.filter (·.kind != .comment) ++ [last]
  upcoming : (Grammar.Cursor.ofTokens (scan source).tokens).upcoming =
    init.filter (·.kind != .comment)
  ends : (Grammar.Cursor.ofTokens (scan source).tokens).terminal = some last

/-- Every source is a stream. -/
theorem stream_scan (source : Source) : ∃ init last, Stream source init last := by
  obtain ⟨init, last, tokens, plain, terminal, clean⟩ := Scan.onward_ends source.name
    (Utf8.readable source.code).2 .start (Utf8.readable source.code).1
  have tokens : (scan source).tokens = init ++ [last] := tokens
  have no_comment : (last.kind != .comment) = true := by
    refine bne_iff_ne.mpr fun comment => ?_
    rw [comment] at terminal
    cases terminal
  have seen : (scan source).tokens.filter (·.kind != .comment) =
      init.filter (·.kind != .comment) ++ [last] := by
    simp [tokens, List.filter_append, no_comment]
  have going : ∀ t ∈ init.filter (·.kind != .comment), (!t.kind.isTerminal) = true := by
    intro t mem
    simp [plain t (List.mem_filter.mp mem).1]
  refine ⟨init, last, tokens, plain, terminal, clean, seen, ?_, ?_⟩
  · show ((scan source).tokens.filter (·.kind != .comment)).takeWhile (!·.kind.isTerminal) = _
    rw [seen, List.takeWhile_append_of_pos going, List.takeWhile_cons_of_neg (by simp [terminal]),
      List.append_nil]
  · show ((scan source).tokens.filter (·.kind != .comment)).find? (·.kind.isTerminal) = some last
    rw [seen, List.find?_append, List.find?_eq_none.mpr fun t mem => by simpa using going t mem]
    simp [terminal]

end Frontend
