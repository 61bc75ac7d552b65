import Frontend.Proofs.Tiling

/-!
Positions that are true of their source. A position counts the bytes in front of it, the newlines
among them, and the bytes behind the last newline; a scanner that moves on character by character
never leaves such positions. What a run emits or reports is read off a text that it stands in front
of, so that facts about single words are facts about the tokens of a source.
-/
namespace Frontend

/-- A position that says of a source what is true of it. -/
structure Source.HasPosition (source : Source) (p : Position) : Prop where
  inside : p.offset ≤ source.code.length
  line : p.line = 1 + (source.code.take p.offset).count 10
  column : p.column = 1 + ((source.code.take p.offset).reverse.takeWhile (· ≠ 10)).length

namespace Position

/-- The position behind some bytes. -/
def behind (bytes : List UInt8) : Position :=
  ⟨bytes.length, 1 + bytes.count 10, 1 + (bytes.reverse.takeWhile (· ≠ 10)).length⟩

/-- Bytes without a newline move the column only. -/
theorem behind_append_of_notMem {bytes more : List UInt8} (h : 10 ∉ more) :
    behind (bytes ++ more) =
      ⟨(behind bytes).offset + more.length, (behind bytes).line,
        (behind bytes).column + more.length⟩ := by
  have inside : ∀ b ∈ more.reverse, decide (b ≠ 10) = true := by
    intro b mem
    have other : b ≠ 10 := fun eq => h (eq ▸ List.mem_reverse.mp mem)
    simpa using other
  unfold behind
  rw [List.reverse_append, List.takeWhile_append_of_pos inside, List.count_append,
    List.count_eq_zero_of_not_mem h]
  simp
  omega

theorem behind_advance (bytes : List UInt8) (c : Char) :
    (behind bytes).advance c = behind (bytes ++ String.utf8EncodeChar c) := by
  by_cases newline : c = '\n'
  · subst newline
    have encoded : String.utf8EncodeChar '\n' = [10] := by decide
    rw [encoded]
    simp [advance, behind, List.count_append, Char.utf8Size]
    omega
  · have other : 10 ∉ String.utf8EncodeChar c :=
      fun mem => newline (Utf8.newline_mem_encodeChar mem)
    rw [behind_append_of_notMem other, String.length_utf8EncodeChar]
    simp [advance, newline]

theorem behind_after (bytes : List UInt8) (text : List Char) :
    (behind bytes).after text = behind (bytes ++ Utf8.encode text) := by
  induction text generalizing bytes with
  | nil => simp
  | cons c text ih => rw [after_cons, behind_advance, ih, Utf8.encode_cons, List.append_assoc]

/-- Reading from the start of a source leads behind the bytes that were read. -/
theorem start_after (text : List Char) : start.after text = behind (Utf8.encode text) :=
  behind_after [] text

end Position

/-- What leads a source ends at a position of that source. -/
theorem Source.hasPosition_behind {source : Source} {bytes : List UInt8}
    (h : bytes <+: source.code) : source.HasPosition (.behind bytes) := by
  have read : source.code.take bytes.length = bytes := (List.prefix_iff_eq_take.mp h).symm
  refine ⟨h.length_le, ?_, ?_⟩
  · show 1 + bytes.count 10 = 1 + (source.code.take bytes.length).count 10
    rw [read]
  · show 1 + _ = 1 + ((source.code.take bytes.length).reverse.takeWhile _).length
    rw [read]

namespace Scan

/-- A run that has come to `here` and has `text` ahead. The text ends where the source does, or in
front of bytes that begin with no character. -/
def Faces (source : Source) (here : Position) (text : List Char) : Prop :=
  ∃ read tail, source.code = Utf8.encode (read ++ text) ++ tail ∧
    Utf8.decodeHead tail = none ∧ here = Position.start.after read

theorem faces_start (source : Source) :
    Faces source .start (Utf8.readable source.code).1 := by
  obtain ⟨tail, whole, ends⟩ := Utf8.readable_stops source.code
  exact ⟨[], tail, whole, ends, rfl⟩

variable {source : Source} {here : Position} {text word rest : List Char}

/-- Reading on moves the position over what is read. -/
theorem Faces.after (h : Faces source here (word ++ rest)) :
    Faces source (here.after word) rest := by
  obtain ⟨read, tail, whole, ends, rfl⟩ := h
  refine ⟨read ++ word, tail, ?_, ends, ?_⟩
  · rw [whole, List.append_assoc]
  · rw [Position.after_append]

theorem Faces.hasPosition (h : Faces source here text) : source.HasPosition here := by
  obtain ⟨read, tail, whole, -, rfl⟩ := h
  rw [Position.start_after]
  apply Source.hasPosition_behind
  rw [whole, Utf8.encode_append, List.append_assoc]
  exact List.prefix_append _ _

theorem Faces.take (h : Faces source here text) (size : Nat) :
    Faces source (here.after (text.take size)) (text.drop size) := by
  rw [← List.take_append_drop size text] at h
  exact h.after

/-- The source behind `here` begins with what is ahead. -/
theorem Faces.drop (h : Faces source here text) :
    ∃ tail, source.code.drop here.offset = Utf8.encode text ++ tail ∧
      Utf8.decodeHead tail = none := by
  obtain ⟨read, tail, whole, ends, rfl⟩ := h
  refine ⟨tail, ?_, ends⟩
  rw [Position.start_after, whole, Utf8.encode_append, List.append_assoc]
  exact List.drop_left

/-- The words that lead the source behind `here` are those that lead the text ahead. -/
theorem Faces.prefix_iff (h : Faces source here text) :
    Utf8.encode word <+: source.code.drop here.offset ↔ word <+: text := by
  obtain ⟨tail, ahead, ends⟩ := h.drop
  rw [ahead]
  constructor
  · exact Utf8.prefix_of_encode_prefix ends
  · rintro ⟨more, rfl⟩
    rw [Utf8.encode_append, List.append_assoc]
    exact List.prefix_append _ _

/-- How a token comes about: as the word at the head of the text ahead, or as what is wrong
there. -/
inductive Emitted (source : Source) (cut : Option UInt8) : Token → Prop
  | word {start : Position} {text : List Char} {kind : Token.Kind} {size : Nat}
      (faces : Faces source start text) (read : Lexeme.read cut text = .token kind size) :
      Emitted source cut
        ⟨kind, String.ofList (text.take size), start, start.after (text.take size)⟩
  | illegal {start : Position} {text : List Char} {fault : Lexeme.Fault} {size : Nat}
      (faces : Faces source start text) (read : Lexeme.read cut text = .fault fault size) :
      Emitted source cut
        ⟨.illegal, String.ofList (text.take size), start, start.after (text.take size)⟩

/-- How a lexical error comes about. -/
inductive Reported (source : Source) (cut : Option UInt8) : LexError → Prop
  | fault {start : Position} {text : List Char} {fault : Lexeme.Fault} {size : Nat}
      (faces : Faces source start text) (read : Lexeme.read cut text = .fault fault size) :
      Reported source cut ⟨fault, start, start.after (text.take size)⟩

theorem onward_emitted (name : String) {cut : Option UInt8} (room : Option Nat)
    (h : Faces source here text) :
    (∀ t ∈ (onward name cut room here text).tokens, Emitted source cut t) ∧
      ∀ e ∈ (onward name cut room here text).errors, Reported source cut e := by
  have atWord {here : Position} {text : List Char} (h : Faces source here text) :
      Faces source (here.after (text.takeWhile Lexeme.isBlank))
        (text.drop (text.takeWhile Lexeme.isBlank).length) := by
    apply Faces.after
    rwa [List.prefix_iff_eq_append.mp (List.takeWhile_prefix _)]
  fun_induction onward name cut room here text with
  | case1 room here text blank rest start fault size read word span token =>
    have faces := atWord h
    constructor
    · intro t mem
      split at mem
      · cases mem
      · rw [List.mem_singleton.mp mem]
        exact .illegal faces read
    · intro e mem
      rw [List.mem_singleton.mp mem]
      exact .fault faces read
  | case2 =>
    constructor <;>
    · intro _ mem
      cases mem
  | case3 room here text blank rest start size word stop present read token =>
    have faces := atWord h
    constructor
    · intro t mem
      rw [List.mem_singleton.mp mem]
      exact .word faces read
    · intro e mem
      cases mem
  | case4 room here text blank rest start kind size read word stop token present going more ih =>
    have faces := atWord h
    have behind : Faces source stop (rest.drop size) := by
      apply Faces.after
      rwa [List.take_append_drop]
    obtain ⟨tokens, errors⟩ := ih behind
    refine ⟨List.forall_mem_cons.mpr ⟨.word faces read, tokens⟩, errors⟩

/-- The tokens and errors of a source come about on the text that can be read of it. -/
theorem scan_emitted (source : Source) :
    (∀ t ∈ (scan source).tokens, Emitted source (Utf8.readable source.code).2 t) ∧
      ∀ e ∈ (scan source).errors, Reported source (Utf8.readable source.code).2 e :=
  onward_emitted source.name none (faces_start source)

theorem Emitted.faces {cut : Option UInt8} {t : Token} (h : Emitted source cut t) :
    (∃ text, Faces source t.span.start text) ∧ ∃ text, Faces source t.span.stop text := by
  cases h with
  | word faces read => exact ⟨⟨_, faces⟩, _, faces.take _⟩
  | illegal faces read => exact ⟨⟨_, faces⟩, _, faces.take _⟩

theorem Emitted.hasPosition {cut : Option UInt8} {t : Token} (h : Emitted source cut t) :
    source.HasPosition t.span.start ∧ source.HasPosition t.span.stop := by
  obtain ⟨⟨_, start⟩, _, stop⟩ := h.faces
  exact ⟨start.hasPosition, stop.hasPosition⟩

theorem Reported.faces {cut : Option UInt8} {e : LexError} (h : Reported source cut e) :
    (∃ text, Faces source e.span.start text) ∧ (∃ text, Faces source e.span.stop text) ∧
      e.span.start.offset ≤ e.span.stop.offset := by
  cases h with
  | @fault start text fault size faces read =>
    refine ⟨⟨_, faces⟩, ⟨_, faces.take _⟩, ?_⟩
    exact Nat.le.intro (Position.offset_after start _).symm

theorem Reported.hasPosition {cut : Option UInt8} {e : LexError} (h : Reported source cut e) :
    source.HasPosition e.span.start ∧ source.HasPosition e.span.stop ∧
      e.span.start.offset ≤ e.span.stop.offset := by
  obtain ⟨⟨_, start⟩, ⟨_, stop⟩, order⟩ := h.faces
  exact ⟨start.hasPosition, stop.hasPosition, order⟩

end Scan

end Frontend
