import Frontend.Proofs.Decoding
import Frontend.Token.Scan

/-!
Tokens tile their source: they lie one behind the other, what lies between them is blank, and a
stream that comes to the end of the text leaves out nothing. The invariant of a run is that the
source is the text read so far, the text still ahead, and a tail that is no text, where the
position counts the bytes of the first.
-/
namespace Frontend

/-- The bytes of a source between two offsets. -/
def Source.between (source : Source) (start stop : Nat) : List UInt8 :=
  (source.code.drop start).take (stop - start)

/-- Bytes that decode to white space without a newline. -/
def Blank (bytes : List UInt8) : Prop :=
  ∀ c ∈ Utf8.decodeLossy bytes, Unicode.isWhitespace c = true ∧ c ≠ '\n'

/-- Tokens that lie in a source from an offset on, in order and with only blanks between them. Each
has the text that it spans, and all but those that end a stream span something. -/
def Tiles (source : Source) : Nat → List Token → Prop
  | _, [] => True
  | here, t :: more =>
    here ≤ t.span.start.offset ∧
    Blank (source.between here t.span.start.offset) ∧
    t.span.start.offset ≤ t.span.stop.offset ∧
    (t.kind ≠ .eof → t.kind ≠ .illegal → t.span.start.offset < t.span.stop.offset) ∧
    t.span.stop.offset ≤ source.code.length ∧
    Utf8.ofString t.text = source.between t.span.start.offset t.span.stop.offset ∧
    Tiles source t.span.stop.offset more

/-- The gaps before tokens and the texts of the tokens, in order. -/
def woven (source : Source) : Nat → List Token → List UInt8
  | _, [] => []
  | here, t :: more =>
    source.between here t.span.start.offset ++
      (Utf8.ofString t.text ++ woven source t.span.stop.offset more)

theorem Position.offset_after (p : Position) (text : List Char) :
    (p.after text).offset = p.offset + (Utf8.encode text).length := by
  induction text generalizing p with
  | nil => rfl
  | cons c text ih =>
    rw [after_cons, ih, offset_advance, Utf8.encode_cons, List.length_append,
      String.length_utf8EncodeChar, Nat.add_assoc]

theorem Source.between_append (source : Source) {a b c : Nat} (ab : a ≤ b) (bc : b ≤ c) :
    source.between a b ++ source.between b c = source.between a c := by
  have later : source.code.drop b = (source.code.drop a).drop (b - a) := by
    rw [List.drop_drop, Nat.add_sub_cancel' ab]
  rw [between, between, between, later, ← List.take_add]
  congr 1
  omega

/-- Bytes that stand between two known parts of a source. -/
theorem Source.between_eq {source : Source} {before here after : List UInt8}
    (whole : source.code = before ++ (here ++ after)) :
    source.between before.length (before.length + here.length) = here := by
  rw [between, whole, List.drop_left, Nat.add_sub_cancel_left, List.take_left]

/-- Tiles together with their gaps are all that lies before the end of the last one. -/
theorem woven_eq {source : Source} {here : Nat} {tokens : List Token} {t : Token}
    (h : Tiles source here tokens) (last : tokens.getLast? = some t) :
    woven source here tokens = source.between here t.span.stop.offset ∧
      here ≤ t.span.stop.offset := by
  induction tokens generalizing here with
  | nil => simp at last
  | cons u more ih =>
    obtain ⟨before, -, inside, -, -, text, rest⟩ := h
    cases more with
    | nil =>
      obtain rfl : u = t := by simpa using last
      refine ⟨?_, Nat.le_trans before inside⟩
      rw [woven, woven, text, List.append_nil, source.between_append before inside]
    | cons v more =>
      obtain ⟨eq, order⟩ := ih rest last
      refine ⟨?_, by omega⟩
      rw [woven, text, eq, source.between_append inside order,
        source.between_append before (Nat.le_trans inside order)]

namespace Lexeme

/-- Blanks decode to themselves. -/
theorem blank_encode {gap : List Char} (h : ∀ c ∈ gap, isBlank c = true) :
    Blank (Utf8.encode gap) := by
  rw [Blank, Utf8.decodeLossy_encode]
  intro c mem
  simpa [isBlank] using h c mem

theorem isTerminal_ofKeyword? (word : String) :
    ((Token.Kind.ofKeyword? word).getD .ident).isTerminal = false := by
  cases found : Token.Kind.ofKeyword? word with
  | none => decide
  | some k =>
    obtain ⟨before, after, eq, -⟩ := List.lookup_eq_some_iff.mp found
    have all : ∀ entry ∈ Token.Kind.keywords, entry.2.isTerminal = false := by decide
    exact all (word, k) (by rw [eq]; simp)

theorem isTerminal_operator? {c : Char} {alone : Token.Kind} {pairs : List (Char × Token.Kind)}
    (h : operator? c = some (alone, pairs)) :
    alone.isTerminal = false ∧ ∀ entry ∈ pairs, entry.2.isTerminal = false := by
  unfold operator? at h
  split at h <;> cases h <;> decide

variable {cut : Option UInt8} {kind : Token.Kind} {text rest : List Char} {size : Nat}

theorem isTerminal_readOperator {alone : Token.Kind} {pairs : List (Char × Token.Kind)}
    (h : readOperator alone pairs rest = .token kind size) (single : alone.isTerminal = false)
    (double : ∀ entry ∈ pairs, entry.2.isTerminal = false) : kind.isTerminal = false := by
  unfold readOperator at h
  split at h
  · next found =>
    obtain ⟨d, -, found⟩ := Option.bind_eq_some_iff.mp found
    obtain ⟨before, after, eq, -⟩ := List.lookup_eq_some_iff.mp found
    cases h
    exact double (d, kind) (by rw [eq]; simp)
  · cases h
    exact single

theorem isTerminal_readIdent {taken : Nat} (h : readIdent cut taken text = .token kind size) :
    kind.isTerminal = false := by
  unfold readIdent at h
  split at h
  · split at h
    · cases h
      split
      · exact isTerminal_ofKeyword? _
      · rfl
    · cases h
  · cases h

theorem isTerminal_readRadix {isDigit : Char → Bool} {what : Expected}
    (h : readRadix cut isDigit what rest = .token kind size) : kind.isTerminal = false := by
  simp only [readRadix] at h
  split at h
  · cases h
  · split at h <;> cases h <;> rfl

theorem isTerminal_readDecimal (h : readDecimal cut text = .token kind size) :
    kind.isTerminal = false := by
  simp only [readDecimal] at h
  split at h
  · split at h <;> cases h
    rfl
  · split at h
    · cases h
      rfl
    · split at h <;> cases h <;> rfl

theorem isTerminal_readNumber (h : readNumber cut text = .token kind size) :
    kind.isTerminal = false := by
  unfold readNumber at h
  split at h
  · split at h
    · exact isTerminal_readRadix h
    · exact isTerminal_readDecimal h
  · exact isTerminal_readDecimal h

/-- Only the end of a text that is whole reads as an end. -/
theorem read_terminal (h : read cut text = .token kind size) (terminal : kind.isTerminal = true) :
    kind = .eof ∧ text = [] ∧ cut = none ∧ size = 0 := by
  have goes_on : kind.isTerminal ≠ false := by simp [terminal]
  unfold read at h
  split at h
  · cases cut with
    | none => cases h; exact ⟨rfl, rfl, rfl, rfl⟩
    | some b => cases h
  · cases h; cases terminal
  · cases h; cases terminal
  · simp only [readString] at h
    split at h <;> cases h
    cases terminal
  · exact absurd (isTerminal_readIdent h) goes_on
  · simp only [readDoubled] at h
    split at h <;> cases h
    cases terminal
  · simp only [readDoubled] at h
    split at h <;> cases h
    cases terminal
  · split at h
    · next found =>
      obtain ⟨single, double⟩ := isTerminal_operator? found
      exact absurd (isTerminal_readOperator h single double) goes_on
    · split at h
      · exact absurd (isTerminal_readNumber h) goes_on
      · exact absurd (isTerminal_readIdent h) goes_on

end Lexeme

namespace Scan

/-- A run at `here`: the source is the text read so far, the text ahead, and a tail that the text
is cut off by. -/
def Stands (source : Source) (cut : Option UInt8) (here : Position) (text : List Char) : Prop :=
  ∃ read tail, source.code = Utf8.encode read ++ (Utf8.encode text ++ tail) ∧
    cut = tail.head? ∧ here.offset = (Utf8.encode read).length

/-- Reading on moves the position over what is read. -/
theorem Stands.after {source : Source} {cut : Option UInt8} {here : Position}
    {word rest : List Char}
    (h : Stands source cut here (word ++ rest)) : Stands source cut (here.after word) rest := by
  obtain ⟨read, tail, whole, ends, place⟩ := h
  refine ⟨read ++ word, tail, ?_, ends, ?_⟩
  · simp only [whole, Utf8.encode_append, List.append_assoc]
  · rw [Position.offset_after, Utf8.encode_append, List.length_append, place]

/-- What lies between here and the end of the next characters is their encoding. -/
theorem Stands.between {source : Source} {cut : Option UInt8} {here : Position}
    {word rest : List Char} (h : Stands source cut here (word ++ rest)) :
    source.between here.offset (here.after word).offset = Utf8.encode word := by
  obtain ⟨read, tail, whole, -, place⟩ := h
  rw [Position.offset_after, place]
  have parts : source.code =
      Utf8.encode read ++ (Utf8.encode word ++ (Utf8.encode rest ++ tail)) := by
    rw [whole, Utf8.encode_append, List.append_assoc]
  exact Source.between_eq parts

theorem Stands.inside {source : Source} {cut : Option UInt8} {here : Position} {text : List Char}
    (h : Stands source cut here text) : here.offset ≤ source.code.length := by
  obtain ⟨read, tail, whole, -, place⟩ := h
  rw [place, whole, List.length_append]
  omega

/-- At the end of a text that nothing cuts off the whole source is read. -/
theorem Stands.atEnd {source : Source} {here : Position} (h : Stands source none here []) :
    here.offset = source.code.length ∧ source.code.toByteArray.IsValidUTF8 := by
  obtain ⟨read, tail, whole, ends, place⟩ := h
  have nothing : tail = [] := List.head?_eq_none_iff.mp ends.symm
  simp only [nothing, Utf8.encode_nil, List.append_nil] at whole
  exact ⟨by rw [place, whole], by rw [whole]; exact Utf8.isValidUTF8_encode read⟩

theorem stands_start (source : Source) :
    Stands source (Utf8.readable source.code).2 .start (Utf8.readable source.code).1 := by
  obtain ⟨tail, whole, ends⟩ := Utf8.readable_append source.code
  exact ⟨[], tail, whole, ends, rfl⟩

/-- What a run does with the word at the head of a text: blanks before it, the word, the rest. -/
theorem Stands.word {source : Source} {cut : Option UInt8} {here : Position} {text : List Char}
    (h : Stands source cut here text) (size : Nat) :
    let blank := text.takeWhile Lexeme.isBlank
    let rest := text.drop blank.length
    let start := here.after blank
    let stop := start.after (rest.take size)
    Stands source cut stop (rest.drop size) ∧
      start.offset ≤ stop.offset ∧ stop.offset ≤ source.code.length ∧
      here.offset ≤ start.offset ∧ Blank (source.between here.offset start.offset) ∧
      Utf8.ofString (String.ofList (rest.take size)) =
        source.between start.offset stop.offset := by
  intro blank rest start stop
  have split : text = blank ++ rest := (List.prefix_iff_eq_append.mp (List.takeWhile_prefix _)).symm
  rw [split] at h
  have atWord := h.after
  have gap := h.between
  rw [← List.take_append_drop size rest] at atWord
  have behind := atWord.after
  refine ⟨behind, ?_, behind.inside, ?_, ?_, ?_⟩
  · exact Nat.le.intro (Position.offset_after start _).symm
  · exact Nat.le.intro (Position.offset_after here _).symm
  · rw [gap]
    exact Lexeme.blank_encode fun c mem => List.all_eq_true.mp List.all_takeWhile c mem
  · rw [Utf8.ofString, String.toList_ofList, atWord.between]

/-- A word that is not empty spans something. -/
theorem offset_lt_after {start : Position} {word : List Char} (h : word ≠ []) :
    start.offset < (start.after word).offset := by
  rw [Position.offset_after]
  cases word with
  | nil => exact absurd rfl h
  | cons c word =>
    have := Utf8.length_encodeChar_pos c
    rw [Utf8.encode_cons, List.length_append]
    omega

/-- The tokens of a run tile the source from where the run begins, and one that marks the end
stands at the end of a source that is well-formed throughout. -/
theorem onward_tiles {source : Source} (name : String) {cut : Option UInt8} (room : Option Nat)
    {here : Position} {text : List Char} (h : Stands source cut here text) :
    Tiles source here.offset (onward name cut room here text).tokens ∧
      ∀ t ∈ (onward name cut room here text).tokens, t.kind = .eof →
        t.span.start.offset = source.code.length ∧ t.span.stop.offset = source.code.length ∧
          source.code.toByteArray.IsValidUTF8 := by
  fun_induction onward name cut room here text with
  | case1 room here text blank rest start fault size read word span token =>
    obtain ⟨-, order, inside, before, gap, text⟩ := h.word size
    split
    · exact ⟨trivial, by simp⟩
    · refine ⟨⟨before, gap, order, fun _ legal => absurd rfl legal, inside, text, trivial⟩, ?_⟩
      intro t mem
      rw [List.mem_singleton.mp mem]
      exact nofun
  | case2 => exact ⟨trivial, by simp⟩
  | case3 room here text blank rest start size word stop present read token =>
    obtain ⟨behind, order, inside, before, gap, text⟩ := h.word size
    refine ⟨⟨before, gap, order, fun going => absurd rfl going, inside, text, trivial⟩, ?_⟩
    intro t mem _
    rw [List.mem_singleton.mp mem]
    obtain ⟨-, nothing, rfl, rfl⟩ := Lexeme.read_terminal read rfl
    have atEnd : Stands source none start [] := by
      have stopped : Stands source none stop (rest.drop 0) := behind
      simpa [stop, word, nothing] using stopped
    have same : stop = start := by simp [stop, word]
    obtain ⟨place, valid⟩ := atEnd.atEnd
    exact ⟨place, (congrArg Position.offset same).trans place, valid⟩
  | case4 room here text blank rest start kind size read word stop token present going more ih =>
    obtain ⟨behind, order, inside, before, gap, text⟩ := h.word size
    obtain ⟨tiles, ends⟩ := ih behind
    have nonempty : word ≠ [] := by
      obtain rfl | ⟨some, positive⟩ := Lexeme.read_size read
      · exact absurd rfl going
      · simp [word, List.take_eq_nil_iff, some, Nat.ne_of_gt positive]
    refine ⟨⟨before, gap, order, fun _ _ => offset_lt_after nonempty, inside, text, tiles⟩, ?_⟩
    intro t mem eof
    obtain rfl | mem := List.mem_cons.mp mem
    · exact absurd eof going
    · exact ends t mem eof

end Scan

/-- The tokens of a source tile it. If the last one marks the end, it is empty and stands at the
end of the source, which is well-formed UTF-8, and gaps and tokens together are the source. -/
theorem tokens_tile_source (source : Source) :
    Tiles source 0 (scan source).tokens ∧
      ∀ t, (scan source).tokens.getLast? = some t → t.kind = .eof →
        t.span.start.offset = source.code.length ∧ t.span.stop.offset = source.code.length ∧
          source.code.toByteArray.IsValidUTF8 ∧
          woven source 0 (scan source).tokens = source.code := by
  obtain ⟨tiles, ends⟩ := Scan.onward_tiles source.name none (Scan.stands_start source)
  refine ⟨tiles, ?_⟩
  intro t last eof
  obtain ⟨start, stop, valid⟩ := ends t (List.mem_of_getLast? last) eof
  have all := (woven_eq tiles last).1
  rw [stop] at all
  refine ⟨start, stop, valid, all.trans ?_⟩
  exact List.take_length

end Frontend
