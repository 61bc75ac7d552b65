import Frontend.Grammar.Expr

/-!
What is known at a point of a stream from the words before it. A context is the constructs that are
open there, innermost first, and how the words before it end. It is found by a scan of the words,
without a parser: brackets, blocks and the head of a function are pushed and popped, and an operator
is told from a sign by what stands in front of it.

Contexts say where line ends do no harm: behind an opening bracket, in front of a closing one,
around the commas and the `=>` of a list in brackets, and behind an operator between operands.
-/
namespace Frontend.Grammar

open Token (Kind)

/-- A part of what stands in square brackets: the first element, the value of the first pair of a
dictionary, or what comes behind the first comma. -/
inductive Part where
  | first
  | value
  | later
deriving DecidableEq

/-- How far the head of a function is read: up to `func`, its name, its parameters, the colon of its
result; up to a name in the result, or a `::`, parameter types or a `typeof` there; or up to the end
of the result. -/
inductive Head where
  | name
  | named
  | params
  | result
  | resultName
  | resultCase
  | resultArrow
  | resultTypeof
  | done
deriving DecidableEq

/-- The head of a function behind one more token, if it goes on with that token. -/
def Head.next (h : Head) (t : Token) : Option Head :=
  match h, t.kind with
  | name, .ident => some named
  | named, .lparen => some params
  | named, .colon | params, .colon => some result
  | result, .ident => if t.text.toList.head? = some '\'' then some done else some resultName
  | result, .lbrace => some done
  | result, .lparen => some resultArrow
  | result, .typeofWord => some resultTypeof
  | resultName, .colonColon => some resultCase
  | resultName, .lbrace => some done
  | resultCase, .ident => some done
  | resultArrow, .arrow => some result
  | resultTypeof, .lparen => some done
  | _, _ => none

/-- A construct that is open: a block up to its `end`, the head of a function, or brackets. -/
inductive Frame where
  | block
  | head (h : Head)
  | parens
  | square (part : Part)
  | braces
deriving DecidableEq

namespace Frame

/-- What closes a bracket. -/
def closer? : Frame → Option Kind
  | parens => some .rparen
  | square _ => some .rbracket
  | braces => some .rbrace
  | _ => none

/-- Brackets of any shape. -/
def isBracket (f : Frame) : Bool := f.closer?.isSome

end Frame

/-- How the words up to a point end. -/
inductive Phase where
  /-- An operand or a statement may begin, but need not be on the same line. -/
  | fresh
  /-- Behind an opening bracket, a comma or `=>` in brackets, or an operator between operands. -/
  | opened
  /-- Behind `=`, `:=`, `in`, or a comma outside of brackets. -/
  | awaiting
  /-- An operand may end here. -/
  | ended
  /-- The same, behind `)`. -/
  | closed
  /-- Behind the arrow of a lambda. -/
  | arrow
  /-- Behind a name that may be a parameter of a lambda. -/
  | param
  /-- Behind a comma after such a name. -/
  | params
  /-- Behind `::`. -/
  | case
deriving DecidableEq

namespace Phase

/-- An operand may end here, and an operator stand between it and another one. -/
def isEnd : Phase → Bool
  | ended | closed | param => true
  | _ => false

/-- Something has to follow, maybe on another line. -/
def isOpen : Phase → Bool
  | opened | awaiting | params => true
  | _ => false

/-- Nothing has to follow on another line. -/
def isQuiet : Phase → Bool
  | opened | awaiting | params | case => false
  | _ => true

end Phase

/-- What is open at a point of a stream, innermost first, and how the words up to it end. -/
structure Context where
  stack : List Frame
  phase : Phase
deriving DecidableEq

namespace Context

/-- The start of a file. -/
def start : Context := ⟨[.block], .fresh⟩

/-- Directly inside of brackets. -/
def inBrackets (x : Context) : Bool := x.stack.head?.any Frame.isBracket

/-- What is open behind a token of a kind. -/
def stackAfter (x : Context) (k : Kind) : List Frame :=
  match k, x.stack with
  | .lparen, stack => .parens :: stack
  | .lbracket, stack => .square .first :: stack
  | .lbrace, stack => .braces :: stack
  | .doWord, stack | .ifWord, stack | .switchWord, stack | .matchWord, stack
  | .forWord, stack => .block :: stack
  | .funcWord, stack => .head .name :: stack
  | .rparen, .parens :: stack | .rbracket, .square _ :: stack | .rbrace, .braces :: stack
  | .endWord, .block :: stack => stack
  | .comma, .square part :: stack =>
    .square (if x.phase = .param then part else .later) :: stack
  | .fatArrow, .square .first :: stack => .square .value :: stack
  | _, stack => stack

/-- How the words end behind a token of a kind. An arrow behind `)` is that of a type. -/
def phaseAfter (x : Context) (k : Kind) : Phase :=
  match k with
  | .newline => if x.phase.isOpen then x.phase else .fresh
  | .lparen | .lbracket | .lbrace | .fatArrow => .opened
  | .rparen => .closed
  | .ident => if x.phase = .arrow ∨ x.phase = .params then .param else .ended
  | .bool | .int | .uint | .float | .string | .rbracket | .rbrace | .endWord => .ended
  | .comma =>
    if x.phase = .param then .params else if x.inBrackets then .opened else .awaiting
  | .assign | .define | .inWord => .awaiting
  | .arrow => if x.phase = .closed then .fresh else .arrow
  | .colonColon => .case
  | k => if (binaryOp? k).isSome ∧ x.phase.isEnd then .opened else .fresh

/-- The context behind a token of a kind. -/
def take (x : Context) (k : Kind) : Context := ⟨x.stackAfter k, x.phaseAfter k⟩

/-- The context behind a token. A token that does not belong to the head of a function is the first
one of its body. -/
def step (x : Context) (t : Token) : Context :=
  match x.stack with
  | .head h :: stack =>
    match h.next t with
    | some h' => take ⟨.head h' :: stack, x.phase⟩ t.kind
    | none => take ⟨.block :: stack, .fresh⟩ t.kind
  | _ => x.take t.kind

/-- A line may end in front of a comma: one between the elements of a list in brackets, but not one
between the parameters of a lambda. -/
def beforeComma (x : Context) : Bool := x.inBrackets && x.phase != .param

/-- A line end may be added in front of a token of a kind. -/
def IsBlank (x : Context) (k : Kind) : Prop :=
  x.phase = .opened ∨ x.phase = .params ∧ x.inBrackets ∨
    x.phase ≠ .case ∧ (x.stack.head?.bind Frame.closer? = some k ∨
      k = .comma ∧ x.beforeComma ∨ k = .fatArrow ∧ x.inBrackets)

instance (x : Context) (k : Kind) : Decidable (x.IsBlank k) :=
  inferInstanceAs (Decidable (_ ∨ _ ∨ _ ∧ _))

/-- In front of a comma directly behind the first pair of a dictionary. -/
def afterFirstPair (x : Context) (k : Kind) : Prop :=
  k = .comma ∧ x.stack.head? = some (.square .value)

instance (x : Context) (k : Kind) : Decidable (x.afterFirstPair k) :=
  inferInstanceAs (Decidable (_ ∧ _))

/-- No statement ends here, so that a semicolon cannot follow. -/
def isOpen (x : Context) : Bool := x.inBrackets || x.phase.isOpen

/-- A token of a kind may follow, as far as semicolons and the cases of enums go. -/
def Accepts (x : Context) (k : Kind) : Prop :=
  (k = .semicolon → x.isOpen = false) ∧ (x.phase = .case → k = .ident)

end Context

end Frontend.Grammar
