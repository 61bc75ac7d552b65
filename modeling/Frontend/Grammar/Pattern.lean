import Frontend.Grammar.Rules

/-!
Patterns of `match` arms, and destructurings of `let`, `var` and `for`. A field of either may be
matched further, but a variable that it binds has the name of the field.
-/
namespace Frontend.Grammar

open Frontend.Grammar.Parser

/-- A literal in a pattern. `minus` is the start of a minus in front of it. -/
def literalPattern (t : Token) (minus : Option Position) : Parser Pattern :=
  let span := ⟨minus.getD t.span.start, t.span.stop⟩
  match Literal.read t.kind minus.isSome t.text with
  | .ok value => pure (value.toPattern span)
  | .error problem => fail (.across span (.badLiteralPattern t.text problem))

/-- What stands in front of the braces of a record pattern, and where it starts if it is there. -/
def recordHead : Parser (Option Position × RecordHead) := do
  if (← kind) = .ident then
    let name ← expectIdent "record name"
    if ← ate .colonColon then
      let member ← expectIdent "enum case name after '::'"
      pure (some name.span.start, ⟨some name.text, some member.text⟩)
    else pure (some name.span.start, ⟨some name.text, none⟩)
  else pure (none, ⟨none, none⟩)

/-- `...` or `...name`: where it stands, and the name. -/
def restBinder : Parser (Span × Option String) := do
  let dots ← next
  match ← eat .ident with
  | some name => pure (dots.span.through name.span, some name.text)
  | none => pure (dots.span, none)

/-- A field of a record pattern. -/
def fieldPattern (rules : Rules) : Parser (String × Option Pattern) := do
  let name ← expectIdent "field name of record pattern"
  if ← ate .colon then
    skipNewlines
    let p ← rules.pattern
    match p with
    | .variable span bound =>
      if bound ≠ "_" then fail (.across span (.renamedField .pattern name.text bound))
      else pure (name.text, some p)
    | _ => pure (name.text, some p)
  else pure (name.text, none)

/-- A record pattern. A case of an enum may go without braces. -/
def recordPattern (rules : Rules) : Parser Pattern := do
  let (start, head) ← recordHead
  match ← eat .lbrace with
  | none =>
    let stop ← place
    pure (.record ⟨start.getD stop, stop⟩ head [] none)
  | some opening =>
    let (fields, rest) ← closedListWithRest .rbrace (fieldPattern rules) restBinder
    let close ← expect .rbrace "'\x7d' closing record pattern"
    let span := ⟨start.getD opening.span.start, close.span.stop⟩
    pure (.record span head fields (rest.map fun r => .rest r.1 r.2))

/-- An array pattern. -/
def arrayPattern (rules : Rules) : Parser Pattern := do
  let opening ← next
  let (elems, rest) ← closedListWithRest .rbracket rules.pattern restBinder
  let close ← expect .rbracket "']' closing array pattern"
  pure (.array (opening.span.through close.span) elems (rest.map fun r => .rest r.1 r.2))

/-- A literal after a minus. -/
def negativePattern : Parser Pattern := do
  let minus ← next
  let k ← kind
  if k = .int ∨ k = .float then
    let t ← next
    literalPattern t (some minus.span.start)
  else unexpected "number after '-' in pattern"

/-- A pattern. -/
def pattern (rules : Rules) : Parser Pattern := do
  let k ← kind
  if Literal.isKind k then
    let t ← next
    literalPattern t none
  else
    match k with
    | .minus => negativePattern
    | .ident =>
      let after ← kindAt 1
      if after = .lbrace ∨ after = .colonColon then recordPattern rules
      else
        let name ← expectIdent "pattern"
        pure (.variable name.span name.text)
    | .lbrace => recordPattern rules
    | .lbracket => arrayPattern rules
    | _ => unexpected "pattern"

/-- A field of a record destructuring. -/
def fieldDestructuring (rules : Rules) : Parser (String × Option Destructuring) := do
  let name ← expectIdent "field name of record destructuring"
  if ← ate .colon then
    skipNewlines
    let d ← rules.destructuring
    match d with
    | .variable span bound =>
      if bound ≠ "_" then fail (.across span (.renamedField .destructuring name.text bound))
      else pure (name.text, some d)
    | _ => pure (name.text, some d)
  else pure (name.text, none)

/-- A record destructuring, which always has braces. -/
def recordDestructuring (rules : Rules) : Parser Destructuring := do
  let (start, head) ← recordHead
  let opening ← expect .lbrace "'\x7b' of record destructuring"
  let (fields, rest) ← closedListWithRest .rbrace (fieldDestructuring rules) restBinder
  let close ← expect .rbrace "'\x7d' closing record destructuring"
  let span := ⟨start.getD opening.span.start, close.span.stop⟩
  pure (.record span head fields (rest.map fun r => .rest r.1 r.2))

/-- A destructuring. -/
def destructuring (rules : Rules) : Parser Destructuring := do
  match ← kind with
  | .ident =>
    let after ← kindAt 1
    if after = .lbrace ∨ after = .colonColon then recordDestructuring rules
    else
      let name ← expectIdent "variable name"
      pure (.variable name.span name.text)
  | .lbrace => recordDestructuring rules
  | _ => unexpected "variable name or record destructuring"

/-- How many tokens at the head of a list there are up to the brace that closes `depth` open ones,
and with it. -/
def bracesSize (depth : Nat) : List Token → Nat
  | [] => 0
  | t :: more =>
    if t.kind = .lbrace then 1 + bracesSize (depth + 1) more
    else if t.kind = .rbrace then if depth ≤ 1 then 1 else 1 + bracesSize (depth - 1) more
    else 1 + bracesSize depth more

/-- Where the braces that open with the n-th token end. Nothing is taken. -/
def bracesEnd (n : Nat) : Parser Nat := fun c =>
  let stop := n + bracesSize 0 (c.upcoming.drop n)
  .ok stop (c.receive stop)

/-- Whether a destructuring and `in` stand ahead. Inside braces only braces are looked at. -/
def destructuringThenIn : Parser Bool := do
  let nameEnd ←
    if (← kindAt 0) = .ident then
      if (← kindAt 1) = .colonColon then pure 3 else pure 1
    else pure 0
  let stop ← if (← kindAt nameEnd) = .lbrace then bracesEnd nameEnd else pure nameEnd
  if stop = 0 then pure false
  else
    let after ← kindAt stop
    pure (after = .inWord)

end Frontend.Grammar
