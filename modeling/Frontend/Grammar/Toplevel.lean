import Frontend.Grammar.Full

/-!
Declarations of a file: `import`, `type` and `func`.
-/
namespace Frontend.Grammar

open Frontend.Grammar.Parser

/-- What an import path ends with: `*`, one name, or names in braces. A name with a dot behind it
is one more parent; `parents` are latest first. -/
def importEnd (parents : List String) :
    Parser (Turn (List String) (List String × List String)) := do
  match ← kind with
  | .star =>
    let _ ← next
    pure (.done (parents.reverse, ["*"]))
  | .lbrace =>
    let _ ← next
    skipNewlines
    let names ← commaList do
      let name ← expectIdent "imported name"
      skipNewlines
      pure name.text
    let _ ← expect .rbrace "'\x7d' closing imported names"
    pure (.done (parents.reverse, names))
  | .ident =>
    let name ← expectIdent "imported name"
    if ← ate .dot then pure (.again (name.text :: parents))
    else pure (.done (parents.reverse, [name.text]))
  | _ => unexpected "name, '*' or '\x7b' in import path"

/-- `import a.b`, `import .a.b.*` or `import a.{b, c}` -/
def importDecl : Parser Import := do
  let word ← next
  let relative ← ate .dot
  let first ← expectIdent "module name of import path"
  let _ ← expect .dot "'.' in import path"
  let (parents, imported) ← iterate importEnd [first.text]
  let stop ← place
  let decl : Import := ⟨⟨word.span.start, stop⟩, relative, parents, imported⟩
  tell (.parsedImport decl.path)
  pure decl

/-- The cases of an enum. Each may stand on a line of its own. -/
def enumCases (rules : Rules) : Parser (List (String × Option TypeExpr)) :=
  iterate (fun cases => do
    let n ← separatorsEnd 0
    if (← kindAt n) = .caseWord then
      skipSeparators
      let _ ← next
      let name ← expectIdent "name of enum case"
      if (← kind) = .lbrace then
        let payload ← recordOrTupleType rules
        pure (.again ((name.text, some payload) :: cases))
      else pure (.again ((name.text, none) :: cases))
    else pure (.done cases.reverse)) []

/-- `type Name T`, or an enum: `type Name case A case B{f: T}` -/
def typeDecl (rules : Rules) : Parser Toplevel := do
  let word ← next
  let name ← expectIdent "name of type"
  let cases ← enumCases rules
  if cases.isEmpty then
    let type ← rules.typeExpr
    pure (.typedef ⟨word.span.start, name.text, type⟩)
  else
    let stop ← place
    pure (.enum ⟨⟨word.span.start, stop⟩, name.text, cases⟩)

/-- A type behind a colon, if there is a colon. -/
def typeAfterColon (rules : Rules) : Parser (Option TypeExpr) := do
  if ← ate .colon then
    let type ← rules.typeExpr
    pure (some type)
  else pure none

/-- A parameter of a function. -/
def param (rules : Rules) : Parser Param := do
  let name ← expectIdent "parameter name"
  let type ← typeAfterColon rules
  pure ⟨name.text, type⟩

/-- `func name(a, b: T): R … end`. Without parameters there need be no parentheses. -/
def functionDecl (rules : Rules) : Parser Function := do
  let word ← next
  let name ← expectIdent "function name"
  let params ←
    if ← ate .lparen then (do
      let params ← closedList .rparen fun _ => param rules
      let _ ← expect .rparen "')' closing parameters"
      pure params)
    else pure []
  let result ← typeAfterColon rules
  let body ← block rules [.endWord]
  let close ← expect .endWord "'end' closing function"
  tell (.parsedFunction name.text)
  pure ⟨word.span.through close.span, name.text, params, result, body⟩

/-- A declaration. -/
def toplevel (rules : Rules) : Parser Toplevel := do
  match ← kind with
  | .importWord =>
    let decl ← importDecl
    pure (.importing decl)
  | .typeWord => typeDecl rules
  | .funcWord =>
    let decl ← functionDecl rules
    pure (.function decl)
  | _ => unexpected "'func', 'type' or 'import' at toplevel"

/-- A declaration and the end of its line. -/
def toplevelItem (rules : Rules) : Parser Toplevel := do
  let decl ← toplevel rules
  let k ← kind
  if k.isSeparator ∨ k = .eof then pure decl
  else unexpected "end of line after toplevel"

end Frontend.Grammar
