import Frontend.Proofs.Formed

/-!
How a tree is written. Every expression inside of another tree stands in parentheses, and so does an
expression that is a statement; each statement and each declaration ends its line, and so does what
opens a block. A tree is written in front of more words, so a spelling maps what follows to the
whole.
-/
namespace Frontend

open Token (Kind)

/-- A word: its kind and its text. -/
abbrev Word := Kind × String

/-- What a tree puts in front of the words that follow it. -/
abbrev Spelling := List Word → List Word

/-- A token without its place. -/
def Token.word (t : Token) : Word := (t.kind, t.text)

/-- The text of the kinds that have one text only. -/
def Token.Kind.spelling : Kind → String
  | .newline => "\n"
  | .semicolon => ";"
  | .lparen => "("
  | .rparen => ")"
  | .lbrace => "\x7b"
  | .rbrace => "\x7d"
  | .lbracket => "["
  | .rbracket => "]"
  | .minus => "-"
  | .plus => "+"
  | .star => "*"
  | .div => "/"
  | .not => "!"
  | .or => "||"
  | .and => "&&"
  | .percent => "%"
  | .equal => "=="
  | .notEqual => "!="
  | .assign => "="
  | .define => ":="
  | .less => "<"
  | .lessEqual => "<="
  | .greater => ">"
  | .greaterEqual => ">="
  | .dot => "."
  | .colon => ":"
  | .colonColon => "::"
  | .fatArrow => "=>"
  | .arrow => "->"
  | .comma => ","
  | .ellipsis => "..."
  | .endWord => "end"
  | .ifWord => "if"
  | .thenWord => "then"
  | .elseWord => "else"
  | .switchWord => "switch"
  | .caseWord => "case"
  | .matchWord => "match"
  | .withWord => "with"
  | .retWord => "ret"
  | .importWord => "import"
  | .typeWord => "type"
  | .forWord => "for"
  | .inWord => "in"
  | .typeofWord => "typeof"
  | .asWord => "as"
  | .funcWord => "func"
  | .doWord => "do"
  | .letWord => "let"
  | .varWord => "var"
  | .illegal | .comment | .ident | .bool | .int | .uint | .float | .string | .eof => ""

/-- The word of a kind that has one text only. -/
def spelled (k : Kind) : Word := (k, k.spelling)

/-- An identifier. -/
def ident (name : String) : Word := (.ident, name)

/-- A character as it stands in quotes: quotes and backslashes are escaped. -/
def escaped (c : Char) : List Char := if c = '"' ∨ c = '\\' then ['\\', c] else [c]

/-- A text in quotes. -/
def quoted (text : String) : String := String.ofList ('"' :: (text.toList.flatMap escaped ++ ['"']))

/-- A literal. A negative number has a minus in front; decimals are not spelled. -/
def Literal.words : Literal → Spelling
  | .int (.ofNat n), k => (.int, n.repr) :: k
  | .int (.negSucc n), k => spelled .minus :: (.int, (n + 1).repr) :: k
  | .uint n, k => (.uint, n.repr ++ "u") :: k
  | .bool value, k => (.bool, if value then "true" else "false") :: k
  | .string text, k => (.string, quoted text) :: k
  | .float _, k => k

/-- Literals that have a spelling. -/
def Literal.Spelled : Literal → Prop
  | .float _ => False
  | value => value.Fits

/-- Something in parentheses. -/
def parens (inner : Spelling) : Spelling := fun k => spelled .lparen :: inner (spelled .rparen :: k)

/-- Items with a comma in front of each of them. -/
def behindCommas : List Spelling → Spelling
  | [], k => k
  | item :: items, k => spelled .comma :: item (behindCommas items k)

/-- Items with commas between them. -/
def listed : List Spelling → Spelling
  | [], k => k
  | item :: items, k => item (behindCommas items k)

/-- Items with a newline behind each of them. -/
def lines : List Spelling → Spelling
  | [], k => k
  | item :: items, k => item (spelled .newline :: lines items k)

/-- A field with what belongs to it. -/
def fieldWords (name : String) (value : Spelling) : Spelling :=
  fun k => ident name :: spelled .colon :: value k

/-- Names with commas between them. -/
def nameWords (names : List String) : Spelling :=
  listed (names.map fun name k => ident name :: k)

/-- The name in front of braces. -/
def RecordHead.words : RecordHead → Spelling
  | ⟨none, _⟩, k => k
  | ⟨some name, none⟩, k => ident name :: k
  | ⟨some name, some case⟩, k => ident name :: spelled .colonColon :: ident case :: k

/-- A rest, as the last item of a list. -/
def restWords (name : Option String) : Spelling :=
  fun k => spelled .ellipsis :: (name.map ident).toList ++ k

mutual

/-- A destructuring. Records always have braces. -/
def Destructuring.words : Destructuring → Spelling
  | .variable _ name, k => ident name :: k
  | .record _ head fields others, k =>
    head.words (spelled .lbrace ::
      listed (Destructuring.fieldItems fields ++ Destructuring.restItems others)
        (spelled .rbrace :: k))
  | .rest _ name, k => restWords name k

def Destructuring.fieldItems : List (String × Option Destructuring) → List Spelling
  | [] => []
  | (name, none) :: more => (ident name :: ·) :: Destructuring.fieldItems more
  | (name, some d) :: more => fieldWords name d.words :: Destructuring.fieldItems more

def Destructuring.restItems : Option Destructuring → List Spelling
  | none => []
  | some d => [d.words]

end

mutual

/-- A pattern. Records always have braces. -/
def Pattern.words : Pattern → Spelling
  | .int _ value, k => (Literal.int value).words k
  | .uint _ value, k => (Literal.uint value).words k
  | .bool _ value, k => (Literal.bool value).words k
  | .string _ value, k => (Literal.string value).words k
  | .float _ value, k => (Literal.float value).words k
  | .record _ head fields others, k =>
    head.words (spelled .lbrace ::
      listed (Pattern.fieldItems fields ++ Pattern.restItems others) (spelled .rbrace :: k))
  | .variable _ name, k => ident name :: k
  | .array _ elems others, k =>
    spelled .lbracket ::
      listed (Pattern.items elems ++ Pattern.restItems others) (spelled .rbracket :: k)
  | .rest _ name, k => restWords name k

def Pattern.fieldItems : List (String × Option Pattern) → List Spelling
  | [] => []
  | (name, none) :: more => (ident name :: ·) :: Pattern.fieldItems more
  | (name, some p) :: more => fieldWords name p.words :: Pattern.fieldItems more

def Pattern.items : List Pattern → List Spelling
  | [] => []
  | p :: more => p.words :: Pattern.items more

def Pattern.restItems : Option Pattern → List Spelling
  | none => []
  | some p => [p.words]

end

/-- An operator in front of its operand. -/
def UnaryOp.kind : UnaryOp → Kind
  | .neg => .minus
  | .pos => .plus
  | .not => .not

/-- An operator between its operands. -/
def BinaryOp.kind : BinaryOp → Kind
  | .add => .plus
  | .sub => .minus
  | .mul => .star
  | .div => .div
  | .mod => .percent
  | .eq => .equal
  | .notEq => .notEqual
  | .less => .less
  | .lessEq => .lessEqual
  | .greater => .greater
  | .greaterEq => .greaterEqual
  | .and => .and
  | .or => .or

/-- Whether an expression has statements in front. -/
def Expr.isSeq (e : Expr) : Bool :=
  match e.form with
  | .seq .. => true
  | _ => false

/-- A block that is a value, with the expression that is its value last. `inner` spells the
expression; if it has statements in front, it spells whole lines. -/
def bodyWords (body : Expr) (inner : Spelling) : Spelling :=
  if body.isSeq then inner else fun k => parens inner (spelled .newline :: k)

/-- The parameters of a `do` block, its lines and its end. -/
def doWords (params : List Param) (body : Expr) (inner : Spelling) : Spelling := fun k =>
  spelled .doWord :: nameWords (params.map (·.name))
    (spelled .newline :: bodyWords body inner (spelled .endWord :: k))

/-- The parameters and the body of a lambda. Statements make a block of the body. -/
def lambdaWords (params : List Param) (body : Expr) (inner : Spelling) : Spelling := fun k =>
  spelled .arrow :: nameWords (params.map (·.name))
    (if body.isSeq then spelled .doWord :: spelled .newline :: inner (spelled .endWord :: k)
    else if params.isEmpty then parens inner k
    else spelled .inWord :: parens inner k)

/-- The block behind `else`, unless it is empty. -/
def elseWords (block : List Spelling) : Spelling := fun k =>
  if block.isEmpty then spelled .endWord :: k
  else spelled .elseWord :: spelled .newline :: lines block (spelled .endWord :: k)

mutual

/-- A type. -/
def TypeExpr.words : TypeExpr → Spelling
  | ⟨_, .named name⟩, k => ident name :: k
  | ⟨_, .variable name⟩, k => ident name :: k
  | ⟨_, .instantiate name args⟩, k =>
    ident name :: spelled .lbrace :: listed (TypeExpr.items args) (spelled .rbrace :: k)
  | ⟨_, .record fields⟩, k =>
    spelled .lbrace :: listed (TypeExpr.fieldItems fields) (spelled .rbrace :: k)
  | ⟨_, .tuple elems⟩, k =>
    spelled .lbrace :: listed ((TypeExpr.items elems).map (fieldWords "_")) (spelled .rbrace :: k)
  | ⟨_, .function params result⟩, k =>
    spelled .lparen :: listed (TypeExpr.items params)
      (spelled .rparen :: spelled .arrow :: result.words k)
  | ⟨_, .case name case⟩, k => ident name :: spelled .colonColon :: ident case :: k
  | ⟨_, .typeOf value⟩, k => spelled .typeofWord :: parens (parens value.inner) k

def TypeExpr.items : List TypeExpr → List Spelling
  | [] => []
  | t :: more => t.words :: TypeExpr.items more

def TypeExpr.fieldItems : List (String × TypeExpr) → List Spelling
  | [] => []
  | (name, t) :: more => fieldWords name t.words :: TypeExpr.fieldItems more

/-- A statement, without the newline behind it. -/
def Stmt.words : Stmt → Spelling
  | ⟨_, .declare mutable targets values⟩, k =>
    spelled (if mutable then .varWord else .letWord) ::
      listed (targets.map Destructuring.words) (spelled .assign :: listed (Expr.items values) k)
  | ⟨_, .assign names values⟩, k =>
    nameWords names (spelled .assign :: listed (Expr.items values) k)
  | ⟨_, .assignIndex target index value⟩, k =>
    parens target.inner (spelled .lbracket :: parens index.inner
      (spelled .rbracket :: spelled .assign :: parens value.inner k))
  | ⟨_, .ret values⟩, k => spelled .retWord :: listed (Expr.items values) k
  | ⟨_, .ifThen cond thenBlock elseBlock⟩, k =>
    spelled .ifWord :: parens cond.inner (spelled .thenWord :: spelled .newline ::
      lines (Stmt.items thenBlock) (elseWords (Stmt.items elseBlock) k))
  | ⟨_, .switch cases elseBlock⟩, k =>
    spelled .switchWord :: spelled .newline ::
      Stmt.caseWords cases (elseWords (Stmt.items elseBlock) k)
  | ⟨_, .matchWith subject arms elseBlock⟩, k =>
    spelled .matchWord :: parens subject.inner (spelled .newline ::
      Stmt.armWords arms (elseWords (Stmt.items elseBlock) k))
  | ⟨_, .forEach target range body⟩, k =>
    spelled .forWord :: target.words (spelled .inWord :: parens range.inner
      (spelled .newline :: lines (Stmt.items body) (spelled .endWord :: k)))
  | ⟨_, .whileTrue cond body⟩, k =>
    spelled .forWord :: parens cond.inner
      (spelled .newline :: lines (Stmt.items body) (spelled .endWord :: k))
  | ⟨_, .value e⟩, k => parens e.inner k

def Stmt.items : List Stmt → List Spelling
  | [] => []
  | s :: more => s.words :: Stmt.items more

def Stmt.caseWords : List (Expr × List Stmt) → Spelling
  | [], k => k
  | (cond, block) :: more, k =>
    spelled .caseWord :: parens cond.inner (spelled .thenWord :: spelled .newline ::
      lines (Stmt.items block) (Stmt.caseWords more k))

def Stmt.armWords : List (Pattern × List Stmt) → Spelling
  | [], k => k
  | (p, block) :: more, k =>
    spelled .withWord :: p.words (spelled .thenWord :: spelled .newline ::
      lines (Stmt.items block) (Stmt.armWords more k))

/-- An expression without the parentheses around it. Statements in front of a value are lines, and
so is the value behind them. -/
def Expr.inner : Expr → Spelling
  | ⟨_, .int value⟩, k => (Literal.int value).words k
  | ⟨_, .uint value⟩, k => (Literal.uint value).words k
  | ⟨_, .float value⟩, k => (Literal.float value).words k
  | ⟨_, .bool value⟩, k => (Literal.bool value).words k
  | ⟨_, .string value⟩, k => (Literal.string value).words k
  | ⟨_, .variable name⟩, k => ident name :: k
  | ⟨_, .array elems⟩, k =>
    spelled .lbracket :: listed (Expr.items elems) (spelled .rbracket :: k)
  | ⟨_, .dict []⟩, k => spelled .lbracket :: spelled .fatArrow :: spelled .rbracket :: k
  | ⟨_, .dict elems⟩, k =>
    spelled .lbracket :: listed (Expr.pairItems elems) (spelled .rbracket :: k)
  | ⟨_, .unary op operand⟩, k => spelled op.kind :: parens operand.inner k
  | ⟨_, .binary op lhs rhs⟩, k =>
    parens lhs.inner (spelled op.kind :: parens rhs.inner k)
  | ⟨_, .seq stmts last⟩, k =>
    lines (Stmt.items stmts) (parens last.inner (spelled .newline :: k))
  | ⟨_, .ifThen cond thenValue elseValue⟩, k =>
    spelled .ifWord :: parens cond.inner (spelled .thenWord :: spelled .newline ::
      bodyWords thenValue thenValue.inner (spelled .elseWord :: spelled .newline ::
        bodyWords elseValue elseValue.inner (spelled .endWord :: k)))
  | ⟨_, .switch cases elseValue⟩, k =>
    spelled .switchWord :: spelled .newline ::
      Expr.caseWords cases (spelled .elseWord :: spelled .newline ::
        bodyWords elseValue elseValue.inner (spelled .endWord :: k))
  | ⟨_, .matchWith subject arms elseValue⟩, k =>
    spelled .matchWord :: parens subject.inner (spelled .newline ::
      Expr.armWords arms (spelled .elseWord :: spelled .newline ::
        bodyWords elseValue elseValue.inner (spelled .endWord :: k)))
  | ⟨_, .coerce value type⟩, k => parens value.inner (spelled .asWord :: type.words k)
  | ⟨_, .index target index⟩, k =>
    parens target.inner (spelled .lbracket :: parens index.inner (spelled .rbracket :: k))
  | ⟨_, .field target name⟩, k => parens target.inner (spelled .dot :: ident name :: k)
  | ⟨_, .record name fields⟩, k =>
    (name.map ident).toList ++
      spelled .lbrace :: listed (Expr.fieldItems fields) (spelled .rbrace :: k)
  | ⟨_, .tuple name elems⟩, k =>
    (name.map ident).toList ++ spelled .lbrace ::
      listed ((Expr.items elems).map (fieldWords "_")) (spelled .rbrace :: k)
  | ⟨_, .call callee args doBlock⟩, k =>
    parens callee.inner (spelled .lparen ::
      listed (Expr.items args) (spelled .rparen :: Expr.blockWords doBlock k))
  | ⟨_, .callNamed callee args doBlock⟩, k =>
    parens callee.inner (spelled .lparen ::
      listed (Expr.fieldItems args) (spelled .rparen :: Expr.blockWords doBlock k))
  | ⟨_, .lambda true params body⟩, k => doWords params body body.inner k
  | ⟨_, .lambda false params body⟩, k => lambdaWords params body body.inner k

def Expr.items : List Expr → List Spelling
  | [] => []
  | e :: more => parens e.inner :: Expr.items more

def Expr.pairItems : List (Expr × Expr) → List Spelling
  | [] => []
  | (key, value) :: more =>
    (fun k => parens key.inner (spelled .fatArrow :: parens value.inner k)) :: Expr.pairItems more

def Expr.fieldItems : List (String × Expr) → List Spelling
  | [] => []
  | (name, e) :: more => fieldWords name (parens e.inner) :: Expr.fieldItems more

def Expr.caseWords : List (Expr × Expr) → Spelling
  | [], k => k
  | (cond, value) :: more, k =>
    spelled .caseWord :: parens cond.inner (spelled .thenWord :: spelled .newline ::
      bodyWords value value.inner (Expr.caseWords more k))

def Expr.armWords : List (Pattern × Expr) → Spelling
  | [], k => k
  | (p, value) :: more, k =>
    spelled .withWord :: p.words (spelled .thenWord :: spelled .newline ::
      bodyWords value value.inner (Expr.armWords more k))

def Expr.blockWords : Option Expr → Spelling
  | none, k => k
  | some e, k => e.inner k

end

/-- An expression in its parentheses. -/
def Expr.words (e : Expr) : Spelling := parens e.inner

/-- A parameter of a function. -/
def Param.words (p : Param) : Spelling :=
  match p.type with
  | none => (ident p.name :: ·)
  | some t => fieldWords p.name t.words

/-- A case of an enum. -/
def enumCaseWords (case : String × Option TypeExpr) : Spelling := fun k =>
  spelled .caseWord :: ident case.1 :: (match case.2 with
    | none => k
    | some payload => payload.words k)

/-- What an import path ends with. -/
def importedWords : List String → Spelling
  | [name], k => (if name = "*" then spelled .star else ident name) :: k
  | names, k => spelled .lbrace :: nameWords names (spelled .rbrace :: k)

/-- A declaration, without the newline behind it. -/
def Toplevel.words : Toplevel → Spelling
  | .typedef t, k => spelled .typeWord :: ident t.name :: t.type.words k
  | .enum e, k =>
    spelled .typeWord :: ident e.name :: e.cases.foldr (fun case => enumCaseWords case) k
  | .function f, k =>
    spelled .funcWord :: ident f.name :: spelled .lparen ::
      listed (f.params.map Param.words) (spelled .rparen :: (match f.result with
        | none => id
        | some t => fun k => spelled .colon :: t.words k)
        (spelled .newline :: lines (f.body.map Stmt.words) (spelled .endWord :: k)))
  | .importing i, k =>
    spelled .importWord :: (if i.relative then (spelled .dot :: ·) else id)
      (i.parents.foldr (fun name k => ident name :: spelled .dot :: k) (importedWords i.imported k))

/-- All words of a file, up to its end. -/
def fileWords (decls : List Toplevel) : List Word := lines (decls.map Toplevel.words) []

end Frontend
