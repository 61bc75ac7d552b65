import Frontend.Position

/-!
Tokens: what kinds there are, how the fixed ones are spelled, and a token in its source.
-/
namespace Frontend

/-- What a token is. `comment` tokens are for listings only; `eof` and `illegal` end a stream. -/
inductive Token.Kind where
  | illegal | comment | newline | semicolon
  | lparen | rparen | lbrace | rbrace | lbracket | rbracket
  | ident | bool | int | uint | float | string
  | minus | plus | star | div | not | or | and | percent
  | equal | notEqual | assign | define | less | lessEqual | greater | greaterEqual
  | dot | colon | colonColon | fatArrow | arrow | comma | ellipsis
  | endWord | ifWord | thenWord | elseWord | switchWord | caseWord | matchWord | withWord
  | retWord | importWord | typeWord | forWord | inWord | typeofWord | asWord | funcWord | doWord
  | letWord | varWord | eof
deriving DecidableEq, Repr, Inhabited

/-- A word of a source: its kind, its text and where it stands. -/
structure Token where
  kind : Token.Kind
  text : String
  span : Span
deriving DecidableEq, Repr, Inhabited

namespace Token

namespace Kind

/-- The name of a kind in listings. -/
def name : Kind → String
  | illegal => "ILLEGAL"
  | comment => "COMMENT"
  | newline => "NEWLINE"
  | semicolon => "SEMICOLON"
  | lparen => "LPAREN"
  | rparen => "RPAREN"
  | lbrace => "LBRACE"
  | rbrace => "RBRACE"
  | lbracket => "LBRACKET"
  | rbracket => "RBRACKET"
  | ident => "IDENT"
  | bool => "BOOL"
  | int => "INT"
  | uint => "UINT"
  | float => "FLOAT"
  | string => "STRING"
  | minus => "MINUS"
  | plus => "PLUS"
  | star => "STAR"
  | div => "DIV"
  | not => "NOT"
  | or => "OR"
  | and => "AND"
  | percent => "PERCENT"
  | equal => "EQUAL"
  | notEqual => "NOT_EQUAL"
  | assign => "ASSIGN"
  | define => "DEFINE"
  | less => "LESS"
  | lessEqual => "LESS_EQUAL"
  | greater => "GREATER"
  | greaterEqual => "GREATER_EQUAL"
  | endWord => "END"
  | ifWord => "IF"
  | thenWord => "THEN"
  | elseWord => "ELSE"
  | switchWord => "SWITCH"
  | caseWord => "CASE"
  | matchWord => "MATCH"
  | withWord => "WITH"
  | retWord => "RET"
  | importWord => "IMPORT"
  | dot => "DOT"
  | typeWord => "TYPE"
  | colon => "COLON"
  | colonColon => "COLON_COLON"
  | forWord => "FOR"
  | inWord => "IN"
  | fatArrow => "FAT_RIGHT_ARROW"
  | typeofWord => "TYPEOF"
  | asWord => "AS"
  | funcWord => "FUNC"
  | doWord => "DO"
  | arrow => "RIGHT_ARROW"
  | comma => "COMMA"
  | ellipsis => "ELLIPSIS"
  | letWord => "LET"
  | varWord => "VAR"
  | eof => "EOF"

/-- The reserved words and their kinds. -/
def keywords : List (String × Kind) :=
  [("end", endWord), ("if", ifWord), ("then", thenWord), ("else", elseWord), ("switch", switchWord),
   ("case", caseWord), ("match", matchWord), ("with", withWord), ("ret", retWord), ("import", importWord),
   ("type", typeWord), ("for", forWord), ("in", inWord), ("typeof", typeofWord), ("as", asWord), ("func", funcWord),
   ("do", doWord), ("let", letWord), ("var", varWord), ("true", bool), ("false", bool)]

/-- The kind of a reserved word. -/
def ofKeyword? (word : String) : Option Kind := keywords.lookup word

/-- A stream ends with a token of such a kind. -/
def isTerminal (k : Kind) : Bool := k = eof || k = illegal

/-- A token that separates statements. -/
def isSeparator (k : Kind) : Bool := k = newline || k = semicolon

end Kind

/-- The token as listings show it: kind, text and both ends. -/
def render (t : Token) : String :=
  let s := t.span
  s!"<{t.kind.name}:{t.text}>({s.start.lineColumn}:{s.start.offset}-{s.stop.lineColumn}:{s.stop.offset})"

/-- The token that stands for the end of a stream at a position. -/
def eofAt (p : Position) : Token := ⟨.eof, "", .point p⟩

end Token

end Frontend
