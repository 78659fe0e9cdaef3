import StreamLexer.ResumePoint

/-!
# Kinds of tokens

The sample grammar's automaton reports one action per kind of token. The first two kinds are not
tokens of the text: the end of input, and bytes that start no token.

## Main definitions

* `TokenKind`: the kinds, in the order of their actions
* `TokenKind.action`, `TokenKind.ofAction?`: the numbering
* `TokenKind.name`, `TokenKind.ofName?`: the names
* `TokenKind.isTrivia`: the kinds that separate tokens and mean nothing
-/

namespace StreamLexer

/-- The kinds of tokens, in the order of their actions. -/
inductive TokenKind where
  | eof
  | unmatched
  | ident
  | «if»
  | int
  | white
  | lineComment
  | blockComment
  | lParen
  | rParen
  | lBracket
  | rBracket
  | lBrace
  | rBrace
  | plus
  | minus
  | star
  | slash
  | assign
  | eqEq
  | not
  | ne
  | lt
  | le
  | gt
  | ge
  | ampersand
  | andAnd
  | pipe
  | orOr
deriving DecidableEq, Repr, Inhabited

namespace TokenKind

/-- Every kind, in order. -/
def all : List TokenKind :=
  [eof, unmatched, ident, «if», int, white, lineComment, blockComment, lParen, rParen, lBracket,
    rBracket, lBrace, rBrace, plus, minus, star, slash, assign, eqEq, not, ne, lt, le, gt, ge,
    ampersand, andAnd, pipe, orOr]

/-- The action of a kind: its place in the order. -/
def action (k : TokenKind) : ActionId := UInt32.ofNat k.ctorIdx

/-- The kind of an action. -/
def ofAction? (a : ActionId) : Option TokenKind := all[a.toNat]?

/-- The name of a kind. -/
def name : TokenKind → String
  | eof => "Eof"
  | unmatched => "Unmatched"
  | ident => "Ident"
  | «if» => "If"
  | int => "Int"
  | white => "White"
  | lineComment => "LineComment"
  | blockComment => "BlockComment"
  | lParen => "LParen"
  | rParen => "RParen"
  | lBracket => "LBracket"
  | rBracket => "RBracket"
  | lBrace => "LBrace"
  | rBrace => "RBrace"
  | plus => "Plus"
  | minus => "Minus"
  | star => "Star"
  | slash => "Slash"
  | assign => "Assign"
  | eqEq => "EqEq"
  | not => "Not"
  | ne => "Ne"
  | lt => "Lt"
  | le => "Le"
  | gt => "Gt"
  | ge => "Ge"
  | ampersand => "Ampersand"
  | andAnd => "AndAnd"
  | pipe => "Pipe"
  | orOr => "OrOr"

/-- The kind of a name. -/
def ofName? (name : String) : Option TokenKind := all.find? fun k => k.name = name

/-- Whether tokens of a kind only separate others. -/
def isTrivia : TokenKind → Bool
  | white | lineComment | blockComment => true
  | _ => false

theorem ofAction?_action (k : TokenKind) : ofAction? k.action = some k := by
  cases k <;> rfl

end TokenKind

end StreamLexer
