import StreamLexer.Automaton.Assembly
import StreamLexer.Grammar.TokenKind
import StreamLexer.Text.Ascii

/-!
# The sample grammar

A small language of identifiers, one keyword, integers, comments and operators, assembled edge by
edge. Every byte string has tokens: a byte that starts none is a token of its own, and so is a
block comment that is never closed.

The terminals follow the entry state in the order of the kinds. Then come the states of words,
integers, blanks, comments and operators, and last the state after a byte that starts nothing.

## Main definitions

* `Sample.assembly`: the assembly of the grammar
* `Sample.automaton`: its automaton
* `Sample.entry`: the state where every token starts
-/

namespace StreamLexer.Sample

/-- The state where every token starts. -/
def entry : StateId := 0

/-- The terminal of a kind: the terminals follow the entry state. -/
def emit (k : TokenKind) : StateId := k.action + 1

/-- Adds the edges of letters and the underscore out of `origin`. -/
def onLetters (b : Assembly) (origin target : StateId) : Assembly :=
  ((b.addEdge origin (.range 0x61 0x7A) target).addEdge origin (.range 0x41 0x5A) target).addEdge
    origin (.range 0x5F 0x5F) target

/-- Adds the edge of the digits out of `origin`. -/
def onDigits (b : Assembly) (origin target : StateId) : Assembly :=
  b.addEdge origin (.range 0x30 0x39) target

/-- Adds the edge of the bytes of an ASCII text out of `origin`. -/
def on (b : Assembly) (origin : StateId) (symbols : String) (target : StateId) : Assembly :=
  b.addEdge origin (.bytes (ascii symbols)) target

/-- Adds the edge of whatever is left out of `origin`: the token ends there. -/
def ends (b : Assembly) (origin : StateId) (k : TokenKind) : Assembly :=
  b.addEdge origin .all (emit k)

/-- The entry state, the terminals, and the end of the stream. -/
def terminals : Assembly :=
  let b := TokenKind.all.foldl (fun b k => b.addTerminal k.action) Assembly.empty.addDispatch
  b.addEdge entry .eof (emit .eof)

/-- Words: identifiers, and the keyword among them. -/
def words (b : Assembly) : Assembly :=
  let i := b.nextId
  let iF := i + 1
  let ident := i + 2
  let b := b.addDispatch.addDispatch.addDispatch
  let b := on (on b entry "i" i) i "f" iF
  let b := [entry, i, iF, ident].foldl (fun b s => onLetters b s ident) b
  let b := [i, iF, ident].foldl (fun b s => onDigits b s ident) b
  ends (ends (ends b i .ident) iF .if) ident .ident

/-- Integers. -/
def integers (b : Assembly) : Assembly :=
  let int := b.nextId
  let b := onDigits (onDigits b.addDispatch entry int) int int
  ends b int .int

/-- Runs of blanks. -/
def blanks (b : Assembly) : Assembly :=
  let white := b.nextId
  let b := on (on b.addDispatch entry " \t\r\n" white) white " \t\r\n" white
  ends b white .white

/-- A slash alone, and the two forms of comments. A line comment ends before its line break; a
block comment that is never closed matches nothing. -/
def comments (b : Assembly) : Assembly :=
  let slash := b.nextId
  let line := slash + 1
  let block := slash + 2
  let star := slash + 3
  let done := slash + 4
  let b := b.addDispatch.addDispatch.addDispatch.addDispatch.addDispatch
  let b := on (on (on b entry "/" slash) slash "/" line) slash "*" block
  let b := ends b slash .slash
  let b := on b line "\n" (emit .lineComment)
  let b := (b.addEdge line .eof (emit .lineComment)).addEdge line .all line
  let b := (on b block "*" star).addEdge block .eof (emit .unmatched)
  let b := b.addEdge block .all block
  let b := on (on b star "/" done) star "*" star
  let b := (b.addEdge star .eof (emit .unmatched)).addEdge star .all block
  ends b done .blockComment

/-- An operator of one byte. -/
def single (b : Assembly) (op : String × TokenKind) : Assembly :=
  let after := b.nextId
  ends (on b.addDispatch entry op.1 after) after op.2

/-- The operators of one byte. -/
def singles : List (String × TokenKind) :=
  [("(", .lParen), (")", .rParen), ("[", .lBracket), ("]", .rBracket), ("\x7b", .lBrace),
    ("\x7d", .rBrace), ("+", .plus), ("-", .minus), ("*", .star)]

/-- An operator of one byte that a second one extends. -/
structure Extensible where
  first : String
  second : String
  short : TokenKind
  long : TokenKind

/-- Adds an operator that a second byte extends. -/
def extensible (b : Assembly) (op : Extensible) : Assembly :=
  let maybe := b.nextId
  let done := maybe + 1
  let b := on (on b.addDispatch.addDispatch entry op.first maybe) maybe op.second done
  ends (ends b maybe op.short) done op.long

/-- The operators that a second byte extends. -/
def extensibles : List Extensible :=
  [⟨"=", "=", .assign, .eqEq⟩, ⟨"!", "=", .not, .ne⟩, ⟨"<", "=", .lt, .le⟩,
    ⟨">", "=", .gt, .ge⟩, ⟨"&", "&", .ampersand, .andAnd⟩, ⟨"|", "|", .pipe, .orOr⟩]

/-- Any other byte is a token of its own. -/
def junk (b : Assembly) : Assembly :=
  let after := b.nextId
  ends (b.addDispatch.addEdge entry .all after) after .unmatched

/-- The assembly of the grammar. -/
def assembly : Assembly :=
  let b := comments (blanks (integers (words terminals)))
  junk (extensibles.foldl extensible (singles.foldl single b))

/-- The automaton of the grammar. -/
def automaton : Except Malformed Automaton := assembly.build

end StreamLexer.Sample
