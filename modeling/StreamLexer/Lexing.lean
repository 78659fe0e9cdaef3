import StreamLexer.Engine
import StreamLexer.Grammar.Sample
import StreamLexer.Text.Utf8

/-!
# Lexing a whole stream

A stream is lexed match by match until an empty one. At the end of the stream that match is the
last; anywhere else it is an error, since it would be found again for ever.

With the sample grammar, the matches are the tokens of a text: trivia are dropped, the end of the
stream is no token, and bytes that start no token are an error that shows what stands around them.

## Main definitions

* `Engine.lexAll`: the matches of a stream
* `Token`, `Sample.tokens`: the tokens of a text
* `Sample.TokenError`: why a text has no tokens
-/

namespace StreamLexer

namespace Engine

/-- Collects matches up to an empty one, at most so many; those found so far stand latest first. -/
def collect (e : Engine) :
    Nat → List Match → ScanBuffer → Except LexError (List Match) × ScanBuffer
  | 0, _, b => (.error (.malformed .endless), b)
  | fuel + 1, found, b =>
    match e.nextMatch b with
    | (.error error, b) => (.error error, b)
    | (.ok m, b) =>
      if m.span.isEmpty then
        if b.isExhausted then (.ok (m :: found).reverse, b)
        else (.error (.malformed (.emptyMatch b.window.position)), b)
      else collect e fuel (m :: found) b

/-- The matches of a stream, and the buffer as it is afterwards. Every match but the last reads a
byte, which bounds their number. -/
def lexAll (e : Engine) (b : ScanBuffer) : Except LexError (List Match) × ScanBuffer :=
  e.collect (b.volume + 1) [] b

end Engine

/-- A token of a text: its kind, where it starts, and how many bytes it has. -/
structure Token where
  kind : TokenKind
  start : Nat
  length : Nat
deriving DecidableEq, Repr

namespace Sample

/-- Why a text has no tokens. -/
inductive TokenError where
  /-- Lexing failed. -/
  | lexing (error : LexError)
  /-- An action that is no kind of token was reported. -/
  | unknownAction (action : ActionId)
  /-- The bytes `text` at `offset` start no token; `context` stands around them from
  `contextStart` on. -/
  | unmatched (text : List UInt8) (offset contextStart : Nat) (context : List UInt8)
deriving DecidableEq, Repr

/-- A context shows visible ASCII characters and blanks; a dot stands for any other byte. -/
def contextChar (b : UInt8) : Char :=
  if (0x20 ≤ b ∧ b ≤ 0x7E) ∨ b = 0x09 ∨ b = 0x0A ∨ b = 0x0D then Char.ofNat b.toNat
  else '·'

/-- The wording of a token error. -/
def TokenError.message : TokenError → String
  | lexing error => error.report
  | unknownAction action => s!"sample automaton reported unknown action {action}"
  | unmatched text offset contextStart context =>
    let quoted := Text.quote (Utf8.decodeLossy text)
    let stop := contextStart + context.length
    let shown := String.ofList (context.map contextChar)
    s!"unmatched input {quoted} at byte {offset}; context [{contextStart}..{stop}):\n{shown}"

/-- The bytes around a place, sixteen to each side, with the place where they start. -/
def contextAround (input : List UInt8) (place : Nat) : Nat × List UInt8 :=
  let start := place - 16
  (start, (input.take (place + 16)).drop start)

/-- The tokens among the matches of `input`; those found so far stand latest first. -/
def tokensOf (input : List UInt8) : List Token → List Match → Except TokenError (List Token)
  | found, [] => .ok found.reverse
  | found, m :: ms =>
    match TokenKind.ofAction? m.action with
    | none => .error (.unknownAction m.action)
    | some .eof => .ok found.reverse
    | some .unmatched =>
      let (start, context) := contextAround input m.span.start
      .error (.unmatched m.text m.span.start start context)
    | some kind =>
      if kind.isTrivia then tokensOf input found ms
      else tokensOf input (⟨kind, m.span.start, m.span.length⟩ :: found) ms

/-- An engine for the sample grammar. -/
def engine (backend : Backend) : Except Malformed Engine :=
  automaton.bind fun a => Engine.ofAutomaton backend a entry

/-- The tokens of a text in the sample grammar. -/
def tokens (input : List UInt8) (backend : Backend) : Except TokenError (List Token) :=
  match engine backend with
  | .error cause => .error (.lexing (.malformed cause))
  | .ok e =>
    match (e.lexAll (.ofBytes input)).1 with
    | .error error => .error (.lexing error)
    | .ok found => tokensOf input [] found

end Sample

end StreamLexer
