import StreamLexer.Command.Report
import StreamLexer.Files.Access
import StreamLexer.Lexing
import StreamLexer.Settings

/-!
# The demonstration

Without a file, the demonstration shows the tokens of a small text. With one, it lexes the file
through a reader, a chunk at a time, counts the matches and those that match nothing, and lists
them all if it is to be verbose.

## Main definitions

* `Demo.sampleText`: the text shown without a file
* `Demo.run`: the demonstration
-/

namespace StreamLexer.Command.Demo

/-- The text shown without a file. -/
def sampleText : String :=
  "\n        foo = 12 + bar/* cmt */(7) // hello\n        if baz>=3/*multi\n" ++
    "        line*/&& !qux\n    "

/-- The line of a token of `input`. -/
def tokenLine (input : List UInt8) (t : Token) : String :=
  let name := t.kind.name
  let text := Text.quote (Utf8.decodeLossy ((input.drop t.start).take t.length))
  s!"{name}  {text}"

/-- Shows the tokens of a text. -/
def showTokens (settings : Settings) (input : List UInt8) : Report :=
  match Sample.tokens input settings.backend with
  | .error error => .failure ⟨error.message, []⟩ [] []
  | .ok tokens =>
    let backend := settings.backend.name
    .success (s!"TOKENS ({backend} backend):" :: tokens.map (tokenLine input)) []

/-- The line of a match. -/
def matchLine (m : Match) : String :=
  let kind := match TokenKind.ofAction? m.action with
    | some kind =>
      let name := kind.name
      s!"Some({name})"
    | none => "None"
  let start := m.span.start
  let length := m.span.length
  let text := Text.quote (Utf8.decodeLossy m.text)
  s!"{kind} @{start}+{length}  {text}"

/-- Lexes a file through a reader, given what happens to the reader. -/
def lexFile (settings : Settings) (path : String) (events : List ReadEvent) : Report :=
  match Sample.engine settings.backend with
  | .error cause => .failure (.ofError (.malformed cause)) [] []
  | .ok e =>
    let source := Source.ofReader settings.chunkSize events
    match (e.lexAll (.ofSource [] source)).1 with
    | .error error => .failure (.ofError error) [] []
    | .ok found =>
      let backend := settings.backend.name
      let count := found.length
      let unmatched := found.countP fun m => m.action == TokenKind.unmatched.action
      .success (if settings.verbose then found.map matchLine else [])
        [s!"[{backend}] {path}: {count} matches, {unmatched} unmatched"]

/-- The demonstration, given what reading the file gave that was asked for, if one was. A directory
can be opened but not read. -/
def run (settings : Settings) : Option (String × Except Refusal (List UInt8)) → Report
  | none => showTokens settings (Utf8.encode sampleText)
  | some (path, .ok bytes) => lexFile settings path [.data bytes]
  | some (path, .error why) =>
    if why = .isDirectory then lexFile settings path [.failure why.text]
    else .failure ⟨"open " ++ path, [why.text]⟩ [] []

end StreamLexer.Command.Demo
