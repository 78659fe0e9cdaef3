import StreamLexer.Command.Report
import StreamLexer.Files.Access
import StreamLexer.Grammar.RandomText
import StreamLexer.Random.SplitMix
import StreamLexer.Rule.Lexing
import StreamLexer.Settings
import StreamLexer.Text.Decimal

/-!
# Fuzzing

Fuzzing lexes texts in every way there is and compares the matches: whole and cut at random, by
tables and by a program, by a rule with and without a hook. The texts are random ones with noise,
or one text that is to be replayed.

## Main definitions

* `Fuzz.Divergence`: how two ways of lexing differ
* `Fuzz.check`: lexes one text in every way
* `Fuzz.replay`, `Fuzz.campaign`: one given text, a number of random ones
-/

namespace StreamLexer.Command.Fuzz

/-- How two ways of lexing differ. -/
inductive Divergence where
  /-- A way of lexing failed. -/
  | failed (error : LexError)
  /-- The first different match, and the numbers of matches. -/
  | unlike (label : String) (first expected found : Nat)
  /-- A hook was not called once per refill. -/
  | hookCalls (label : String) (calls refills : Nat)
deriving DecidableEq, Repr

/-- The failure of a divergence. -/
def Divergence.failure : Divergence → Failure
  | failed error => .ofError error
  | unlike label first expected found =>
    ⟨s!"[{label}] diverged at match {first} (reference has {expected}, got {found})", []⟩
  | hookCalls label calls refills =>
    ⟨s!"[{label}] hook ran {calls} times for {refills} refills", []⟩

/-- How far two lists agree. -/
def agreement : List Match → List Match → Nat
  | m :: ms, k :: ks => if m = k then agreement ms ks + 1 else 0
  | _, _ => 0

/-- Compares matches with the expected ones. -/
def compare (label : String) (expected found : List Match) : Except Divergence Unit :=
  let first := agreement expected found
  if first = expected.length ∧ first = found.length then .ok ()
  else .error (.unlike label first expected.length found.length)

/-- Lexes an input, cut at random, by a rule, with a hook and without. -/
def checkRule (e : Engine) (input : List UInt8) (cuts : List Nat) (expected : List Match)
    (hooked : Bool) : Except Divergence Unit :=
  let backend := e.backend.name
  let pieces := cuts.length + 1
  let mark := if hooked then "+hook" else ""
  let label := s!"{backend}/{pieces}chunks{mark}"
  match (e.lexByRule TokenKind.all.length input cuts hooked).1 with
  | .error error => .error (.failed error)
  | .ok r =>
    match compare label expected r.found with
    | .error divergence => .error divergence
    | .ok () =>
      if hooked && r.suspensions != r.refills then
        .error (.hookCalls label r.suspensions r.refills)
      else .ok ()

/-- Lexes an input by both engines, whole and in every other way. Gives the number of matches. -/
def check (table direct : Engine) (input : List UInt8) (words : WordStream) :
    Except Divergence Nat := do
  let expected ← ((table.lexAll (.ofBytes input)).1).mapError Divergence.failed
  let whole ← ((direct.lexAll (.ofBytes input)).1).mapError Divergence.failed
  compare "direct/whole" expected whole
  let dice := WordStream.dice
  let draw : StateM WordStream (List Nat) := do
    RandomText.cuts dice input.length (← dice.between 1 64)
  let (cuts, words) := draw words
  checkRule table input cuts expected false
  checkRule table input cuts expected true
  let (cuts, _) := draw words
  checkRule direct input cuts expected false
  checkRule direct input cuts expected true
  return expected.length

/-- The engines to compare. -/
def engines : Except Malformed (Engine × Engine) := do
  return (← Sample.engine .table, ← Sample.engine .direct)

/-- The seed of an environment. -/
def seed (env : Environment) : UInt64 := UInt64.ofNat (env.number "FUZZ_SEED" 42)

/-- Replays one text, given what reading it gave. -/
def replay (env : Environment) (path : String) (file : Except Refusal (List UInt8)) : Report :=
  let opening := [s!"[replay] reading {path}"]
  match engines, file with
  | .error cause, _ => .failure (.ofError (.malformed cause)) [] []
  | .ok _, .error why => .failure ⟨"failed to read " ++ path, [why.text]⟩ [] opening
  | .ok (table, direct), .ok input =>
    match check table direct input (.ofSeed (seed env) []) with
    | .error divergence => .failure divergence.failure [] opening
    | .ok count => .success [] (opening ++ [s!"[replay] {count} matches OK"])

/-- The noise asked for: a number that is brought between zero and one. -/
def noise (env : Environment) : Float :=
  let asked := ((env.text? "FUZZ_NOISE").bind Decimal.read?).getD 0.01
  if asked < 0.0 then 0.0 else if 1.0 < asked then 1.0 else asked

/-- The texts of a campaign that are lexed differently, with their numbers, out of so many texts
from number `i` on. -/
def divergences (table direct : Engine) (seed : UInt64) (length : Nat) (rate : Chance) :
    Nat → Nat → List (Nat × Divergence)
  | 0, _ => []
  | left + 1, i =>
    let words := WordStream.ofSeed (seed + UInt64.ofNat i) []
    let (input, words) := RandomText.noisy WordStream.dice length rate words
    let others := divergences table direct seed length rate left (i + 1)
    match check table direct input words with
    | .ok _ => others
    | .error divergence => (i, divergence) :: others

/-- The line of a text that is lexed differently. -/
def divergenceLine (seed : UInt64) (entry : Nat × Divergence) : String :=
  let i := entry.1
  let seed := seed + UInt64.ofNat i
  let failure := entry.2.failure
  let text := ": ".intercalate (failure.message :: failure.causes)
  s!"[fuzz] iter {i} (seed {seed}): {text}"

/-- Checks a number of random texts. -/
def campaign (env : Environment) : Report :=
  let seed := seed env
  let count := env.number "FUZZ_ITERS" 16
  let length := env.number "FUZZ_LEN" 65536
  let noise := noise env
  let shown := Decimal.write noise
  let opening := [s!"[fuzz] len={length} iters={count} seed={seed} noise={shown}"]
  match engines, Chance.ofFloat? noise with
  | .error cause, _ => .failure (.ofError (.malformed cause)) [] []
  | .ok _, none =>
    if count = 0 then .success [] (opening ++ ["[fuzz] all 0 iterations"])
    else ⟨101, [], opening ++ ["the noise is no probability"]⟩
  | .ok (table, direct), some rate =>
    match divergences table direct seed length rate count 0 with
    | [] => .success [] (opening ++ [s!"[fuzz] all {count} iterations"])
    | found =>
      let failed := found.length
      .failure ⟨s!"{failed} of {count} iterations diverged", []⟩ []
        (opening ++ found.map (divergenceLine seed))

/-- Fuzzing: a replay if a path is given, and a campaign otherwise. -/
def run (env : Environment) : Option (String × Except Refusal (List UInt8)) → Report
  | some (path, file) => replay env path file
  | none => campaign env

end StreamLexer.Command.Fuzz
