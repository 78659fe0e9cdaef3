import StreamLexer.Rule.Accumulator

/-!
# Sessions

A session drives a set of rules over an accumulator from outside. Each command invokes a rule, on a
fresh buffer or on the one that was last left, or does something to a parked continuation. The
session keeps what later commands can see: the parked continuations, the calls of the hooks, and
the buffer left.

## Main definitions

* `Command`, `Response`: what is asked of a session, and what it says
* `Session.run`: carries out a command, and tells what happened
-/

namespace StreamLexer.Accumulator

/-- What is asked of a session. -/
inductive Command (n : Nat) where
  /-- Invokes a rule on a fresh buffer. -/
  | invoke (rule : Fin n) (acc : UInt64)
  /-- Invokes a rule on the buffer that was last left. -/
  | again (rule : Fin n) (acc : UInt64)
  /-- Resumes a parked continuation. -/
  | resume (slot : Nat)
  /-- Drops a parked continuation. -/
  | drop (slot : Nat)
  /-- Parks a copy of a parked continuation. -/
  | fork (slot : Nat)
  /-- Refills the buffer of a parked continuation. -/
  | refill (slot : Nat)
  /-- Stages chunks for a parked continuation. -/
  | stage (slot : Nat) (chunks : List Chunk)
  /-- Shows a parked continuation. -/
  | inspect (slot : Nat)

/-- What a session says. -/
inductive Response (n : Nat) where
  | ended (reply : Except LexError Answer)
  /-- The invocation was given up. -/
  | givenUp
  /-- Done, and nothing to say. -/
  | done
  | failed (error : LexError)
  | parked (slot : Nat)
  | shown (k : Suspended n)
  | nothingHeld
  | emptySlot

/-- Rules, their host, the buffer on which commands start, and the one that was last left. -/
structure Session (n : Nat) where
  rules : RuleSet n UInt64 Answer
  host : Host n
  fresh : ScanBuffer
  held : Option ScanBuffer

namespace Session

variable {n : Nat}

/-- What happened during a command. -/
abbrev Events (n : Nat) := List (Event n UInt64 Answer)

/-- An invocation is given up after so many scans in a row. -/
def patience : Nat := 1000000000

/-- A session in which nothing happened yet. -/
def ofRules (rules : RuleSet n UInt64 Answer) (reactions : Vector Reaction n)
    (fresh : ScanBuffer) : Session n :=
  ⟨rules, .ofReactions reactions, fresh, none⟩

/-- Takes over what an invocation leaves: the host, and the buffer of the latest yield. -/
def conclude (s : Session n) : Reply n UInt64 Answer (Host n) → Response n × Session n × Events n
  | none => (.givenUp, s, [])
  | some (reply, c) =>
    let held := (c.leftBuffer? Answer.isYield).or s.held
    (.ended reply, { s with host := c.host, held := held }, c.events.reverse)

/-- Does something to a parked continuation. -/
def withSlot (s : Session n) (slot : Nat)
    (f : Suspended n → Response n × Session n × Events n) : Response n × Session n × Events n :=
  match s.host.slot? slot with
  | none => (.emptySlot, s, [])
  | some k => f k

/-- Replaces what is parked in a slot. -/
def setSlot (s : Session n) (slot : Nat) (k : Option (Suspended n)) : Session n :=
  { s with host := s.host.setSlot slot k }

/-- Carries out a command. Tells what to say, what becomes of the session, and what happened, in
order. -/
def run (s : Session n) : Command n → Response n × Session n × Events n
  | .invoke rule acc =>
    s.conclude (s.rules.invoke Host.hook patience rule s.fresh acc (.ofHost s.host))
  | .again rule acc =>
    match s.held with
    | none => (.nothingHeld, s, [])
    | some b =>
      let s := { s with held := none }
      s.conclude (s.rules.invoke Host.hook patience rule b acc (.ofHost s.host))
  | .resume slot => s.withSlot slot fun k =>
    let s := s.setSlot slot none
    s.conclude (s.rules.resume Host.hook patience k (.ofHost s.host))
  | .drop slot => s.withSlot slot fun _ => (.done, s.setSlot slot none, [])
  | .fork slot => s.withSlot slot fun k =>
    let (copy, host) := s.host.park k
    (.parked copy, { s with host := host }, [])
  | .refill slot => s.withSlot slot fun k =>
    match k.buffer.refill with
    | (.error error, b) => (.failed error, s.setSlot slot (some { k with buffer := b }), [])
    | (.ok refill, b) =>
      (.done, s.setSlot slot (some { k with buffer := b }), RuleSet.refillEvents refill)
  | .stage slot chunks => s.withSlot slot fun k =>
    (.done, s.setSlot slot (some { k with buffer := k.buffer.stage chunks }), [])
  | .inspect slot => s.withSlot slot fun k => (.shown k, s, [])

end Session

end StreamLexer.Accumulator
