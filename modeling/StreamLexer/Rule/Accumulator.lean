import StreamLexer.Rule.Course
import StreamLexer.Text.Ascii

/-!
# Rules over an accumulator

A family of rules whose only parameter is an accumulator of 64 bits, which wraps around. Their
actions add, count down, call each other, or end; their hooks resume, feed, park, copy or drop what
is suspended. Parked continuations stand in numbered slots that are never used twice.

## Main definitions

* `Accumulator.Deed`: what an action does
* `Accumulator.Answer`: how an invocation ends
* `Accumulator.Reaction`: what a hook does
* `Accumulator.Host`: the slots, and how often each hook was called
-/

namespace StreamLexer.Accumulator

/-- How an invocation ends. -/
inductive Answer where
  | stopped (acc : UInt64)
  /-- Ended by an action that leaves its buffer to be taken up again. -/
  | yielded (acc : UInt64)
  /-- Parked in a slot. -/
  | parked (slot : Nat)
  | dropped
  /-- Resumed twice. -/
  | twice (first second : Except LexError Answer)

/-- Whether an invocation left its buffer to be taken up again. -/
def Answer.isYield : Answer → Bool
  | yielded _ => true
  | _ => false

/-- What an action does, in a set of `n` rules. -/
inductive Deed (n : Nat) where
  /-- Invokes the rule again. -/
  | again
  /-- Adds the lexeme as a decimal number of up to 64 bits, and invokes the rule again. -/
  | sum
  | stop
  | yield
  | refuse
  /-- Invokes a rule with something added. -/
  | call (rule : Fin n) (addend : UInt64)
  /-- Takes one away, and invokes the first rule at zero and the second one otherwise. -/
  | countDown (atZero otherwise : Fin n)

/-- The action of a deed, in the rule `self`. -/
def Deed.action {n : Nat} (self : Fin n) : Deed n → Action n UInt64 Answer
  | again, _, acc => .invoke self acc
  | sum, found, acc =>
    match Digits.number? UInt64.size found.text with
    | some addend => .invoke self (acc + UInt64.ofNat addend)
    | none =>
      let start := found.span.start
      .fail (.action s!"not a number at {start}")
  | stop, _, acc => .finish (.stopped acc)
  | yield, _, acc => .finish (.yielded acc)
  | refuse, found, _ =>
    let start := found.span.start
    .fail (.action s!"refused at {start}")
  | call rule addend, _, acc => .invoke rule (acc + addend)
  | countDown atZero otherwise, _, acc =>
    if acc - 1 = 0 then .invoke atZero (acc - 1) else .invoke otherwise (acc - 1)

/-- What a hook does. -/
inductive Reaction where
  | resume
  | park
  | drop
  | refuse
  /-- Resumes, and resumes a copy after that. -/
  | twice
  /-- Resumes so many times, and parks from then on. -/
  | parkAfter (calls : Nat)
  /-- Stages one of the chunks at each call, as long as there are any, and resumes. -/
  | stage (chunks : List Chunk)

/-- The continuations of a set of `n` rules. -/
abbrev Suspended (n : Nat) := Continuation n UInt64

/-- Parked continuations in their slots, and how often each rule's hook was called. -/
structure Host (n : Nat) where
  reactions : Vector Reaction n
  slots : Array (Option (Suspended n))
  calls : Vector Nat n

namespace Host

variable {n : Nat}

/-- Nothing parked, nothing called. -/
def ofReactions (reactions : Vector Reaction n) : Host n := ⟨reactions, #[], .replicate n 0⟩

/-- The continuation parked in a slot. -/
def slot? (h : Host n) (i : Nat) : Option (Suspended n) := h.slots[i]?.join

/-- Replaces what is parked in a slot. -/
def setSlot (h : Host n) (i : Nat) (k : Option (Suspended n)) : Host n :=
  { h with slots := h.slots.modify i fun _ => k }

/-- Parks a continuation in a new slot. -/
def park (h : Host n) (k : Suspended n) : Nat × Host n :=
  (h.slots.size, { h with slots := h.slots.push (some k) })

/-- Parks a continuation and answers with its slot. -/
def parkPlan (h : Host n) (k : Suspended n) : Plan n UInt64 Answer × Host n :=
  let (slot, h) := h.park k
  (.answer (.ok (.parked slot)), h)

/-- The plan of a rule's hook. -/
def hook : Hook n UInt64 Answer (Host n) := fun k h =>
  let calls := h.calls[k.rule]
  let h := { h with calls := h.calls.set k.rule (calls + 1) }
  match h.reactions[k.rule] with
  | .resume => (.passThrough k, h)
  | .park => h.parkPlan k
  | .drop => (.answer (.ok .dropped), h)
  | .refuse => (.answer (.error (.action "hook refused")), h)
  | .twice =>
    (.resume k fun first => .resume k fun second => .answer (.ok (.twice first second)), h)
  | .parkAfter limit => if calls < limit then (.passThrough k, h) else h.parkPlan k
  | .stage chunks =>
    match chunks[calls]? with
    | some chunk => (.passThrough { k with buffer := k.buffer.stage [chunk] }, h)
    | none => (.passThrough k, h)

end Host

end StreamLexer.Accumulator
