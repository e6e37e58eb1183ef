import InkSyntax.Machine.Rule

namespace InkSyntax

/-!
# Running rules

A machine holds the stack of checkpoints and a host, which is whatever the rules
build.  `Rule.run` gives the meaning of a rule on a machine.  Every scope opens
exactly one checkpoint and closes it again: by folding it into its parent when
the rule matched, and by discarding it, together with what the host allocated
since, when the rule failed or only looked ahead.
-/

/-- What rules work on besides the text. -/
class Host (H : Type) where
  /-- How much has been allocated. -/
  mark : H → Nat
  /-- Forget whatever was allocated after a mark. -/
  rewind : H → Nat → H
  /-- A scope with these nodes as its result runs from the first cursor to the second. -/
  commit : H → List NodeId → Cursor → Cursor → H
  /-- Take a diagnostic. -/
  deliver : H → Severity → Nat → String → H

/-- A reading in progress. -/
structure Machine (H : Type) where
  stack : RuleStack
  /-- Whether an error was raised, delivered or not. -/
  hadError : Bool := false
  host : H
  /-- How many rounds one repetition may make. -/
  rounds : Nat

/-- What a rule comes to. -/
inductive Outcome (H α : Type) where
  | matched (value : α) (after : Machine H)
  | failed (after : Machine H)
  | faulted (fault : Fault)

/-- The effect of a rule on a machine. -/
abbrev Action (H α : Type) := Machine H → Outcome H α

namespace Machine

variable {H : Type}

/-- A repetition makes at most this many rounds.

A round that neither consumes a character nor changes the flags is followed by
another just like it, so longer repetitions never end. -/
def roundLimit (length : Nat) : Nat := (length + 1) * 0x100000000

/-- A machine at the start of a text. -/
def start (text : List Char) (maxDepth : Nat) (host : H) : Machine H where
  stack := .start maxDepth (.atStart text)
  host := host
  rounds := roundLimit text.length

/-- The innermost checkpoint. -/
def top (machine : Machine H) : Checkpoint := machine.stack.top

/-- The cursor of the innermost scope. -/
def cursor (machine : Machine H) : Cursor := machine.stack.top.cursor

def modifyTop (machine : Machine H) (change : Checkpoint → Checkpoint) : Machine H :=
  { machine with stack := machine.stack.modifyTop change }

/-- Move the cursor. -/
def moveTo (machine : Machine H) (cursor : Cursor) : Machine H :=
  machine.modifyTop fun checkpoint => { checkpoint with cursor := cursor }

variable [Host H]

/-- Open a scope. -/
def openScope (machine : Machine H) : Except Fault (RuleId × Machine H) := do
  let (rule, stack) ← machine.stack.push (Host.mark machine.host)
  return (rule, { machine with stack := stack })

/-- Close a scope and undo what happened in it. -/
def cancelScope (machine : Machine H) (rule : RuleId) : Except Fault (Machine H) := do
  let (closed, stack) ← machine.stack.pop rule
  return { machine with stack := stack, host := Host.rewind machine.host closed.mark }

/-- Close a scope and keep what happened in it. -/
def commitScope (machine : Machine H) (rule : RuleId) (nodes : List NodeId) :
    Except Fault (Machine H) := do
  let closed ← machine.stack.peek rule
  let opened := machine.stack.penultimate?.getD {}
  let stack ← machine.stack.squash
  return { machine with
    stack := stack
    host := Host.commit machine.host nodes opened.cursor closed.cursor }

/-- Deliver a diagnostic, unless the innermost scope already delivered one. -/
def report (machine : Machine H) (severity : Severity) (line : Nat) (message : String) :
    Machine H :=
  let told :=
    if machine.top.reported then machine
    else
      { machine with
        stack := machine.stack.noteReported
        host := Host.deliver machine.host severity line message }
  if severity = .error then { told with hadError := true } else told

end Machine

namespace Outcome

variable {H α β : Type}

/-- Go on after a match. -/
def andThen (outcome : Outcome H α) (next : α → Action H β) : Outcome H β :=
  match outcome with
  | matched value after => next value after
  | failed after => failed after
  | faulted fault => faulted fault

/-- A step of the scope discipline, which can only fault. -/
def ofExcept (result : Except Fault (Machine H)) (finish : Machine H → Outcome H α) :
    Outcome H α :=
  match result with
  | .ok after => finish after
  | .error fault => faulted fault

end Outcome

namespace Action

variable {H α σ : Type}

/-- Go on only if a rule closed every scope that it opened. -/
def balanced (height : Nat) (after : Machine H) (finish : Machine H → Outcome H α) :
    Outcome H α :=
  if height = after.stack.height then finish after
  else .faulted (.unbalancedRule height after.stack.height)

/-- Run an action in a scope, cancelled if it fails or its value says so. -/
def inScope [Host H] (fate : α → Fate) (action : Action H α) : Action H α :=
  fun before =>
    match before.openScope with
    | .error fault => .faulted fault
    | .ok (rule, opened) =>
        match action opened with
        | .matched value after =>
            balanced opened.stack.height after fun after =>
              match fate value with
              | .keep nodes => .ofExcept (after.commitScope rule nodes) (.matched value)
              | .undo => .ofExcept (after.cancelScope rule) (.matched value)
        | .failed after =>
            balanced opened.stack.height after fun after =>
              .ofExcept (after.cancelScope rule) .failed
        | .faulted fault => .faulted fault

/-- Run rounds until one gives a result, within a number of rounds. -/
def iterate (round : σ → Action H (σ ⊕ α)) : Nat → σ → Action H α
  | 0, _ => fun _ => .faulted .stalled
  | rounds + 1, state => fun before =>
      match round state before with
      | .matched (.inl next) after => iterate round rounds next after
      | .matched (.inr value) after => .matched value after
      | .failed after => .failed after
      | .faulted fault => .faulted fault

end Action

/-- The meaning of a rule, given the meaning of the effects. -/
def Rule.run {E : Type → Type 1} {H : Type} [Host H]
    (handle : {β : Type} → E β → Action H β) : {α : Type} → Rule E α → Action H α
  | _, .pure value => .matched value
  | _, .fail => .failed
  | _, .bind first next => fun before =>
      (run handle first before).andThen fun value => run handle (next value)
  | _, .attempt rule => fun before =>
      match run handle rule before with
      | .matched value after => .matched (some value) after
      | .failed after => .matched none after
      | .faulted fault => .faulted fault
  | _, .scope fate rule => Action.inScope fate (run handle rule)
  | _, .loop state round => fun before =>
      Action.iterate (fun state => run handle (round state)) before.rounds state before
  | _, .scan scanner => fun before =>
      match before.cursor.scan scanner with
      | some (value, cursor) => .matched value (before.moveTo cursor)
      | none => .failed before
  | _, .here => fun before => .matched before.top before
  | _, .setFlag mask on => fun before =>
      .matched () (before.modifyTop fun checkpoint => checkpoint.setFlag mask on)
  | _, .report severity line message => fun before =>
      .matched () (before.report severity line message)
  | _, .effect operation => handle operation

end InkSyntax
