import InkSyntax.Machine.RuleStack
import Mathlib.Data.List.Basic
import Mathlib.Data.List.Nodup

namespace InkSyntax

/-!
# The discipline of the checkpoint stack

A stack of checkpoints can be worked on in any order, with any numbers of scopes.  What
it holds is settled all the same by which scopes were opened and are not closed yet: it
has one checkpoint for each of these, the latest on top, under the number that was given
out for it, and one for the text as a whole.  Each operation keeps that agreement.

Closing a scope goes by its number, or without one where its checkpoint is folded into
the one below, and a delivered diagnostic marks the checkpoints of all open scopes.  Up
to that mark, what lies below a scope is left alone as long as the scope is open.
-/

theorem bind_eq_ok_iff
    {α β : Type}
    {first : Except Fault α}
    {second : α → Except Fault β}
    {result : β} :
    first >>= second = .ok result ↔
      ∃ value, first = .ok value ∧ second value = .ok result := by
  cases first <;> simp [bind, Except.bind]

/-- What can be asked of a stack of checkpoints. -/
inductive StackOperation where
  | push (mark : Nat)
  | pop (rule : RuleId)
  | peek (rule : RuleId)
  | squash
  | noteReported
  /-- Move the cursor of the top or change it otherwise, but for its identifier. -/
  | update (change : Checkpoint → Checkpoint)

namespace StackOperation

/-- Work on a stack, unless that is a fault. -/
def apply (stack : RuleStack) : StackOperation → Except Fault RuleStack
  | push mark => do return (← stack.push mark).2
  | pop rule => do return (← stack.pop rule).2
  | peek rule => do
      let _ ← stack.peek rule
      return stack
  | squash => stack.squash
  | noteReported => .ok stack.noteReported
  | update change =>
      .ok (stack.modifyTop fun checkpoint =>
        { change checkpoint with rule := checkpoint.rule })

/-- Work on a stack step by step; a fault ends it. -/
def run (stack : RuleStack) : List StackOperation → Except Fault RuleStack
  | [] => .ok stack
  | operation :: rest => do run (← operation.apply stack) rest

/-- A run goes through the stack that its first operations leave. -/
theorem run_append_eq_ok_iff
    {stack after : RuleStack}
    (earlier later : List StackOperation) :
    run stack (earlier ++ later) = .ok after ↔
      ∃ middle, run stack earlier = .ok middle ∧ run middle later = .ok after := by
  induction earlier generalizing stack with
  | nil =>
      simp [run]
  | cons operation rest inductionHypothesis =>
      simp only [List.cons_append, run, bind_eq_ok_iff, inductionHypothesis]
      constructor
      · rintro ⟨next, applied, middle, first, second⟩
        exact ⟨middle, ⟨next, applied, first⟩, second⟩
      · rintro ⟨middle, ⟨next, applied, first⟩, second⟩
        exact ⟨next, applied, middle, first, second⟩

end StackOperation

/-- What became of the scopes that operations opened. -/
structure ScopeHistory where
  /-- How many were opened; the number of a scope is how many were opened before. -/
  opened : Nat := 0
  /-- The numbers of those that are not closed, the latest first. -/
  unresolved : List Nat := []

namespace ScopeHistory

/-- Opening a scope makes it the latest, and closing is closing the latest.

An operation that is recorded was no fault.  That nothing but the latest scope can be
popped is left to the stack. -/
def record (history : ScopeHistory) : StackOperation → ScopeHistory
  | .push _ => ⟨history.opened + 1, history.opened :: history.unresolved⟩
  | .pop _ => ⟨history.opened, history.unresolved.tail⟩
  | .squash => ⟨history.opened, history.unresolved.tail⟩
  | .peek _ => history
  | .noteReported => history
  | .update _ => history

/-- The history of operations, from the beginning on. -/
def of (operations : List StackOperation) : ScopeHistory :=
  operations.foldl record {}

/-- The identifier that a scope gets. -/
def ruleOf (number : Nat) : RuleId := ⟨UInt32.ofNat (number + 1)⟩

/-- As long as numbers do not run out, other scopes have other identifiers. -/
theorem ruleOf_inj
    {first second : Nat}
    (firstFew : first + 1 < UInt32.size)
    (secondFew : second + 1 < UInt32.size) :
    ruleOf first = ruleOf second ↔ first = second := by
  refine ⟨fun same => ?_, congrArg _⟩
  have numbers := congrArg (fun rule : RuleId => rule.number.toNat) same
  simp only [ruleOf, UInt32.toNat_ofNat_of_lt' firstFew,
    UInt32.toNat_ofNat_of_lt' secondFew] at numbers
  exact Nat.succ.inj numbers

theorem opened_le_foldl_record
    (operations : List StackOperation)
    (history : ScopeHistory) :
    history.opened ≤ (operations.foldl record history).opened := by
  induction operations generalizing history with
  | nil =>
      exact Nat.le_refl _
  | cons operation rest inductionHypothesis =>
      have step : history.opened ≤ (history.record operation).opened := by
        cases operation <;> simp [record]
      exact Nat.le_trans step (inductionHypothesis _)

theorem of_append_cons
    (earlier later : List StackOperation)
    (operation : StackOperation) :
    of (earlier ++ operation :: later) =
      later.foldl record ((of earlier).record operation) := by
  rw [of, List.foldl_append, List.foldl_cons]
  rfl

/-- A scope that is open in the end was open before, or was opened on the way. -/
theorem exists_push_of_mem_unresolved
    {operations : List StackOperation}
    {history : ScopeHistory}
    {number : Nat}
    (isOpen : number ∈ (operations.foldl record history).unresolved) :
    number ∈ history.unresolved ∨
      ∃ earlier mark later,
        operations = earlier ++ .push mark :: later ∧
          (earlier.foldl record history).opened = number := by
  induction operations generalizing history with
  | nil =>
      exact .inl isOpen
  | cons operation rest inductionHypothesis =>
      rcases inductionHypothesis isOpen with before | ⟨earlier, mark, later, rfl, opened⟩
      · cases operation with
        | push mark =>
            rcases List.mem_cons.mp before with rfl | older
            · exact .inr ⟨[], mark, rest, rfl, rfl⟩
            · exact .inl older
        | pop rule => exact .inl (List.mem_of_mem_tail before)
        | squash => exact .inl (List.mem_of_mem_tail before)
        | peek rule => exact .inl before
        | noteReported => exact .inl before
        | update change => exact .inl before
      · exact .inr ⟨operation :: earlier, mark, later, rfl, opened⟩

end ScopeHistory

namespace RuleStack

/-- All checkpoints, the innermost first. -/
def checkpoints (stack : RuleStack) : List Checkpoint := stack.top :: stack.below

/-- A checkpoint up to whether a diagnostic was delivered. -/
def unreported (checkpoint : Checkpoint) : Checkpoint :=
  { checkpoint with reported := false }

/-- A result is a fault. -/
def Faults {α : Type} (result : Except Fault α) : Prop := ∃ fault, result = .error fault

/-- Of a run, the push of a number: what it gave out, and the stack it was made on. -/
def PushesIn
    (start : RuleStack)
    (operations : List StackOperation)
    (number : Nat)
    (rule : RuleId)
    (before : RuleStack) : Prop :=
  ∃ earlier mark later opened,
    operations = earlier ++ .push mark :: later ∧
      (ScopeHistory.of earlier).opened = number ∧
      StackOperation.run start earlier = .ok before ∧
      before.push mark = .ok (rule, opened)

variable
    {stack after : RuleStack}
    {history next : ScopeHistory}
    {operation : StackOperation}

section Steps

/-- The three things that operations do to the checkpoints of a stack. -/
inductive StackStep
    (history : ScopeHistory)
    (stack after : RuleStack) : ScopeHistory → Prop where
  | opens
      (opened : Checkpoint)
      (room : stack.height < stack.maxDepth)
      (checkpoints : after.checkpoints = opened :: stack.checkpoints)
      (rule : opened.rule = ⟨stack.lastRule + 1⟩)
      (lastRule : after.lastRule = stack.lastRule + 1) :
      StackStep history stack after
        ⟨history.opened + 1, history.opened :: history.unresolved⟩
  | closes
      (under joined : Checkpoint)
      (deeper : List Checkpoint)
      (below : stack.below = under :: deeper)
      (checkpoints : after.checkpoints = joined :: deeper)
      (rule : joined.rule = under.rule)
      (lastRule : after.lastRule = stack.lastRule) :
      StackStep history stack after ⟨history.opened, history.unresolved.tail⟩
  | stays
      (rules : after.checkpoints.map (·.rule) = stack.checkpoints.map (·.rule))
      (below : after.below.map unreported = stack.below.map unreported)
      (lastRule : after.lastRule = stack.lastRule) :
      StackStep history stack after history

theorem steps_of_push
    (history : ScopeHistory)
    {mark : Nat}
    {rule : RuleId}
    (pushed : stack.push mark = .ok (rule, after)) :
    rule = ⟨stack.lastRule + 1⟩ ∧
      after.below = stack.checkpoints ∧
      after.maxDepth = stack.maxDepth ∧
      StackStep history stack after (history.record (.push mark)) := by
  unfold RuleStack.push at pushed
  split at pushed
  · cases pushed
  · next full =>
      cases pushed
      exact ⟨rfl, rfl, rfl, .opens _ (Nat.lt_of_not_le full) rfl rfl rfl⟩

theorem pop_eq_ok_iff
    {rule : RuleId}
    {closed : Checkpoint} :
    stack.pop rule = .ok (closed, after) ↔
      closed = stack.top ∧
        stack.top.rule = rule ∧
        ∃ under deeper,
          stack.below = under :: deeper ∧
            after = { stack with top := under, below := deeper } := by
  unfold RuleStack.pop
  cases below : stack.below with
  | nil =>
      simp
  | cons under deeper =>
      by_cases own : stack.top.rule = rule
      · simp only [RuleStack.peek, own, ↓reduceIte, bind, Except.bind, Except.ok.injEq,
          Prod.mk.injEq, List.cons.injEq, true_and]
        constructor
        · rintro ⟨rfl, rfl⟩
          exact ⟨rfl, under, deeper, ⟨rfl, rfl⟩, rfl⟩
        · rintro ⟨rfl, _, _, ⟨rfl, rfl⟩, rfl⟩
          exact ⟨rfl, rfl⟩
      · simp [RuleStack.peek, own, bind, Except.bind]

theorem steps_of_apply
    (applied : operation.apply stack = .ok after) :
    after.maxDepth = stack.maxDepth ∧
      StackStep history stack after (history.record operation) := by
  cases operation with
  | push mark =>
      obtain ⟨⟨rule, opened⟩, pushed, same⟩ := bind_eq_ok_iff.mp applied
      cases same
      exact (steps_of_push history pushed).2.2
  | pop rule =>
      obtain ⟨⟨closed, left⟩, popped, same⟩ := bind_eq_ok_iff.mp applied
      cases same
      obtain ⟨-, -, under, deeper, below, rfl⟩ := pop_eq_ok_iff.mp popped
      exact ⟨rfl, .closes under under deeper below rfl rfl rfl⟩
  | peek rule =>
      obtain ⟨seen, -, same⟩ := bind_eq_ok_iff.mp applied
      cases same
      exact ⟨rfl, .stays rfl rfl rfl⟩
  | squash =>
      simp only [StackOperation.apply, RuleStack.squash] at applied
      split at applied
      · cases applied
      · next under deeper below =>
          cases applied
          exact ⟨rfl, .closes under _ deeper below rfl rfl rfl⟩
  | noteReported =>
      cases applied
      refine ⟨rfl, .stays ?_ ?_ rfl⟩
      · simp [RuleStack.checkpoints, RuleStack.noteReported]
      · simp [RuleStack.noteReported, unreported]
  | update change =>
      cases applied
      exact ⟨rfl, .stays rfl rfl rfl⟩

end Steps

section Faults

theorem faults_push_iff
    (mark : Nat) :
    Faults (stack.push mark) ↔ stack.maxDepth ≤ stack.height := by
  unfold RuleStack.push Faults
  split
  · next full => simp [full]
  · next room => simp [room]

theorem faults_pop_iff
    {rule : RuleId} :
    Faults (stack.pop rule) ↔ stack.below = [] ∨ stack.top.rule ≠ rule := by
  unfold RuleStack.pop Faults
  cases stack.below with
  | nil =>
      simp
  | cons under deeper =>
      by_cases own : stack.top.rule = rule
      · simp [RuleStack.peek, own, bind, Except.bind]
      · simp [RuleStack.peek, own, bind, Except.bind]

end Faults

section Agreement

/-- A stack holds one checkpoint for each open scope, and one more. -/
structure Accords (limit : Nat) (history : ScopeHistory) (stack : RuleStack) : Prop where
  rules :
    stack.checkpoints.map (·.rule) =
      history.unresolved.map ScopeHistory.ruleOf ++ [({} : RuleId)]
  lastRule : stack.lastRule = UInt32.ofNat history.opened
  /-- The latest scopes have the greatest numbers, below that of the next one. -/
  descending : (history.opened :: history.unresolved).Pairwise (· > ·)
  room : stack.height ≤ limit
  maxDepth : stack.maxDepth = limit

theorem accords_start
    (maxDepth : Nat)
    (cursor : Cursor) :
    Accords (max maxDepth 1) {} (RuleStack.start maxDepth cursor) where
  rules := rfl
  lastRule := rfl
  descending := by simp
  room := Nat.le_max_right _ _
  maxDepth := rfl

theorem Accords.step
    {limit : Nat}
    (accords : Accords limit history stack)
    (maxDepth : after.maxDepth = stack.maxDepth)
    (steps : StackStep history stack after next) :
    Accords limit next after := by
  have atLimit := maxDepth.trans accords.maxDepth
  cases steps with
  | opens opened room checkpoints rule lastRule =>
      have number : stack.lastRule + 1 = UInt32.ofNat (history.opened + 1) := by
        rw [accords.lastRule, UInt32.ofNat_add]
        rfl
      refine ⟨?_, lastRule.trans number, ?_, ?_, atLimit⟩
      · rw [checkpoints, List.map_cons, accords.rules, rule, number]
        rfl
      · have descending := accords.descending
        rw [List.pairwise_cons] at descending ⊢
        refine ⟨fun number member => ?_, accords.descending⟩
        rcases List.mem_cons.mp member with rfl | older
        · exact Nat.lt_succ_self _
        · exact Nat.lt_succ_of_lt (descending.1 number older)
      · have height : after.height = stack.height + 1 := congrArg List.length checkpoints
        rw [height, ← accords.maxDepth]
        exact room
  | closes under joined deeper below checkpoints rule lastRule =>
      have rules := accords.rules
      rw [RuleStack.checkpoints, below] at rules
      cases unresolved : history.unresolved with
      | nil =>
          simp [unresolved] at rules
      | cons latest older =>
          rw [unresolved] at rules
          refine ⟨?_, lastRule.trans accords.lastRule, ?_, ?_, atLimit⟩
          · rw [checkpoints, List.map_cons, rule]
            exact (List.cons.inj rules).2
          · have descending := accords.descending
            rw [unresolved] at descending
            exact
              descending.sublist
                ((List.sublist_cons_self latest older).cons_cons history.opened)
          · have lower : after.height ≤ stack.height := by
              have height : after.height = deeper.length + 1 :=
                congrArg List.length checkpoints
              simp only [RuleStack.height, below, List.length_cons] at height ⊢
              omega
            exact Nat.le_trans lower accords.room
  | stays rules below lastRule =>
      have height : after.height = stack.height := by
        simpa [RuleStack.height] using congrArg List.length below
      exact
        ⟨rules.trans accords.rules, lastRule.trans accords.lastRule, accords.descending,
          height ▸ accords.room, atLimit⟩

/-- Whatever is done to a stack, it stays in agreement. -/
theorem Accords.run
    {limit : Nat}
    {operations : List StackOperation}
    (accords : Accords limit history stack)
    (ran : StackOperation.run stack operations = .ok after) :
    Accords limit (operations.foldl ScopeHistory.record history) after := by
  induction operations generalizing history stack with
  | nil =>
      cases ran
      exact accords
  | cons operation rest inductionHypothesis =>
      obtain ⟨middle, applied, ran⟩ := bind_eq_ok_iff.mp ran
      obtain ⟨maxDepth, steps⟩ := steps_of_apply applied
      exact inductionHypothesis (accords.step maxDepth steps) ran

end Agreement

section Shelter

/-- While a scope is open, what lies below it stays as it was but for marks of reports. -/
structure Shelters
    (number : Nat)
    (older : List Nat)
    (sheltered : List Checkpoint)
    (history : ScopeHistory)
    (stack : RuleStack) : Prop where
  opened : number < history.opened
  below :
    number ∈ history.unresolved →
      ∃ newer,
        history.unresolved = newer ++ number :: older ∧
          (stack.checkpoints.drop (newer.length + 1)).map unreported =
            sheltered.map unreported

variable
    {number limit : Nat}
    {older : List Nat}
    {sheltered : List Checkpoint}

theorem Shelters.step
    (shelters : Shelters number older sheltered history stack)
    (accords : Accords limit history stack)
    (steps : StackStep history stack after next) :
    Shelters number older sheltered next after := by
  cases steps with
  | opens opened room checkpoints rule lastRule =>
      refine ⟨Nat.lt_succ_of_lt shelters.opened, fun member => ?_⟩
      have isOpen : number ∈ history.unresolved :=
        (List.mem_cons.mp member).resolve_left (Nat.ne_of_lt shelters.opened)
      obtain ⟨newer, unresolved, same⟩ := shelters.below isOpen
      refine ⟨history.opened :: newer, by simp [unresolved], ?_⟩
      rw [checkpoints]
      exact same
  | closes under joined deeper below checkpoints rule lastRule =>
      refine ⟨shelters.opened, fun member => ?_⟩
      obtain ⟨newer, unresolved, same⟩ := shelters.below (List.mem_of_mem_tail member)
      cases newer with
      | nil =>
          have descending := (List.pairwise_cons.mp accords.descending).2
          rw [unresolved] at member descending
          have below : number > number := (List.pairwise_cons.mp descending).1 number member
          exact absurd below (Nat.lt_irrefl _)
      | cons latest newer =>
          refine ⟨newer, by simp [unresolved], ?_⟩
          rw [RuleStack.checkpoints, below] at same
          rw [checkpoints]
          exact same
  | stays rules below lastRule =>
      refine ⟨shelters.opened, fun member => ?_⟩
      obtain ⟨newer, unresolved, same⟩ := shelters.below member
      refine ⟨newer, unresolved, ?_⟩
      rw [← same]
      simp [RuleStack.checkpoints, List.map_drop, below]

theorem Shelters.run
    {operations : List StackOperation}
    (shelters : Shelters number older sheltered history stack)
    (accords : Accords limit history stack)
    (ran : StackOperation.run stack operations = .ok after) :
    Shelters number older sheltered (operations.foldl ScopeHistory.record history)
      after := by
  induction operations generalizing history stack with
  | nil =>
      cases ran
      exact shelters
  | cons operation rest inductionHypothesis =>
      obtain ⟨middle, applied, ran⟩ := bind_eq_ok_iff.mp ran
      obtain ⟨maxDepth, steps⟩ := steps_of_apply applied
      exact
        inductionHypothesis (shelters.step accords steps) (accords.step maxDepth steps)
          ran

/-- If the scope is the latest open one, it shelters all that lies below the top. -/
theorem Shelters.below_of_latest
    (shelters : Shelters number older sheltered history stack)
    (accords : Accords limit history stack)
    {others : List Nat}
    (latest : history.unresolved = number :: others) :
    stack.below.map unreported = sheltered.map unreported := by
  obtain ⟨newer, unresolved, same⟩ := shelters.below (latest ▸ List.mem_cons_self)
  cases newer with
  | nil =>
      exact same
  | cons first newer =>
      -- Were another scope the latest, the number would be less than itself.
      have descending := (List.pairwise_cons.mp accords.descending).2
      rw [latest] at unresolved descending
      obtain ⟨rfl, rfl⟩ := List.cons.inj unresolved
      exact
        absurd ((List.pairwise_cons.mp descending).1 number (by simp)) (Nat.lt_irrefl _)

end Shelter

section Discipline

variable
    {operations : List StackOperation}
    {maxDepth number limit : Nat}
    {cursor : Cursor}
    {rule : RuleId}
    {before : RuleStack}

theorem Accords.unresolved_few
    (accords : Accords limit history stack)
    (few : history.opened < UInt32.size)
    (isOpen : number ∈ history.unresolved) :
    number + 1 < UInt32.size := by
  have older : number < history.opened :=
    (List.pairwise_cons.mp accords.descending).1 number isOpen
  omega

/-- No two open scopes have one identifier. -/
theorem Accords.rules_nodup
    (accords : Accords limit history stack)
    (few : history.opened < UInt32.size) :
    (stack.checkpoints.dropLast.map (·.rule)).Nodup := by
  rw [List.map_dropLast, accords.rules, List.dropLast_concat]
  refine List.Nodup.map_on ?_ ?_
  · intro first isFirst second isSecond same
    exact
      (ScopeHistory.ruleOf_inj (accords.unresolved_few few isFirst)
        (accords.unresolved_few few isSecond)).mp same
  · exact (List.pairwise_cons.mp accords.descending).2.imp Nat.ne_of_gt

/-- Either nothing is open, or the top belongs to the latest open scope. -/
theorem Accords.top
    (accords : Accords limit history stack) :
    (history.unresolved = [] ∧ stack.below = []) ∨
      ∃ latest older under deeper,
        history.unresolved = latest :: older ∧
          stack.top.rule = ScopeHistory.ruleOf latest ∧
          stack.below = under :: deeper := by
  have rules := accords.rules
  rw [RuleStack.checkpoints, List.map_cons] at rules
  cases unresolved : history.unresolved with
  | nil =>
      rw [unresolved] at rules
      exact .inl ⟨rfl, by simpa using (List.cons.inj rules).2⟩
  | cons latest older =>
      rw [unresolved] at rules
      obtain ⟨top, below⟩ := List.cons.inj rules
      have nonempty : stack.below ≠ [] := by
        rintro none_
        simp [none_] at below
      obtain ⟨under, deeper, isBelow⟩ := List.exists_cons_of_ne_nil nonempty
      exact .inr ⟨latest, older, under, deeper, rfl, top, isBelow⟩

/-- Among the scopes that were opened, only the latest open one can be popped. -/
theorem Accords.faults_pop_iff
    (accords : Accords limit history stack)
    (few : history.opened < UInt32.size)
    (isOpened : number < history.opened) :
    Faults (stack.pop (ScopeHistory.ruleOf number)) ↔
      history.unresolved.head? ≠ some number := by
  rw [RuleStack.faults_pop_iff]
  rcases accords.top with
    ⟨none_, empty⟩ | ⟨latest, older, under, deeper, unresolved, top, below⟩
  · simp [none_, empty]
  · have latestFew := accords.unresolved_few few (unresolved ▸ List.mem_cons_self)
    have numberFew : number + 1 < UInt32.size := by omega
    simpa [unresolved, top, below] using
      not_congr (ScopeHistory.ruleOf_inj latestFew numberFew)

/-- A scope that can be popped is the latest open one. -/
theorem Accords.exists_latest_of_pop
    (accords : Accords limit history stack)
    {closed : Checkpoint}
    (popped : stack.pop rule = .ok (closed, after)) :
    ∃ latest older,
      history.unresolved = latest :: older ∧
        rule = ScopeHistory.ruleOf latest ∧
        after.checkpoints = stack.below := by
  obtain ⟨-, rfl, under, deeper, below, rfl⟩ := pop_eq_ok_iff.mp popped
  rcases accords.top with ⟨-, empty⟩ | ⟨latest, older, _, _, unresolved, top, -⟩
  · cases empty.symm.trans below
  · exact ⟨latest, older, unresolved, top, below.symm⟩

/-- A scope gets the identifier of its number, and shelters what it was opened on. -/
theorem PushesIn.shelters
    (pushes : PushesIn (.start maxDepth cursor) operations number rule before)
    (ran : StackOperation.run (.start maxDepth cursor) operations = .ok stack) :
    rule = ScopeHistory.ruleOf number ∧
      ∃ older,
        Shelters number older before.checkpoints (ScopeHistory.of operations) stack := by
  obtain ⟨earlier, mark, later, opened, rfl, rfl, ranEarlier, pushed⟩ := pushes
  obtain ⟨middle, ranMiddle, ranLater⟩ := (StackOperation.run_append_eq_ok_iff _ _).mp ran
  obtain rfl : before = middle := Except.ok.inj (ranEarlier.symm.trans ranMiddle)
  obtain ⟨next, applied, ranLater⟩ := bind_eq_ok_iff.mp ranLater
  obtain rfl : opened = next := by
    simpa [StackOperation.apply, pushed, bind, Except.bind, pure, Except.pure] using
      applied
  have accords : Accords _ (ScopeHistory.of earlier) before :=
    (accords_start maxDepth cursor).run ranEarlier
  obtain ⟨rfl, below, atLimit, steps⟩ := steps_of_push (ScopeHistory.of earlier) pushed
  refine ⟨?_, (ScopeHistory.of earlier).unresolved, ?_⟩
  · rw [accords.lastRule, ScopeHistory.ruleOf, UInt32.ofNat_add]
    rfl
  · have shelters :
        Shelters (ScopeHistory.of earlier).opened (ScopeHistory.of earlier).unresolved
          before.checkpoints ((ScopeHistory.of earlier).record (.push mark)) opened :=
      ⟨Nat.lt_succ_self _, fun _ => ⟨[], rfl, congrArg _ below⟩⟩
    rw [ScopeHistory.of_append_cons]
    exact shelters.run (accords.step atLimit steps) ranLater

/-- A scope that is open in the end was pushed. -/
theorem exists_pushesIn_of_mem
    (isOpen : number ∈ (ScopeHistory.of operations).unresolved)
    (ran : StackOperation.run (.start maxDepth cursor) operations = .ok stack) :
    ∃ rule before, PushesIn (.start maxDepth cursor) operations number rule before := by
  rcases ScopeHistory.exists_push_of_mem_unresolved isOpen with
    none_ | ⟨earlier, mark, later, rfl, opened⟩
  · cases none_
  · obtain ⟨before, ranEarlier, ranLater⟩ :=
      (StackOperation.run_append_eq_ok_iff _ _).mp ran
    obtain ⟨next, applied, -⟩ := bind_eq_ok_iff.mp ranLater
    obtain ⟨⟨rule, opening⟩, pushed, -⟩ := bind_eq_ok_iff.mp applied
    exact ⟨rule, before, earlier, mark, later, opening, rfl, opened, ranEarlier, pushed⟩

theorem PushesIn.lt_opened
    (pushes : PushesIn (.start maxDepth cursor) operations number rule before) :
    number < (ScopeHistory.of operations).opened := by
  obtain ⟨earlier, mark, later, opened, rfl, rfl, -⟩ := pushes
  rw [ScopeHistory.of_append_cons]
  exact
    ScopeHistory.opened_le_foldl_record later
      ((ScopeHistory.of earlier).record (.push mark))

/-- A run keeps the discipline of its stack: the height has its bounds, open scopes have
their own identifiers, only a full stack cannot be pushed on, only the latest open scope
can be popped, and popping it brings back what it was pushed on. -/
theorem run_keeps_discipline
    (ran : StackOperation.run (.start maxDepth cursor) operations = .ok stack)
    (few : (ScopeHistory.of operations).opened < UInt32.size) :
    (1 ≤ stack.height ∧ stack.height ≤ max 1 maxDepth) ∧
      (stack.checkpoints.dropLast.map (·.rule)).Nodup ∧
      (∀ mark, Faults (stack.push mark) ↔ stack.height = max 1 maxDepth) ∧
      (∀ number rule before,
        PushesIn (.start maxDepth cursor) operations number rule before →
          (Faults (stack.pop rule) ↔
            (ScopeHistory.of operations).unresolved.head? ≠ some number)) ∧
      ∀ rule closed left,
        stack.pop rule = .ok (closed, left) →
          ∃ number before,
            PushesIn (.start maxDepth cursor) operations number rule before ∧
              (ScopeHistory.of operations).unresolved.head? = some number ∧
              left.checkpoints.map unreported =
                before.checkpoints.map unreported := by
  have accords : Accords _ (ScopeHistory.of operations) stack :=
    (accords_start maxDepth cursor).run ran
  have room := accords.room
  have atLimit := accords.maxDepth
  refine ⟨⟨Nat.le_add_left _ _, ?_⟩, accords.rules_nodup few, fun mark => ?_, ?_, ?_⟩
  · rwa [Nat.max_comm]
  · rw [faults_push_iff, atLimit, Nat.max_comm 1]
    omega
  · intro number rule before pushes
    obtain ⟨rfl, -⟩ := pushes.shelters ran
    exact accords.faults_pop_iff few pushes.lt_opened
  · intro rule closed left popped
    obtain ⟨latest, older, unresolved, rfl, checkpoints⟩ :=
      accords.exists_latest_of_pop popped
    have isOpen : latest ∈ (ScopeHistory.of operations).unresolved :=
      unresolved ▸ List.mem_cons_self
    obtain ⟨rule, before, pushes⟩ := exists_pushesIn_of_mem isOpen ran
    obtain ⟨rfl, older', shelters⟩ := pushes.shelters ran
    refine ⟨latest, before, pushes, by rw [unresolved, List.head?_cons], ?_⟩
    rw [checkpoints]
    exact shelters.below_of_latest accords unresolved

/-- Two scopes in a scope: the first is folded into it, and the second stays open. -/
def foldAndOpen : List StackOperation :=
  [.push 0, .push 4, .update ({ · with flags := 2 }), .noteReported, .squash, .push 6,
    .update ({ · with flags := 0 })]

/-- The stack is full; the folded scope cannot be popped, and the open one can. -/
theorem run_keeps_discipline_at_foldAndOpen :
    ∃ stack,
      StackOperation.run (.start 3 {}) foldAndOpen = .ok stack ∧
        (ScopeHistory.of foldAndOpen).opened < UInt32.size ∧
        (∀ mark, Faults (stack.push mark)) ∧
        Faults (stack.pop ⟨2⟩) ∧
        ∃ closed left before,
          stack.pop ⟨3⟩ = .ok (closed, left) ∧
            PushesIn (.start 3 {}) foldAndOpen 2 ⟨3⟩ before ∧
            before.top.flags = 2 ∧
            left.checkpoints.map unreported =
              before.checkpoints.map unreported := by
  have few : (ScopeHistory.of foldAndOpen).opened < UInt32.size := by decide
  have ran : StackOperation.run (.start 3 {}) foldAndOpen = .ok _ := rfl
  obtain ⟨-, -, full, latest, back⟩ := run_keeps_discipline ran few
  have folded : PushesIn (.start 3 {}) foldAndOpen 1 ⟨2⟩ _ :=
    ⟨[.push 0], 4, _, _, rfl, rfl, rfl, rfl⟩
  obtain ⟨number, before, pushes, isLatest, same⟩ := back ⟨3⟩ _ _ rfl
  refine
    ⟨_, rfl, few, fun mark => (full mark).mpr rfl, (latest 1 _ _ folded).mpr (by decide),
      _, _, before, rfl, ?_, ?_, same⟩
  · obtain rfl : 2 = number := Option.some.inj isLatest
    exact pushes
  · exact (congrArg Checkpoint.flags (List.cons.inj same).1).symm

end Discipline

end RuleStack

end InkSyntax
