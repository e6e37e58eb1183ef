import InkSyntax.Proofs.Reading.Quiet
import InkSyntax.Proofs.Story.TagTurns

namespace InkSyntax

/-!
# The ends of tags

A tag ends where the flag for it is cleared.  The content at hand then gets a marker,
so an end that comes where there is no content is not to be seen in the story.
-/

/-- A flag is as it was set. -/
theorem Checkpoint.hasFlag_setFlag
    {mask : UInt32}
    (checkpoint : Checkpoint)
    (isFlag : mask ≠ 0)
    (on : Bool) :
    (checkpoint.setFlag mask on).hasFlag mask = on := by
  cases on with
  | false =>
      simp [hasFlag, setFlag, UInt32.and_assoc]
  | true =>
      have absorbed : (checkpoint.flags ||| mask) &&& mask = mask := by
        rw [← UInt32.toBitVec_inj, UInt32.toBitVec_and, UInt32.toBitVec_or,
          BitVec.and_or_distrib_right, BitVec.and_self, BitVec.or_comm]
        apply BitVec.eq_of_getLsbD_eq
        intro index _
        simp only [BitVec.getLsbD_or, BitVec.getLsbD_and]
        cases mask.toBitVec.getLsbD index <;> simp
      simp [hasFlag, setFlag, absorbed, isFlag]

/-- Setting one flag leaves the others as they are. -/
theorem Checkpoint.hasFlag_setFlag_of_apart
    {mask other : UInt32}
    (checkpoint : Checkpoint)
    (apart : mask &&& other = 0)
    (on : Bool) :
    (checkpoint.setFlag mask on).hasFlag other = checkpoint.hasFlag other := by
  have bits (index : Nat) :
      (mask.toBitVec.getLsbD index && other.toBitVec.getLsbD index) = false := by
    have both := congrArg (·.toBitVec.getLsbD index) apart
    simpa only [UInt32.toBitVec_and, BitVec.getLsbD_and,
      UInt32.toBitVec_zero, BitVec.getLsbD_zero] using both
  suffices same :
      (checkpoint.setFlag mask on).flags &&& other =
        checkpoint.flags &&& other by
    rw [hasFlag, same, hasFlag]
  rw [← UInt32.toBitVec_inj]
  apply BitVec.eq_of_getLsbD_eq
  intro index inRange
  have apartHere := bits index
  revert apartHere
  cases on <;>
    simp only [setFlag, Bool.false_eq_true, if_false, if_true,
      UInt32.toBitVec_and, UInt32.toBitVec_or, UInt32.toBitVec_not,
      BitVec.getLsbD_and, BitVec.getLsbD_or, BitVec.getLsbD_not, inRange] <;>
    generalize mask.toBitVec.getLsbD index = isMask <;>
    generalize other.toBitVec.getLsbD index = isOther <;>
    cases isMask <;>
    cases isOther <;>
    simp

/-- Whether a tag is open. -/
def Machine.isTagOpen (machine : Machine Workshop) : Bool :=
  machine.top.hasFlag Flag.tagOpen

namespace Grammar

open Reading (Site)

variable
    {library : Library}
    {maxDepth files levels : Nat}
    {machine after : Machine Workshop}
    {content found : Option (List NodeId)}

section Closing

variable
    {α : Type}
    {onMatch : α → Machine Workshop → Prop}
    {onFailure : Machine Workshop → Prop}

theorem ensures_hasFlag
    {mask : UInt32}
    {onMatch : Bool → Machine Workshop → Prop}
    (holds : onMatch (machine.top.hasFlag mask) machine) :
    Ensures library maxDepth files levels (Rule.hasFlag mask) machine
      onMatch onFailure :=
  Rule.ensures_bind.mpr holds

theorem ensures_setFlag
    {mask : UInt32}
    {on : Bool}
    {onMatch : Unit → Machine Workshop → Prop}
    (holds :
      onMatch ()
        (machine.modifyTop fun checkpoint => checkpoint.setFlag mask on)) :
    Ensures library maxDepth files levels (Rule.setFlag mask on) machine
      onMatch onFailure :=
  holds

/-- Behind the end of a tag no tag is open, and a marker was made if one was. -/
theorem ensures_closeTag :
    Ensures library maxDepth files levels closeTag machine
      (fun markers after =>
        after.isTagOpen = false ∧
          (machine.isTagOpen = true →
            ∃ marker,
              markers = [marker] ∧
                after.host.draft.kind? marker = some (.tag false)))
      fun _ => False := by
  refine ensures_bind (ensures_hasFlag ?_)
  split
  next =>
    refine ensures_bind (ensures_make fun marker made _ isMarker => ?_)
    refine ensures_bind (ensures_setFlag ?_)
    exact
      ensures_pure
        ⟨made.top.hasFlag_setFlag (by decide) false,
          fun _ => ⟨marker, rfl, isMarker⟩⟩
  next isClosed =>
    exact
      ensures_pure
        ⟨by simpa [Machine.isTagOpen] using isClosed,
          fun isOpen => absurd isOpen isClosed⟩

end Closing

/-- The flag for tags is cleared, and what is there ends with a marker if it was set. -/
theorem ensures_closeTagIn :
    Ensures library maxDepth files levels (closeTagIn content) machine
      (fun found after =>
        after.isTagOpen = false ∧
          found.isSome = content.isSome ∧
          (machine.isTagOpen = true →
            ∀ nodes ∈ content, ∃ marker,
              found = some (nodes ++ [marker]) ∧
                after.host.draft.kind? marker = some (.tag false)))
      fun _ => False := by
  cases content with
  | none =>
      refine ensures_bind (ensures_setFlag (ensures_pure ⟨?_, rfl, nofun⟩))
      exact machine.top.hasFlag_setFlag (by decide) false
  | some nodes =>
      refine ensures_bind (ensures_closeTag.mono ?_ fun _ => id)
      rintro markers after ⟨isClosed, marked⟩
      refine ensures_pure ⟨isClosed, rfl, fun isOpen => ?_⟩
      obtain ⟨marker, rfl, isMarker⟩ := marked isOpen
      rintro _ ⟨⟩
      exact ⟨marker, rfl, isMarker⟩

/-- A tag around a choice with brackets begins and does not end. -/
theorem tag_around_bracketed_choice_unmarked :
    ∃ reading,
      readScript (.ofFiles []) {} "a # tag \x7bx:\n* [b]\n\x7d\n" none =
        .ok reading ∧
      reading.diagnostics = [] ∧
      ¬ reading.story.TagsAlternate := by
  have reads :
      (readScript (.ofFiles []) {} "a # tag \x7bx:\n* [b]\n\x7d\n"
            none).toOption.any
          (fun reading =>
            reading.diagnostics.isEmpty && reading.story.tagMarks == [true]) =
        true := by
    decide +kernel
  cases completes :
      readScript (.ofFiles []) {} "a # tag \x7bx:\n* [b]\n\x7d\n" none with
  | error fault =>
      rw [completes] at reads
      cases reads
  | ok reading =>
      rw [completes] at reads
      simp only [Except.toOption, Option.any_some, Bool.and_eq_true,
        List.isEmpty_iff, beq_iff_eq] at reads
      refine ⟨reading, rfl, reads.1, ?_⟩
      rintro ⟨count, alternate⟩
      have even := congrArg List.length (reads.2.symm.trans alternate)
      simp at even
      omega

end Grammar

end InkSyntax
