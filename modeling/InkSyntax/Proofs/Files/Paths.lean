import InkSyntax.Files.Library
import Mathlib.Data.List.Basic

namespace InkSyntax.Path

/-!
# Normal forms of paths

A path is settled by its segments between slashes, so joining two paths is putting their
segments one after the other.  Its normal form is the net result of its steps: some
steps up, or the root, and behind them only names.  Written out, net steps are read back
as they are, whatever names they have, and the dot that stands for no steps at all has
no effect on what is joined to it.  Two paths come to the same steps just if they lead
to the same place from wherever they start.
-/

/-- A path that starts at the root of all directories. -/
def IsAbsolute (path : Path) : Prop := path.text.toList.head? = some '/'

/-- What the steps of a path come to, the last one first. -/
def netSteps (path : Path) : List Component := path.components.foldl push []

/-- Take a step from a directory, whose names stand with the last one first. -/
def Component.go (place : List String) : Component → List String
  | .root => []
  | .here => place
  | .up => place.tail
  | .down name => name :: place

/-- Where a path leads from a directory; above the root there is nothing but the root. -/
def leadsTo (path : Path) (place : List String) : List String :=
  path.components.foldl Component.go place

/-- A step that a segment can stand for. -/
def IsStep (step : Component) : Prop :=
  '/' ∉ step.text.toList ∧ component? step.text.toList = some step

/-- Net steps, the last one first: names behind the root, or behind some steps up. -/
inductive Settled : Bool → List Component → Prop where
  | root : Settled true [.root]
  | up (count : Nat) : Settled false (List.replicate count .up)
  | down
      {absolute : Bool}
      {name : String}
      {steps : List Component}
      (isStep : IsStep (.down name))
      (settled : Settled absolute steps) :
      Settled absolute (.down name :: steps)

section Segments

variable {text first rest segment : List Char}

theorem segments_slash
    (rest : List Char) :
    segments ('/' :: rest) = [] :: segments rest :=
  rfl

theorem segments_cons
    {character : Char}
    {others : List (List Char)}
    (noSlash : character ≠ '/')
    (segments_ : segments rest = segment :: others) :
    segments (character :: rest) = (character :: segment) :: others := by
  simp [segments, segments_]

theorem segments_ne_nil
    (text : List Char) :
    segments text ≠ [] := by
  cases text with
  | nil =>
      simp [segments]
  | cons character rest =>
      unfold segments
      split <;> simp

/-- A slash parts segments. -/
theorem segments_append_slash
    (first rest : List Char) :
    segments (first ++ '/' :: rest) = segments first ++ segments rest := by
  induction first with
  | nil =>
      rfl
  | cons character first inductionHypothesis =>
      by_cases isSlash : character = '/'
      · subst isSlash
        rw [List.cons_append, segments_slash, segments_slash, inductionHypothesis]
        rfl
      · obtain ⟨segment, others, isFirst⟩ :=
          List.exists_cons_of_ne_nil (segments_ne_nil first)
        rw [isFirst] at inductionHypothesis
        rw [List.cons_append, segments_cons isSlash inductionHypothesis,
          segments_cons isSlash isFirst]
        rfl

theorem segments_of_notMem
    (noSlash : '/' ∉ text) :
    segments text = [text] := by
  induction text with
  | nil =>
      rfl
  | cons character rest inductionHypothesis =>
      obtain ⟨other, others⟩ := List.ne_and_not_mem_of_not_mem_cons noSlash
      exact segments_cons (Ne.symm other) (inductionHypothesis others)

/-- No segment has a slash. -/
theorem slash_notMem
    (isSegment : segment ∈ segments text) :
    '/' ∉ segment := by
  induction text generalizing segment with
  | nil =>
      simp_all [segments]
  | cons character rest inductionHypothesis =>
      by_cases isSlash : character = '/'
      · subst isSlash
        rw [segments_slash] at isSegment
        rcases List.mem_cons.mp isSegment with rfl | isSegment
        · exact List.not_mem_nil
        · exact inductionHypothesis isSegment
      · obtain ⟨first, others, isFirst⟩ :=
          List.exists_cons_of_ne_nil (segments_ne_nil rest)
        rw [segments_cons isSlash isFirst] at isSegment
        rw [isFirst] at inductionHypothesis
        rcases List.mem_cons.mp isSegment with rfl | isSegment
        · simpa [Ne.symm isSlash] using inductionHypothesis List.mem_cons_self
        · exact inductionHypothesis (List.mem_cons_of_mem _ isSegment)

/-- Parts without slashes, joined by slashes, are the segments of the whole. -/
theorem segments_joinSegments
    {parts : List (List Char)}
    (nonempty : parts ≠ [])
    (noSlash : ∀ part ∈ parts, '/' ∉ part) :
    segments (joinSegments parts) = parts := by
  induction parts with
  | nil =>
      contradiction
  | cons part parts inductionHypothesis =>
      obtain ⟨first, others⟩ := List.forall_mem_cons.mp noSlash
      cases parts with
      | nil =>
          simpa [joinSegments] using segments_of_notMem first
      | cons second further =>
          have joined :
              joinSegments (part :: second :: further) =
                part ++ '/' :: joinSegments (second :: further) := by
            simp [joinSegments, List.intercalate]
          rw [joined, segments_append_slash, segments_of_notMem first,
            inductionHypothesis (by simp) others]
          rfl

end Segments

section Components

variable {text : List Char}

/-- The text of the root is that of no step: what counts is the slash behind it. -/
theorem component?_root :
    component? Component.root.text.toList = none := by
  decide

/-- What a text begins with, and what that leaves for its segments. -/
theorem lead_cases
    (text : List Char) :
    (∃ rest, text = '/' :: rest) ∨
      text = ['.'] ∨
        (∃ rest, text = '.' :: '/' :: rest) ∨
          lead text = [] ∧ text.head? ≠ some '/' := by
  unfold lead
  split
  · next rest => exact .inl ⟨rest, rfl⟩
  · exact .inr (.inl rfl)
  · next rest => exact .inr (.inr (.inl ⟨rest, rfl⟩))
  · next noSlash _ _ =>
      refine .inr (.inr (.inr ⟨rfl, fun isSlash => ?_⟩))
      obtain ⟨rest, text⟩ := List.head?_eq_some_iff.mp isSlash
      exact noSlash rest text

/-- The lead of a path adds no segment that leads anywhere. -/
theorem components_eq
    (path : Path) :
    path.components =
      leadComponent (lead path.text.toList) ++
        (segments path.text.toList).filterMap component? := by
  rw [components, bodySegments]
  congr 1
  rcases lead_cases path.text.toList with
    ⟨rest, text⟩ | text | ⟨rest, text⟩ | ⟨none_, -⟩
  · rw [text]
    rfl
  · rw [text]
    rfl
  · rw [text]
    rfl
  · rw [none_]
    rfl

/-- The steps of a path begin at the root or nowhere. -/
theorem netSteps_eq
    (path : Path) :
    path.netSteps =
      ((segments path.text.toList).filterMap component?).foldl push
        (if path.text.toList.head? = some '/' then [.root] else []) := by
  rw [netSteps, components_eq, List.foldl_append]
  congr 1
  rcases lead_cases path.text.toList with
    ⟨rest, text⟩ | text | ⟨rest, text⟩ | ⟨none_, relative⟩
  · rw [text]
    rfl
  · rw [text]
    rfl
  · rw [text]
    rfl
  · rw [none_, if_neg relative]
    rfl

/-- What a segment stands for is written as it. -/
theorem isStep_of_mem
    {step : Component}
    (isStep : step ∈ (segments text).filterMap component?) :
    IsStep step := by
  obtain ⟨segment, isSegment, stands⟩ := List.mem_filterMap.mp isStep
  have same : step.text.toList = segment := by
    unfold component? at stands
    split at stands
    · cases stands
    · split at stands
      · next dots =>
          cases stands
          exact (beq_iff_eq.mp dots).symm
      · cases stands
        exact String.toList_ofList
  exact ⟨same ▸ slash_notMem isSegment, same ▸ stands⟩

end Components

section Settling

variable
    {absolute : Bool}
    {step : Component}
    {steps : List Component}

/-- A step takes net steps to net steps, from the same start. -/
theorem Settled.push
    (settled : Settled absolute steps)
    (isStep : IsStep step) :
    Settled absolute (push steps step) := by
  cases step with
  | root =>
      cases isStep.2
  | here =>
      cases isStep.2
  | down name =>
      exact .down isStep settled
  | up =>
      cases settled with
      | root =>
          exact .root
      | up count =>
          cases count with
          | zero => exact .up 1
          | succ count => exact .up (count + 2)
      | down isName settled =>
          exact settled

theorem Settled.foldl_push
    {moves : List Component}
    (settled : Settled absolute steps)
    (areSteps : ∀ step ∈ moves, IsStep step) :
    Settled absolute (moves.foldl Path.push steps) := by
  induction moves generalizing steps with
  | nil =>
      exact settled
  | cons move moves inductionHypothesis =>
      obtain ⟨first, others⟩ := List.forall_mem_cons.mp areSteps
      exact inductionHypothesis (settled.push first) others

/-- What the steps of a path come to is settled. -/
theorem settled_netSteps
    (path : Path) :
    Settled (path.text.toList.head? == some '/') path.netSteps := by
  rw [netSteps_eq]
  refine Settled.foldl_push ?_ fun step => isStep_of_mem
  split
  · next isAbsolute => simpa [isAbsolute] using Settled.root
  · next relative =>
      rw [beq_eq_false_iff_ne.mpr relative]
      exact .up 0

/-- Net steps come to themselves. -/
theorem Settled.foldl_reverse
    (settled : Settled absolute steps) :
    steps.reverse.foldl Path.push [] = steps := by
  induction settled with
  | root =>
      rfl
  | up count =>
      rw [List.reverse_replicate]
      induction count with
      | zero =>
          rfl
      | succ count inductionHypothesis =>
          calc
            (List.replicate (count + 1) Component.up).foldl Path.push []
            _ = Path.push (List.replicate count .up) .up := by
                rw [List.replicate_succ', List.foldl_append, inductionHypothesis]
                rfl
            _ = List.replicate (count + 1) .up := by
                cases count <;> rfl
  | @down absolute name steps isStep settled inductionHypothesis =>
      rw [List.reverse_cons, List.foldl_append, inductionHypothesis]
      rfl

end Settling

section Writing

variable
    {absolute : Bool}
    {step : Component}
    {steps moves : List Component}

/-- Net steps in order: the root or some steps up, and then names. -/
theorem Settled.exists_names
    (settled : Settled absolute steps) :
    ∃ (ups : Nat) (names : List String),
      steps.reverse =
          (if absolute then [.root] else List.replicate ups .up) ++ names.map .down ∧
        ∀ name ∈ names, IsStep (.down name) := by
  induction settled with
  | root =>
      exact ⟨0, [], rfl, by simp⟩
  | up count =>
      exact ⟨count, [], by simp, by simp⟩
  | @down absolute name steps isStep settled inductionHypothesis =>
      obtain ⟨ups, names, isReverse, areSteps⟩ := inductionHypothesis
      refine ⟨ups, names ++ [name], by simp [isReverse], fun other member => ?_⟩
      rcases List.mem_append.mp member with earlier | last
      · exact areSteps other earlier
      · rwa [List.mem_singleton.mp last]

/-- Behind the root, if they begin there, net steps are steps of segments. -/
theorem Settled.exists_moves
    (settled : Settled absolute steps) :
    ∃ moves,
      steps.reverse = (if absolute then [.root] else []) ++ moves ∧
        ∀ step ∈ moves, IsStep step := by
  obtain ⟨ups, names, isReverse, areSteps⟩ := settled.exists_names
  have named : ∀ step ∈ names.map Component.down, IsStep step :=
    List.forall_mem_map.mpr areSteps
  cases absolute with
  | true =>
      exact ⟨_, isReverse, named⟩
  | false =>
      refine ⟨_, isReverse, fun step member => ?_⟩
      rcases List.mem_append.mp member with isUp | isName
      · rw [List.eq_of_mem_replicate isUp]
        exact ⟨by decide, by decide⟩
      · exact named step isName

/-- The texts of steps of segments stand for them. -/
theorem filterMap_texts
    (areSteps : ∀ step ∈ moves, IsStep step) :
    (moves.map (·.text.toList)).filterMap component? = moves := by
  induction moves with
  | nil =>
      rfl
  | cons move moves inductionHypothesis =>
      obtain ⟨first, others⟩ := List.forall_mem_cons.mp areSteps
      rw [List.map_cons, List.filterMap_cons_some first.2, inductionHypothesis others]

/-- Written with slashes between them, steps have their texts for segments. -/
theorem segments_intercalate
    (nonempty : moves ≠ [])
    (noSlash : ∀ step ∈ moves, '/' ∉ step.text.toList) :
    segments (String.intercalate "/" (moves.map Component.text)).toList =
      moves.map (·.text.toList) := by
  rw [String.toList_intercalate, List.map_map]
  exact segments_joinSegments (by simpa using nonempty) (by simpa using noSlash)

/-- Where the first segment leads somewhere a path has no lead. -/
theorem lead_eq_nil
    {text segment : List Char}
    {others : List (List Char)}
    (isFirst : segments text = segment :: others)
    (leads : component? segment = some step) :
    lead text = [] := by
  rcases lead_cases text with ⟨rest, rfl⟩ | rfl | ⟨rest, rfl⟩ | ⟨none_, -⟩
  · rw [segments_slash, List.cons.injEq] at isFirst
    rw [← isFirst.1] at leads
    cases leads
  · obtain ⟨rfl, -⟩ := List.cons.inj isFirst
    cases leads
  · obtain ⟨rfl, -⟩ := List.cons.inj isFirst
    cases leads
  · exact none_

/-- Steps behind the root are written with a slash in front. -/
theorem components_ofComponents_root
    (nonempty : moves ≠ [])
    (areSteps : ∀ step ∈ moves, IsStep step) :
    (ofComponents (.root :: moves)).components = .root :: moves := by
  obtain ⟨first, others, rfl⟩ := List.exists_cons_of_ne_nil nonempty
  have written :
      (ofComponents (.root :: first :: others)).text =
        String.intercalate "/" ((.root :: first :: others).map Component.text) := rfl
  have noSlash : ∀ step ∈ Component.root :: first :: others, '/' ∉ step.text.toList :=
    List.forall_mem_cons.mpr ⟨by decide, fun step member => (areSteps step member).1⟩
  have slash :
      lead (String.intercalate "/" ((.root :: first :: others).map Component.text)).toList =
        ['/'] := by
    simp only [List.map_cons, String.intercalate_cons_cons, String.toList_append]
    rfl
  rw [components_eq, written, slash, segments_intercalate (List.cons_ne_nil _ _) noSlash,
    List.map_cons, List.filterMap_cons_none component?_root, filterMap_texts areSteps]
  rfl

/-- Steps that begin nowhere are written with slashes between them only. -/
theorem components_ofComponents_steps
    (nonempty : moves ≠ [])
    (areSteps : ∀ step ∈ moves, IsStep step) :
    (ofComponents moves).components = moves := by
  obtain ⟨first, others, rfl⟩ := List.exists_cons_of_ne_nil nonempty
  have isFirst := areSteps first List.mem_cons_self
  have written :
      (ofComponents (first :: others)).text =
        String.intercalate "/" ((first :: others).map Component.text) := by
    cases first with
    | root => cases isFirst.2
    | _ => rfl
  have segments_ :=
    segments_intercalate nonempty fun step member => (areSteps step member).1
  rw [components_eq, written, lead_eq_nil segments_ isFirst.2, segments_,
    filterMap_texts areSteps]
  rfl

/-- Net steps are read back from what is written of them; a dot stands for none. -/
theorem Settled.components_ofComponents
    (settled : Settled absolute steps) :
    (ofComponents steps.reverse).components =
      if steps = [] then [.here] else steps.reverse := by
  obtain ⟨moves, isReverse, areSteps⟩ := settled.exists_moves
  have empty : steps = [] ↔ steps.reverse = [] := List.reverse_eq_nil_iff.symm
  simp only [empty, isReverse]
  by_cases nonempty : moves = []
  · subst nonempty
    cases absolute <;> decide
  · cases absolute with
    | true => simpa using components_ofComponents_root nonempty areSteps
    | false => simpa [nonempty] using components_ofComponents_steps nonempty areSteps

end Writing

section Leading

variable
    {absolute rooted : Bool}
    {steps others : List Component}
    {ups more : Nat}
    {names further : List String}

theorem foldl_go_cons
    (steps : List Component)
    (step : Component)
    (place : List String) :
    (step :: steps).reverse.foldl Component.go place =
      Component.go (steps.reverse.foldl Component.go place) step := by
  rw [List.reverse_cons, List.foldl_append]
  rfl

/-- A step added to net steps leads on from where they lead. -/
theorem foldl_go_push
    (steps : List Component)
    (step : Component)
    (place : List String) :
    (push steps step).reverse.foldl Component.go place =
      Component.go (steps.reverse.foldl Component.go place) step := by
  cases step with
  | root => exact foldl_go_cons steps .root place
  | here => rfl
  | down name => exact foldl_go_cons steps (.down name) place
  | up =>
      cases steps with
      | nil => rfl
      | cons last before =>
          cases last with
          | here => exact foldl_go_cons (.here :: before) .up place
          | up => exact foldl_go_cons (.up :: before) .up place
          | root =>
              -- above the root there is the root
              rw [foldl_go_cons]
              exact foldl_go_cons before .root place
          | down name =>
              rw [foldl_go_cons]
              rfl

theorem foldl_go_foldl_push
    (moves steps : List Component)
    (place : List String) :
    (moves.foldl push steps).reverse.foldl Component.go place =
      moves.foldl Component.go (steps.reverse.foldl Component.go place) := by
  induction moves generalizing steps with
  | nil =>
      rfl
  | cons move moves inductionHypothesis =>
      rw [List.foldl_cons, List.foldl_cons, inductionHypothesis, foldl_go_push]

/-- A path leads where its net steps lead. -/
theorem leadsTo_eq
    (path : Path)
    (place : List String) :
    path.leadsTo place = path.netSteps.reverse.foldl Component.go place :=
  (foldl_go_foldl_push path.components [] place).symm

theorem foldl_go_names
    (names place : List String) :
    (names.map Component.down).foldl Component.go place = names.reverse ++ place := by
  induction names generalizing place with
  | nil =>
      rfl
  | cons name names inductionHypothesis =>
      rw [List.map_cons, List.foldl_cons, inductionHypothesis]
      simp [Component.go]

theorem foldl_go_ups
    (ups : Nat)
    (place : List String) :
    (List.replicate ups Component.up).foldl Component.go place = place.drop ups := by
  induction ups generalizing place with
  | zero =>
      rfl
  | succ ups inductionHypothesis =>
      rw [List.replicate_succ, List.foldl_cons, inductionHypothesis, Component.go,
        List.drop_tail]

/-- Net steps put their names in front of what is left of a place. -/
theorem foldl_go_of_reverse
    (isReverse :
      steps.reverse =
        (if absolute then [.root] else List.replicate ups .up) ++ names.map .down)
    (place : List String) :
    steps.reverse.foldl Component.go place =
      names.reverse ++ if absolute then [] else place.drop ups := by
  rw [isReverse, List.foldl_append, foldl_go_names]
  cases absolute with
  | true => rfl
  | false => exact congrArg _ (foldl_go_ups ups place)

/-- Steps further up do not lead to the same place, whatever names follow: of a place
that is just deep enough to tell, only the fewer steps up leave something. -/
theorem not_lt_of_same
    (same :
      ∀ place : List String,
        names.reverse ++ place.drop ups = further.reverse ++ place.drop more) :
    ¬ups < more := by
  intro fewer
  have filled (name : String) :
      names.reverse ++ List.replicate (more - ups) name = further.reverse := by
    simpa using same (List.replicate more name)
  have twice : List.replicate (more - ups) "a" = List.replicate (more - ups) "b" :=
    List.append_cancel_left ((filled "a").trans (filled "b").symm)
  have left : more - ups ≠ 0 := Nat.sub_ne_zero_of_lt fewer
  have different : "a" ≠ "b" := by decide
  exact different ((List.replicate_inj.mp twice).2.resolve_left left)

/-- No names alone lead where a place leaves something. -/
theorem not_absolute_of_same
    (same :
      ∀ place : List String, names.reverse = further.reverse ++ place.drop ups) :
    False := by
  have shallow := congrArg List.length (same [])
  have deep := congrArg List.length (same (List.replicate (ups + 1) ""))
  simp at shallow deep
  omega

/-- Net steps that lead to the same places are the same. -/
theorem Settled.eq_of_same
    (settled : Settled absolute steps)
    (settledToo : Settled rooted others)
    (same :
      ∀ place,
        steps.reverse.foldl Component.go place =
          others.reverse.foldl Component.go place) :
    steps = others := by
  obtain ⟨ups, names, isReverse, -⟩ := settled.exists_names
  obtain ⟨more, further, isReverseToo, -⟩ := settledToo.exists_names
  simp only [foldl_go_of_reverse isReverse, foldl_go_of_reverse isReverseToo] at same
  apply List.reverse_injective
  rw [isReverse, isReverseToo]
  cases absolute with
  | true =>
      cases rooted with
      | true =>
          have sameNames : names.reverse = further.reverse := by simpa using same []
          rw [List.reverse_injective sameNames]
          rfl
      | false =>
          exact (not_absolute_of_same (by simpa using same)).elim
  | false =>
      cases rooted with
      | true =>
          exact (not_absolute_of_same fun place => by simpa using (same place).symm).elim
      | false =>
          have fewer : ¬ups < more := not_lt_of_same same
          have notMore : ¬more < ups := not_lt_of_same fun place => (same place).symm
          have sameUps : ups = more := by omega
          have sameNames : names.reverse = further.reverse := by simpa using same []
          rw [sameUps, List.reverse_injective sameNames]

end Leading

section Canon

variable {path : Path} {name : String}

theorem components_normalize
    (path : Path) :
    path.normalize.components =
      if path.netSteps = [] then [.here] else path.netSteps.reverse :=
  (settled_netSteps path).components_ofComponents

/-- The normal form of a path comes to the same as the path. -/
theorem netSteps_normalize
    (path : Path) :
    path.normalize.netSteps = path.netSteps := by
  rw [netSteps, components_normalize]
  split
  · next none_ => exact none_.symm
  · exact (settled_netSteps path).foldl_reverse

theorem normalize_eq_of_netSteps
    {other : Path}
    (same : path.netSteps = other.netSteps) :
    path.normalize = other.normalize := by
  change ofComponents path.netSteps.reverse = ofComponents other.netSteps.reverse
  rw [same]

/-- Two paths have one normal form just where they lead from any place to the same. -/
theorem normalize_eq_iff
    {other : Path} :
    other.normalize = path.normalize ↔
      ∀ place, other.leadsTo place = path.leadsTo place := by
  constructor
  · intro same place
    rw [leadsTo_eq, leadsTo_eq, ← netSteps_normalize other, same, netSteps_normalize]
  · intro same
    simp only [leadsTo_eq] at same
    exact
      normalize_eq_of_netSteps
        ((settled_netSteps other).eq_of_same (settled_netSteps path) same)

/-- What stands behind a slash goes on from what stands before it. -/
theorem netSteps_of_slash
    {first rest : List Char}
    (written : path.text.toList = first ++ '/' :: rest) :
    path.netSteps =
      ((segments rest).filterMap component?).foldl push
        (((segments first).filterMap component?).foldl push
          (if (first ++ ['/']).head? = some '/' then [.root] else [])) := by
  have sameHead : (first ++ '/' :: rest).head? = (first ++ ['/']).head? := by
    cases first <;> rfl
  rw [netSteps_eq, written, segments_append_slash, List.filterMap_append,
    List.foldl_append, sameHead]

/-- What is joined to a path goes on from what the path comes to. -/
theorem netSteps_join
    (path : Path)
    (relative : name.toList.head? ≠ some '/') :
    (path.join name).netSteps =
      ((segments name.toList).filterMap component?).foldl push path.netSteps := by
  unfold join
  split
  · next rest absolute =>
      rw [absolute] at relative
      exact absurd rfl relative
  · next ended _ =>
      obtain ⟨first, written⟩ := List.getLast?_eq_some_iff.mp ended
      have joined : (path.text ++ name).toList = first ++ '/' :: name.toList := by
        rw [String.toList_append, written, List.append_assoc]
        rfl
      rw [netSteps_of_slash joined, netSteps_of_slash written]
      rfl
  · next empty _ =>
      have nothing : path.netSteps = [] := by
        rw [netSteps_eq, List.getLast?_eq_none_iff.mp empty]
        rfl
      rw [netSteps_eq, if_neg relative, nothing]
  · next last _ isLast _ =>
      have joined :
          (path.text ++ "/" ++ name).toList = path.text.toList ++ '/' :: name.toList := by
        simp
      have sameHead : (path.text.toList ++ ['/']).head? = path.text.toList.head? := by
        cases written : path.text.toList with
        | nil => simp [written] at isLast
        | cons character rest => rfl
      rw [netSteps_of_slash joined, netSteps_eq path, sameHead]

/-- Paths that come to the same are left by one name for the same place. -/
theorem normalize_join_of_netSteps
    {other : Path}
    (same : path.netSteps = other.netSteps) :
    (path.join name).normalize = (other.join name).normalize := by
  by_cases absolute : name.toList.head? = some '/'
  · obtain ⟨rest, written⟩ := List.head?_eq_some_iff.mp absolute
    have anew (directory : Path) : directory.join name = ⟨name⟩ := by
      simp [join, written]
    rw [anew, anew]
  · apply normalize_eq_of_netSteps
    rw [netSteps_join path absolute, netSteps_join other absolute, same]

/-- Only the root is written as a slash in front. -/
theorem isAbsolute_iff
    (path : Path) :
    path.IsAbsolute ↔ .root ∈ path.components := by
  have noRoot : .root ∉ (segments path.text.toList).filterMap component? :=
    fun isRoot => by cases (isStep_of_mem isRoot).2
  rw [components_eq, IsAbsolute, List.mem_append, or_iff_left noRoot]
  rcases lead_cases path.text.toList with
    ⟨rest, text⟩ | text | ⟨rest, text⟩ | ⟨none_, relative⟩
  · simp [text, lead, leadComponent]
  · simp [text, lead, leadComponent]
  · simp [text, lead, leadComponent]
  · simp [none_, relative, leadComponent]

/-- A normal form is a dot, or names behind the root, or names behind some steps up. -/
theorem components_normalize_cases
    (path : Path) :
    path.normalize = ⟨"."⟩ ∧ path.normalize.components = [.here] ∧ ¬path.IsAbsolute ∨
      (∃ names : List String,
        path.normalize.components = .root :: names.map .down ∧ path.IsAbsolute) ∨
        ∃ (ups : Nat) (names : List String),
          path.normalize.components = List.replicate ups .up ++ names.map .down ∧
            ¬path.IsAbsolute := by
  have settled := settled_netSteps path
  obtain ⟨ups, names, isReverse, -⟩ := settled.exists_names
  rw [components_normalize]
  by_cases absolute : path.IsAbsolute
  · have isRoot : (path.text.toList.head? == some '/') = true := beq_iff_eq.mpr absolute
    rw [isRoot, if_pos rfl] at isReverse
    have nonempty : path.netSteps ≠ [] := by
      rintro none_
      simp [none_] at isReverse
    exact .inr (.inl ⟨names, by rw [if_neg nonempty, isReverse]; rfl, absolute⟩)
  · have noRoot : (path.text.toList.head? == some '/') = false :=
      beq_eq_false_iff_ne.mpr absolute
    rw [noRoot] at isReverse
    by_cases none_ : path.netSteps = []
    · refine .inl ⟨?_, if_pos none_, absolute⟩
      change ofComponents path.netSteps.reverse = _
      rw [none_]
      rfl
    · exact .inr (.inr ⟨ups, names, by rw [if_neg none_, isReverse]; rfl, absolute⟩)

/-- The normal form of a path is in normal form; it has dots only if it is one, and steps
up only in front of a path that begins nowhere.  It is shared by the paths that lead to
the same place from anywhere, and by no others.  What is joined to a path comes to the
same as what is joined to its normal form, so names are resolved alike against every
spelling of a root. -/
theorem normalize_is_canonical
    (path : Path)
    (name : String) :
    path.normalize.normalize = path.normalize ∧
      (.here ∈ path.normalize.components → path.normalize = ⟨"."⟩) ∧
      (∃ ups rest,
        path.normalize.components = List.replicate ups .up ++ rest ∧
          .up ∉ rest ∧
          (0 < ups → ¬path.normalize.IsAbsolute)) ∧
      (path.IsAbsolute → .up ∉ path.normalize.components) ∧
      (∀ spelling : Path,
        spelling.normalize = path.normalize ↔
          ∀ place, spelling.leadsTo place = path.leadsTo place) ∧
      (path.join name).normalize = (path.normalize.join name).normalize ∧
      ∀ (library : Library) (spelling : Path),
        spelling.normalize = path.normalize →
          { library with root := some spelling }.resolve name =
            { library with root := some path }.resolve name := by
  have sameSteps := netSteps_normalize path
  have resolves :
      ∀ (library : Library) (spelling : Path),
        spelling.normalize = path.normalize →
          { library with root := some spelling }.resolve name =
            { library with root := some path }.resolve name := by
    intro library spelling same
    apply normalize_join_of_netSteps
    rw [← netSteps_normalize spelling, same, sameSteps]
  have isCanonical :
      (.here ∈ path.normalize.components → path.normalize = ⟨"."⟩) ∧
        (∃ ups rest,
          path.normalize.components = List.replicate ups .up ++ rest ∧
            .up ∉ rest ∧
            (0 < ups → ¬path.normalize.IsAbsolute)) ∧
        (path.IsAbsolute → .up ∉ path.normalize.components) := by
    rw [isAbsolute_iff path.normalize]
    rcases components_normalize_cases path with
      ⟨isDot, components, relative⟩ | ⟨names, components, absolute⟩ |
        ⟨ups, names, components, relative⟩
    · rw [components]
      exact
        ⟨fun _ => isDot, ⟨0, [.here], rfl, by simp, by simp⟩,
          fun absolute => absurd absolute relative⟩
    · rw [components]
      exact ⟨by simp, ⟨0, _, rfl, by simp, by simp⟩, by simp⟩
    · rw [components]
      exact
        ⟨by simp, ⟨ups, _, rfl, by simp, by simp⟩,
          fun absolute => absurd absolute relative⟩
  exact
    ⟨normalize_eq_of_netSteps sameSteps, isCanonical.1, isCanonical.2.1, isCanonical.2.2,
      fun _ => normalize_eq_iff, normalize_join_of_netSteps sameSteps.symm, resolves⟩

example : normalize ⟨"./a//b/../../../c/."⟩ = ⟨"../c"⟩ := by decide

example : normalize ⟨"/../a"⟩ = ⟨"/a"⟩ := by decide

end Canon

end InkSyntax.Path
