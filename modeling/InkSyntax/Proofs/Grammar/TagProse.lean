import InkSyntax.Proofs.Grammar.TagCarrying
import InkSyntax.Proofs.Reading.DivertChains

namespace InkSyntax.Grammar

/-!
# Tags in prose and diverts

Only a few rules change whether one is inside a tag: a hash sign begins one, and
diverts and the ends of lines end the one that is open.  What is read of a divert
stands behind the marker for that end, while it was read in front of it.  It may stand
there because no tag begins or ends in a target of a clean run.
-/

open InkSyntax.Flag (Anyhow Stands Closed Quoted Within Exactly Calm)
open Rule (attempt parse literal Carries)
open Reading (Site)

attribute [local simp] NodeKind.children

variable
    {α : Type}
    {start : Bool}
    {rest : TagTest}

section Lexemes

theorem carries_leaf
    {kind : StoryKind}
    (isSimple : kind.isSimple = true)
    (noChildren : kind.children = []) :
    (make kind).Carries start rest rest [] fun id => [id] :=
  .make isSimple noChildren.symm

theorem carries_makeText
    (text : String) :
    (makeText text).Carries start rest rest [] fun id => [id] :=
  carries_leaf rfl rfl

theorem carries_expression
    (calm : Calm rest) :
    expression.Carries start rest rest [] fun id => [id] :=
  ⟨fun balances => balances.expression 0 calm⟩

theorem carries_prose :
    prose.Carries start Anyhow Anyhow [] fun ids => ids :=
  ⟨fun balances => balances.prose⟩

section Combining

variable
    [StandsFor α]
    {rule : GrammarRule α}
    {gives : α → List NodeId}

theorem carries_spaced
    (carries : rule.Carries start rest rest [] gives) :
    (spaced rule).Carries start rest rest [] gives := by
  refine .ask asks_skipBlanks fun _ => ?_
  refine .bind carries.parse fun value => ?_
  refine .ask asks_skipBlanks fun _ => ?_
  exact .pure rfl

theorem carries_wholeLine
    (carries : rule.Carries start rest rest [] gives) :
    (wholeLine rule).Carries start rest rest [] gives := by
  refine .bind carries.parse fun value => ?_
  refine .ask (by simp) fun _ => ?_
  exact .pure rfl

end Combining

theorem carries_identifier :
    identifier.Carries start rest rest [] fun id => [id] := by
  refine Carries.parse ?_
  refine .ask asks_name fun word => ?_
  exact carries_leaf rfl rfl

theorem carries_missingIdentifier :
    missingIdentifier.Carries start rest rest [] fun id => [id] :=
  carries_leaf rfl rfl

theorem carries_label :
    label.Carries start rest rest [] fun id => [id] := by
  refine .ask (by simp) fun _ => ?_
  refine .ask (by simp) fun _ => ?_
  refine .bind carries_identifier fun id => ?_
  refine .ask (by simp) fun _ => ?_
  refine .ask (by simp) fun _ => ?_
  exact .pure rfl

theorem carries_callArguments
    (calm : Calm rest) :
    callArguments.Carries start rest rest [] fun ids => ids := by
  refine .ask (by simp) fun _ => ?_
  have listed :
      (Rule.alternate (Rule.single expression)
        (Rule.dropped (literal ","))).Carries start rest rest [] fun ids => ids :=
    .alternateNodes (carries_expression calm).single
      (Rule.carries_dropped (by simp))
  refine .bind (.attempt (·.getD []) listed listed.recovers rfl id) fun found => ?_
  refine .ask (by simp) fun _ => ?_
  refine .ask (by simp) fun _ => ?_
  exact .pure rfl

end Lexemes

section Diverts

variable
    {library : Library}
    {maxDepth files levels : Nat}
    {machine : Machine Workshop}
    {links : List Link}

/-- Setting the flag behind a marker makes it tell where one is again. -/
theorem carries_marked
    {β : Type}
    {isOpen : Bool}
    {pre post : TagTest}
    {given : List NodeId}
    {first : GrammarRule α}
    {next : α → GrammarRule β}
    {gained : α → List NodeId}
    {gives : β → List NodeId}
    (turns :
      ∀ {start}, first.Carries start pre (Within isOpen) [] gained)
    (then_ :
      ∀ value,
        (next value).Carries start (Stands isOpen isOpen) post
          (given ++ gained value) gives) :
    (do
      let value ← first
      Rule.setFlag Flag.tagOpen isOpen
      next value).Carries start pre post given gives :=
  .then turns fun value =>
    .bind (Rule.carries_setTagOpen isOpen) fun _ => then_ value

theorem carries_closeTag :
    closeTag.Carries start Anyhow Closed [] fun ids => ids := by
  refine .ifFlag ?_ ?_
  · refine carries_marked ?_ fun marker => .pure rfl
    intro start
    have ends :
        (make (.tag false)).Carries start (Stands true true) (Stands true false)
          [] fun id => [id] :=
      Rule.carries_marker false
    exact ends.mono (fun passes => Flag.stands_of_anyhow passes.1 passes.2) .of_stands
  · exact .pure_of rfl fun passes => Flag.stands_of_anyhow passes.1 passes.2

theorem carries_tagStart :
    tagStart.Carries start Anyhow (Within true) [] fun id => [id] := by
  have begins {isOpen start : Bool} :
      (make (.tag true)).Carries start (Stands isOpen false)
        (Stands isOpen true) [] fun id => [id] :=
    Rule.carries_marker true
  refine .ifFlag ?_ ?_
  · have ends :
        (make (.tag false)).Carries start (Stands true true) (Stands true false)
          [] fun id => [id] :=
      Rule.carries_marker false
    refine
      .bind (ends.mono (fun passes => Flag.stands_of_anyhow passes.1 passes.2) id)
        fun finish => ?_
    refine .then begins fun begin => ?_
    exact (Carries.make rfl rfl).mono id .of_stands
  · exact begins.mono (fun passes => Flag.stands_of_anyhow passes.1 passes.2) .of_stands

theorem carries_targetPath :
    targetPath.Carries start rest rest [] fun ids => ids :=
  .alternateNodes (carries_spaced carries_identifier).single
    (Rule.carries_dropped (by simp))

/-- A target comes to a divert, and the trees below it were carried on. -/
theorem ensures_target
    (balances : Balances library maxDepth files levels)
    (calm : Calm rest)
    (passes : rest machine.top.flags start) :
    EnsuresKeeping library maxDepth files levels target machine
      fun divert after =>
        ∃ link : Divert,
          after.host.draft.kind? divert = some (.divert link) ∧
            after.Bears rest start (link.target.toList ++ link.arguments) := by
  have skips {given : List NodeId} :
      skipBlanks.Carries start rest rest given fun _ => given :=
    asks_skipBlanks.carries fun _ => rfl
  refine .bind ((skips.carrying balances machine passes .nil).mono ?_)
  rintro - skipped - ⟨_, passes, toggles⟩
  have components := carries_targetPath.parse.carrying balances skipped passes toggles
  refine .bind (components.mono ?_)
  rintro components named - ⟨_, passes, toggles⟩
  refine .bind ((skips.carrying balances named passes toggles).mono ?_)
  rintro - skipped - ⟨_, passes, toggles⟩
  have called :
      (attempt (parse callArguments)).Carries start rest rest components
        fun found => components ++ found.getD [] :=
    (Carries.frame (carries_callArguments calm).triedNodes components).congr
      (List.append_nil components) fun _ => rfl
  refine .bind ((called.carrying balances skipped passes toggles).mono ?_)
  rintro arguments called - ⟨_, passes, toggles⟩
  refine .bind ((skips.carrying balances called passes toggles).mono ?_)
  rintro - skipped - ⟨_, passes, toggles⟩
  have named :
      (Rule.effect (.makeSpanning (.path components)) :
        GrammarRule NodeId).Carries start rest rest
          (components ++ arguments.getD [])
          fun path => [path] ++ arguments.getD [] :=
    .behind (.makeSpanning rfl rfl) _
  refine .bind ((named.carrying balances skipped passes toggles).mono ?_)
  rintro path named - ⟨_, passes, toggles⟩
  let link : Divert := { target := some path, arguments := arguments.getD [] }
  have keeps := Draft.Keeps.add named.host.draft (.divert link) none
  have isDivert := Draft.kind?_add named.host.draft (.divert link) none
  exact
    EnsuresCleanly.of_ensures
      ⟨keeps, link, isDivert, _, passes, toggles.kept keeps⟩

/-- What is read of a target may stand where it is read, and outside of tags as well. -/
theorem carries_target
    {isOpen inside : Bool}
    (standing : inside = isOpen ∨ inside = false) :
    target.Carries start (Stands isOpen inside) (Stands isOpen inside) []
      fun id => [id] := by
  refine ⟨fun {library maxDepth files levels} balances machine state stands toggles => ?_⟩
  obtain ⟨told, rfl⟩ := stands
  obtain rfl := toggles.eq_of_nil
  cases isOpen with
  | false =>
      obtain rfl : state = false := by simpa using standing
      refine (ensures_target balances Flag.calm_closed ⟨told, rfl⟩).mono ?_
      rintro divert after - ⟨link, isDivert, _, ⟨told, rfl⟩, below⟩
      exact ⟨false, ⟨told, rfl⟩, .single isDivert (.of_isLevel rfl) below⟩
  | true =>
      intro clean
      have anyhow : Anyhow machine.top.flags true := told.symm
      have reads := ensures_target balances Flag.calm_anyhow anyhow clean
      refine Outcome.ensures_iff.mpr ⟨?_, (Outcome.ensures_iff.mp reads).2⟩
      intro divert after matched
      obtain ⟨keeps, link, isDivert, _, rfl, below⟩ :=
        (Outcome.ensures_iff.mp reads).1 divert after matched
      -- A marker below the divert would be displaced.
      have untagged :
          ∀ root ∈ link.target.toList ++ link.arguments, ∀ id isStart,
            after.host.draft.Reaches root id →
            after.host.draft.kind? id ≠ some (.tag isStart) := by
        intro root isRoot id isStart reaches isTag
        refine
          clean.marked _ .refl (.displaced told matched (.head ?_ reaches) isTag)
        rw [Draft.childrenOf, isDivert]
        exact isRoot
      obtain ⟨below, stillOpen⟩ := below.of_untagged untagged rfl
      exact
        ⟨keeps, state, ⟨stillOpen, rfl⟩, .single isDivert (.of_isLevel rfl) below⟩

theorem carries_thread
    {isOpen inside : Bool}
    (standing : inside = isOpen ∨ inside = false) :
    thread.Carries start (Stands isOpen inside) (Stands isOpen inside) []
      fun id => [id] := by
  refine .ask (by simp) fun _ => ?_
  refine .ask (by simp) fun _ => ?_
  refine .ask (by simp) fun _ => ?_
  refine .bind ((carries_target standing).expectOr _) fun divert => ?_
  refine .bind (.amend divert (by simp)) fun _ => ?_
  exact .pure rfl

/-- The targets that stay in a chain; those behind the one of a tunnel back out do not. -/
def chainTargets : List Link → List NodeId
  | [] => []
  | .arrow .onwards :: .target divert :: _ => [divert]
  | .arrow .onwards :: _ => []
  | .arrow .plain :: rest => chainTargets rest
  | .target divert :: rest => divert :: chainTargets rest

theorem chainTargets_sublist
    (links : List Link) :
    (chainTargets links).Sublist (targetsOf links) := by
  fun_induction chainTargets links with
  | case1 =>
      exact .slnil
  | case2 divert rest =>
      exact (List.nil_sublist _).cons_cons divert
  | case3 rest =>
      exact List.nil_sublist _
  | case4 rest inductionHypothesis =>
      exact inductionHypothesis
  | case5 divert rest inductionHypothesis =>
      exact inductionHypothesis.cons_cons divert

theorem carries_chain
    (isFirst : Bool)
    (links : List Link) :
    (chain isFirst links).Carries start rest rest (chainTargets links)
      fun ids => ids := by
  induction links generalizing isFirst start with
  | nil =>
      exact .pure rfl
  | cons link others inductionHypothesis =>
      rcases link with (_ | _) | divert
      · exact inductionHypothesis false
      · unfold chain
        refine .remark (by simp) fun _ => ?_
        refine .bind (.make rfl ?_) fun id => .pure rfl
        rcases others with _ | ⟨_ | divert, others⟩ <;> rfl
      · have goesOn (start : Bool) :
            (do return divert :: (← chain false others)).Carries start rest rest
              (chainTargets (.target divert :: others)) fun ids => ids :=
          .bind (Carries.frame (inductionHypothesis false) [divert])
            fun ids => .pure rfl
        unfold chain
        split
        · exact .bind (.amend divert (by simp)) fun _ => goesOn start
        · exact goesOn start

theorem flatMap_nodes
    (links : List Link) :
    links.flatMap Link.nodes = targetsOf links := by
  induction links with
  | nil =>
      rfl
  | cons link others inductionHypothesis =>
      cases link <;> simp [targetsOf, Link.nodes, inductionHypothesis]

theorem carries_chainLinks
    {isOpen inside : Bool}
    (standing : inside = isOpen ∨ inside = false) :
    chainLinks.Carries start (Stands isOpen inside) (Stands isOpen inside) []
      targetsOf := by
  refine Carries.congr (.alternate ?_ ?_) rfl flatMap_nodes
  · intro start
    exact
      .ask asks_arrow fun _ =>
        .pure (by simp [Rule.ofStep, Step.values, Link.nodes])
  · intro start
    exact
      .bind (carries_target standing).parse fun _ =>
        .pure (by simp [Rule.ofStep, Step.values, Link.nodes])

/-- Diverts have ended the tag that was open, or they may stand in front of its end and
behind it. -/
def DivertsStand
    (machine : Machine Workshop)
    (wasOpen : Bool)
    (ids : List NodeId) : Prop :=
  (Flag.marksTag machine.top.flags = false ∧
      machine.host.draft.Toggles wasOpen ids false) ∨
    (Flag.marksTag machine.top.flags = wasOpen ∧
      machine.host.draft.Toggles wasOpen ids wasOpen ∧
      machine.host.draft.Toggles false ids false)

theorem DivertsStand.of_rests
    {later : Machine Workshop}
    {wasOpen : Bool}
    {ids : List NodeId}
    (stand : DivertsStand machine wasOpen ids)
    (rests : machine.Rests later) :
    DivertsStand later wasOpen ids := by
  have keeps := Draft.Keeps.of_kinds rests.kinds
  rw [DivertsStand, rests.flags]
  exact
    stand.imp (fun ended => ⟨ended.1, ended.2.kept keeps⟩) fun stays =>
      ⟨stays.1, stays.2.1.kept keeps, stays.2.2.kept keeps⟩

theorem carries_finishedChain
    (links : List Link)
    (markers : List NodeId) :
    (do
      let nodes ← chain true links
      if nodes.isEmpty && links.length == 1 then
        let empty ← make (.divert { isEmpty := true })
        if !(← Rule.effect .isInChoice) then
          Rule.error "Empty diverts (->) are only valid on choices"
        return markers ++ [empty]
      else return markers ++ nodes).Carries start rest rest
        (markers ++ chainTargets links) fun ids => ids := by
  refine .bind (Carries.frame (carries_chain true links) markers) fun nodes => ?_
  split
  next alone =>
    obtain rfl : nodes = [] := by simp_all
    rw [List.append_nil]
    refine .then (Rule.carries_levelLeaf rfl rfl) fun empty => ?_
    refine .ask (by simp) fun inChoice => ?_
    exact .remark (by simp) fun _ => .pure rfl
  next =>
    exact .pure rfl

theorem ensures_diverts_stand
    {isOpen : Bool}
    (balances : Balances library maxDepth files levels)
    (told : Flag.marksTag machine.top.flags = isOpen) :
    EnsuresKeeping library maxDepth files levels diverts machine
      fun ids after => DivertsStand after isOpen ids := by
  have skips : skipBlanks.Asks [] := asks_skipBlanks
  refine .ask skips fun _ skipped rests => ?_
  rw [← rests.flags] at told
  have amid :=
    (carries_thread (.inl rfl)).triedNode.carrying balances skipped ⟨told, rfl⟩ .nil
  have outside :=
    (carries_thread (.inr rfl)).triedNode.carrying balances skipped ⟨told, rfl⟩ .nil
  refine .bind ((amid.and outside).mono ?_)
  rintro (_ | divert) threaded -
    ⟨⟨_, ⟨told, rfl⟩, amid⟩, _, ⟨-, rfl⟩, outside⟩
  · have links :=
      (carries_chainLinks (.inr rfl)).carrying balances threaded ⟨told, rfl⟩ .nil
    refine .bind ((links.also ensures_chainLinks).mono ?_)
    rintro links linked - ⟨⟨_, ⟨told, rfl⟩, toggles⟩, areLinks⟩
    have kept := toggles.of_sublist ?_ (chainTargets_sublist links)
    · have anyhow : Anyhow linked.top.flags _ := told.symm
      refine .bind ((carries_closeTag.carrying balances linked anyhow .nil).mono ?_)
      rintro markers closed keeps ⟨_, ⟨told, rfl⟩, marked⟩
      have isClosed : Closed closed.top.flags false := ⟨told, rfl⟩
      refine
        ((carries_finishedChain links markers).carrying balances closed isClosed
          (marked.append (kept.kept keeps))).mono ?_
      rintro ids after - ⟨_, ⟨told, rfl⟩, toggles⟩
      exact .inl ⟨told, toggles⟩
    · intro id member
      obtain ⟨link, isDivert, -⟩ := areLinks.targets.targets id member
      exact ⟨.divert link, isDivert, rfl⟩
  · exact .pure (.inr ⟨told, amid, outside⟩)

theorem carries_diverts
    (calm : Calm rest) :
    diverts.Carries start rest rest [] fun ids => ids := by
  refine ⟨fun balances machine inside passes toggles => ?_⟩
  obtain rfl := toggles.eq_of_nil
  have tells := calm.tells passes
  refine (ensures_diverts_stand balances tells.symm).mono ?_
  rintro ids after - (⟨isClosed, toggles⟩ | ⟨told, toggles, -⟩)
  · refine ⟨false, ?_, toggles⟩
    rw [← isClosed]
    exact calm.stays passes fun _ => isClosed
  · refine ⟨_, ?_, toggles⟩
    rw [← told]
    exact calm.stays passes fun isClosed => (told.trans tells).trans isClosed

theorem carries_singleDivert
    (calm : Calm rest) :
    singleDivert.Carries start rest rest [] fun id => [id] := by
  refine .bind (carries_diverts calm).parse fun found => ?_
  split
  next divert =>
    refine .ask (by simp) fun kind => ?_
    split
    · split
      · exact .fail
      · exact .pure rfl
    · exact .fail
  next =>
    exact .fail

end Diverts

section Prose

theorem carries_text :
    text.Carries start rest rest [] fun id => [id] := by
  refine .ask ?_ fun found => ?_
  · simp only [Rule.asks_loop, Rule.asks_bind, Rule.asks_attempt]
    refine fun found => ⟨by simp, fun chunk => ⟨by simp, fun shields => ?_⟩⟩
    split
    · exact Rule.asks_pure _
    · split <;> simp
  · split
    · exact carries_makeText _
    · exact .fail

theorem carries_glue :
    glue.Carries start rest rest [] fun id => [id] := by
  refine .ask (by simp) fun _ => ?_
  exact carries_leaf rfl rfl

theorem carries_openTag :
    openTag.Carries start Anyhow Anyhow [] fun id => [id] := by
  refine .ask (by simp) fun _ => ?_
  refine .ask (by simp) fun _ => ?_
  refine .ask (by simp) fun inString => ?_
  refine .remark (by simp) fun _ => ?_
  refine carries_marked carries_tagStart fun node => ?_
  refine .ask (by simp) fun _ => ?_
  exact .pure_of rfl fun stands => stands.2.trans stands.1.symm

/-- Inside a string, a hash sign is an error. -/
theorem carries_openTag_quoted :
    openTag.Carries start Quoted Quoted [] fun id => [id] := by
  refine .ask (by simp) fun _ => ?_
  refine .ask (by simp) fun _ => ?_
  refine .hasFlag fun inString => ?_
  cases inString with
  | true =>
      exact .error
  | false =>
      refine .impossible ?_
      rintro flags inside ⟨⟨-, isString⟩, looked⟩
      exact Bool.false_ne_true (looked.symm.trans isString)

variable {content : List NodeId}

theorem makesWay_text
    (id : NodeId)
    (written : String) :
    Draft.MakesWay id (.text written) [id] [] :=
  .of_leaf rfl (by simp)

theorem carries_trimLast
    (content : List NodeId) :
    (trimLast content).Carries start rest rest content.reverse
      List.reverse := by
  induction content with
  | nil =>
      exact .pure rfl
  | cons last before inductionHypothesis =>
      unfold trimLast
      refine .kindOf fun kind => ?_
      split
      next written =>
        by_cases isEmpty : (dropEndWhile written isInlineBlank).isEmpty = true
        · refine ⟨before.reverse, ?_, ?_⟩
          · simpa using (makesWay_text last written).amid before.reverse []
          · refine .bind (.amend last (by simp)) fun _ => ?_
            rw [if_pos isEmpty]
            exact inductionHypothesis
        · refine ⟨_, .refl, .bind (.amend last (by simp)) fun _ => ?_⟩
          rw [if_neg isEmpty]
          exact .pure rfl
      next =>
        exact ⟨_, .refl, .pure rfl⟩

theorem carries_trimContentEnd
    (content : List NodeId) :
    (trimContentEnd content).Carries start rest rest content fun ids => ids :=
  ((carries_trimLast content.reverse).congr (List.reverse_reverse content)
    fun _ => rfl).bind fun _ => .pure rfl

theorem carries_oneBlankAtEnd
    {given : List NodeId}
    (areGiven : content ⊆ given) :
    (oneBlankAtEnd content).Carries start rest rest given fun _ => given := by
  unfold oneBlankAtEnd
  split
  · exact .pure rfl
  next last isLast =>
    have isIn := List.mem_of_getLast? isLast
    refine .ask (asks_kindOf.mpr (areGiven isIn)) fun kind => ?_
    split
    · exact .amend last (by simp)
    · exact .pure rfl

theorem carries_trimContentStart
    (content : List NodeId) :
    (trimContentStart content).Carries start rest rest content fun ids => ids := by
  unfold trimContentStart
  split
  · exact .pure rfl
  next first others =>
    refine .kindOf fun kind => ?_
    split
    next written =>
      by_cases isEmpty :
        (String.ofList (written.toList.dropWhile isInlineBlank)).isEmpty = true
      · refine ⟨others, ?_, ?_⟩
        · exact (makesWay_text first written).amid [] others
        · refine .bind (.amend first (by simp)) fun _ => ?_
          rw [if_pos isEmpty]
          exact .pure rfl
      · refine ⟨_, .refl, .bind (.amend first (by simp)) fun _ => ?_⟩
        rw [if_neg isEmpty]
        exact .pure rfl
    next =>
      exact ⟨_, .refl, .pure rfl⟩

theorem ensures_proseEnding_stands
    {isOpen : Bool}
    (balances : Balances library maxDepth files levels)
    (told : Flag.marksTag machine.top.flags = isOpen) :
    EnsuresKeeping library maxDepth files levels proseEnding machine
      fun ending after =>
        match ending with
        | some ids => DivertsStand after isOpen ids
        | none => after.top.flags = machine.top.flags := by
  have looks : (Rule.effect .isInChoice : GrammarRule Bool).Asks [] := by simp
  refine .ask looks fun inChoice looked rests => ?_
  split
  · exact .pure rests.flags
  · rw [← rests.flags] at told ⊢
    have anyhow : Anyhow looked.top.flags isOpen := told.symm
    have inScope : Flag.marksTag looked.opened.top.flags = isOpen := told
    refine .attempt (.parse ?_) ?_
    · refine (ensures_diverts_stand balances inScope).mono ?_
      exact fun ids after _ stand closed rests => stand.of_rests rests
    · refine
        ((carries_diverts Flag.calm_anyhow).parse.recovers balances looked
          anyhow).mono (fun _ _ => id) ?_
      exact fun after restored => restored.1

/-- Where no tag is open, none is ended. -/
theorem carries_closeTag_closed
    (front behind : List NodeId) :
    closeTag.Carries start Closed Closed (front ++ behind)
      fun ids => front ++ ids ++ behind := by
  refine .ifFlag (.impossible ?_) ?_
  · rintro flags inside ⟨⟨isClosed, -⟩, looked⟩
    exact Bool.false_ne_true (isClosed.symm.trans looked)
  · exact .pure_of (by simp) (·.1)

/-- What prose ends with stands behind the marker for the end of a tag. -/
theorem carries_proseOf
    {braces : GrammarRule NodeId}
    {post : TagTest}
    (tells : ∀ {flags inside}, rest flags inside → Anyhow flags inside)
    (stays : ∀ {flags inside}, rest flags inside → post flags inside)
    (ends : ∀ {flags inside}, Closed flags inside → post flags inside)
    (logic : ∀ {start}, braces.Carries start rest rest [] fun id => [id])
    (tag : ∀ {start}, openTag.Carries start rest rest [] fun id => [id]) :
    (proseOf braces).Carries start rest post [] fun ids => ids := by
  have pieces :
      (Rule.alternate (Rule.optionally text)
        (Rule.optionally (Rule.oneOf [braces, glue, openTag]))).Carries start
          rest rest [] fun ids => ids := by
    refine .alternateNodes carries_text.optionally ?_
    refine fun {start} => .optionally (.oneOf ?_)
    simp [logic, carries_glue, tag]
  refine
    .bind (.attempt (·.getD []) pieces pieces.recovers rfl id) fun items => ?_
  refine ⟨fun balances machine inside passes toggles => ?_⟩
  refine .bind ((ensures_proseEnding_stands balances (tells passes).symm).mono ?_)
  rintro (_ | ending) middle keeps ended
  · have sameFlags : middle.top.flags = machine.top.flags := ended
    cases items with
    | none =>
        exact EnsuresCleanly.of_ensures (.refl _)
    | some items =>
        refine .pure ⟨inside, ?_, toggles.kept keeps⟩
        rw [sameFlags]
        exact stays passes
  · have stand : DivertsStand middle inside ending := ended
    have blanked (markers : List NodeId) :
        (do
          oneBlankAtEnd (items.getD [] ++ markers)
          return (items.getD [] ++ markers) ++ ending).Carries start Closed post
            ((items.getD [] ++ markers) ++ ending) fun ids => ids := by
      refine
        .bind (carries_oneBlankAtEnd (List.subset_append_left _ _)) fun _ => ?_
      exact .pure_of rfl ends
    rcases stand with ⟨isClosed, toEnd⟩ | ⟨told, -, outside⟩
    · have ended :
          (closeTag >>= fun markers => do
            oneBlankAtEnd (items.getD [] ++ markers)
            return (items.getD [] ++ markers) ++ ending).Carries start Closed
              post (items.getD [] ++ ending) fun ids => ids :=
        .bind (carries_closeTag_closed _ _) blanked
      exact
        ended.carrying balances middle ⟨isClosed, rfl⟩
          ((toggles.kept keeps).append toEnd)
    · have anyhow : Anyhow middle.top.flags inside := told.symm
      refine .bind ((carries_closeTag.carrying balances middle anyhow .nil).mono ?_)
      rintro markers closed keepsThen ⟨_, ⟨told, rfl⟩, marked⟩
      refine (blanked markers).carrying balances closed ⟨told, rfl⟩ ?_
      exact
        ((toggles.kept (keeps.trans keepsThen)).append marked).append
          (outside.kept keepsThen)

theorem carries_withLineFeed
    (content : List NodeId) :
    (withLineFeed content).Carries start rest rest content fun ids => ids := by
  refine .ask (asks_beginsWithTag (List.Subset.refl content)) fun isTag => ?_
  split
  · exact .pure rfl
  · exact .then (carries_makeText _) fun lineFeed => .pure rfl

/-- A line of prose ends the tag that is open at its end. -/
theorem carries_proseLine :
    proseLine.Carries start Anyhow Closed [] fun ids => ids := by
  refine .ask (by simp) fun _ => ?_
  refine .bind carries_prose.parse fun found => ?_
  split
  · exact .fail
  next first others =>
    refine .ask (asks_warnOfReturn List.mem_cons_self) fun _ => ?_
    refine .ask (asks_endsInDivert (List.Subset.refl _)) fun isDivert => ?_
    refine
      .either (fun ids => ids) (.pure rfl) (carries_trimContentEnd _)
        fun trimmed => ?_
    refine .then carries_closeTag fun markers => ?_
    refine .bind (carries_withLineFeed (trimmed ++ markers)) fun content => ?_
    refine .ask (by simp) fun _ => ?_
    exact .pure rfl

end Prose

end InkSyntax.Grammar
