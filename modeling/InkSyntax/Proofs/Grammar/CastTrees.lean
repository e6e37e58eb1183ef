import InkSyntax.Proofs.Grammar.CastBuilding
import InkSyntax.Proofs.Grammar.Trees

namespace InkSyntax.Grammar

/-!
# The roles in prose and diverts

One lemma for each rule, in the order of the grammar, that says which roles the
nodes play that it gives.  Diverts take several roles while a chain is read: a
target leads somewhere, what follows a double arrow may be any divert, and only a
thread can be short of a target.
-/

open Rule (attempt parse literal ifThere ofStep NamesParts)

attribute [local simp] Covers NodeKind.parts

section Lexemes

variable
    {kind : StoryKind}
    {role : Role}

theorem casts_leaf
    (admits : role.Admits kind)
    (noChildren : kind.children = []) :
    (make kind).Casts [] fun id => [(id, role)] := by
  refine .make admits ?_
  have noParts : role.demands kind = [] := by
    rw [← List.map_eq_nil_iff, Role.map_fst_demands, noChildren]
  simp [noParts]

theorem casts_makeText
    (text : String) :
    (makeText text).Casts [] fun id => [(id, .content)] :=
  casts_leaf ⟨rfl, .inr trivial⟩ rfl

theorem casts_tag
    (isStart : Bool) :
    (make (.tag isStart)).Casts [] fun id => [(id, .content)] :=
  casts_leaf ⟨rfl, .inr trivial⟩ rfl

theorem casts_expression :
    expression.Casts [] fun id => [(id, .expression)] :=
  Rule.casts_construct (.expression 0)

theorem casts_prose :
    prose.Casts [] Role.content.parts :=
  Rule.casts_construct .prose

theorem casts_statements
    (place : Place) :
    (statements place).Casts [] (Role.parts (.statement place)) :=
  Rule.casts_construct (.statements place)

variable
    {α : Type}
    {rule : GrammarRule α}
    {gives : α → List Part}

theorem casts_spaced
    [StandsFor α]
    [NamesParts gives]
    (casts : rule.Casts [] gives) :
    (spaced rule).Casts [] gives := by
  refine .ask asks_skipBlanks fun _ => ?_
  refine .then casts.parse fun value => ?_
  refine .ask asks_skipBlanks fun _ => ?_
  exact .pure (by simp)

theorem casts_wholeLine
    [StandsFor α]
    [NamesParts gives]
    (casts : rule.Casts [] gives) :
    (wholeLine rule).Casts [] gives := by
  refine .then casts.parse fun value => ?_
  refine .ask (by simp) fun _ => ?_
  exact .pure (by simp)

theorem casts_identifier :
    identifier.Casts [] fun id => [(id, .identifier)] := by
  refine Rule.Casts.parse ?_
  refine .askKnowing yields_name asks_name fun word unbroken => ?_
  exact casts_leaf ⟨rfl, .inr unbroken⟩ rfl

theorem casts_missingIdentifier :
    missingIdentifier.Casts [] fun id => [(id, .identifier)] :=
  casts_leaf ⟨rfl, .inr unbroken_empty⟩ rfl

theorem casts_label :
    label.Casts [] fun id => [(id, .identifier)] := by
  refine .ask (by simp) fun _ => ?_
  refine .ask (by simp) fun _ => ?_
  refine .then casts_identifier fun id => ?_
  refine .ask (by simp) fun _ => ?_
  refine .ask (by simp) fun _ => ?_
  exact .pure (by simp)

theorem casts_callArguments :
    callArguments.Casts [] Role.expression.parts := by
  refine .ask (by simp) fun _ => ?_
  have listed :
      (Rule.alternate (Rule.single expression)
        (Rule.dropped (literal ","))).Casts [] Role.expression.parts :=
    .alternateNodes casts_expression.single (.dropped (by simp))
  refine
    .then (listed.attempt (fun found => Role.expression.parts (found.getD [])) rfl)
      fun found => ?_
  refine .ask (by simp) fun _ => ?_
  refine .ask (by simp) fun _ => ?_
  exact .pure (by simp)

end Lexemes

section Diverts

/-- The node of a link with its role, unless it is an arrow. -/
def Link.parts : Link → List Part
  | .arrow _ => []
  | .target divert => [(divert, .leading)]

theorem casts_closeTag :
    closeTag.Casts [] Role.content.parts := by
  refine .ask (by simp) fun isOpen => ?_
  split
  · refine .then (casts_tag false) fun marker => ?_
    refine .read (Rule.reads_setFlag _ _) fun _ => ?_
    exact .pure (by simp)
  · exact .pure (by simp)

theorem casts_targetPath :
    targetPath.Casts [] Role.identifier.parts :=
  .alternateNodes (casts_spaced casts_identifier).single (.dropped (by simp))

/-- The path of a target is not empty, since an alternation gives something. -/
theorem casts_target :
    target.Casts [] fun id => [(id, .leading)] := by
  refine .ask (by simp) fun _ => ?_
  refine
    .thenKnowing (Rule.yields_alternate _ _).parse casts_targetPath.parse
      fun components notEmpty => ?_
  refine .ask (by simp) fun _ => ?_
  refine .then casts_callArguments.triedNodes fun arguments => ?_
  refine .ask (by simp) fun _ => ?_
  have path :
      (Rule.effect (.makeSpanning (.path components)) :
        GrammarRule NodeId).Casts (Role.identifier.parts components)
        fun id => [(id, .path)] :=
    .makeSpanning ⟨rfl, .inr notEmpty⟩ (by simp [Role.demands])
  refine
    .using (Role.expression.parts (arguments.getD [])) path (by grind)
      fun path => ?_
  refine .make ⟨rfl, .inr ⟨by simp, by simp⟩⟩ (by simp [Role.demands])

/-- Whatever a thread lacks, it is a thread in the end. -/
theorem turns_thread :
    Amendment.thread.Turns [] .unfinished .content := by
  intro kind admits
  cases kind with
  | divert link =>
      have notEmpty : link.isEmpty = false := by
        simpa [Role.suits] using admits.suits
      exact
        ⟨⟨rfl, .inr ⟨fun _ => .inr rfl, by simp [notEmpty]⟩⟩,
          by simp [Role.demands, Amendment.apply]⟩
  | _ => cases admits.suits

theorem turns_tunnel :
    Amendment.tunnel.Turns [] .leading .leading := by
  intro kind admits
  cases kind with
  | divert link =>
      have leads := admits.suits
      have proper := admits.proper.resolve_left (by simp)
      simp only [Role.suits, Bool.and_eq_true, Bool.not_eq_true'] at leads
      refine
        ⟨⟨by simpa [Role.suits, Amendment.apply] using leads, .inr ?_⟩,
          by simp [Role.demands, Amendment.apply]⟩
      exact ⟨proper.target, by simp [leads.1]⟩
  | _ => cases admits.suits

theorem casts_thread :
    thread.Casts [] fun id => [(id, .content)] := by
  refine .ask (by simp) fun _ => ?_
  refine .ask (by simp) fun _ => ?_
  refine .ask (by simp) fun _ => ?_
  have without :
      (make (.divert {}) : GrammarRule NodeId).Casts [] fun id => [(id, .unfinished)] :=
    casts_leaf ⟨rfl, .inl rfl⟩ rfl
  refine
    .then ((casts_target.serveNode .leading_unfinished).expectOr without _)
      fun divert => ?_
  refine .bind (.amend [] turns_thread) fun _ => ?_
  exact .pure (by simp)

/-- A chain has a node for each of its targets, and gives them all as content. -/
theorem casts_chain
    (isFirst : Bool)
    (links : List Link) :
    (chain isFirst links).Casts (links.flatMap Link.parts) Role.content.parts := by
  induction links generalizing isFirst with
  | nil =>
      exact .pure (by simp)
  | cons link rest inductionHypothesis =>
      rcases link with (_ | _) | divert
      · exact inductionHypothesis false
      · have onwards
            {given : List Part}
            (after : Option NodeId)
            (covers : Covers given (Role.divert.parts after.toList)) :
            (make (.tunnelOnwards after)).Casts given
              fun id => [(id, .content)] :=
          .make ⟨rfl, .inr trivial⟩ covers
        unfold chain
        refine .remark (by simp) fun _ => ?_
        refine
          .bind (?_ : Rule.Casts _ _ fun id => [(id, .content)])
            fun id => .pure (by simp)
        rcases rest with _ | ⟨_ | divert, others⟩
        · exact onwards none (by simp)
        · exact onwards none (by simp)
        · exact
            .offerNode .divert
              (onwards (some divert) (by simp [List.count_cons])) .leading_divert
      · rw [List.flatMap_cons]
        unfold chain
        refine
          .perhaps (.amend [] turns_tunnel) fun _ => ?_
        refine
          .offerNode .content (.using [(divert, .content)]
            (inductionHypothesis false) ?_ fun ids => ?_) .leading_content
        · simp [List.count_cons]
        · exact .pure (by simp [List.count_cons])

theorem casts_diverts :
    diverts.Casts [] Role.content.parts := by
  refine .ask (by simp) fun _ => ?_
  refine .then casts_thread.triedNode ?_
  rintro (_ | divert)
  · have linked :
        (Rule.alternate (do return .one (.arrow (← arrow)))
          (do return .one (.target (← parse target)))).Casts []
          fun links => links.flatMap Link.parts :=
      .alternate
        (.ask asks_arrow fun _ => .pure (by simp [ofStep, Step.values, Link.parts]))
        (.then casts_target.parse fun _ =>
          .pure (by simp [ofStep, Step.values, Link.parts]))
    refine .then linked fun links => ?_
    refine .then casts_closeTag fun markers => ?_
    refine
      .using (Role.content.parts markers) (casts_chain true links) (by grind)
        fun nodes => ?_
    have empty :
        (make (.divert { isEmpty := true })).Casts []
          fun id => [(id, .content)] :=
      casts_leaf ⟨rfl, .inr ⟨fun _ => .inl rfl, fun _ => ⟨rfl, rfl, rfl⟩⟩⟩ rfl
    split
    · refine .then empty fun empty => ?_
      refine .ask (by simp) fun inChoice => ?_
      refine .remark (by simp) fun _ => ?_
      exact .pure (by simp [List.count_cons])
    · exact .pure (by simp; omega)
  · exact .pure (by simp)

theorem casts_singleDivert :
    singleDivert.Casts [] fun id => [(id, .single)] := by
  refine .then casts_diverts.parse fun found => ?_
  split
  next divert =>
    refine .inspect fun kind admits => ?_
    split
    next link =>
      split
      · exact ⟨.content, admits, rfl, .fail⟩
      next notTunnel =>
        refine
          ⟨.single, ⟨?_, .inr (admits.proper.resolve_left (by simp))⟩, rfl,
            .pure (by simp)⟩
        simpa [Role.suits] using notTunnel
    next =>
      exact ⟨.content, admits, rfl, .fail⟩
  next =>
    exact .fail

end Diverts

section Prose

theorem casts_text :
    text.Casts [] fun id => [(id, .content)] := by
  refine .ask ?_ fun found => ?_
  · simp only [Rule.asks_loop, Rule.asks_bind, Rule.asks_attempt]
    refine fun found => ⟨by simp, fun chunk => ⟨by simp, fun shields => ?_⟩⟩
    split
    · exact Rule.asks_pure _
    · split <;> simp
  · split
    · exact casts_makeText _
    · exact .fail

theorem casts_glue :
    glue.Casts [] fun id => [(id, .content)] := by
  refine .ask (by simp) fun _ => ?_
  exact casts_leaf ⟨rfl, .inr trivial⟩ rfl

theorem casts_tagStart :
    tagStart.Casts [] fun id => [(id, .content)] := by
  refine .ask (by simp) fun isOpen => ?_
  split
  · refine .then (casts_tag false) fun finish => ?_
    refine .then (casts_tag true) fun start => ?_
    refine .make ⟨rfl, .inr trivial⟩ ?_
    simp [Role.demands, List.count_cons]
    omega
  · exact casts_tag true

theorem casts_openTag :
    openTag.Casts [] fun id => [(id, .content)] := by
  refine .ask (by simp) fun _ => ?_
  refine .ask (by simp) fun _ => ?_
  refine .ask (by simp) fun inString => ?_
  refine .remark (by simp) fun _ => ?_
  refine .then casts_tagStart fun node => ?_
  refine .read (Rule.reads_setFlag _ _) fun _ => ?_
  refine .ask (by simp) fun _ => ?_
  exact .pure (by simp)

/-- Content stays content when a text is replaced. -/
theorem turns_text
    (written : String) :
    (Amendment.text written).Turns [] .content .content := by
  intro kind admits
  cases kind with
  | text _ =>
      exact ⟨⟨rfl, .inr trivial⟩, rfl⟩
  | _ =>
      exact ⟨admits, (List.append_nil _).symm⟩

/-- Trimming gives some of the content. -/
theorem casts_trimLast
    (content : List NodeId) :
    (trimLast content).Casts (Role.content.parts content)
      Role.content.parts := by
  induction content with
  | nil =>
      exact .pure (by simp)
  | cons last before inductionHypothesis =>
      unfold trimLast
      refine .ask (by simp) fun kind => ?_
      split
      · refine .bind (.amendAmong (by simp) (turns_text _)) fun _ => ?_
        split
        · exact
            inductionHypothesis.weaken (by simp [List.count_cons])
              fun _ _ => Nat.le_refl _
        · exact .pure (by simp)
      · exact .pure (by simp)

theorem casts_trimContentEnd
    (content : List NodeId) :
    (trimContentEnd content).Casts (Role.content.parts content)
      Role.content.parts := by
  refine .using [] (casts_trimLast content.reverse) ?_ fun trimmed => ?_
  · simp [Role.parts_eq_flatMap, Rule.count_reverse_flatMap]
  · exact .pure (by simp [Role.parts_eq_flatMap, Rule.count_reverse_flatMap])

theorem casts_oneBlankAtEnd
    (content : List NodeId) :
    (oneBlankAtEnd content).Casts (Role.content.parts content)
      fun _ => Role.content.parts content := by
  unfold oneBlankAtEnd
  split
  · exact .pure (by simp)
  next last isLast =>
    have isIn := List.mem_of_getLast? isLast
    refine .ask (by simpa using isIn) fun kind => ?_
    split
    · exact .amendAmong (List.mem_map_of_mem isIn) (turns_text _)
    · exact .pure (by simp)

theorem casts_trimContentStart
    (content : List NodeId) :
    (trimContentStart content).Casts (Role.content.parts content)
      Role.content.parts := by
  unfold trimContentStart
  split
  · exact .pure (by simp)
  next first rest =>
    refine .ask (by simp) fun kind => ?_
    split
    · refine .bind (.amendAmong (by simp) (turns_text _)) fun _ => ?_
      split
      · exact .pure (by simp [List.count_cons])
      · exact .pure (by simp)
    · exact .pure (by simp)

theorem casts_proseEnding :
    proseEnding.Casts [] fun found => Role.content.parts (found.getD []) := by
  refine .ask (by simp) fun inChoice => ?_
  split
  · exact .pure (by simp)
  · exact casts_diverts.triedNodes

theorem casts_proseOf
    {braces : GrammarRule NodeId}
    (casts : braces.Casts [] fun id => [(id, .content)]) :
    (proseOf braces).Casts [] Role.content.parts := by
  have items :
      (Rule.alternate (Rule.optionally text)
        (Rule.optionally (Rule.oneOf [braces, glue, openTag]))).Casts []
          Role.content.parts := by
    refine .alternateNodes casts_text.optionally (.optionally (.oneOf ?_))
    simp [casts, casts_glue, casts_openTag]
  refine
    .then (items.attempt (fun found => Role.content.parts (found.getD [])) rfl)
      fun items => ?_
  refine .then casts_proseEnding fun ending => ?_
  split
  · exact .fail
  · exact .pure (by simp)
  next ending =>
    refine .then casts_closeTag fun markers => ?_
    refine
      .using (Role.content.parts ending)
        (casts_oneBlankAtEnd (items.getD [] ++ markers)) ?_ fun _ => ?_
    · simp
      omega
    · exact .pure (by simp)

theorem casts_withLineFeed
    (content : List NodeId) :
    (withLineFeed content).Casts (Role.content.parts content)
      Role.content.parts := by
  refine .ask (asks_beginsWithTag (by simp)) fun isTag => ?_
  split
  · exact .pure (by simp)
  · refine .then (casts_makeText _) fun lineFeed => ?_
    exact .pure (by simp [List.count_cons])

theorem casts_proseLine :
    proseLine.Casts [] Role.content.parts := by
  refine .ask (by simp) fun _ => ?_
  refine .then casts_prose.parse fun found => ?_
  split
  · exact .fail
  next first rest =>
    rw [List.append_nil]
    refine .ask (asks_warnOfReturn (by simp)) fun _ => ?_
    refine .ask (asks_endsInDivert (by simp)) fun isDivert => ?_
    refine
      .either Role.content.parts (.pure (by simp)) (casts_trimContentEnd _)
        fun trimmed => ?_
    refine .then casts_closeTag fun markers => ?_
    refine
      .using [] (casts_withLineFeed (trimmed ++ markers)) ?_ fun content => ?_
    · simp
      omega
    · refine .ask (by simp) fun _ => ?_
      exact .pure (by simp)

end Prose

end InkSyntax.Grammar
