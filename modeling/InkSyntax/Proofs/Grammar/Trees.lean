import InkSyntax.Proofs.Grammar.Building

namespace InkSyntax.Grammar

/-!
# The trees that prose and diverts make

One lemma for each rule, in the order of the grammar, that says which trees it is
given and gives.  Nearly all of them make what they give out of nothing.
-/

open Rule (attempt parse literal ifThere ofStep Names)

attribute [local simp] Covers NodeKind.children

section Lexemes

theorem builds_leaf
    {kind : StoryKind}
    (noChildren : kind.children = [])
    (plain : ∀ story, kind ≠ .includedFile (some story)) :
    (make kind).Builds fun id => [id] :=
  .make (by rw [noChildren]; simp) plain

theorem builds_makeText
    (text : String) :
    (makeText text).Builds fun id => [id] :=
  builds_leaf rfl (by simp)

theorem builds_expression :
    expression.Builds fun id => [id] :=
  Rule.builds_construct (.expression 0)

theorem builds_prose :
    prose.Builds fun ids => ids :=
  Rule.builds_construct .prose

theorem builds_statements
    (place : Place) :
    (statements place).Builds fun ids => ids :=
  Rule.builds_construct (.statements place)

variable
    {α : Type}
    {rule : GrammarRule α}
    {gives : α → List NodeId}

theorem builds_spaced
    [StandsFor α]
    [Names gives]
    (builds : rule.Builds gives) :
    (spaced rule).Builds gives := by
  refine .ask asks_skipBlanks fun _ => ?_
  refine .then builds.parse fun value => ?_
  refine .ask asks_skipBlanks fun _ => ?_
  exact .pure (by simp)

theorem builds_wholeLine
    [StandsFor α]
    [Names gives]
    (builds : rule.Builds gives) :
    (wholeLine rule).Builds gives := by
  refine .then builds.parse fun value => ?_
  refine .ask (by simp) fun _ => ?_
  exact .pure (by simp)

theorem builds_identifier :
    identifier.Builds fun id => [id] := by
  refine Rule.Builds.parse ?_
  refine .ask asks_name fun word => ?_
  exact builds_leaf rfl (by simp)

theorem builds_missingIdentifier :
    missingIdentifier.Builds fun id => [id] :=
  builds_leaf rfl (by simp)

theorem builds_label :
    label.Builds fun id => [id] := by
  refine .ask (by simp) fun _ => ?_
  refine .ask (by simp) fun _ => ?_
  refine .then builds_identifier fun id => ?_
  refine .ask (by simp) fun _ => ?_
  refine .ask (by simp) fun _ => ?_
  exact .pure (by simp)

theorem builds_callArguments :
    callArguments.Builds fun ids => ids := by
  refine .ask (by simp) fun _ => ?_
  have listed :
      (Rule.alternate (Rule.single expression)
        (Rule.dropped (literal ","))).Builds fun ids => ids :=
    .alternateNodes builds_expression.single (.dropped (by simp))
  refine .then (listed.attempt (·.getD []) rfl) fun found => ?_
  refine .ask (by simp) fun _ => ?_
  refine .ask (by simp) fun _ => ?_
  exact .pure (by simp)

end Lexemes

section Diverts

/-- The node of a link, unless it is an arrow. -/
def Link.nodes : Link → List NodeId
  | .arrow _ => []
  | .target divert => [divert]

theorem builds_closeTag :
    closeTag.Builds fun ids => ids := by
  refine .ask (by simp) fun isOpen => ?_
  split
  · refine .then (builds_leaf rfl (by simp)) fun marker => ?_
    refine .read (Rule.reads_setFlag _ _) fun _ => ?_
    exact .pure (by simp)
  · exact .pure (by simp)

@[simp] theorem asks_arrow
    {known : List NodeId} :
    arrow.Asks known := by
  simp only [arrow, Rule.asks_bind, Rule.asks_loop]
  refine ⟨fun count => ⟨by simp, fun more => by simp⟩, fun count => ?_⟩
  split <;> simp

theorem builds_targetPath :
    targetPath.Builds fun ids => ids :=
  .alternateNodes (builds_spaced builds_identifier).single (.dropped (by simp))

theorem builds_target :
    target.Builds fun id => [id] := by
  refine .ask (by simp) fun _ => ?_
  refine .then builds_targetPath.parse fun components => ?_
  refine .ask (by simp) fun _ => ?_
  refine .then builds_callArguments.triedNodes fun arguments => ?_
  refine .ask (by simp) fun _ => ?_
  have path :
      (Rule.effect (.makeSpanning (.path components)) :
        GrammarRule NodeId).Owns components fun id => [id] :=
    .makeSpanning (by simp) (by simp)
  refine .using (arguments.getD []) path (by grind) fun path => ?_
  exact .make (by simp) (by simp)

theorem builds_thread :
    thread.Builds fun id => [id] := by
  refine .ask (by simp) fun _ => ?_
  refine .ask (by simp) fun _ => ?_
  refine .ask (by simp) fun _ => ?_
  refine .then (builds_target.expectOr (builds_leaf rfl (by simp)) _) fun divert => ?_
  refine .bind (.amend (by simp) (by simp)) fun _ => ?_
  exact .pure (by simp)

/-- A chain has a node for each of its targets. -/
theorem owns_chain
    (isFirst : Bool)
    (links : List Link) :
    (chain isFirst links).Owns (links.flatMap Link.nodes) fun ids => ids := by
  induction links generalizing isFirst with
  | nil =>
      exact .pure (by simp)
  | cons link rest inductionHypothesis =>
      rcases link with (_ | _) | divert
      · exact inductionHypothesis false
      · unfold chain
        refine .remark (by simp) fun _ => ?_
        refine .bind (.make ?_ (by simp)) fun id => .pure (by simp)
        rcases rest with _ | ⟨_ | divert, others⟩ <;>
          simp [Link.nodes, List.count_cons]
      · unfold chain
        refine
          .perhaps (.amend (by simp [Link.nodes]) (by simp)) fun _ => ?_
        refine
          .using [divert] (inductionHypothesis false)
            (by grind [Link.nodes]) fun ids => ?_
        exact .pure (by grind)

theorem builds_diverts :
    diverts.Builds fun ids => ids := by
  refine .ask (by simp) fun _ => ?_
  refine .then builds_thread.triedNode ?_
  rintro (_ | divert)
  · have linked :
        (Rule.alternate (do return .one (.arrow (← arrow)))
          (do return .one (.target (← parse target)))).Builds
          fun links => links.flatMap Link.nodes :=
      .alternate
        (.ask asks_arrow fun _ => .pure (by simp [ofStep, Step.values, Link.nodes]))
        (.then builds_target.parse fun _ =>
          .pure (by simp [ofStep, Step.values, Link.nodes]))
    refine .then linked fun links => ?_
    refine .then builds_closeTag fun markers => ?_
    refine .using markers (owns_chain true links) (by grind) fun nodes => ?_
    split
    · refine .then (builds_leaf rfl (by simp)) fun empty => ?_
      refine .ask (by simp) fun inChoice => ?_
      refine .remark (by simp) fun _ => ?_
      exact .pure (by grind)
    · exact .pure (by grind)
  · exact .pure (by simp)

theorem asks_isDivert
    {id : NodeId}
    {known : List NodeId}
    (isKnown : id ∈ known) :
    (isDivert id).Asks known := by
  simp only [isDivert, Rule.asks_bind, asks_kindOf]
  refine ⟨isKnown, fun kind => ?_⟩
  split <;> simp

theorem builds_singleDivert :
    singleDivert.Builds fun id => [id] := by
  refine .then builds_diverts.parse fun found => ?_
  split
  next divert =>
    refine .ask (by simp) fun kind => ?_
    split
    · split
      · exact .fail
      · exact .pure (by simp)
    · exact .fail
  next =>
    exact .fail

end Diverts

section Prose

variable {known : List NodeId}

@[simp] theorem asks_textStop :
    textStop.Asks known :=
  Rule.asks_oneOf (by simp) fun _ => rfl

@[simp] theorem asks_plainText :
    plainText.Asks known := by
  simp [plainText, Rule.asks_textUntil]

theorem builds_text :
    text.Builds fun id => [id] := by
  refine .ask ?_ fun found => ?_
  · simp only [Rule.asks_loop, Rule.asks_bind, Rule.asks_attempt]
    refine fun found => ⟨by simp, fun chunk => ⟨by simp, fun shields => ?_⟩⟩
    split
    · exact Rule.asks_pure _
    · split <;> simp
  · split
    · exact builds_makeText _
    · exact .fail

theorem builds_glue :
    glue.Builds fun id => [id] := by
  refine .ask (by simp) fun _ => ?_
  exact builds_leaf rfl (by simp)

theorem builds_tagStart :
    tagStart.Builds fun id => [id] := by
  refine .ask (by simp) fun isOpen => ?_
  split
  · refine .then (builds_leaf rfl (by simp)) fun finish => ?_
    refine .then (builds_leaf rfl (by simp)) fun start => ?_
    exact .make (by grind [NodeKind.children]) (by simp)
  · exact builds_leaf rfl (by simp)

theorem builds_openTag :
    openTag.Builds fun id => [id] := by
  refine .ask (by simp) fun _ => ?_
  refine .ask (by simp) fun _ => ?_
  refine .ask (by simp) fun inString => ?_
  refine .remark (by simp) fun _ => ?_
  refine .then builds_tagStart fun node => ?_
  refine .read (Rule.reads_setFlag _ _) fun _ => ?_
  refine .ask (by simp) fun _ => ?_
  exact .pure (by simp)

theorem asks_isTextThat
    {id : NodeId}
    (isKnown : id ∈ known)
    (test : String → Bool) :
    (isTextThat test id).Asks known := by
  simp only [isTextThat, Rule.asks_bind, asks_kindOf]
  refine ⟨isKnown, fun kind => ?_⟩
  split <;> simp

/-- Trimming gives some of the content. -/
theorem owns_trimLast
    (content : List NodeId) :
    (trimLast content).Owns content fun ids => ids := by
  induction content with
  | nil =>
      exact .pure (by simp)
  | cons last before inductionHypothesis =>
      unfold trimLast
      refine .ask (by simp) fun kind => ?_
      split
      · refine .bind (.amend (by simp) (by simp)) fun _ => ?_
        split
        · exact
            inductionHypothesis.weaken (by grind) fun _ _ => Nat.le_refl _
        · exact .pure (by simp)
      · exact .pure (by simp)

theorem owns_trimContentEnd
    (content : List NodeId) :
    (trimContentEnd content).Owns content fun ids => ids := by
  refine .using [] (owns_trimLast content.reverse) (by simp) fun trimmed => ?_
  exact .pure (by simp)

theorem owns_oneBlankAtEnd
    (content : List NodeId) :
    (oneBlankAtEnd content).Owns content fun _ => content := by
  unfold oneBlankAtEnd
  split
  · exact .pure (by simp)
  next last isLast =>
    have isIn := List.mem_of_getLast? isLast
    refine .ask (by simpa using isIn) fun kind => ?_
    split
    · exact .amend isIn (by simp)
    · exact .pure (by simp)

theorem owns_trimContentStart
    (content : List NodeId) :
    (trimContentStart content).Owns content fun ids => ids := by
  unfold trimContentStart
  split
  · exact .pure (by simp)
  next first rest =>
    refine .ask (by simp) fun kind => ?_
    split
    · refine .bind (.amend (by simp) (by simp)) fun _ => ?_
      split
      · exact .pure (by grind)
      · exact .pure (by simp)
    · exact .pure (by simp)

theorem builds_proseEnding :
    proseEnding.Builds (·.getD []) := by
  refine .ask (by simp) fun inChoice => ?_
  split
  · exact .pure (by simp)
  · exact builds_diverts.triedNodes

theorem builds_proseOf
    {braces : GrammarRule NodeId}
    (builds : braces.Builds fun id => [id]) :
    (proseOf braces).Builds fun ids => ids := by
  have items :
      (Rule.alternate (Rule.optionally text)
        (Rule.optionally (Rule.oneOf [braces, glue, openTag]))).Builds
          fun ids => ids := by
    refine .alternateNodes builds_text.optionally (.optionally (.oneOf ?_))
    simp [builds, builds_glue, builds_openTag]
  refine .then (items.attempt (·.getD []) rfl) fun items => ?_
  refine .then builds_proseEnding fun ending => ?_
  split
  · exact .fail
  · exact .pure (by simp)
  next ending =>
    refine .then builds_closeTag fun markers => ?_
    refine .using ending (owns_oneBlankAtEnd (items.getD [] ++ markers)) (by grind) fun _ => ?_
    exact .pure (by grind)

theorem asks_warnOfReturn
    {first : NodeId}
    (isKnown : first ∈ known) :
    (warnOfReturn first).Asks known := by
  refine Rule.asks_bind.mpr ⟨asks_isTextThat isKnown _, fun isReturn => ?_⟩
  split <;> simp

theorem asks_endsInDivert
    {content : List NodeId}
    (areKnown : content ⊆ known) :
    (endsInDivert content).Asks known := by
  unfold endsInDivert
  split
  next last isLast =>
    exact asks_isDivert (areKnown (List.mem_of_getLast? isLast))
  next =>
    trivial

theorem asks_beginsWithTag
    {content : List NodeId}
    (areKnown : content ⊆ known) :
    (beginsWithTag content).Asks known := by
  unfold beginsWithTag
  split
  next first isFirst =>
    simp only [Rule.asks_bind, asks_kindOf]
    refine ⟨areKnown (List.mem_of_head? isFirst), fun kind => ?_⟩
    split <;> trivial
  next =>
    trivial

theorem owns_withLineFeed
    (content : List NodeId) :
    (withLineFeed content).Owns content fun ids => ids := by
  refine .ask (asks_beginsWithTag (List.Subset.refl content)) fun isTag => ?_
  split
  · exact .pure (by simp)
  · refine .then (builds_makeText _) fun lineFeed => ?_
    exact .pure (by grind)

theorem builds_proseLine :
    proseLine.Builds fun ids => ids := by
  refine .ask (by simp) fun _ => ?_
  refine .then builds_prose.parse fun found => ?_
  split
  · exact .fail
  next first rest =>
    rw [List.append_nil]
    refine .ask (asks_warnOfReturn List.mem_cons_self) fun _ => ?_
    refine .ask (asks_endsInDivert (List.Subset.refl _)) fun isDivert => ?_
    refine
      .either (fun ids => ids) (.pure (by simp)) (owns_trimContentEnd _)
        fun trimmed => ?_
    refine .then builds_closeTag fun markers => ?_
    refine .using [] (owns_withLineFeed (trimmed ++ markers)) (by grind) fun content => ?_
    refine .ask (by simp) fun _ => ?_
    exact .pure (by simp)

end Prose

end InkSyntax.Grammar
