import InkSyntax.Proofs.Reading.LineEnds
import InkSyntax.Proofs.Reading.Sheets
import InkSyntax.Proofs.Reading.StoryTrees
import InkSyntax.Proofs.Story.PlainContent

namespace InkSyntax

/-!
# Scripts of one statement

Where a statement takes up the whole text, the script is that statement: the loops
around statements and around runs of statements end where the text does, and the
nodes of the statement come into one weave.
-/

namespace Grammar

open Machine (Silent)
open Reading (Site)

variable
    {depth : Nat}
    {held : Sheet → Prop}
    {told : Session → Prop}
    {kinds : List StoryKind}
    {text : List Char}
    {nodes : List NodeId}

/-- Nodes of which none parts the content come into one weave. -/
theorem comesTo_weave
    (plain :
      ∀ id ∈ nodes, ∃ kind, kinds[id.index]? = some kind ∧ Draft.IsPlain kind) :
    ComesTo (.effect (.weave nodes)) depth ⟨text, kinds⟩ (some [⟨kinds.length⟩])
      ⟨text, kinds ++ [.weave nodes 0]⟩ := by
  intro library maxDepth files levels machine ready
  obtain ⟨rfl, rfl⟩ := Page.mk.inj ready.at_
  simp only [← Draft.kind?_eq_getElem?] at plain
  have woven := Draft.weaveAndFlows_plain plain
  have complete : machine.host.draft.missingAmong? nodes = none := by
    apply List.find?_eq_none.mpr
    intro id member
    obtain ⟨kind, known, -⟩ := plain id member
    simp [known]
  refine
    ⟨{ machine with
        host :=
          { machine.host with
            draft := (machine.host.draft.add (.weave nodes 0)).2 } },
      ?_, ?_, ?_⟩
  · refine ⟨.work machine _, rfl, rfl, ?_⟩
    rw [Draft.kinds_add]
    exact List.prefix_append _ _
  · exact congrArg (Page.mk _) (Draft.kinds_add _ _ _)
  · simp only [Site.outcome, Rule.run, Reading.performs, Workshop.handle,
      Workshop.unlessMissing, complete, Workshop.redraft, woven, Draft.length_kinds,
      Outcome.ended]

/-- None of some nodes returns from a function. -/
theorem comesTo_anyReturn_none
    (noReturn :
      ∀ id ∈ nodes,
        ∃ kind, kinds[id.index]? = some kind ∧ ∀ value, kind ≠ .return value) :
    ComesTo (anyNode isReturn nodes) depth ⟨text, kinds⟩ (some false) ⟨text, kinds⟩ := by
  induction nodes with
  | nil =>
      exact comesTo_pure
  | cons id others inductionHypothesis =>
      obtain ⟨kind, known, notReturn⟩ := noReturn id List.mem_cons_self
      have asks :
          ComesTo (isReturn id) depth ⟨text, kinds⟩ (some false) ⟨text, kinds⟩ := by
        apply (comesTo_kindOf known).bind
        split
        · exact absurd rfl (notReturn _)
        · exact comesTo_pure
      apply asks.bind
      exact
        inductionHypothesis fun other member =>
          noReturn other (List.mem_cons_of_mem id member)

/-- The first kind of statement that matches is the statement. -/
theorem brings_statement
    {rule : GrammarRule (List NodeId)}
    {rest : List Char}
    {page : Page}
    (earlier : List (GrammarRule (List NodeId)))
    {later : List (GrammarRule (List NodeId))}
    (listed : statementRules .top = earlier ++ rule :: later)
    (fail : ∀ other ∈ earlier, Fails other depth page)
    (starts : ∀ sheet, held sheet → sheet.page = page)
    (reads : Brings rule depth held (some nodes) (Sheet.On ⟨rest, kinds⟩ told))
    (noReturn :
      ∀ id ∈ nodes,
        ∃ kind, kinds[id.index]? = some kind ∧ ∀ value, kind ≠ .return value) :
    Brings (statement .top) (depth + 2) held (some nodes)
      (Sheet.On ⟨rest, kinds⟩ told) := by
  have first :
      Brings (Rule.oneOf (statementRules .top)) (depth + 2) held (some nodes)
        (Sheet.On ⟨rest, kinds⟩ told) := by
    rw [listed]
    exact (Brings.firstOf earlier reads starts fail).parse
  apply first.bind
  apply (comesTo_anyReturn_none noReturn).brings_on.bind
  exact brings_pure

/-- No rule ends the statements of a script. -/
theorem comesTo_statementsEnd_none :
    ComesTo (statementsEnd .top) (depth + 2) ⟨text, kinds⟩ none
      ⟨withoutBlanks text, kinds⟩ := by
  have noRule :
      ComesTo (Rule.oneOf (breakRules .top)) (depth + 2) ⟨withoutBlanks text, kinds⟩ none
        ⟨withoutBlanks text, kinds⟩ :=
    (@comesTo_firstOf_none _ _ _ _ (breakRules .top) nofun).fails.parse
  exact (comesTo_skipBlanks rfl).bind noRule

/-- Where there are no blank lines nothing stands between statements. -/
theorem brings_noBlankLines
    (dark : StartsDark text)
    (starts : ∀ sheet, held sheet → sheet.page = ⟨text, kinds⟩) :
    Brings (Rule.optionallyDropped blankLines) (depth + 2) held
      (some (.neutral : Step NodeId)) held := by
  apply ((fails_blankLines dark).brings_tried starts).bind
  exact brings_pure

/-- A statement that takes up the whole text is all there is of its run. -/
theorem brings_statementRun
    (reads :
      Brings (statement .top) (depth + 2) held (some nodes) (Sheet.On ⟨[], kinds⟩ told))
    (nonempty : nodes ≠ [])
    (dark : StartsDark text)
    (starts : ∀ sheet, held sheet → sheet.page = ⟨text, []⟩) :
    Brings (statementRun .top) (depth + 4) held (some nodes)
      (Sheet.On ⟨[], kinds⟩ told) := by
  have goesOn :
      Brings (Rule.peek (statementsEnd .top)) (depth + 3) held (some false) held :=
    comesTo_statementsEnd_none.brings_peek starts
  have inner :
      Brings (Rule.attempt (Rule.parse (do return .many (← statement .top))))
        (depth + 3) held (some (some (.many nodes : Step NodeId)))
        (Sheet.On ⟨[], kinds⟩ told) := by
    apply Brings.tried
    apply reads.bind
    exact brings_pure
  have behind :
      Brings (Rule.attempt (Rule.parse (Rule.optionallyDropped blankLines))) (depth + 3)
        (Sheet.On ⟨[], kinds⟩ told) (some (some (.neutral : Step NodeId)))
        (Sheet.On ⟨[], kinds⟩ told) :=
    (brings_noBlankLines startsWithout_nil fun _ on => on.page_eq).tried
  have ends :
      Brings Rule.atEnd (depth + 3) (Sheet.On ⟨[], kinds⟩ told) (some true)
        (Sheet.On ⟨[], kinds⟩ told) :=
    comesTo_atEnd.brings_on
  have round :
      Brings
        (Rule.alternateRound (Rule.optionallyDropped blankLines)
          (do return .many (← statement .top)) (statementsEnd .top) [])
        (depth + 3) held (some (.inr nodes)) (Sheet.On ⟨[], kinds⟩ told) := by
    apply goesOn.bind
    apply inner.bind
    apply behind.bind
    apply ends.bind
    simp only [Bool.or_true, ↓reduceIte, Step.values, List.nil_append, List.append_nil]
    exact brings_pure
  apply Brings.parse
  apply (brings_noBlankLines dark starts).parse.bind
  apply Brings.bind ((Turns.last round).loop fun _ _ => Nat.zero_le _)
  rw [List.isEmpty_eq_false_iff.mpr nonempty]
  exact brings_pure

/-- Such a statement is all the content of its script. -/
theorem brings_scriptContent
    (reads :
      Brings (statement .top) (depth + 2) held (some nodes) (Sheet.On ⟨[], kinds⟩ told))
    (nonempty : nodes ≠ [])
    (dark : StartsDark text)
    (starts : ∀ sheet, held sheet → sheet.page = ⟨text, []⟩) :
    Brings scriptContent (depth + 5) held (some nodes) (Sheet.On ⟨[], kinds⟩ told) := by
  have first :
      Brings (Rule.attempt (statements .top)) (depth + 5) held (some (some nodes))
        (Sheet.On ⟨[], kinds⟩ told) :=
    ((brings_statementRun reads nonempty dark starts).read (.statements .top)).attempt
  have noSpace :
      Brings skipBlankSpace (depth + 5) (Sheet.On ⟨[], kinds⟩ told) (some ())
        (Sheet.On ⟨[], kinds⟩ told) :=
    (comesTo_skipBlankSpace startsWithout_nil).brings_on
  apply first.bind
  refine (Turns.last ?_).loop fun _ _ => Nat.zero_le _
  apply noSpace.bind
  apply comesTo_atEnd.brings_on.bind
  exact brings_pure

/-- The script of such a statement holds one weave with its nodes. -/
theorem brings_script
    (reads :
      Brings (statement .top) (depth + 2) held (some nodes) (Sheet.On ⟨[], kinds⟩ told))
    (nonempty : nodes ≠ [])
    (plain :
      ∀ id ∈ nodes, ∃ kind, kinds[id.index]? = some kind ∧ Draft.IsPlain kind)
    (dark : StartsDark text)
    (starts : ∀ sheet, held sheet → sheet.page = ⟨text, []⟩) :
    Brings script (depth + 5) held (some ⟨kinds.length + 1⟩)
      (Sheet.On
        ⟨[], kinds ++ [NodeKind.weave nodes 0] ++ [.story [⟨kinds.length⟩]]⟩ told) := by
  have woven :
      Brings (.effect (.weave nodes)) (depth + 5) (Sheet.On ⟨[], kinds⟩ told)
        (some [⟨kinds.length⟩])
        (Sheet.On ⟨[], kinds ++ [NodeKind.weave nodes 0]⟩ told) :=
    (comesTo_weave plain).brings_on
  have made :
      Brings (make (.story [⟨kinds.length⟩])) (depth + 5)
        (Sheet.On ⟨[], kinds ++ [NodeKind.weave nodes 0]⟩ told)
        (some ⟨kinds.length + 1⟩)
        (Sheet.On
          ⟨[], kinds ++ [NodeKind.weave nodes 0] ++ [.story [⟨kinds.length⟩]]⟩ told) := by
    have isNext : (kinds ++ [NodeKind.weave nodes 0]).length = kinds.length + 1 :=
      List.length_append
    rw [← isNext]
    exact comesTo_make.brings_on
  apply (brings_scriptContent reads nonempty dark starts).bind
  apply woven.bind
  exact made

end Grammar

/-- A story holds nodes of a draft that are of known kinds, each under a number of its own. -/
structure Story.Copies
    (story : Story)
    (kinds : List StoryKind)
    (place : NodeId → NodeId)
    (reached : NodeId → Prop) : Prop where
  below :
    ∀ {id : NodeId} {kind : StoryKind},
      reached id →
      kinds[id.index]? = some kind →
      ∀ child ∈ kind.children, reached child
  kind? :
    ∀ {id : NodeId} {kind : StoryKind},
      reached id →
      kinds[id.index]? = some kind →
      kind.rejoins = [] →
      story.kind? (place id) = some (kind.mapChildren place)
  apart :
    ∀ {id other : NodeId},
      reached id →
      reached other →
      place id = place other →
      id = other

theorem Story.Copies.of_append
    {story : Story}
    {kinds others : List StoryKind}
    {place : NodeId → NodeId}
    {reached : NodeId → Prop}
    (copies : story.Copies (kinds ++ others) place reached) :
    story.Copies kinds place reached := by
  have known
      {id : NodeId}
      {kind : StoryKind}
      (isKind : kinds[id.index]? = some kind) :
      (kinds ++ others)[id.index]? = some kind := by
    have bound := (List.getElem?_eq_some_iff.mp isKind).1
    rwa [List.getElem?_append_left bound]
  exact
    { below := fun atNode isKind => copies.below atNode (known isKind)
      kind? := fun atNode isKind => copies.kind? atNode (known isKind)
      apart := copies.apart }

/-- A story that was frozen from a draft copies what its root reaches. -/
theorem Draft.Renumbers.copies
    {draft : Draft}
    {root : NodeId}
    {rootSpan : Span}
    {file : Option String}
    {entries : List (NodeId × Option NodeId)}
    {story : Story}
    (renumbers : draft.Renumbers root rootSpan file entries story) :
    story.Copies draft.kinds (placeIn entries) (draft.Reaches root) where
  below reaches known child member := by
    rw [← kind?_eq_getElem?] at known
    refine reaches.tail ?_
    rw [childrenOf, known]
    exact member
  kind? reaches known rejoinsNothing := by
    rw [← kind?_eq_getElem?] at known
    exact renumbers.kind?_placeIn_of_reaches reaches known rejoinsNothing
  apart reaches _ samePlace :=
    (List.idxOf_inj ((renumbers.exactly _).mpr reaches)).mp (NodeId.mk.inj samePlace)

namespace Reading

open Grammar (Brings)

variable
    {library : Library}
    {options : Options}
    {file : Option String}
    {source script : String}
    {depth : Nat}
    {told : Session → Prop}
    {kinds : List StoryKind}
    {rest : List Char}
    {nodes : List NodeId}
    {root : NodeId}

/-- What comes of a text whose script matches. -/
theorem readText_of_matched
    {maxDepth files : Nat}
    {session : Session}
    {after : Machine Workshop}
    (stripped : Comment.strip source = .ok script)
    (matched :
      Workshop.readScript maxDepth (inclusions library maxDepth files)
          (.start script.toList maxDepth { file := file, session := session }) =
        .matched root after) :
    readText library maxDepth (files + 1) source file session =
      .ok
        (after.host.draft.freeze root
            (.between (.atStart script.toList) after.cursor) file,
          after.host.session) := by
  rw [inclusions] at matched
  simp only [readText, stripped, bind, Except.bind]
  rw [matched]
  rfl

/-- What is known of a script on its sheet is known of its reading. -/
theorem exists_reading_of_script
    (stripped : Comment.strip source = .ok script)
    (brings :
      Brings Grammar.script depth (Sheet.Untagged ⟨script.toList, []⟩ told) (some root)
        (Sheet.On ⟨rest, kinds⟩ told))
    (starts :
      ∀ openFiles,
        told { warningsAsErrors := options.warningsAsErrors, openFiles := openFiles })
    (room : depth < options.maxStackDepth) :
    ∃ reading session place reached,
      readScript library options source file = .ok reading ∧
        reading.diagnostics = session.delivered ∧
        told session ∧
        place root = Story.root ∧
        reached root ∧
        reading.story.Copies kinds place reached := by
  let session : Session :=
    { warningsAsErrors := options.warningsAsErrors
      openFiles := (file.map library.resolve).toList }
  let machine : Machine Workshop :=
    .start script.toList options.maxStackDepth { file := file, session := session }
  have ready :
      machine.IsReady depth (options.maxStackDepth + 2) machine.page :=
    .start script.toList _ room (by omega)
  have atStart : Sheet.Untagged ⟨script.toList, []⟩ told machine.sheet :=
    { page_eq := rfl
      told := starts _
      closed := UInt32.zero_and }
  obtain ⟨after, -, ends, ran⟩ :=
    brings library options.maxStackDepth (library.size + 1)
      (options.maxStackDepth + 2) machine ready atStart
  have matched :
      Workshop.readScript options.maxStackDepth
          (inclusions library options.maxStackDepth (library.size + 1)) machine =
        .matched root after :=
    ran
  have guaranteed :
      (Workshop.readScript options.maxStackDepth
          (inclusions library options.maxStackDepth (library.size + 1))
          machine).Guarantees _ _ :=
    guarantees_readScript isExhaustion_of_readText script.toList file session
  rw [matched] at guaranteed
  obtain ⟨-, _, holds, -⟩ := guaranteed
  let span := Span.between machine.cursor after.cursor
  obtain ⟨entries, _, freezes, -, -⟩ := holds.exists_freezes span
  have renumbers := freezes.visits.renumbers span file
  have kinds_eq : after.host.draft.kinds = kinds :=
    (Page.mk.inj ends.page_eq).2
  have copies := renumbers.copies
  rw [kinds_eq] at copies
  refine
    ⟨⟨after.host.draft.freeze root span file, after.host.session.delivered,
        after.host.session.requested⟩,
      after.host.session, _, _, ?_, rfl, ends.told, renumbers.placeIn_root, .refl, copies⟩
  have reads :=
    readText_of_matched stripped matched
  simp only [readScript, bind, Except.bind]
  rw [reads]
  rfl

/-- A text of one statement gives a story with one weave, which holds what was read. -/
theorem exists_reading_of_statement
    (stripped : Comment.strip source = .ok script)
    (dark : StartsDark script.toList)
    (brings :
      Brings (Grammar.statement .top) (depth + 2)
        (Sheet.Untagged ⟨script.toList, []⟩ told) (some nodes)
        (Sheet.On ⟨[], kinds⟩ told))
    (nonempty : nodes ≠ [])
    (plain :
      ∀ id ∈ nodes, ∃ kind, kinds[id.index]? = some kind ∧ Draft.IsPlain kind)
    (starts :
      ∀ openFiles,
        told { warningsAsErrors := options.warningsAsErrors, openFiles := openFiles })
    (room : depth + 5 < options.maxStackDepth) :
    ∃ reading session place reached weave,
      readScript library options source file = .ok reading ∧
        reading.diagnostics = session.delivered ∧
        told session ∧
        reading.story.content = [weave] ∧
        reading.story.kind? weave = some (.weave (nodes.map place) 0) ∧
        (∀ id ∈ nodes, reached id) ∧
        reading.story.Copies kinds place reached := by
  have whole :=
    Grammar.brings_script brings nonempty plain dark fun _ untagged => untagged.page_eq
  obtain ⟨reading, session, place, reached, reads, delivered, isTold, isRoot, atRoot, copies⟩ :=
    exists_reading_of_script stripped whole starts room
  have isStory :
      (kinds ++ [NodeKind.weave nodes 0] ++ [.story [⟨kinds.length⟩]])[kinds.length + 1]? =
        some (.story [⟨kinds.length⟩]) := by
    simp
  have isWeave :
      (kinds ++ [NodeKind.weave nodes 0] ++ [.story [⟨kinds.length⟩]])[kinds.length]? =
        some (.weave nodes 0) := by
    simp
  have atWeave : reached ⟨kinds.length⟩ :=
    copies.below atRoot isStory _ List.mem_cons_self
  have storyKind := copies.kind? atRoot isStory rfl
  have weaveKind := copies.kind? atWeave isWeave rfl
  rw [isRoot] at storyKind
  have content : reading.story.content = [place ⟨kinds.length⟩] := by
    rw [Story.content, storyKind]
    rfl
  have atNodes : ∀ id ∈ nodes, reached id :=
    copies.below atWeave isWeave
  rw [List.append_assoc] at copies
  exact
    ⟨reading, session, place, reached, place ⟨kinds.length⟩, reads, delivered, isTold,
      content, weaveKind, atNodes, copies.of_append⟩

end Reading

end InkSyntax
