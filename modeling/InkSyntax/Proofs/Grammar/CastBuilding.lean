import InkSyntax.Proofs.Grammar.Casting

namespace InkSyntax.Rule

/-!
# Roles with choice and repetition

What rules give in some roles they also give as one of several, again and again, or
in turn.  Some repetitions give something in any case, which a node may need that
must not be without nodes below it.
-/

variable
    {α β : Type}
    {rule : GrammarRule α}
    {gives : α → List Part}

section Trying

theorem Casts.tried
    [StandsFor α]
    [NamesParts gives]
    (casts : rule.Casts [] gives) :
    (Rule.attempt (Rule.parse rule)).Casts [] (ifThere gives) :=
  casts.parse.attempt _ rfl

theorem Casts.triedNode
    {rule : GrammarRule NodeId}
    {role : Role}
    (casts : rule.Casts [] fun id => [(id, role)]) :
    (Rule.attempt (Rule.parse rule)).Casts []
      fun found => role.parts found.toList :=
  casts.parse.attempt _ rfl

theorem Casts.triedNodes
    {rule : GrammarRule (List NodeId)}
    {role : Role}
    (casts : rule.Casts [] role.parts) :
    (Rule.attempt (Rule.parse rule)).Casts []
      fun found => role.parts (found.getD []) :=
  casts.parse.attempt _ rfl

theorem Casts.expect
    {given : List Part}
    [StandsFor α]
    [NamesParts gives]
    (casts : rule.Casts given gives)
    (description : String) :
    (Rule.expect rule description).Casts given gives := by
  refine .bind (casts.parse.attempt (ifThere gives) rfl) ?_
  rintro (_ | value)
  · exact .ask (by simp) fun _ => .fail
  · exact .pure (by simp [Covers])

theorem Casts.expectOr
    [StandsFor α]
    [NamesParts gives]
    {recovery : GrammarRule α}
    (casts : rule.Casts [] gives)
    (recovers : recovery.Casts [] gives)
    (description : String) :
    (Rule.expectOr rule description recovery).Casts [] gives := by
  refine .then casts.tried ?_
  rintro (_ | value)
  · exact .ask (by simp) fun _ => recovers
  · exact .pure (by simp [Covers])

theorem Casts.firstOf
    [StandsFor α]
    [NamesParts gives]
    {rules : List (GrammarRule α)}
    (casts : ∀ rule ∈ rules, rule.Casts [] gives) :
    (oneOf.firstOf rules).Casts [] gives := by
  induction rules with
  | nil =>
      exact .fail
  | cons rule others inductionHypothesis =>
      obtain ⟨first, rest⟩ := List.forall_mem_cons.mp casts
      refine .then first.tried ?_
      rintro (_ | value)
      · exact inductionHypothesis rest
      · exact .pure (by simp [Covers])

theorem Casts.oneOf
    [StandsFor α]
    [NamesParts gives]
    {rules : List (GrammarRule α)}
    (casts : ∀ rule ∈ rules, rule.Casts [] gives) :
    (Rule.oneOf rules).Casts [] gives :=
  (Casts.firstOf casts).parse

end Trying

section Repeating

theorem Casts.zeroOrMore
    [StandsFor α]
    [NamesParts gives]
    (casts : rule.Casts [] gives) :
    (Rule.zeroOrMore rule).Casts [] fun found => found.flatMap gives := by
  refine Casts.loop (fun found => found.flatMap gives) ?_ []
  intro found
  refine .then casts.tried ?_
  rintro (_ | value)
  · exact .pure (by simp [Covers, count_reverse_flatMap])
  · exact .pure (by simp [Covers])

theorem Casts.oneOrMore
    {rule : GrammarRule NodeId}
    {role : Role}
    (casts : rule.Casts [] fun id => [(id, role)]) :
    (Rule.oneOrMore rule).Casts [] role.parts := by
  refine .then casts.zeroOrMore ?_
  intro found
  split
  · exact .fail
  · exact .pure (by simp [Covers, Role.parts_eq_flatMap])

/-- Items that separators part; these make nothing. -/
theorem Casts.separated
    {rule : GrammarRule NodeId}
    {role : Role}
    {separator : GrammarRule Unit}
    (casts : rule.Casts [] fun id => [(id, role)])
    (asks : separator.Asks []) :
    (Rule.separated rule separator).Casts [] role.parts := by
  have behindSeparator :
      (do
        let _ ← Rule.parse separator
        Rule.parse rule : GrammarRule NodeId).Casts [] fun id => [(id, role)] :=
    .ask (by simp [asks]) fun _ => casts.parse
  have attempted :=
    behindSeparator.scope fun _ => ⟨[], rfl, List.nil_subset _⟩
  refine .then casts.parse fun first => ?_
  refine
    (Casts.loop (fun found => role.parts found) ?_ [first]).weaken
      (by simp [Covers]) fun _ _ => Nat.le_refl _
  intro found
  refine .then (attempted.attempt (ifThere _) rfl) ?_
  rintro (_ | value)
  · exact .pure (by simp [Covers, Role.parts_eq_flatMap, count_reverse_flatMap])
  · exact .pure (by simp [Covers])

end Repeating

section Alternation

variable
    {outer inner : GrammarRule (Step α)}
    {stop : GrammarRule β}

instance
    (role : Role) :
    NamesParts (ofStep fun id : NodeId => [(id, role)]) :=
  ⟨by simp [StandsFor.nodes, ofStep, List.map_flatMap]⟩

instance
    (role : Role) :
    NamesParts fun found : List NodeId => found.flatMap fun id => [(id, role)] :=
  ⟨by simp [StandsFor.nodes, List.map_flatMap]⟩

theorem Casts.alternateRound
    [StandsFor (Step α)]
    [NamesParts (ofStep gives)]
    (outerCasts : outer.Casts [] (ofStep gives))
    (innerCasts : inner.Casts [] (ofStep gives))
    (reads : ∀ known, (peek stop).Reads known)
    (found : List α) :
    (Rule.alternateRound outer inner stop found).Casts (found.flatMap gives)
      (Sum.elim (·.flatMap gives) (·.flatMap gives)) := by
  unfold Rule.alternateRound
  refine .read (reads _) fun stops => ?_
  split
  · exact .pure (by simp [Covers])
  · refine .then innerCasts.tried ?_
    rintro (_ | main)
    · exact .pure (by simp [Covers])
    · refine .then outerCasts.tried ?_
      rintro (_ | next)
      · exact .pure (by simp [Covers, ofStep]; omega)
      · refine .ask (by simp) fun isEnd => ?_
        split
        · exact .pure (by simp [Covers, ofStep]; omega)
        · exact .pure (by simp [Covers, ofStep]; omega)

theorem Casts.alternateUntil
    [StandsFor (Step α)]
    [StandsFor (List α)]
    [NamesParts (ofStep gives)]
    [NamesParts fun found : List α => found.flatMap gives]
    (outerCasts : outer.Casts [] (ofStep gives))
    (innerCasts : inner.Casts [] (ofStep gives))
    (reads : ∀ known, (peek stop).Reads known) :
    (Rule.alternateUntil outer inner stop).Casts []
      fun found => found.flatMap gives := by
  refine Casts.parse (.then outerCasts.parse fun first => ?_)
  refine
    .using []
      (.loop _ (.alternateRound outerCasts innerCasts reads) first.values)
      (by simp [Covers, ofStep]) fun found => ?_
  split
  · exact .fail
  · exact .pure (by simp [Covers])

theorem Casts.alternate
    [StandsFor (Step α)]
    [StandsFor (List α)]
    [NamesParts (ofStep gives)]
    [NamesParts fun found : List α => found.flatMap gives]
    (outerCasts : outer.Casts [] (ofStep gives))
    (innerCasts : inner.Casts [] (ofStep gives)) :
    (Rule.alternate outer inner).Casts [] fun found => found.flatMap gives :=
  .alternateUntil outerCasts innerCasts fun _ =>
    (asks_peek.mpr asks_fail).reads

/-- Pieces of nodes in turn, all in one role. -/
theorem Casts.alternateNodes
    {outer inner : GrammarRule (Step NodeId)}
    {role : Role}
    (outerCasts : outer.Casts [] (ofStep fun id => [(id, role)]))
    (innerCasts : inner.Casts [] (ofStep fun id => [(id, role)])) :
    (Rule.alternate outer inner).Casts [] role.parts := by
  simpa only [← Role.parts_eq_flatMap] using
    Casts.alternate outerCasts innerCasts

theorem Casts.optionally
    [StandsFor α]
    [NamesParts gives]
    (casts : rule.Casts [] gives) :
    (Rule.optionally rule).Casts [] (ofStep gives) := by
  refine .then casts.tried ?_
  rintro (_ | value)
  · exact .pure (by simp [Covers, ofStep, Step.values])
  · exact .pure (by simp [Covers, ofStep, Step.values])

theorem Casts.single
    [StandsFor α]
    [NamesParts gives]
    (casts : rule.Casts [] gives) :
    (Rule.single rule).Casts [] (ofStep gives) :=
  .then casts.parse fun _ =>
    .pure (by simp [Covers, ofStep, Step.values])

/-- What is dropped had no role. -/
theorem Casts.dropped
    {separator : GrammarRule Unit}
    (asks : separator.Asks []) :
    (Rule.dropped separator : GrammarRule (Step α)).Casts [] (ofStep gives) :=
  .ask (by simp [asks]) fun _ => .pure (by simp [Covers, ofStep, Step.values])

theorem Casts.optionallyDropped
    {separator : GrammarRule Unit}
    (asks : separator.Asks []) :
    (Rule.optionallyDropped separator : GrammarRule (Step α)).Casts []
      (ofStep gives) :=
  .ask (by simp [asks]) fun _ => .pure (by simp [Covers, ofStep, Step.values])

end Alternation

end InkSyntax.Rule
