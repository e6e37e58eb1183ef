import InkSyntax.Story.Draft

namespace InkSyntax

/-!
# The kinds in a draft

What a draft holds besides spans is the list of the kinds of its nodes, oldest
first.  Making a node appends to it, forgetting the youngest nodes cuts it, and
giving spans leaves it alone.
-/

namespace NodeKind

/-- What a node rejoins, which is nothing but for gathers. -/
def rejoins {σ : Type} : NodeKind σ → List NodeId
  | .gather _ _ rejoins => rejoins
  | _ => []

variable
    {σ : Type}
    {kind : NodeKind σ}
    {included : Option σ}

/-- What a gather rejoins is not below it. -/
@[simp] theorem children_withRejoins
    (change : List NodeId → List NodeId) :
    (kind.withRejoins change).children = kind.children := by
  cases kind <;> rfl

@[simp] theorem withRejoins_eq_includedFile
    (change : List NodeId → List NodeId) :
    kind.withRejoins change = .includedFile included ↔
      kind = .includedFile included := by
  cases kind <;> simp [withRejoins]

@[simp] theorem mapChildren_eq_includedFile
    (rename : NodeId → NodeId) :
    kind.mapChildren rename = .includedFile included ↔
      kind = .includedFile included := by
  cases kind <;> simp [mapChildren]

end NodeKind

namespace Draft

/-- What the nodes of a draft are, oldest first. -/
def kinds (draft : Draft) : List StoryKind :=
  draft.slots.toList.map (·.kind)

@[simp] theorem length_kinds
    (draft : Draft) :
    draft.kinds.length = draft.size := by
  simp [kinds, size]

@[simp] theorem kinds_add
    (draft : Draft)
    (kind : StoryKind)
    (span : Option Span) :
    (draft.add kind span).2.kinds = draft.kinds ++ [kind] := by
  simp [kinds, add]

@[simp] theorem kinds_keepOldest
    (draft : Draft)
    (count : Nat) :
    (draft.keepOldest count).kinds = draft.kinds.take count := by
  simp [kinds, keepOldest, List.map_take]

@[simp] theorem kinds_setSpan
    (draft : Draft)
    (span : Span)
    (id : NodeId) :
    (draft.setSpan span id).kinds = draft.kinds := by
  simp only [kinds, setSpan, Array.toList_modify]
  apply List.ext_getElem?
  intro index
  simp only [List.getElem?_map, List.getElem?_modify]
  cases draft.slots.toList[index]? with
  | none =>
      rfl
  | some slot =>
      by_cases chosen : id.index = index <;> simp [chosen]

theorem kind?_eq_getElem?
    (draft : Draft)
    (id : NodeId) :
    draft.kind? id = draft.kinds[id.index]? := by
  simp [kind?, slot?, kinds]

/-- A scope that commits gives spans only. -/
@[simp] theorem kinds_setSpans
    (draft : Draft)
    (span : Span)
    (ids : List NodeId) :
    (draft.setSpans span ids).kinds = draft.kinds := by
  induction ids generalizing draft with
  | nil =>
      rfl
  | cons id rest inductionHypothesis =>
      simp only [setSpans, List.foldl_cons] at inductionHypothesis ⊢
      rw [inductionHypothesis, kinds_setSpan]

end Draft

end InkSyntax
