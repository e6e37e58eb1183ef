namespace InkSyntax

/-!
# Sets of characters

A `CharSet` lists its members once each in code-point order, so two sets with
the same members are equal.  Every operation rebuilds that order; membership is
membership in the list.
-/

/-- Drop each element of a sorted list that equals its successor. -/
def collapseRuns (characters : List Char) : List Char :=
  characters.foldr
    (fun first rest => if rest.head? = some first then rest else first :: rest) []

/-- The scalar values between two characters, both included; empty when inverted. -/
def scalarsBetween (first last : Char) : List Char :=
  ((List.range' first.toNat (last.toNat + 1 - first.toNat)).filter
    fun code => decide code.isValidChar).map Char.ofNat

/-- A set of characters, listed in strictly increasing order. -/
structure CharSet where
  members : List Char
  sorted : members.Pairwise (· < ·)
  deriving DecidableEq

theorem collapseRuns_cons (first : Char) (rest : List Char) :
    collapseRuns (first :: rest) =
      if (collapseRuns rest).head? = some first then collapseRuns rest
      else first :: collapseRuns rest := rfl

theorem mem_collapseRuns {character : Char} {characters : List Char} :
    character ∈ collapseRuns characters ↔ character ∈ characters := by
  induction characters with
  | nil => simp [collapseRuns]
  | cons first rest inductionHypothesis =>
      rw [collapseRuns_cons]
      split
      · rename_i sameHead
        have headMember : first ∈ collapseRuns rest := List.mem_of_mem_head? (by simp [sameHead])
        constructor
        · intro member
          exact List.mem_cons_of_mem _ (inductionHypothesis.mp member)
        · intro member
          rcases List.mem_cons.mp member with isFirst | inRest
          · exact isFirst ▸ headMember
          · exact inductionHypothesis.mpr inRest
      · simp [inductionHypothesis]

/-- Collapsing runs makes a sorted list strictly sorted. -/
theorem collapseRuns_sorted {characters : List Char}
    (sorted : characters.Pairwise (· ≤ ·)) :
    (collapseRuns characters).Pairwise (· < ·) := by
  induction characters with
  | nil => simp [collapseRuns]
  | cons first rest inductionHypothesis =>
      rw [List.pairwise_cons] at sorted
      have restSorted := inductionHypothesis sorted.2
      rw [collapseRuns_cons]
      split
      · exact restSorted
      · rename_i freshHead
        refine List.pairwise_cons.mpr ⟨fun other member => ?_, restSorted⟩
        have atLeast := sorted.1 other (mem_collapseRuns.mp member)
        refine Char.not_le.mp fun atMost => ?_
        · have same := Char.le_antisymm atLeast atMost
          subst same
          cases collapsed : collapseRuns rest with
          | nil => simp [collapsed] at member
          | cons head tail =>
              rw [collapsed] at member restSorted freshHead
              rcases List.mem_cons.mp member with isHead | inTail
              · exact freshHead (by simp [isHead])
              · have headBelow := (List.pairwise_cons.mp restSorted).1 _ inTail
                have headMember : head ∈ rest :=
                  mem_collapseRuns.mp (by rw [collapsed]; exact List.mem_cons_self ..)
                exact absurd headBelow (Char.not_lt.mpr (sorted.1 head headMember))

theorem toNat_ofNat_of_valid {code : Nat} (valid : code.isValidChar) :
    (Char.ofNat code).toNat = code := by
  rw [Char.ofNat, dif_pos valid]
  rfl

theorem mem_scalarsBetween {first last character : Char} :
    character ∈ scalarsBetween first last ↔ first ≤ character ∧ character ≤ last := by
  simp only [scalarsBetween, List.mem_map, List.mem_filter, List.mem_range'_1,
    decide_eq_true_eq]
  constructor
  · rintro ⟨code, ⟨⟨atLeast, below⟩, valid⟩, rfl⟩
    have code_eq := toNat_ofNat_of_valid valid
    constructor
    · show first.toNat ≤ (Char.ofNat code).toNat
      omega
    · show (Char.ofNat code).toNat ≤ last.toNat
      omega
  · rintro ⟨atLeast, atMost⟩
    have lower : first.toNat ≤ character.toNat := atLeast
    have upper : character.toNat ≤ last.toNat := atMost
    exact ⟨character.toNat, ⟨⟨lower, by omega⟩, character.valid⟩, Char.ofNat_toNat character⟩

theorem scalarsBetween_sorted (first last : Char) :
    (scalarsBetween first last).Pairwise (· < ·) := by
  refine List.pairwise_map.mpr ?_
  refine List.Pairwise.imp_of_mem ?_ (List.Pairwise.filter _ List.pairwise_lt_range')
  intro lower upper lowerMember upperMember below
  have lowerValid := of_decide_eq_true (List.mem_filter.mp lowerMember).2
  have upperValid := of_decide_eq_true (List.mem_filter.mp upperMember).2
  show (Char.ofNat lower).toNat < (Char.ofNat upper).toNat
  rw [toNat_ofNat_of_valid lowerValid, toNat_ofNat_of_valid upperValid]
  exact below

namespace CharSet

/-- The set without members. -/
def empty : CharSet := ⟨[], List.Pairwise.nil⟩

instance : EmptyCollection CharSet := ⟨empty⟩

/-- The set of one character. -/
def singleton (character : Char) : CharSet := ⟨[character], by simp⟩

/-- Every character between two bounds, both included. -/
def between (first last : Char) : CharSet :=
  ⟨scalarsBetween first last, scalarsBetween_sorted first last⟩

/-- The members of either set. -/
def union (left right : CharSet) : CharSet where
  members := collapseRuns (left.members.merge right.members (fun a b => decide (a ≤ b)))
  sorted := by
    apply collapseRuns_sorted
    have merged := @List.pairwise_merge Char (fun a b => decide (a ≤ b))
      (fun a b c first second => by
        simp only [decide_eq_true_eq] at *
        exact Char.le_trans first second)
      (fun a b => by simpa using Char.le_total a b)
      left.members right.members
      (left.sorted.imp fun below => by simpa using Char.not_lt.mp (Char.lt_asymm below))
      (right.sorted.imp fun below => by simpa using Char.not_lt.mp (Char.lt_asymm below))
    exact merged.imp fun ordered => by simpa using ordered

instance : Union CharSet := ⟨union⟩

/-- Add one character. -/
def insert (set : CharSet) (character : Char) : CharSet := set ∪ singleton character

/-- The characters of a text. -/
def ofString (text : String) : CharSet := text.toList.foldl insert ∅

/-- The members that pass a test. -/
def filter (set : CharSet) (keep : Char → Bool) : CharSet :=
  ⟨set.members.filter keep, set.sorted.filter _⟩

/-- Membership as a test. -/
def contains (set : CharSet) (character : Char) : Bool := set.members.elem character

/-- Number of members. -/
def size (set : CharSet) : Nat := set.members.length

def isEmpty (set : CharSet) : Bool := set.members.isEmpty

instance : Membership Char CharSet := ⟨fun set character => character ∈ set.members⟩

theorem mem_def {set : CharSet} {character : Char} :
    character ∈ set ↔ character ∈ set.members := Iff.rfl

theorem contains_iff_mem {set : CharSet} {character : Char} :
    set.contains character = true ↔ character ∈ set := by
  simp [contains, mem_def]

@[simp] theorem not_mem_empty (character : Char) : ¬ character ∈ (∅ : CharSet) := by
  simp [mem_def, EmptyCollection.emptyCollection, empty]

@[simp] theorem mem_singleton {character other : Char} :
    character ∈ singleton other ↔ character = other := by
  simp [mem_def, singleton]

@[simp] theorem mem_between {first last character : Char} :
    character ∈ between first last ↔ first ≤ character ∧ character ≤ last :=
  mem_scalarsBetween

@[simp] theorem mem_union {left right : CharSet} {character : Char} :
    character ∈ left ∪ right ↔ character ∈ left ∨ character ∈ right := by
  show character ∈ (union left right).members ↔ _
  simp only [union, mem_collapseRuns, List.mem_merge]
  exact Iff.rfl

@[simp] theorem mem_insert {set : CharSet} {character other : Char} :
    character ∈ set.insert other ↔ character ∈ set ∨ character = other := by
  simp [insert]

@[simp] theorem mem_filter {set : CharSet} {keep : Char → Bool} {character : Char} :
    character ∈ set.filter keep ↔ character ∈ set ∧ keep character = true := by
  simp [mem_def, filter]

theorem mem_foldl_insert {characters : List Char} {set : CharSet} {character : Char} :
    character ∈ characters.foldl insert set ↔ character ∈ set ∨ character ∈ characters := by
  induction characters generalizing set with
  | nil => simp
  | cons first rest inductionHypothesis =>
      simp only [List.foldl_cons, inductionHypothesis, mem_insert, List.mem_cons]
      exact or_assoc

@[simp] theorem mem_ofString {text : String} {character : Char} :
    character ∈ ofString text ↔ character ∈ text.toList := by
  simp [ofString, mem_foldl_insert]

end CharSet

end InkSyntax
