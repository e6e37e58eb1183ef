import InkSyntax.Proofs.Reading.CleanRuns
import InkSyntax.Proofs.Reading.Complaints

namespace InkSyntax

/-!
# Rules that carry tags on

A rule is given trees that take one from the beginning of some content, inside or
outside of a tag, up to where the rule starts.  If the run is clean, the trees that it
gives take one from the same beginning up to where it ends.  What it gives depends on
its value.  Besides, a rule may count on something that holds of the flags before it
and of where one is then, inside or outside of a tag, and it says what holds of them
after it.  Mostly the flag for an open tag tells where one is.

Sequencing hands trees on from one rule to the next, so that a fact about a rule is
put together from the facts about its parts.
-/

open Reading (Site)

/-- What is asked of the flags of a scope, and of whether one is inside a tag. -/
abbrev TagTest := UInt32 → Bool → Prop

namespace Flag

/-- Whether the flag for an open tag is set. -/
def marksTag (flags : UInt32) : Bool :=
  flags &&& tagOpen != 0

/-- Whether the flag for strings is set. -/
def marksString (flags : UInt32) : Bool :=
  flags &&& inString != 0

/-- The flag tells whether one is inside a tag. -/
def Anyhow : TagTest :=
  fun flags inside => inside = marksTag flags

/-- The flag says one thing, and the trees say another or the same. -/
def Stands (isOpen inside : Bool) : TagTest :=
  fun flags state => marksTag flags = isOpen ∧ state = inside

/-- One is outside of tags, and the flag says so. -/
abbrev Closed : TagTest :=
  Stands false false

/-- One is outside of tags and in a string, where none may begin. -/
def Quoted : TagTest :=
  fun flags inside => Closed flags inside ∧ marksString flags = true

/-- Where one is, whatever the flag says. -/
def Within (inside : Bool) : TagTest :=
  fun _ state => state = inside

/-- The flags are known, and where one is. -/
def Exactly (flags : UInt32) (inside : Bool) : TagTest :=
  fun later state => later = flags ∧ state = inside

/-- What is asked holds on while the flag tells where one is, unless a tag stays open. -/
structure Calm (rest : TagTest) : Prop where
  tells : ∀ {flags inside}, rest flags inside → inside = marksTag flags
  stays :
    ∀ {flags inside later},
      rest flags inside →
      (marksTag flags = false → marksTag later = false) →
      rest later (marksTag later)

theorem Within.of_stands
    {isOpen inside state : Bool}
    {flags : UInt32}
    (stands : Stands isOpen inside flags state) :
    Within inside flags state :=
  stands.2

/-- Where the flag tells where one is, it is enough to look at it. -/
theorem stands_of_anyhow
    {isOpen inside : Bool}
    {flags : UInt32}
    (tells : Anyhow flags inside)
    (looked : (flags &&& tagOpen != 0) = isOpen) :
    Stands isOpen isOpen flags inside :=
  ⟨looked, tells.trans looked⟩

theorem calm_anyhow : Calm Anyhow :=
  ⟨fun tells => tells, fun _ _ => rfl⟩

theorem calm_closed : Calm Closed where
  tells closed := closed.2.trans closed.1.symm
  stays closed stays := ⟨stays closed.1, stays closed.1⟩

/-- What is asked where the statements of a place stand. -/
structure Suits (place : Place) (rest : TagTest) : Prop where
  calm : Calm rest
  closed : place ≠ .block → ∀ {flags inside}, rest flags inside → Closed flags inside

end Flag

open InkSyntax.Flag (Anyhow Stands Closed Quoted Within Exactly Calm Suits)

/-- Where some trees take one from the beginning on fits what is asked of a machine. -/
def Machine.Bears
    (machine : Machine Workshop)
    (test : TagTest)
    (start : Bool)
    (ids : List NodeId) : Prop :=
  ∃ inside,
    test machine.top.flags inside ∧
      machine.host.draft.Toggles start ids inside

theorem Machine.Bears.of_rests
    {machine later : Machine Workshop}
    {test : TagTest}
    {start : Bool}
    {ids : List NodeId}
    (bears : machine.Bears test start ids)
    (rests : machine.Rests later) :
    later.Bears test start ids := by
  obtain ⟨inside, passes, toggles⟩ := bears
  refine ⟨inside, ?_, toggles.kept (.of_kinds rests.kinds)⟩
  rw [rests.flags]
  exact passes

namespace Grammar

variable
    (library : Library)
    (maxDepth files levels : Nat)
    {α : Type}
    (rule : GrammarRule α)
    (start : Bool)

/-- What a rule makes of trees in clean runs at some depth. -/
def Carrying
    (pre post : TagTest)
    (given : List NodeId)
    (gives : α → List NodeId) : Prop :=
  ∀ (machine : Machine Workshop) ⦃inside : Bool⦄,
    pre machine.top.flags inside →
    machine.host.draft.Toggles start given inside →
    EnsuresKeeping library maxDepth files levels rule machine
      fun value after => after.Bears post start (gives value)

/-- A rule that leaves flags and older nodes as they are if it fails. -/
def Recovering
    (pre : TagTest) : Prop :=
  ∀ machine : Machine Workshop,
    pre machine.top.flags start →
    EnsuresCleanly library maxDepth files levels rule machine
      (fun _ _ => True)
      fun after =>
        after.top.flags = machine.top.flags ∧
          Draft.Keeps machine.host.draft after.host.draft

/-- Constructs and files are read so that tags are carried on. -/
structure Balances : Prop where
  expression :
    ∀ {start rest} weakerThan,
      Calm rest →
      Carrying library maxDepth files levels
        (.effect (.read (.expression weakerThan))) start rest rest []
        fun id => [id]
  operand :
    ∀ {start rest},
      Calm rest →
      Carrying library maxDepth files levels (.effect (.read .operand)) start
        rest rest [] fun id => [id]
  prose :
    ∀ {start},
      Carrying library maxDepth files levels Grammar.prose start Anyhow Anyhow
        [] fun ids => ids
  quoted :
    ∀ {start},
      Carrying library maxDepth files levels Grammar.prose start Quoted Closed
        [] fun ids => ids
  statements :
    ∀ {start place rest},
      Suits place rest →
      Carrying library maxDepth files levels (Grammar.statements place) start
        rest rest [] fun ids => ids
  recovers :
    ∀ {start place rest},
      Suits place rest →
      Recovering library maxDepth files levels (Grammar.statements place) start
        rest
  include_ :
    ∀ (file : String) (machine : Machine Workshop),
      EnsuresCleanly library maxDepth files levels
        (.effect (.include file)) machine
        (fun inclusion after =>
          machine.Rests after ∧
            ∀ story, inclusion = .story story → story.TagsAlternateThroughout)
        fun _ => False

end Grammar

namespace Rule

open Grammar (EnsuresCleanly EnsuresKeeping Balances Carrying Recovering)

/-- A rule takes some trees and gives others, carrying tags on in clean runs. -/
structure Carries
    {α : Type}
    (rule : GrammarRule α)
    (start : Bool)
    (pre post : TagTest)
    (given : List NodeId)
    (gives : α → List NodeId) : Prop where
  carrying :
    ∀ {library : Library} {maxDepth files levels : Nat},
      Balances library maxDepth files levels →
      Carrying library maxDepth files levels rule start pre post given gives

/-- A rule that leaves flags and older nodes as they are if it fails. -/
def Recovers
    {α : Type}
    (rule : GrammarRule α)
    (start : Bool)
    (pre : TagTest) : Prop :=
  ∀ ⦃library : Library⦄ ⦃maxDepth files levels : Nat⦄,
    Balances library maxDepth files levels →
    Recovering library maxDepth files levels rule start pre

variable
    {α β σ : Type}
    {rule first : GrammarRule α}
    {next : α → GrammarRule β}
    {start : Bool}
    {pre mid post rest : TagTest}
    {given : List NodeId}
    {gives gained : α → List NodeId}

section Sequencing

/-- Counting on more, and promising less. -/
theorem Carries.mono
    {more less : TagTest}
    (carries : rule.Carries start pre post given gives)
    (counts : ∀ {flags inside}, more flags inside → pre flags inside)
    (promises : ∀ {flags inside}, post flags inside → less flags inside) :
    rule.Carries start more less given gives := by
  refine ⟨fun balances machine inside passes toggles => ?_⟩
  refine (carries.carrying balances machine (counts passes) toggles).mono ?_
  rintro value after keeps ⟨inside, passesAfter, toggles⟩
  exact ⟨inside, promises passesAfter, toggles⟩

/-- The same trees, written down in another way. -/
theorem Carries.congr
    {alike : List NodeId}
    {givesAlike : α → List NodeId}
    (carries : rule.Carries start pre post given gives)
    (sameGiven : given = alike)
    (sameGives : ∀ value, gives value = givesAlike value) :
    rule.Carries start pre post alike givesAlike := by
  subst sameGiven
  rwa [← funext sameGives]

/-- No run of a rule starts where something impossible is asked. -/
theorem Carries.impossible
    (never : ∀ {flags inside}, ¬ pre flags inside) :
    rule.Carries start pre post given gives :=
  ⟨fun _ _ _ passes => (never passes).elim⟩

/-- Trees in front of all that a rule is given are there after it. -/
theorem Carries.frame
    (carries : ∀ {start}, rule.Carries start pre post given gives)
    (front : List NodeId) :
    rule.Carries start pre post (front ++ given) fun value =>
      front ++ gives value := by
  refine ⟨fun balances machine inside passes toggles => ?_⟩
  obtain ⟨middle, toMiddle, onwards⟩ := toggles.exists_append
  refine (carries.carrying balances machine passes onwards).mono ?_
  rintro value after keeps ⟨later, passesAfter, gained⟩
  exact ⟨later, passesAfter, (toMiddle.kept keeps).append gained⟩

/-- So are trees behind all that, if the rule does not mind where one is. -/
theorem Carries.behind
    (carries : ∀ {start rest}, rule.Carries start rest rest given gives)
    (others : List NodeId) :
    rule.Carries start rest rest (given ++ others) fun value =>
      gives value ++ others := by
  refine ⟨fun balances machine inside passes toggles => ?_⟩
  obtain ⟨middle, toMiddle, onwards⟩ := toggles.exists_append
  have known :
      rule.Carries start (Exactly machine.top.flags middle)
        (Exactly machine.top.flags middle) given gives :=
    carries
  refine
    (known.carrying balances machine ⟨rfl, rfl⟩ toMiddle).mono ?_
  rintro value after keeps ⟨_, ⟨sameFlags, rfl⟩, gained⟩
  refine ⟨inside, ?_, gained.append (onwards.kept keeps)⟩
  rw [sameFlags]
  exact passes

/-- What is shown for known flags holds on for all that may be asked of them. -/
theorem Carries.of_exactly
    (carries :
      ∀ {flags inside},
        rule.Carries inside (Exactly flags inside) (Exactly flags inside) []
          gives) :
    rule.Carries start rest rest [] gives := by
  refine ⟨fun balances machine inside passes toggles => ?_⟩
  obtain rfl := toggles.eq_of_nil
  refine (carries.carrying balances machine ⟨rfl, rfl⟩ toggles).mono ?_
  rintro value after keeps ⟨_, ⟨sameFlags, rfl⟩, gained⟩
  refine ⟨_, ?_, gained⟩
  rw [sameFlags]
  exact passes

/-- Outside of tags, a rule that is given nothing starts where it is. -/
theorem Carries.of_outside
    (carries : rule.Carries false Closed post [] gives) :
    rule.Carries start Closed post [] gives := by
  refine ⟨fun balances machine inside closed toggles => ?_⟩
  obtain rfl := toggles.eq_of_nil
  obtain rfl := closed.2
  exact carries.carrying balances machine closed toggles

/-- Except in blocks, statements stand outside of tags. -/
theorem Carries.suited
    {place : Place}
    (suits : Suits place rest)
    (isOutside : place ≠ .block)
    (carries : rule.Carries start Closed Closed given gives) :
    rule.Carries start rest rest given gives := by
  refine ⟨fun balances machine inside passes toggles => ?_⟩
  have closed := suits.closed isOutside passes
  refine (carries.carrying balances machine closed toggles).mono ?_
  rintro value after - ⟨_, ⟨isClosed, rfl⟩, gained⟩
  refine ⟨_, ?_, gained⟩
  rw [← isClosed]
  exact suits.calm.stays passes fun _ => isClosed

/-- A rule may be looked at apart for open tags, and without any. -/
theorem Carries.of_calm
    (calm : Calm rest)
    (closed : rule.Carries start Closed Closed given gives)
    (anyhow : rule.Carries start Anyhow Anyhow given gives) :
    rule.Carries start rest rest given gives := by
  refine ⟨fun balances machine inside passes toggles => ?_⟩
  have told := calm.tells passes
  cases isOpen : Flag.marksTag machine.top.flags with
  | false =>
      rw [isOpen] at told
      refine (closed.carrying balances machine ⟨isOpen, told⟩ toggles).mono ?_
      rintro value after keeps ⟨_, ⟨isClosed, rfl⟩, gained⟩
      refine ⟨_, ?_, gained⟩
      rw [← isClosed]
      exact calm.stays passes fun _ => isClosed
  | true =>
      refine (anyhow.carrying balances machine told toggles).mono ?_
      rintro value after keeps ⟨_, rfl, gained⟩
      refine ⟨_, calm.stays passes fun isClosed => ?_, gained⟩
      rw [isOpen] at isClosed
      cases isClosed

/-- A rule that ends outside of tags. -/
theorem Carries.calmed
    (calm : Calm rest)
    (carries : rule.Carries start Anyhow Closed given gives) :
    rule.Carries start rest rest given gives :=
  .of_calm calm (carries.mono Flag.calm_closed.tells id)
    (carries.mono id Flag.calm_closed.tells)

/-- One rule after another, with all trees handed on. -/
theorem Carries.bind
    {gives : β → List NodeId}
    (carries : first.Carries start pre mid given gained)
    (then_ : ∀ value, (next value).Carries start mid post (gained value) gives) :
    (first >>= next).Carries start pre post given gives := by
  refine ⟨fun balances machine inside passes toggles => ?_⟩
  refine .bind ((carries.carrying balances machine passes toggles).mono ?_)
  rintro value middle - ⟨further, passesMiddle, held⟩
  exact (then_ value).carrying balances middle passesMiddle held

/-- What is known of the flags for a value may be counted on after it. -/
theorem Carries.bindKnowing
    {gives : β → List NodeId}
    (knows : α → UInt32 → Prop)
    (carries : first.Carries start pre mid given gained)
    (known :
      ∀ {library maxDepth files levels machine},
        Balances library maxDepth files levels →
        EnsuresCleanly library maxDepth files levels first machine
          (fun value after => knows value after.top.flags) fun _ => True)
    (then_ :
      ∀ value,
        (next value).Carries start
          (fun flags inside => mid flags inside ∧ knows value flags) post
          (gained value) gives) :
    (first >>= next).Carries start pre post given gives := by
  refine ⟨fun balances machine inside passes toggles => ?_⟩
  have both :=
    EnsuresCleanly.and (carries.carrying balances machine passes toggles)
      (known balances)
  refine .bind (EnsuresCleanly.mono both ?_ fun _ held => held.1)
  rintro value middle ⟨⟨keeps, further, passesMiddle, held⟩, knows⟩
  exact
    ⟨keeps,
      (then_ value).carrying balances middle ⟨passesMiddle, knows⟩ held⟩

/-- A rule that makes its trees out of nothing, and what comes after it. -/
theorem Carries.then
    {gives : β → List NodeId}
    (carries : ∀ {start}, first.Carries start pre mid [] gained)
    (then_ :
      ∀ value,
        (next value).Carries start mid post (given ++ gained value) gives) :
    (first >>= next).Carries start pre post given gives :=
  ((Carries.frame carries given).congr (List.append_nil given) fun _ =>
    rfl).bind then_

/-- One of two rules that give the same, and what comes after it. -/
theorem Carries.either
    {condition : Prop}
    [Decidable condition]
    {second : GrammarRule α}
    {gives : β → List NodeId}
    (gained : α → List NodeId)
    (carries : first.Carries start pre mid given gained)
    (otherwise : second.Carries start pre mid given gained)
    (then_ : ∀ value, (next value).Carries start mid post (gained value) gives) :
    (if condition then first >>= next else second >>= next).Carries start pre
      post given gives := by
  split
  · exact carries.bind then_
  · exact otherwise.bind then_

/-- A value gives what was given, and what was asked may be read in another way. -/
theorem Carries.pure_of
    {value : α}
    (same : given = gives value)
    (passesOn : ∀ {flags inside}, pre flags inside → post flags inside) :
    (Pure.pure value : GrammarRule α).Carries start pre post given gives := by
  refine ⟨fun balances machine inside passes toggles => ?_⟩
  refine .pure ⟨inside, passesOn passes, ?_⟩
  rw [← same]
  exact toggles

theorem Carries.pure
    {value : α}
    (same : given = gives value) :
    (Pure.pure value : GrammarRule α).Carries start rest rest given gives :=
  .pure_of same id

/-- What comes after a value is known. -/
theorem Carries.certain
    {value : α}
    {gives : β → List NodeId}
    (then_ : (next value).Carries start pre post given gives) :
    ((Pure.pure value : GrammarRule α) >>= next).Carries start pre post given
      gives :=
  ⟨fun balances _ _ passes toggles =>
    .bind (.pure (then_.carrying balances _ passes toggles))⟩

theorem Carries.fail :
    (Rule.fail : GrammarRule α).Carries start pre post given gives :=
  ⟨fun _ machine _ _ _ _ => .refl machine.host.draft⟩

/-- A rule that asks about some nodes, and what comes after it. -/
theorem Carries.askAbout
    {known : List NodeId}
    {gives : β → List NodeId}
    (asks : first.Asks known)
    (then_ : ∀ value, (next value).Carries start pre post given gives) :
    (first >>= next).Carries start pre post given gives := by
  refine ⟨fun balances machine inside passes toggles => ?_⟩
  refine .ask asks fun value middle rests => ?_
  refine
    (then_ value).carrying balances middle ?_
      (toggles.kept (.of_kinds rests.kinds))
  rw [rests.flags]
  exact passes

/-- A rule that asks about what it is given, and what comes after it. -/
theorem Carries.ask
    {gives : β → List NodeId}
    (asks : first.Asks given)
    (then_ : ∀ value, (next value).Carries start pre post given gives) :
    (first >>= next).Carries start pre post given gives :=
  .askAbout asks then_

/-- A rule that asks gives on what it was given. -/
theorem Asks.carries
    (asks : rule.Asks given)
    (same : ∀ value, given = gives value) :
    rule.Carries start rest rest given gives := by
  refine ⟨fun balances machine inside passes toggles => ?_⟩
  refine .of_ensures (Outcome.Ensures.mono (asks.ends machine) ?_ ?_)
  · intro value after rests
    refine ⟨.of_kinds rests.kinds, ?_⟩
    simp only [← same value]
    exact .of_rests ⟨inside, passes, toggles⟩ rests
  · exact fun after rests => .of_kinds rests.kinds

/-- No clean run goes on behind an error. -/
theorem Carries.error
    {message : String}
    {next : Unit → GrammarRule α} :
    (Rule.error message >>= next).Carries start pre post given gives :=
  ⟨fun _ _ _ _ _ => EnsuresCleanly.bind .error⟩

theorem Carries.reportExpected
    {description : String}
    {next : Unit → GrammarRule α} :
    (Rule.reportExpected description >>= next).Carries start pre post given
      gives :=
  ⟨fun _ _ _ _ _ => EnsuresCleanly.bind (EnsuresCleanly.bind fun _ => .error)⟩

/-- A remark that is made only at times is made in no clean run. -/
theorem Carries.remark
    {condition : Prop}
    [Decidable condition]
    {remark : GrammarRule Unit}
    {next : Unit → GrammarRule β}
    {gives : β → List NodeId}
    (asks : remark.Asks given)
    (then_ : ∀ value, (next value).Carries start pre post given gives) :
    (if condition then remark >>= next else next ()).Carries start pre post
      given gives := by
  split
  · exact .ask asks then_
  · exact then_ ()

/-- A rule that may fail, and that undoes what it did then, gives nothing then. -/
theorem Carries.attempt
    (gives : Option α → List NodeId)
    (carries : rule.Carries start pre post [] fun value => gives (some value))
    (recovers : rule.Recovers start pre)
    (nothing : gives none = [])
    (passesOn : ∀ {flags inside}, pre flags inside → post flags inside) :
    (Rule.attempt rule).Carries start pre post [] gives := by
  refine ⟨fun balances machine inside passes toggles => ?_⟩
  obtain rfl := toggles.eq_of_nil
  refine
    .attempt (carries.carrying balances machine passes toggles)
      ((recovers balances machine passes).mono (fun _ _ => id) ?_)
  rintro after ⟨sameFlags, keeps⟩
  refine ⟨inside, ?_, ?_⟩
  · rw [sameFlags]
    exact passesOn passes
  · rw [nothing]
    exact toggles.kept keeps

/-- Rounds that hand on what the next one needs. -/
theorem Carries.loop
    {round : σ → GrammarRule (σ ⊕ α)}
    (held : σ → List NodeId)
    (carries :
      ∀ state,
        (round state).Carries start rest rest (held state) (Sum.elim held gives))
    (state : σ) :
    (Rule.loop state round).Carries start rest rest (held state) gives := by
  refine ⟨fun balances machine inside passes toggles => ?_⟩
  refine
    .loop
      (fun state after =>
        Draft.Keeps machine.host.draft after.host.draft ∧
          after.Bears rest start (held state))
      ⟨.refl _, inside, passes, toggles⟩ ?_
  rintro state middle ⟨keeps, further, passesMiddle, toggles⟩
  refine
    EnsuresCleanly.mono
      ((carries state).carrying balances middle passesMiddle toggles) ?_
      fun _ => keeps.trans
  rintro (next | value) after ⟨keepsThen, bears⟩
  · exact ⟨keeps.trans keepsThen, bears⟩
  · exact ⟨keeps.trans keepsThen, bears⟩

end Sequencing

section Scopes

/-- A scope whose effects are undone leaves everything as it was. -/
private theorem keeps_of_undo
    {machine after closed : Machine Workshop}
    (proceeds : machine.opened.Proceeds after)
    (keeps : Draft.Keeps machine.host.draft after.host.draft)
    (closes : Closes .undo machine.nextRule after closed) :
    closed.top.flags = machine.top.flags ∧
      Draft.Keeps machine.host.draft closed.host.draft := by
  obtain ⟨flags, kinds⟩ := Machine.flags_and_kinds_of_undo proceeds closes
  exact ⟨flags, keeps.of_take kinds⟩

/-- A scope that is undone gives what it was given. -/
theorem Carries.scope
    {fate : α → Fate}
    (carries : rule.Carries start pre post given gives)
    (kept : ∀ value nodes, fate value = .keep nodes → gives value = gained value)
    (undone :
      ∀ value,
        fate value = .undo →
        given = gained value ∧
          ∀ {flags inside}, pre flags inside → post flags inside) :
    (Rule.scope fate rule).Carries start pre post given gained := by
  refine ⟨fun balances machine inside passes toggles => ?_⟩
  refine
    .scope
      (EnsuresCleanly.mono
        (carries.carrying balances machine.opened passes toggles) ?_ ?_)
  · rintro value after ⟨keeps, held⟩ proceeds closed closes
    cases fated : fate value with
    | keep nodes =>
        rw [fated] at closes
        have rests := Machine.rests_of_keep closes
        refine ⟨keeps.trans (.of_kinds rests.kinds), ?_⟩
        simp only [← kept value nodes fated]
        exact .of_rests held rests
    | undo =>
        rw [fated] at closes
        obtain ⟨same, passesOn⟩ := undone value fated
        obtain ⟨sameFlags, keepsAll⟩ := keeps_of_undo proceeds keeps closes
        simp only [← same]
        refine ⟨keepsAll, inside, ?_, toggles.kept keepsAll⟩
        rw [sameFlags]
        exact passesOn passes
  · intro after keeps proceeds closed closes
    exact (keeps_of_undo proceeds keeps closes).2

theorem Carries.parse
    [StandsFor α]
    (carries : rule.Carries start pre post given gives) :
    (Rule.parse rule).Carries start pre post given gives :=
  carries.scope (fun _ _ _ => rfl) nofun

/-- A scope undoes what its rule did if that fails. -/
theorem Carries.recovers
    {fate : α → Fate}
    (carries : (Rule.scope fate rule).Carries start pre post [] gives) :
    (Rule.scope fate rule).Recovers start pre := by
  intro library maxDepth files levels balances machine passes
  have restores :
      Grammar.Ensures library maxDepth files levels (Rule.scope fate rule)
        machine (fun _ _ => True)
        fun after => after.top.flags = machine.top.flags :=
    ensures_scope fun _ =>
      (Site.ends_proceeds library maxDepth
          ⟨files, levels, rule, machine.opened⟩).mono
        (fun _ _ _ _ _ => trivial)
        fun _ proceeds _ closes =>
          (Machine.flags_and_kinds_of_undo proceeds closes).1
  exact
    (EnsuresCleanly.and (carries.carrying balances machine passes .nil)
      (.of_ensures restores)).mono (fun _ _ _ => trivial) fun after held => ⟨held.2, held.1⟩

/-- Asking in front of a rule leaves nothing behind. -/
theorem Recovers.ask
    (asks : first.Asks [])
    (then_ : ∀ value, (next value).Recovers start pre) :
    (first >>= next).Recovers start pre := by
  intro library maxDepth files levels balances machine passes
  refine .ask asks (fun value middle rests => ?_) fun after rests => ?_
  · rw [← rests.flags] at passes
    refine (then_ value balances middle passes).mono (fun _ _ => id) ?_
    rintro after ⟨sameFlags, keeps⟩
    exact ⟨sameFlags.trans rests.flags, (Draft.Keeps.of_kinds rests.kinds).trans keeps⟩
  · exact ⟨rests.flags, .of_kinds rests.kinds⟩

/-- A rule that is only run ahead changes nothing, whatever it makes there. -/
theorem carries_peek
    [StandsFor α]
    (adds : rule.Adds) :
    (Rule.peek rule).Carries start rest rest given fun _ => given := by
  refine ⟨fun balances machine inside passes toggles => ?_⟩
  have undone
      {after : Machine Workshop}
      (spares : Draft.Spares [] machine.host.draft after.host.draft)
      (proceeds : machine.opened.Proceeds after)
      (closed : Machine Workshop)
      (closes : Closes .undo machine.nextRule after closed) :
      Draft.Keeps machine.host.draft closed.host.draft ∧
        closed.Bears rest start given := by
    obtain ⟨sameFlags, keeps⟩ :=
      keeps_of_undo proceeds (.of_spares spares) closes
    refine ⟨keeps, inside, ?_, toggles.kept keeps⟩
    rw [sameFlags]
    exact passes
  refine .scope (.bind (.attempt (.of_ensures ?_)))
  refine (Grammar.ensures_adds adds).mono ?_ ?_
  · rintro value after ⟨spares, -⟩
    exact .pure fun proceeds closed closes => undone spares proceeds closed closes
  · intro after spares
    exact .pure fun proceeds closed closes => undone spares proceeds closed closes

/-- A rule in a scope of its own that need not match. -/
theorem Carries.triedAs
    [StandsFor α]
    (gives : Option α → List NodeId)
    (carries : rule.Carries start rest rest [] fun value => gives (some value))
    (nothing : gives none = []) :
    (Rule.attempt (Rule.parse rule)).Carries start rest rest [] gives :=
  .attempt gives carries.parse carries.parse.recovers nothing id

theorem Carries.tried
    [StandsFor α]
    (carries : rule.Carries start rest rest [] gives) :
    (Rule.attempt (Rule.parse rule)).Carries start rest rest []
      (ifThere gives) :=
  carries.triedAs _ rfl

theorem Carries.triedNode
    {rule : GrammarRule NodeId}
    (carries : rule.Carries start rest rest [] fun id => [id]) :
    (Rule.attempt (Rule.parse rule)).Carries start rest rest []
      Option.toList :=
  carries.triedAs _ rfl

theorem Carries.triedNodes
    {rule : GrammarRule (List NodeId)}
    (carries : rule.Carries start rest rest [] fun ids => ids) :
    (Rule.attempt (Rule.parse rule)).Carries start rest rest []
      (·.getD []) :=
  carries.triedAs _ rfl

end Scopes

section Repetition

variable
    [StandsFor α]

/-- What comes of an attempt counts only if it matched, where a failure is reported. -/
private theorem Carries.reported
    {next : Option α → GrammarRule β}
    {gives : β → List NodeId}
    (carries : rule.Carries start pre mid given gained)
    (matched : ∀ value, (next (some value)).Carries start mid post (gained value) gives)
    (failed :
      ∀ {library maxDepth files levels machine onMatch onFailure},
        EnsuresCleanly library maxDepth files levels (next none) machine
          onMatch onFailure) :
    (Rule.attempt (Rule.parse rule) >>= next).Carries start pre post given
      gives := by
  refine ⟨fun balances machine inside passes toggles => ?_⟩
  refine EnsuresCleanly.bind (.attempt ?_)
  refine
    EnsuresCleanly.mono (carries.parse.carrying balances machine passes toggles)
      ?_ fun _ _ => failed
  rintro value middle ⟨keeps, _, passesMiddle, held⟩
  exact
    EnsuresCleanly.mono ((matched value).carrying balances middle passesMiddle held)
      (fun _ _ held => ⟨keeps.trans held.1, held.2⟩) fun _ => keeps.trans

/-- In clean runs, what is expected is there. -/
theorem Carries.expect
    (carries : rule.Carries start pre post given gives)
    (description : String) :
    (Rule.expect rule description).Carries start pre post given gives :=
  carries.reported (fun _ => .pure rfl) (.bind (.bind fun _ => .error))

theorem Carries.expectOr
    {recovery : GrammarRule α}
    (carries : rule.Carries start pre post given gives)
    (description : String) :
    (Rule.expectOr rule description recovery).Carries start pre post given
      gives :=
  carries.reported (fun _ => .pure rfl) (.bind (.bind fun _ => .error))

/-- So it is where that is attempted nevertheless. -/
theorem Carries.triedExpect
    {gives : Option α → List NodeId}
    (carries : rule.Carries start pre post given fun value => gives (some value))
    (description : String) :
    (Rule.attempt (Rule.expect rule description)).Carries start pre post given
      gives := by
  refine ⟨fun balances machine inside passes toggles => .attempt ?_ ?_⟩
  · exact (carries.expect description).carrying balances machine passes toggles
  · refine EnsuresCleanly.bind (.attempt (.of_ensures ?_))
    refine Outcome.ensures_iff.mpr ⟨fun _ _ _ => ?_, fun _ _ => ?_⟩
    · exact .pure trivial
    · exact .bind (.bind fun _ => .error)

theorem Carries.firstOf
    {rules : List (GrammarRule α)}
    (carries : ∀ rule ∈ rules, rule.Carries start rest rest [] gives) :
    (oneOf.firstOf rules).Carries start rest rest [] gives := by
  induction rules with
  | nil =>
      exact .fail
  | cons rule others inductionHypothesis =>
      refine .bind (carries rule List.mem_cons_self).tried ?_
      rintro (_ | value)
      · exact
          inductionHypothesis fun other member =>
            carries other (List.mem_cons_of_mem _ member)
      · exact .pure rfl

theorem Carries.oneOf
    {rules : List (GrammarRule α)}
    (carries : ∀ rule ∈ rules, rule.Carries start rest rest [] gives) :
    (Rule.oneOf rules).Carries start rest rest [] gives :=
  (Carries.firstOf carries).parse

theorem Carries.zeroOrMore
    (carries : ∀ {start}, rule.Carries start rest rest [] gives) :
    (Rule.zeroOrMore rule).Carries start rest rest [] fun found =>
      found.flatMap gives := by
  refine .loop (fun found => found.reverse.flatMap gives) (fun found => ?_) []
  refine .then (.tried carries) ?_
  rintro (_ | value)
  · exact .pure (by simp)
  · exact .pure (by simp)

theorem Carries.oneOrMore
    (carries : ∀ {start}, rule.Carries start rest rest [] gives) :
    (Rule.oneOrMore rule).Carries start rest rest [] fun found =>
      found.flatMap gives := by
  refine .bind (.zeroOrMore carries) fun found => ?_
  split
  · exact .fail
  · exact .pure rfl

section Separated

variable {separator : GrammarRule Unit}

/-- Items that separators part; these make no tree. -/
theorem Carries.separated
    (carries : ∀ {start}, rule.Carries start rest rest [] gives)
    (asks : separator.Asks []) :
    (Rule.separated rule separator).Carries start rest rest [] fun found =>
      found.flatMap gives := by
  have behindSeparator {start : Bool} :
      (do
        let _ ← Rule.parse separator
        Rule.parse rule : GrammarRule α).Carries start rest rest [] gives :=
    .ask (by simp [asks]) fun _ => carries.parse
  have kept {start : Bool} :
      (Rule.scope (fun _ => .keep []) do
        let _ ← Rule.parse separator
        Rule.parse rule : GrammarRule α).Carries start rest rest [] gives :=
    behindSeparator.scope (fun _ _ _ => rfl) nofun
  refine .bind carries.parse fun first => ?_
  refine
    (Carries.loop (fun found => found.reverse.flatMap gives) ?_ [first]).congr
      (by simp) fun _ => rfl
  intro found
  refine .then (.attempt (ifThere gives) kept kept.recovers rfl id) ?_
  rintro (_ | value)
  · exact .pure (by simp)
  · exact .pure (by simp)

/-- Only the first of some items has to be there. -/
theorem Carries.recovers_separated
    (carries : rule.Carries start rest rest [] gives) :
    (Rule.separated rule separator).Recovers start rest := by
  intro library maxDepth files levels balances machine passes
  refine .bind ((carries.parse.recovers balances machine passes).mono ?_ fun _ => id)
  intro first middle _
  refine .loop (fun _ _ => True) trivial fun found later _ => ?_
  refine .bind (.attempt (.of_ensures (Outcome.ensures_iff.mpr ⟨?_, ?_⟩)))
  · exact fun _ _ _ => .pure trivial
  · exact fun _ _ => .pure trivial

end Separated

end Repetition

section Alternation

variable
    {outer inner : GrammarRule (Step α)}
    {stop : GrammarRule β}

theorem Carries.alternateRound
    [StandsFor (Step α)]
    (outerCarries : ∀ {start}, outer.Carries start rest rest [] (ofStep gives))
    (innerCarries : ∀ {start}, inner.Carries start rest rest [] (ofStep gives))
    (peeks :
      ∀ {given}, (Rule.peek stop).Carries start rest rest given fun _ => given)
    (found : List α) :
    (Rule.alternateRound outer inner stop found).Carries start rest rest
      (found.flatMap gives) (Sum.elim (·.flatMap gives) (·.flatMap gives)) := by
  unfold Rule.alternateRound
  refine .bind peeks fun stops => ?_
  split
  · exact .pure rfl
  · refine .then innerCarries.tried ?_
    rintro (_ | main)
    · exact .pure (by simp)
    · refine .then outerCarries.tried ?_
      rintro (_ | next)
      · exact .pure (by simp [ofStep])
      · refine .ask (by simp) fun isEnd => ?_
        split
        · exact .pure (by simp [ofStep])
        · exact .pure (by simp [ofStep])

theorem Carries.alternateUntil
    [StandsFor (Step α)]
    [StandsFor (List α)]
    (outerCarries : ∀ {start}, outer.Carries start rest rest [] (ofStep gives))
    (innerCarries : ∀ {start}, inner.Carries start rest rest [] (ofStep gives))
    (peeks :
      ∀ {given}, (Rule.peek stop).Carries start rest rest given fun _ => given) :
    (Rule.alternateUntil outer inner stop).Carries start rest rest [] fun found =>
      found.flatMap gives := by
  refine Carries.parse (.bind outerCarries.parse fun first => ?_)
  refine
    .bind
      (.loop _ (.alternateRound outerCarries innerCarries peeks) first.values)
      fun found => ?_
  split
  · exact .fail
  · exact .pure rfl

theorem Carries.alternate
    [StandsFor (Step α)]
    [StandsFor (List α)]
    (outerCarries : ∀ {start}, outer.Carries start rest rest [] (ofStep gives))
    (innerCarries : ∀ {start}, inner.Carries start rest rest [] (ofStep gives)) :
    (Rule.alternate outer inner).Carries start rest rest [] fun found =>
      found.flatMap gives :=
  .alternateUntil outerCarries innerCarries
    ((asks_peek.mpr asks_fail).carries fun _ => rfl)

/-- Pieces of nodes in turn. -/
theorem Carries.alternateNodes
    {outer inner : GrammarRule (Step NodeId)}
    (outerCarries :
      ∀ {start}, outer.Carries start rest rest [] (ofStep fun id => [id]))
    (innerCarries :
      ∀ {start}, inner.Carries start rest rest [] (ofStep fun id => [id])) :
    (Rule.alternate outer inner).Carries start rest rest [] fun ids => ids := by
  simpa using Carries.alternate outerCarries innerCarries

theorem Carries.optionally
    [StandsFor α]
    (carries : rule.Carries start rest rest [] gives) :
    (Rule.optionally rule).Carries start rest rest [] (ofStep gives) := by
  refine .bind carries.tried ?_
  rintro (_ | value)
  · exact .pure (by simp [ofStep, Step.values])
  · exact .pure (by simp [ofStep, Step.values])

theorem Carries.single
    [StandsFor α]
    (carries : rule.Carries start rest rest [] gives) :
    (Rule.single rule).Carries start rest rest [] (ofStep gives) :=
  .bind carries.parse fun _ => .pure (by simp [ofStep, Step.values])

/-- What is dropped was no tree. -/
theorem carries_dropped
    {separator : GrammarRule Unit}
    (asks : separator.Asks []) :
    (Rule.dropped separator : GrammarRule (Step α)).Carries start rest rest []
      (ofStep gives) :=
  .ask (by simp [asks]) fun _ => .pure (by simp [ofStep, Step.values])

theorem carries_optionallyDropped
    {separator : GrammarRule Unit}
    (asks : separator.Asks []) :
    (Rule.optionallyDropped separator : GrammarRule (Step α)).Carries start rest
      rest [] (ofStep gives) :=
  .ask (by simp [asks]) fun _ => .pure (by simp [ofStep, Step.values])

end Alternation

section Effects

variable
    {kind : StoryKind}
    {id : NodeId}

/-- Some trees go below a new node that may stand there. -/
theorem Carries.makeFitting
    (fits : ∀ {flags inside}, rest flags inside → kind.Fits start start inside)
    (same : given = kind.children) :
    (Grammar.make kind).Carries start rest rest given fun id => [id] := by
  subst same
  refine ⟨fun balances machine inside passes toggles => .of_ensures ?_⟩
  exact
    ⟨.add machine.host.draft kind none, inside, passes,
      toggles.add (fits passes) none⟩

theorem Carries.make
    (isSimple : kind.isSimple = true)
    (same : given = kind.children) :
    (Grammar.make kind).Carries start rest rest given fun id => [id] :=
  .makeFitting (fun _ => .of_isSimple isSimple) same

/-- Alone, a node that may be dropped at times is no more than any other. -/
theorem carries_levelLeaf
    (isLevel : kind.isLevel = true)
    (noChildren : kind.children = []) :
    (Grammar.make kind).Carries start rest rest [] fun id => [id] := by
  refine .of_exactly fun {flags inside} => .makeFitting ?_ noChildren.symm
  rintro _ _ ⟨-, rfl⟩
  exact .of_isLevel isLevel

theorem Carries.makeSpanning
    (isSimple : kind.isSimple = true)
    (same : given = kind.children) :
    (Rule.effect (.makeSpanning kind) : GrammarRule NodeId).Carries start rest
      rest given fun id => [id] := by
  subst same
  refine ⟨fun balances machine inside passes toggles => .of_ensures ?_⟩
  exact
    ⟨.add machine.host.draft kind _, inside, passes,
      toggles.add (.of_isSimple isSimple) _⟩

/-- A node that is put below no other takes no part in what is given. -/
theorem carries_spare
    (kind : StoryKind) :
    (Grammar.make kind).Carries start rest rest given fun _ => given := by
  refine ⟨fun balances machine inside passes toggles => .of_ensures ?_⟩
  have keeps := Draft.Keeps.add machine.host.draft kind none
  exact ⟨keeps, inside, passes, toggles.kept keeps⟩

/-- A marker is made where it fits, while the flag stays as it was. -/
theorem carries_marker
    {isOpen : Bool}
    (isStart : Bool) :
    (Grammar.make (.tag isStart)).Carries start (Stands isOpen !isStart)
      (Stands isOpen isStart) [] fun id => [id] := by
  refine ⟨fun balances machine inside passes toggles => .of_ensures ?_⟩
  obtain ⟨told, rfl⟩ := passes
  obtain rfl := toggles.eq_of_nil
  refine
    ⟨.add machine.host.draft (.tag isStart) none, isStart, ⟨told, rfl⟩, ?_⟩
  refine Draft.Toggles.add .nil ?_ none
  exact ⟨⟨rfl, rfl⟩, nofun, nofun, nofun⟩

/-- Setting the flag for tags makes it say where one is. -/
theorem carries_setTagOpen
    (on : Bool) :
    (Rule.setFlag Flag.tagOpen on : GrammarRule Unit).Carries start (Within on)
      (Stands on on) given fun _ => given := by
  refine ⟨fun balances machine inside passes toggles => .of_ensures ?_⟩
  refine Grammar.ensures_setFlag ⟨.refl _, inside, ⟨?_, passes⟩, toggles⟩
  exact machine.top.hasFlag_setFlag (by decide) on

/-- Setting the flag for strings says nothing of tags. -/
theorem carries_setInString
    (on : Bool)
    (sets :
      ∀ {flags inside later},
        pre flags inside →
        Flag.marksTag later = Flag.marksTag flags →
        Flag.marksString later = on →
        post later inside) :
    (Rule.setFlag Flag.inString on : GrammarRule Unit).Carries start pre post
      given fun _ => given := by
  refine ⟨fun balances machine inside passes toggles => .of_ensures ?_⟩
  refine Grammar.ensures_setFlag ⟨.refl _, inside, sets passes ?_ ?_, toggles⟩
  · exact machine.top.hasFlag_setFlag_of_apart (by decide) on
  · exact machine.top.hasFlag_setFlag (by decide) on

theorem carries_setInChoice
    (inChoice : Bool) :
    (Rule.effect (.setInChoice inChoice) : GrammarRule Unit).Carries start rest
      rest given fun _ => given :=
  ⟨fun _ _ inside passes toggles =>
    .of_ensures ⟨.refl _, inside, passes, toggles⟩⟩

/-- What comes after a flag was looked at may count on what it says. -/
theorem Carries.hasFlag
    {mask : UInt32}
    {next : Bool → GrammarRule β}
    {gives : β → List NodeId}
    (then_ :
      ∀ on,
        (next on).Carries start
          (fun flags inside => pre flags inside ∧ (flags &&& mask != 0) = on)
          post given gives) :
    (Rule.hasFlag mask >>= next).Carries start pre post given gives :=
  ⟨fun balances machine _ passes toggles =>
    .bind <| .of_ensures <| Grammar.ensures_hasFlag
      ⟨.refl _, (then_ _).carrying balances machine ⟨passes, rfl⟩ toggles⟩⟩

theorem Carries.ifFlag
    {mask : UInt32}
    {isSet isUnset : GrammarRule α}
    (set :
      isSet.Carries start
        (fun flags inside => pre flags inside ∧ (flags &&& mask != 0) = true)
        post given gives)
    (unset :
      isUnset.Carries start
        (fun flags inside => pre flags inside ∧ (flags &&& mask != 0) = false)
        post given gives) :
    (do if ← Rule.hasFlag mask then isSet else isUnset).Carries start pre post
      given gives := by
  refine .hasFlag fun on => ?_
  cases on with
  | true =>
      exact set
  | false =>
      exact unset

theorem Carries.amend
    {amendment : Amendment}
    (id : NodeId)
    (appendsNone : ∀ child, amendment ≠ .append child) :
    (Grammar.amend id amendment).Carries start rest rest given fun _ =>
      given := by
  refine ⟨fun balances machine inside passes toggles => .of_ensures ?_⟩
  have keeps := Draft.Keeps.amend machine.host.draft id appendsNone
  change (Workshop.unlessMissing (·.missingAmong? [id]) _ machine).Ensures _ _
  exact
    Workshop.ensures_unlessMissing
      ⟨keeps, inside, passes, toggles.kept keeps⟩

/-- What a node is found to be may let some trees give way to others. -/
theorem Carries.kindOf
    {next : StoryKind → GrammarRule β}
    {gives : β → List NodeId}
    (then_ :
      ∀ kind, ∃ left,
        Draft.MakesWay id kind given left ∧
          (next kind).Carries start pre post left gives) :
    (Grammar.kindOf id >>= next).Carries start pre post given gives := by
  refine ⟨fun balances machine inside passes toggles => ?_⟩
  refine EnsuresCleanly.kindOf fun kind made => ?_
  obtain ⟨left, makesWay, carries⟩ := then_ kind
  exact carries.carrying balances machine passes (makesWay.gives made toggles)

/-- Content that ends outside of tags is arranged. -/
theorem carries_weave
    (content : List NodeId) :
    (Rule.effect (.weave content) : GrammarRule (List NodeId)).Carries start
      Closed Closed content fun woven => woven := by
  refine ⟨fun balances machine inside passes toggles => .of_ensures ?_⟩
  obtain ⟨-, rfl⟩ := id passes
  obtain ⟨keeps, woven⟩ := toggles.weaveAndFlows
  change (Workshop.unlessMissing (·.missingAmong? content) _ machine).Ensures _ _
  exact Workshop.ensures_unlessMissing ⟨keeps, false, passes, woven⟩

end Effects

end Rule

end InkSyntax
