import InkSyntax.Proofs.Comments
import InkSyntax.Proofs.Grammar.StatementTrees
import InkSyntax.Proofs.Grammar.WholeScripts
import InkSyntax.Proofs.Reading.Site

namespace InkSyntax.Reading

/-!
# Readings build trees

Every construct is read by a rule that makes trees out of nothing, and so is every
included file, whose story is admitted as that of a file of the library.  A whole
script therefore ends with one tree in its draft, and with a fault only for want of
room or of rounds.
-/

variable
    (library : Library)
    (maxDepth : Nat)

/-- A story is what reading a file of the library gave. -/
def IsOfFile (story : Story) : Prop :=
  ∃ files name text session after,
    library.read (library.resolve name) = some text ∧
      readText library maxDepth files text (some name) session =
        .ok (story, after) ∧
      Unbroken name

variable
    {library : Library}
    {maxDepth : Nat}
    {origin : Cursor}

/-- Inclusions are all right if readings of the files break off as they may. -/
theorem guarantees_inclusions
    {files : Nat}
    (exhausts :
      ∀ {text : String} {file : Option String} {session : Session}
        {fault : Fault},
        readText library maxDepth files text file session = .error fault →
        fault.isExhaustion = true)
    (name : String)
    (machine : Machine Workshop)
    (unbroken : Unbroken name) :
    (inclusions library maxDepth files name machine).Guarantees
      (fun inclusion after =>
        machine.Proceeds after ∧
          after.host.draft = machine.host.draft ∧
          ∀ story, inclusion = .story story →
            IsOfFile library maxDepth story)
      (machine.Leads []) := by
  simp only [inclusions, includeFile]
  split
  · exact ⟨.refl machine, rfl, fun story isStory => by cases isStory⟩
  · split
    · exact ⟨.work machine _, rfl, fun story isStory => by cases isStory⟩
    · next text found =>
        split
        · next fault broken =>
            exact exhausts broken
        · next story session reads =>
            refine ⟨.work machine _, rfl, fun other isOther => ?_⟩
            cases isOther
            exact ⟨files, name, text, _, session, found, reads, unbroken⟩

/-- Including a file leaves the draft alone and gives none but admitted stories. -/
def IncludesOnly
    (admits : Story → Prop)
    (include_ : String → Action Workshop Inclusion) : Prop :=
  ∀ (name : String) (machine : Machine Workshop),
    Unbroken name →
    (include_ name machine).Guarantees
      (fun inclusion after =>
        machine.Proceeds after ∧
          after.host.draft = machine.host.draft ∧
          ∀ story, inclusion = .story story → admits story)
      (machine.Leads [])

section Including

variable
    {admits : Story → Prop}
    {include_ : String → Action Workshop Inclusion}

/-- Constructs are read all right if files are included all right. -/
theorem IncludesOnly.supplies
    (includes : IncludesOnly admits include_)
    (maxDepth levels : Nat) :
    Workshop.Supplies origin admits
      (Workshop.readWithin maxDepth include_ levels) include_ := by
  refine ⟨?_, includes⟩
  induction levels with
  | zero =>
      intro α construct machine low nodes _ _ _
      rfl
  | succ levels inductionHypothesis =>
      intro α construct
      exact Grammar.builds_rule construct ⟨inductionHypothesis, includes⟩

/-- Reading a script ends with one tree in the draft, that of a story. -/
theorem IncludesOnly.guarantees_readScript
    (includes : IncludesOnly admits include_)
    (maxDepth : Nat)
    (script : List Char)
    (file : Option String)
    (session : Session) :
    (Workshop.readScript maxDepth include_
        (.start script maxDepth { file := file, session := session })).Guarantees
      (fun root after =>
        (Cursor.atStart script).Reaches after.cursor ∧
          ∃ nodes,
            after.host.draft.Holds (.atStart script) admits 0
              after.cursor.offset [root] nodes ∧
            ∃ content, after.host.draft.kind? root = some (.story content))
      (fun _ => False) := by
  have ran :=
    Grammar.builds_script (includes.supplies maxDepth (maxDepth + 2))
      (.start script maxDepth { file := file, session := session }) 0 []
      (.refl _) (Nat.zero_le _) .nil
  refine (ran.and_ensures (Grammar.ensures_script _ _ _)).mono ?_ ?_
  · rintro root after ⟨⟨proceeds, -, nodes, holds, -⟩, isStory⟩
    exact ⟨proceeds.cursor, nodes, holds, isStory⟩
  · rintro after ⟨-, never⟩
    exact never

end Including

/-- Constructs and files are read all right if readings break off as they may. -/
theorem supplies
    {files : Nat}
    (exhausts :
      ∀ {text : String} {file : Option String} {session : Session}
        {fault : Fault},
        readText library maxDepth files text file session = .error fault →
        fault.isExhaustion = true)
    (levels : Nat) :
    Workshop.Supplies origin (IsOfFile library maxDepth)
      (Workshop.readWithin maxDepth (inclusions library maxDepth files) levels)
      (inclusions library maxDepth files) :=
  IncludesOnly.supplies (guarantees_inclusions exhausts) maxDepth levels

/-- Reading a script with its inclusions admits the stories of files. -/
theorem guarantees_readScript
    {files : Nat}
    (exhausts :
      ∀ {text : String} {file : Option String} {session : Session}
        {fault : Fault},
        readText library maxDepth files text file session = .error fault →
        fault.isExhaustion = true)
    (script : List Char)
    (file : Option String)
    (session : Session) :
    (Workshop.readScript maxDepth (inclusions library maxDepth files)
        (.start script maxDepth { file := file, session := session })).Guarantees
      (fun root after =>
        (Cursor.atStart script).Reaches after.cursor ∧
          ∃ nodes,
            after.host.draft.Holds (.atStart script)
              (IsOfFile library maxDepth) 0 after.cursor.offset [root]
              nodes ∧
            ∃ content, after.host.draft.kind? root = some (.story content))
      (fun _ => False) :=
  IncludesOnly.guarantees_readScript (guarantees_inclusions exhausts) maxDepth
    script file session

/-- A reading breaks off only for want of room or of rounds. -/
theorem isExhaustion_of_readText
    {files : Nat}
    {text : String}
    {file : Option String}
    {session : Session}
    {fault : Fault}
    (reads :
      readText library maxDepth files text file session = .error fault) :
    fault.isExhaustion = true := by
  induction files generalizing text file session fault with
  | zero =>
      cases reads
      rfl
  | succ files inductionHypothesis =>
      obtain ⟨script, stripped⟩ := Comment.exists_strip text
      simp only [readText, stripped, bind, Except.bind] at reads
      have ran :=
        guarantees_readScript inductionHypothesis script.toList file session
      split at reads
      · cases reads
      · cases reads
      · next broken isBroken =>
          cases reads
          rw [inclusions, isBroken] at ran
          exact ran

end InkSyntax.Reading
