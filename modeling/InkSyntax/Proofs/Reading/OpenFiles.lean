import InkSyntax.Proofs.Grammar.Operations
import InkSyntax.Proofs.Machine.HostInvariants
import InkSyntax.Proofs.Reading.StoryTrees

namespace InkSyntax

/-!
# Files that are being read

A file is open while it is read for an inclusion, and is not read again inside
itself.  Every rule leaves the open files as it found them, so all inclusions of a
text are made with the same files open.  Files that are nested in each other are
therefore different, and inclusions nest no deeper than there are files.
-/

namespace Workshop

variable
    {read : {α : Type} → Construct α → Action Workshop α}
    {include_ other : String → Action Workshop Inclusion}
    {opened : List Path}
    {maxDepth : Nat}

/-- Scopes and diagnostics do not open or close files. -/
theorem maintains_openFiles
    (opened : List Path) :
    Host.Maintains fun workshop : Workshop =>
      workshop.session.openFiles = opened where
  rewind _ same := same
  commit _ _ _ same := same
  deliver _ _ _ same := same

/-- An inclusion that starts with some files open ends with the same files open. -/
def ReleasesFrom
    (opened : List Path)
    (include_ : String → Action Workshop Inclusion) : Prop :=
  ∀ (name : String) (machine : Machine Workshop),
    machine.host.session.openFiles = opened →
    (include_ name machine).Ends (·.host.session.openFiles = opened)

theorem ends_handle
    (reads :
      ∀ {α : Type} (construct : Construct α) (machine : Machine Workshop),
        machine.host.session.openFiles = opened →
        (read construct machine).Ends (·.host.session.openFiles = opened))
    (releases : ReleasesFrom opened include_)
    {α : Type}
    (operation : Craft α)
    (machine : Machine Workshop)
    (atStart : machine.host.session.openFiles = opened) :
    (handle read include_ operation machine).Ends
      (·.host.session.openFiles = opened) := by
  refine
    handle_cases
      (motive := fun outcome => outcome.Ends (·.host.session.openFiles = opened))
      ?_ (fun file => releases file machine atStart)
      (fun construct => reads construct machine atStart) operation
  intro β outcome works
  refine works.ensures fun _ host sameSession => ?_
  rwa [sameSession]

theorem ReleasesFrom.ends_readWithin
    (releases : ReleasesFrom opened include_)
    (levels : Nat)
    {α : Type}
    (construct : Construct α)
    (machine : Machine Workshop)
    (atStart : machine.host.session.openFiles = opened) :
    (readWithin maxDepth include_ levels construct machine).Ends
      (·.host.session.openFiles = opened) := by
  induction levels generalizing α machine with
  | zero =>
      trivial
  | succ levels inductionHypothesis =>
      exact
        Rule.ends_of_maintains (maintains_openFiles opened)
          (ends_handle inductionHypothesis releases) _ machine atStart

/-- A rule leaves the open files as it found them, if inclusions do. -/
theorem ReleasesFrom.ends_run
    (releases : ReleasesFrom opened include_)
    (maxDepth levels : Nat)
    {α : Type}
    (rule : GrammarRule α)
    (machine : Machine Workshop)
    (atStart : machine.host.session.openFiles = opened) :
    (rule.run (handle (readWithin maxDepth include_ levels) include_)
        machine).Ends
      (·.host.session.openFiles = opened) :=
  Rule.ends_of_maintains (maintains_openFiles opened)
    (ends_handle (releases.ends_readWithin levels) releases) rule machine atStart

/-- Rules see inclusions only where the open files are those from their start. -/
theorem ReleasesFrom.run_eq
    (releases : ReleasesFrom opened include_)
    (agree :
      ∀ (name : String) (machine : Machine Workshop),
        machine.host.session.openFiles = opened →
        other name machine = include_ name machine)
    (maxDepth levels : Nat)
    {α : Type}
    (rule : GrammarRule α)
    (machine : Machine Workshop)
    (atStart : machine.host.session.openFiles = opened) :
    rule.run (handle (readWithin maxDepth other levels) other) machine =
      rule.run (handle (readWithin maxDepth include_ levels) include_)
        machine := by
  induction levels generalizing α rule machine with
  | zero =>
      apply
        Rule.run_eq_of_maintains (maintains_openFiles opened)
          (ends_handle (releases.ends_readWithin 0) releases) _ _ machine
          atStart
      intro β operation machine atStart
      cases operation with
      | «include» file =>
          exact agree file machine atStart
      | _ =>
          rfl
  | succ levels inductionHypothesis =>
      apply
        Rule.run_eq_of_maintains (maintains_openFiles opened)
          (ends_handle (releases.ends_readWithin (levels + 1)) releases) _ _
          machine atStart
      intro β operation machine atStart
      cases operation with
      | «include» file =>
          exact agree file machine atStart
      | read construct =>
          exact inductionHypothesis (Grammar.rule construct) machine atStart
      | _ =>
          rfl

end Workshop

/-- The stories in a frozen tree are those that the tree was made with. -/
theorem Draft.Holds.admits_of_mem_freeze
    {origin : Cursor}
    {admits : Story → Prop}
    {draft : Draft}
    {low high : Nat}
    {root : NodeId}
    {nodes : List NodeId}
    {rootSpan : Span}
    {file : Option String}
    {inner : Story}
    (holds : draft.Holds origin admits low high [root] nodes)
    (member : inner ∈ (draft.freeze root rootSpan file).includedStories) :
    admits inner := by
  obtain ⟨entries, frozen, freezes, listed, frozenAs⟩ :=
    holds.exists_freezes rootSpan
  rw [frozenAs] at member
  exact freezes.admits_of_mem holds.forest listed member

namespace Reading

variable
    {library : Library}
    {maxDepth files : Nat}
    {opened paths : List Path}
    {text : String}
    {file : Option String}
    {session ended : Session}
    {story inner : Story}

section Releasing

/-- A file that is read for an inclusion is closed again. -/
theorem releases_inclusions
    (closes :
      ∀ {text : String} {file : Option String} {session ended : Session}
        {story : Story},
        readText library maxDepth files text file session =
          .ok (story, ended) →
        ended.openFiles = session.openFiles)
    (opened : List Path) :
    Workshop.ReleasesFrom opened (inclusions library maxDepth files) := by
  rintro name machine rfl
  simp only [inclusions, includeFile]
  split
  · rfl
  · next notOpen =>
      split
      · rfl
      · split
        · trivial
        · next story session reads =>
            have same := closes reads
            simp only [Bool.not_eq_true, List.contains_eq_mem,
              decide_eq_false_iff_not] at notOpen
            simp only [Outcome.Ensures, Session.leave, same, Session.enter,
              Session.request, List.filter_cons, bne_self_eq_false,
              Bool.false_eq_true, ↓reduceIte]
            apply List.filter_eq_self.mpr
            intro other member
            rw [bne_iff_ne]
            rintro rfl
            exact notOpen member

theorem openFiles_readText
    (reads :
      readText library maxDepth files text file session =
        .ok (story, ended)) :
    ended.openFiles = session.openFiles := by
  induction files generalizing text file session ended story with
  | zero =>
      cases reads
  | succ files inductionHypothesis =>
      obtain ⟨script, after, -, ran, rfl⟩ := exists_site_of_readText reads
      have ends :=
        (releases_inclusions inductionHypothesis
            session.openFiles).ends_run maxDepth (maxDepth + 2) Grammar.script
          (.start script.toList maxDepth { file := file, session := session })
          rfl
      exact Outcome.ends_iff.mp ends after ran

/-- Every rule leaves the open files as it found them. -/
theorem ends_openFiles
    (library : Library)
    (maxDepth files levels : Nat)
    {α : Type}
    (rule : GrammarRule α)
    (machine : Machine Workshop) :
    (rule.run (performs library maxDepth files levels) machine).Ends
      (·.host.session.openFiles = machine.host.session.openFiles) :=
  (releases_inclusions openFiles_readText _).ends_run maxDepth levels rule
    machine rfl

end Releasing

section Nesting

/-- A story is what reading a file gave that was not open before. -/
def IsOfClosedFile
    (library : Library)
    (maxDepth : Nat)
    (opened : List Path)
    (story : Story) : Prop :=
  ∃ files name text session ended,
    library.read (library.resolve name) = some text ∧
      library.resolve name ∉ opened ∧
      session.openFiles = library.resolve name :: opened ∧
      readText library maxDepth files text (some name) session =
        .ok (story, ended)

/-- Include files only where some files are open. -/
def includeWhile
    (opened : List Path)
    (include_ : String → Action Workshop Inclusion) :
    String → Action Workshop Inclusion := fun name machine =>
  if machine.host.session.openFiles = opened then include_ name machine
  else .faulted .stalled

theorem includesOnly_includeWhile
    (library : Library)
    (maxDepth files : Nat)
    (opened : List Path) :
    IncludesOnly (IsOfClosedFile library maxDepth opened)
      (includeWhile opened (inclusions library maxDepth files)) := by
  rintro name machine -
  unfold includeWhile
  split
  case isFalse others =>
      rfl
  case isTrue same =>
      simp only [inclusions, includeFile]
      split
      · exact ⟨.refl machine, rfl, fun story isStory => by cases isStory⟩
      · next notOpen =>
          split
          · exact ⟨.work machine _, rfl, fun story isStory => by cases isStory⟩
          · next text found =>
              split
              · next fault broken =>
                  exact isExhaustion_of_readText broken
              · next story session reads =>
                  refine ⟨.work machine _, rfl, fun other isOther => ?_⟩
                  cases isOther
                  rw [same] at notOpen
                  refine
                    ⟨files, name, text, _, session, found, ?_, ?_, reads⟩
                  · simpa using notOpen
                  · simp [Session.enter, Session.request, same]

/-- Included stories are those of files that were not open. -/
theorem isOfClosedFile_of_readText
    (reads :
      readText library maxDepth files text file session = .ok (story, ended))
    (member : inner ∈ story.includedStories) :
    IsOfClosedFile library maxDepth session.openFiles inner := by
  cases files with
  | zero =>
      cases reads
  | succ files =>
      obtain ⟨script, root, after, -, matched, rfl⟩ :=
        exists_frozen_of_readText reads
      have ran :=
        (includesOnly_includeWhile library maxDepth files
          session.openFiles).guarantees_readScript maxDepth script.toList file
          session
      have sameRun :
          Workshop.readScript maxDepth
              (includeWhile session.openFiles
                (inclusions library maxDepth files))
              (.start script.toList maxDepth
                { file := file, session := session }) =
            Workshop.readScript maxDepth (inclusions library maxDepth files)
              (.start script.toList maxDepth
                { file := file, session := session }) :=
        (releases_inclusions openFiles_readText session.openFiles).run_eq
          (fun name machine same => if_pos same) maxDepth (maxDepth + 2)
          Grammar.script _ rfl
      rw [sameRun, matched] at ran
      obtain ⟨reaches, nodes, holds, -⟩ := ran
      exact holds.admits_of_mem_freeze member

/-- Each story includes the next one. -/
abbrev Nested : List Story → Prop :=
  List.IsChain fun outer inner => inner ∈ outer.includedStories

/-- Stories nested in each other come from different files, none of them open before. -/
theorem exists_paths_of_nested
    {chain : List Story}
    (reads :
      readText library maxDepth files text file session = .ok (story, ended))
    (nested : Nested (story :: chain)) :
    ∃ paths : List Path,
      chain.map (·.file.map library.resolve) = paths.map some ∧
        paths.Nodup ∧
        ∀ path ∈ paths,
          path ∉ session.openFiles ∧
            ∃ text, library.read path = some text := by
  induction chain generalizing files text file session ended story with
  | nil =>
      exact ⟨[], rfl, List.nodup_nil, by simp⟩
  | cons inner rest inductionHypothesis =>
      obtain ⟨member, nestedRest⟩ := List.isChain_cons_cons.mp nested
      obtain ⟨files, name, text, within, ended, found, notOpen, same, isRead⟩ :=
        isOfClosedFile_of_readText reads member
      obtain ⟨paths, arePaths, nodup, apart⟩ :=
        inductionHypothesis isRead nestedRest
      rw [same] at apart
      refine ⟨library.resolve name :: paths, ?_, ?_, ?_⟩
      · rw [List.map_cons, List.map_cons, arePaths,
          (isSound_of_readText isRead).file, Option.map_some]
      · refine List.nodup_cons.mpr ⟨fun again => ?_, nodup⟩
        exact (apart _ again).1 List.mem_cons_self
      · refine List.forall_mem_cons.mpr ⟨⟨notOpen, text, found⟩, ?_⟩
        intro path isPath
        obtain ⟨notBefore, readable⟩ := apart path isPath
        exact
          ⟨fun before => notBefore (List.mem_cons_of_mem _ before), readable⟩

end Nesting

section Levels

/-- The paths among some at which no file is open. -/
def closedAmong (paths opened : List Path) : List Path :=
  paths.filter (· ∉ opened)

theorem length_closedAmong_lt
    {path : Path}
    (isPath : path ∈ paths)
    (notOpen : path ∉ opened) :
    (closedAmong paths (path :: opened)).length <
      (closedAmong paths opened).length := by
  have fewer :
      closedAmong paths (path :: opened) =
        (closedAmong paths opened).filter (· ≠ path) := by
    simp only [closedAmong, List.filter_filter]
    apply List.filter_congr
    intro other _
    simp
  rw [fewer]
  apply List.length_filter_lt_length_iff_exists.mpr
  exact ⟨path, by simp [closedAmong, isPath, notOpen], by simp⟩

/-- A level for each closed file and one for the text at hand are enough. -/
theorem readText_eq_of_levels
    (known : ∀ path text, library.read path = some text → path ∈ paths)
    (maxDepth more : Nat)
    (enough : (closedAmong paths session.openFiles).length < files) :
    readText library maxDepth (files + more) text file session =
      readText library maxDepth files text file session := by
  induction files generalizing text file session with
  | zero =>
      exact absurd enough (Nat.not_lt_zero _)
  | succ files inductionHypothesis =>
      have agree
          (name : String)
          (machine : Machine Workshop)
          (same : machine.host.session.openFiles = session.openFiles) :
          inclusions library maxDepth (files + more) name machine =
            inclusions library maxDepth files name machine := by
        simp only [inclusions, includeFile]
        split
        · rfl
        · next notOpen =>
            split
            · rfl
            · next text found =>
                rw [same] at notOpen
                rw [inductionHypothesis]
                have isClosed :
                    library.resolve name ∉ session.openFiles := by
                  simpa using notOpen
                have fewer := length_closedAmong_lt (known _ _ found) isClosed
                simp only [Session.enter, Session.request, same]
                omega
      have sameRun (script : String) :
          Workshop.readScript maxDepth
              (inclusions library maxDepth (files + more))
              (.start script.toList maxDepth
                { file := file, session := session }) =
            Workshop.readScript maxDepth (inclusions library maxDepth files)
              (.start script.toList maxDepth
                { file := file, session := session }) :=
        (releases_inclusions openFiles_readText session.openFiles).run_eq
          agree maxDepth (maxDepth + 2) Grammar.script _ rfl
      simp only [inclusions] at sameRun
      rw [Nat.add_right_comm]
      simp only [readText, sameRun]

end Levels

section Libraries

variable {library : List (String × String)}

/-- A library finds texts only at the paths of its files. -/
theorem mem_paths_of_read
    {library : List (String × String)}
    {path : Path}
    {text : String}
    (found : (Library.ofFiles library).read path = some text) :
    path ∈ library.map fun (name, _) => Path.normalize ⟨name⟩ := by
  obtain ⟨⟨at_, content⟩, isFound, -⟩ := Option.map_eq_some_iff.mp found
  have same := List.find?_some isFound
  have member := List.mem_reverse.mp (List.mem_of_find?_eq_some isFound)
  simp only [beq_iff_eq] at same
  subst same
  obtain ⟨⟨name, written⟩, isFile, isPair⟩ := List.mem_map.mp member
  cases isPair
  exact List.mem_map.mpr ⟨_, isFile, rfl⟩

/-- Inclusions release their files, nest in different files, and come to an end. -/
theorem inclusions_nest_apart
    (library : List (String × String))
    (options : Options)
    (text : String)
    (file : Option String) :
    (∀ (files levels : Nat) (machine : Machine Workshop),
        (Grammar.inclusion.run
            (performs (.ofFiles library) options.maxStackDepth files levels)
            machine).Ends
          (·.host.session.openFiles = machine.host.session.openFiles)) ∧
      (∀ (reading : Reading) (chain : List Story),
        readScript (.ofFiles library) options text file = .ok reading →
        Nested (reading.story :: chain) →
        ∃ paths : List Path,
          chain.map (·.file.map (Library.ofFiles library).resolve) =
              paths.map some ∧
            ((file.map (Library.ofFiles library).resolve).toList ++
              paths).Nodup ∧
            chain.length ≤ library.length) ∧
      ∀ (session : Session) (more : Nat),
        readText (.ofFiles library) options.maxStackDepth
            (library.length + 1 + more) text file session =
          readText (.ofFiles library) options.maxStackDepth
            (library.length + 1) text file session := by
  refine ⟨fun files levels machine => ?_, fun reading chain reads nested => ?_,
    fun session more => ?_⟩
  · exact ends_openFiles _ _ files levels Grammar.inclusion machine
  · simp only [readScript, bind, Except.bind] at reads
    split at reads
    · cases reads
    · next pair isRead =>
        cases reads
        obtain ⟨paths, arePaths, nodup, apart⟩ :=
          exists_paths_of_nested isRead nested
        refine ⟨paths, arePaths, ?_, ?_⟩
        · refine List.nodup_append'.mpr ⟨?_, nodup, fun path isRoot isPath => ?_⟩
          · cases file <;> simp
          · exact (apart path isPath).1 isRoot
        · have among :
              paths ⊆ library.map fun (name, _) => Path.normalize ⟨name⟩ := by
            intro path isPath
            obtain ⟨-, content, found⟩ := apart path isPath
            exact mem_paths_of_read found
          have lengths := congrArg List.length arePaths
          have bound := (List.subperm_of_subset nodup among).length_le
          simp only [List.length_map] at lengths bound
          omega
  · apply readText_eq_of_levels fun path content => mem_paths_of_read
    have bound :=
      List.length_filter_le (· ∉ session.openFiles)
        (library.map fun (name, _) => Path.normalize ⟨name⟩)
    rw [List.length_map] at bound
    exact Nat.lt_succ_of_le bound

/-- Two files that include each other, the second by another spelling, nest once. -/
theorem inclusions_nest_apart_in_cycle :
    let library := [("a.ink", "INCLUDE b.ink\n"), ("b.ink", "INCLUDE ./a.ink\n")]
    ∃ reading first second paths,
      readScript (.ofFiles library) {} "INCLUDE a.ink\n" (some "main.ink") =
          .ok reading ∧
        Nested [reading.story, first, second] ∧
        second.includedStories.isEmpty ∧
        [first, second].map (·.file.map (Library.ofFiles library).resolve) =
          paths.map some ∧
        ((Library.ofFiles library).resolve "main.ink" :: paths).Nodup := by
  intro library
  have nestsTwice :
      (readScript (.ofFiles library) {} "INCLUDE a.ink\n"
            (some "main.ink")).toOption.any
          (·.story.includedStories.any
            (·.includedStories.any (·.includedStories.isEmpty))) =
        true := by
    decide +kernel
  cases reads :
      readScript (.ofFiles library) {} "INCLUDE a.ink\n" (some "main.ink") with
  | error fault =>
      rw [reads] at nestsTwice
      cases nestsTwice
  | ok reading =>
      rw [reads] at nestsTwice
      obtain ⟨first, isFirst, nestsOnce⟩ := List.any_eq_true.mp nestsTwice
      obtain ⟨second, isSecond, isLast⟩ := List.any_eq_true.mp nestsOnce
      have nested : Nested [reading.story, first, second] := by
        simp [Nested, isFirst, isSecond]
      obtain ⟨paths, arePaths, nodup, -⟩ :=
        (inclusions_nest_apart library {} "INCLUDE a.ink\n"
          (some "main.ink")).2.1 reading [first, second] reads nested
      exact
        ⟨reading, first, second, paths, rfl, nested, isLast, arePaths, nodup⟩

end Libraries

end Reading

end InkSyntax
