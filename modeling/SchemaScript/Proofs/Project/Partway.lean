/- What a build has made when it ends early: each script is there as a whole or not at all, and nothing
   else has been touched. -/
import SchemaScript.Proofs.Project.Products

namespace SchemaScript.Project

/-- The scripts of the first entries of a configuration. Where they end, some files of the next entry
may have theirs. -/
inductive BuildsSome (site : Site) (root : Path) (indent : Option Int) :
    FileTree → List DatabaseEntry → List Product → FileTree → Prop
  | nil (t : FileTree) : BuildsSome site root indent t [] [] t
  | within {entry : DatabaseEntry} {entries : List DatabaseEntry} {made : List Product}
      {t t' : FileTree}
      (some : made.map (fun p => (p.root, p.indent, p.entry, p.file)) <+:
        (entry.filesIn t root).map fun file => (root, indent, entry, file))
      (written : Writes site t made t') : BuildsSome site root indent t (entry :: entries) made t'
  | cons {entry : DatabaseEntry} {entries : List DatabaseEntry} {made later : List Product}
      {t t' t'' : FileTree}
      (all : made.map (fun p => (p.root, p.indent, p.entry, p.file)) =
        (entry.filesIn t root).map fun file => (root, indent, entry, file))
      (written : Writes site t made t') (rest : BuildsSome site root indent t' entries later t'') :
      BuildsSome site root indent t (entry :: entries) (made ++ later) t''

/-- The scripts of a build up to where it ends, be it before a task, within the entries of a
configuration, or when all is done. -/
inductive Begins (site : Site) : FileTree → List Task → List Product → FileTree → Prop
  | stopped (t : FileTree) (tasks : List Task) : Begins site t tasks [] t
  | vendor {name : Text} {tasks : List Task} {made : List Product} {t t' : FileTree}
      (rest : Begins site t tasks made t') : Begins site t (.vendor name :: tasks) made t'
  | within {config root : Path} {c : Config} {tasks : List Task} {made : List Product}
      {t t' : FileTree} (read : (t.text? (root.join config)).bind Config.read? = some c)
      (own : BuildsSome site root c.indent t (c.databases.getD []) made t') :
      Begins site t (.config config root :: tasks) made t'
  | config {config root : Path} {c : Config} {vendors : List Vendor} {tasks : List Task}
      {made later : List Product} {t t' t'' : FileTree}
      (read : (t.text? (root.join config)).bind Config.read? = some c)
      (own : Builds site root c.indent t (c.databases.getD []) made t')
      (named : c.vendorEntries = .ok vendors)
      (rest : Begins site t' (Building.tasksOf site vendors ++ tasks) later t'') :
      Begins site t (.config config root :: tasks) (made ++ later) t''

variable {α β : Type} {site : Site} {root config : Path} {indent : Option Int}
  {entry : DatabaseEntry} {entries : List DatabaseEntry} {tasks more : List Task}
  {made later : List Product} {log : List Notice} {e : Failure} {t t' t'' : FileTree}

theorem Builds.some (h : Builds site root indent t entries made t') :
    BuildsSome site root indent t entries made t' := by
  induction h with
  | nil => exact .nil _
  | cons all written _ ih => exact .cons all written ih

theorem BuildsSome.writes (h : BuildsSome site root indent t entries made t') :
    Writes site t made t' := by
  induction h with
  | nil => exact .nil _
  | within _ written => exact written
  | cons _ written _ ih => exact written.append ih

theorem Begins.writes (h : Begins site t tasks made t') : Writes site t made t' := by
  induction h with
  | stopped => exact .nil _
  | vendor _ ih => exact ih
  | within _ own => exact own.writes
  | config _ own _ _ ih => exact own.writes.append ih

theorem Makes.begins (h : Makes site t tasks made t') : Begins site t tasks made t' := by
  induction h with
  | nil => exact .stopped _ []
  | vendor _ ih => exact .vendor ih
  | config read own named _ ih => exact .config read own named ih

/-- Tasks behind those of a build that has ended change nothing. -/
theorem Begins.before (h : Begins site t tasks made t') (more : List Task) :
    Begins site t (tasks ++ more) made t' := by
  induction h with
  | stopped => exact .stopped _ _
  | vendor _ ih => exact .vendor ih
  | within read own => exact .within read own
  | config read own named _ ih =>
      rw [List.append_assoc] at ih
      exact .config read own named ih

theorem Makes.append_begins (h : Makes site t tasks made t') (h' : Begins site t' more later t'') :
    Begins site t (tasks ++ more) (made ++ later) t'' := by
  induction h with
  | nil => exact h'
  | vendor _ ih => exact .vendor (ih h')
  | config read own named _ ih =>
      have rest := ih h'
      rw [List.append_assoc] at rest ⊢
      exact .config read own named rest

/-- Work that leaves the files as they are, whatever it comes to. -/
def Attempt.Still (x : Attempt (StateM FileTree) α) : Prop := ∀ t, (x.run.run t).2 = t

/-- Work that leaves the files as they are where it ends early. -/
def Attempt.Spares (x : Attempt (StateM FileTree) α) : Prop :=
  ∀ t e t', x.run.run t = (.error e, t') → t' = t

namespace Attempt

variable {x : Attempt (StateM FileTree) α} {f : α → Attempt (StateM FileTree) β}

namespace Still

theorem pure (a : α) : Still (pure a) := fun _ => rfl

theorem throw (failure : Failure) : Still (α := α) (throw failure) := fun _ => rfl

theorem eq_of_run (h : x.Still) {r : Except Failure α} (hrun : x.run.run t = (r, t')) : t' = t := by
  have hstill := h t
  rw [hrun] at hstill
  exact hstill

theorem bind (hx : x.Still) (hf : ∀ a, (f a).Still) : (x >>= f).Still := by
  intro t
  rw [run_bind]
  rcases hrun : x.run.run t with ⟨_ | a, t'⟩
  · exact hx.eq_of_run hrun
  · exact (hf a t').trans (hx.eq_of_run hrun)

theorem looks {x : StateM FileTree α} (h : Looks x) : Still (liftM x) := h

theorem ofExcept {ε : Type} (failure : ε → Failure) (answer : Except ε α) :
    Still (Attempt.ofExcept failure answer) := by
  cases answer with
  | ok a => exact .pure a
  | error e => exact .throw (failure e)

theorem orFail {failure : FileError → Failure} {x : StateM FileTree (Except FileError α)}
    (h : Looks x) : Still (Attempt.orFail failure x) := by
  refine (looks h).bind fun answer => ?_
  cases answer with
  | ok a => exact .pure a
  | error e => exact .throw (failure e)

theorem mapM (hf : ∀ a, (f a).Still) (l : List α) : Still (l.mapM f) := by
  induction l with
  | nil => exact .pure []
  | cons a l ih =>
      rw [List.mapM_cons]
      exact (hf a).bind fun b => ih.bind fun bs => .pure (b :: bs)

theorem spares (h : x.Still) : x.Spares := fun _ _ _ hrun => h.eq_of_run hrun

end Still

namespace Spares

/-- What goes before looks only, so that an early end behind it is an early end of the whole. -/
theorem bind (hx : x.Still) (hf : ∀ a, (f a).Spares) : (x >>= f).Spares := by
  intro t e t' h
  rw [run_bind] at h
  rcases hrun : x.run.run t with ⟨_ | a, t₁⟩
  · rw [hrun] at h
    cases h
    exact hx.eq_of_run hrun
  · rw [hrun] at h
    exact (hf a t₁ e t' h).trans (hx.eq_of_run hrun)

theorem map (hx : x.Spares) (f : α → β) : Spares (x >>= fun a => Pure.pure (f a)) := by
  intro t e t' h
  rw [run_bind] at h
  rcases hrun : x.run.run t with ⟨_ | a, t₁⟩
  · rw [hrun] at h
    cases h
    exact hx t e t' hrun
  · rw [hrun] at h
    cases h

end Spares

end Attempt

theorem still_readSource (file : Path) : (readSource (m := StateM FileTree) file).Still :=
  (Attempt.Still.orFail (Files.looks_readText file)).bind fun _ => .pure _

theorem still_expandPattern (pattern : Path) :
    (expandPattern (m := StateM FileTree) pattern).Still :=
  (Attempt.Still.looks (Glob.looks_expand _)).bind fun found => .ofExcept _ found

theorem still_readConfig (path : Path) :
    (Building.readConfig (m := StateM FileTree) path).Still := by
  refine (Attempt.Still.orFail (Files.looks_readText path)).bind fun content => ?_
  cases Config.read? content with
  | some c => exact .pure c
  | none => exact .throw _

theorem change_eq_error {f : FileTree → Except FileError FileTree} {e : FileError}
    (h : (FileTree.change f).run t = (.error e, t')) : t' = t := by
  have hrun : (FileTree.change f).run t = FileTree.change f t := rfl
  rw [hrun] at h
  unfold FileTree.change at h
  cases hf : f t with
  | error e' =>
      rw [hf] at h
      cases h
      rfl
  | ok next =>
      rw [hf] at h
      cases h

/-- A text is written as a whole, or the write fails and the files stay as they are. -/
theorem spares_writeText (failure : FileError → Failure) (p : Path) (text : Text) :
    (Attempt.orFail failure (Files.writeText (m := StateM FileTree) p text)).Spares := by
  intro t e t' h
  obtain ⟨e', hwrite, -⟩ := Attempt.run_orFail_eq_error.1 h
  exact change_eq_error hwrite

namespace Building

/-- The same of a part of a build, whatever the log says before. -/
def Still (x : Building (StateM FileTree) α) : Prop := ∀ log, (x.run log).Still

def Spares (x : Building (StateM FileTree) α) : Prop := ∀ log, (x.run log).Spares

namespace Still

variable {x : Building (StateM FileTree) α} {f : α → Building (StateM FileTree) β}

theorem pure (a : α) : Still (pure a) := fun log => .pure (a, log)

theorem note (n : Notice) : Still (note n) := fun log => .pure ((), log ++ [n])

theorem bind (hx : Still x) (hf : ∀ a, Still (f a)) : Still (x >>= f) :=
  fun log => (hx log).bind fun r => hf r.1 r.2

theorem attempt {x : Attempt (StateM FileTree) α} (h : x.Still) : Still (liftM x) :=
  fun log => h.bind fun a => .pure (a, log)

theorem looks {x : StateM FileTree α} (h : Looks x) : Still (liftM x) := attempt (.looks h)

theorem mapM (hf : ∀ a, Still (f a)) (l : List α) : Still (l.mapM f) := by
  induction l with
  | nil => exact .pure []
  | cons a l ih =>
      rw [List.mapM_cons]
      exact (hf a).bind fun b => ih.bind fun bs => .pure (b :: bs)

theorem filterM {f : α → Building (StateM FileTree) Bool} (hf : ∀ a, Still (f a)) (l : List α) :
    Still (l.filterM f) := by
  have haux (l kept : List α) : Still (l.filterAuxM f kept) := by
    induction l generalizing kept with
    | nil => exact .pure kept
    | cons a l ih => exact (hf a).bind fun keep => ih _
  exact (haux l []).bind fun kept => .pure _

theorem outcome_snd (h : Still x) {log : List Notice} {r : Except Failure (α × List Notice)}
    (hx : outcome x log t = (r, t')) : t' = t := (h log).eq_of_run hx

end Still

namespace Spares

variable {x : Building (StateM FileTree) α} {f : α → Building (StateM FileTree) β}

theorem bind (hx : Still x) (hf : ∀ a, Spares (f a)) : Spares (x >>= f) :=
  fun log => Attempt.Spares.bind (hx log) fun r => hf r.1 r.2

theorem map (hx : Spares x) (f : α → β) : Spares (x >>= fun a => Pure.pure (f a)) :=
  fun log => (hx log).map fun r => (f r.1, r.2)

theorem attempt {x : Attempt (StateM FileTree) α} (h : x.Spares) : Spares (liftM x) :=
  fun log => h.map fun a => (a, log)

end Spares

theorem still_databaseFiles (entry : DatabaseEntry) (root : Path) :
    Still (databaseFiles entry root) := by
  have hnote (files : List Path) : Still
      (if files.isEmpty then do
        note (m := StateM FileTree) (.databaseMissing (root.join entry.path))
        return files
      else return files) := by
    split
    · exact (Still.note _).bind fun _ => .pure files
    · exact .pure files
  have hisFile (p : Path) : Still (liftM (Files.isFile (m := StateM FileTree) p)) :=
    .looks fun _ => rfl
  unfold databaseFiles
  refine (hisFile _).bind fun isThere => ?_
  dsimp only
  split
  · refine (Still.attempt (still_expandPattern _)).bind fun found => ?_
    exact (Still.filterM hisFile found).bind hnote
  · split
    · exact (Still.pure _).bind hnote
    · exact (Still.pure _).bind hnote

theorem still_postText (root : Path) (posts : List Path) : Still (postText root posts) := by
  refine (Still.mapM (fun post => ?_) posts).bind fun sections => .pure _
  refine (Still.looks (Files.looks_readText _)).bind fun answer => ?_
  cases answer with
  | ok content => exact .pure _
  | error e => exact (Still.note _).bind fun _ => .pure _

/-- The script is written last, so that nothing that can go wrong is behind it. -/
theorem spares_buildDatabase (site : Site) (root : Path) (indent : Option Int)
    (entry : DatabaseEntry) (file : Path) : Spares (buildDatabase site root indent entry file) := by
  refine Spares.bind (.attempt (still_readSource file)) fun source => ?_
  refine Spares.bind (.attempt (.ofExcept _ _)) fun schema => ?_
  refine Spares.bind (still_postText root entry.post) fun post => ?_
  cases file.fileStem? with
  | none => exact fun log => (Attempt.Still.throw _).spares
  | some stem => exact Spares.map (.attempt (spares_writeText _ _ _)) fun _ => stem ++ ".sql".toList

theorem mapM_buildDatabase_partway {files : List Path}
    (h : outcome (files.mapM (buildDatabase site root indent entry)) log t = (.error e, t')) :
    ∃ made : List Product,
      made.map (fun p => (p.root, p.indent, p.entry, p.file)) <+:
          files.map (fun file => (root, indent, entry, file)) ∧ Writes site t made t' := by
  induction files generalizing log t with
  | nil => cases h
  | cons file files ih =>
      rcases outcome_mapM_cons_eq_error.1 h with hfile | ⟨name, log₁, t₁, hfile, hfiles⟩
      · obtain rfl : t' = t := spares_buildDatabase site root indent entry file log t e t' hfile
        exact ⟨[], List.nil_prefix, .nil t'⟩
      · obtain ⟨-, -, hwrites⟩ := buildDatabase_writes hfile
        obtain ⟨made, hsome, hlater⟩ := ih hfiles
        refine ⟨⟨root, indent, entry, file, t⟩ :: made, ?_, hwrites.append hlater⟩
        rw [List.map_cons, List.map_cons, List.prefix_cons_inj]
        exact hsome

theorem mapM_entries_partway
    (h : outcome (entries.mapM fun entry => do
      (← databaseFiles entry root).mapM (buildDatabase site root indent entry)) log t =
        (.error e, t')) :
    ∃ made : List Product, BuildsSome site root indent t entries made t' := by
  induction entries generalizing log t with
  | nil => cases h
  | cons entry entries ih =>
      rcases outcome_mapM_cons_eq_error.1 h with hentry | ⟨names, log₁, t₁, hentry, hentries⟩
      · rcases outcome_bind_eq_error.1 hentry with hfiles | ⟨files, log₁, t₁, hfiles, hmapM⟩
        · obtain rfl : t' = t := (still_databaseFiles entry root).outcome_snd hfiles
          exact ⟨[], .within List.nil_prefix (.nil t')⟩
        · obtain ⟨rfl, -, rfl⟩ := gives_databaseFiles entry root _ _ _ _ hfiles
          obtain ⟨made, hsome, hwrites⟩ := mapM_buildDatabase_partway hmapM
          exact ⟨made, .within hsome hwrites⟩
      · obtain ⟨files, log₂, t₂, hfiles, hmapM⟩ := outcome_bind_eq_ok.1 hentry
        obtain ⟨rfl, -, rfl⟩ := gives_databaseFiles entry root _ _ _ _ hfiles
        obtain ⟨made, hall, hwrites, -, -⟩ := mapM_buildDatabase_writes hmapM
        obtain ⟨rest, hbuilds⟩ := ih hentries
        exact ⟨made ++ rest, .cons hall hwrites hbuilds⟩

theorem buildDatabases_partway
    (h : outcome (buildDatabases site root indent entries) log t = (.error e, t')) :
    ∃ made : List Product, BuildsSome site root indent t entries made t' := by
  rcases outcome_bind_eq_error.1 h with hentries | ⟨names, log₁, t₁, hentries, hnote⟩
  · exact mapM_entries_partway hentries
  · cases hnote

theorem buildOwn_begins
    (h : outcome (buildOwn site config root) log t = (.error e, t')) :
    ∃ made, Begins site t [.config config root] made t' := by
  rcases outcome_bind_eq_error.1 h with hnote | ⟨u, log₁, t₁, hnote, h⟩
  · cases hnote
  cases hnote
  rcases outcome_bind_eq_error.1 h with hconfig | ⟨c, log₂, t₂, hconfig, hown⟩
  · obtain rfl : t' = t := (Still.attempt (still_readConfig (root.join config))).outcome_snd hconfig
    exact ⟨[], .stopped t' _⟩
  obtain ⟨hrun, -⟩ := outcome_attempt_eq_ok.1 hconfig
  obtain ⟨hread, rfl⟩ := readConfig_eq_ok.1 hrun
  -- What names the vendors comes behind the entries and looks at the configuration only.
  have hrest {log₃ : List Notice} {t₃ : FileTree}
      (h : outcome (do
        let vendors ← Attempt.ofExcept (m := StateM FileTree) .vendor c.vendorEntries
        return tasksOf site vendors) log₃ t₃ = (.error e, t')) : t' = t₃ :=
    ((Still.attempt (.ofExcept _ _)).bind fun vendors => .pure (tasksOf site vendors)).outcome_snd h
  dsimp only at hown
  split at hown
  · rcases outcome_bind_eq_error.1 hown with hentries | ⟨u, log₃, t₃, hentries, hthen⟩
    · obtain ⟨made, hsome⟩ := buildDatabases_partway hentries
      exact ⟨made, .within hread hsome⟩
    · obtain ⟨made, hbuilds, -⟩ := buildDatabases_builds hentries
      obtain rfl : t' = t₃ := hrest hthen
      exact ⟨made, .within hread hbuilds.some⟩
  · obtain rfl := hrest hown
    exact ⟨[], .stopped t' _⟩

theorem forM_perform_begins {depth : Nat}
    (hconfig : ∀ {config root : Path} {log : List Notice} {t t' : FileTree},
      outcome (buildConfig site depth config root) log t = (.error e, t') →
        ∃ made, Begins site t [.config config root] made t')
    (h : outcome (tasks.forM (perform site depth)) log t = (.error e, t')) :
    ∃ made, Begins site t tasks made t' := by
  induction tasks generalizing log t with
  | nil => cases h
  | cons task tasks ih =>
      rcases outcome_bind_eq_error.1 h with htask | ⟨u, log₁, t₁, htask, htasks⟩
      · cases task with
        | vendor name => cases htask
        | config config root =>
            obtain ⟨made, hbegins⟩ := hconfig htask
            exact ⟨made, hbegins.before tasks⟩
      · obtain ⟨later, hlater⟩ := ih htasks
        cases task with
        | vendor name =>
            cases htask
            exact ⟨later, .vendor hlater⟩
        | config config root =>
            obtain ⟨made, hmakes, -⟩ := buildConfig_makes htask
            exact ⟨made ++ later, hmakes.append_begins hlater⟩

/-- Wherever the build of a configuration ends, it has made scripts from the first on, each of a file
that an entry names. -/
theorem buildConfig_begins {depth : Nat} {r : Except Failure (Unit × List Notice)}
    (h : outcome (buildConfig site depth config root) log t = (r, t')) :
    ∃ made, Begins site t [.config config root] made t' := by
  rcases r with e | ⟨u, log'⟩
  · induction depth generalizing config root log t t' with
    | zero =>
        cases h
        exact ⟨[], .stopped t _⟩
    | succ depth ih =>
        rw [buildConfig_succ] at h
        rcases outcome_bind_eq_error.1 h with hown | ⟨tasks, log₁, t₁, hown, htasks⟩
        · exact buildOwn_begins hown
        · obtain ⟨c, vendors, made, hread, hbuilds, hvendors, rfl, -⟩ := buildOwn_builds hown
          obtain ⟨later, hlater⟩ := forM_perform_begins ih htasks
          refine ⟨made ++ later, .config hread hbuilds hvendors ?_⟩
          rw [List.append_nil]
          exact hlater
  · obtain ⟨made, hmakes, -⟩ := buildConfig_makes h
    exact ⟨made, hmakes.begins⟩

end Building

end SchemaScript.Project
