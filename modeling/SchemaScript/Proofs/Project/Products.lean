/- What a build makes: a script for each file that its configurations name, and what of it is left at
   the end. -/
import SchemaScript.Proofs.Files.Writing
import SchemaScript.Proofs.Project.Tasks

namespace SchemaScript.Project

def Notice.scripts : Notice → List Text
  | .generated names => names
  | _ => []

/-- The names of the scripts that a log tells of. -/
def scriptsIn (log : List Notice) : List Text := log.flatMap Notice.scripts

theorem scriptsIn_append (log later : List Notice) :
    scriptsIn (log ++ later) = scriptsIn log ++ scriptsIn later := List.flatMap_append

/-- A script that a build makes of a file, for an entry of a configuration, and the files as they were
when it was made. -/
structure Product where
  root : Path
  indent : Option Int
  entry : DatabaseEntry
  file : Path
  tree : FileTree

namespace Product

def name (p : Product) : Text := (Path.fileStem? p.file).getD [] ++ ".sql".toList

/-- What is put behind a script for a file of its own, if that can be read. -/
def postSection (t : FileTree) (root post : Path) : Text :=
  match t.text? (root.join post) with
  | some content => Building.postSection ((root.join post).fileName?.getD post) content
  | none => []

/-- The script of the schema in the file, and behind it the files of the entry in their order. -/
def content? (time : Timestamp) (p : Product) : Option Text := do
  let source ← p.tree.text? p.file
  let schema ← (Schema.ofText source).toOption
  return Script.render time (Script.resolveIndent p.indent) schema ++
    p.entry.post.flatMap (postSection p.tree p.root)

end Product

/-- The files that an entry names: those that match its pattern, or the one at its path. -/
def DatabaseEntry.filesIn (t : FileTree) (root : Path) (entry : DatabaseEntry) : List Path :=
  let path := root.join entry.path
  if Glob.isPattern entry.path then
    (((Glob.expand (m := StateM FileTree) (Glob.withSlashes path)).run t).1.toOption.getD []).filter
      fun p => t.kind? p == some .file
  else if t.kind? path == some .file then [path]
  else []

/-- Scripts that are made one after the other, each from the files that the ones before it left. -/
inductive Writes (site : Site) : FileTree → List Product → FileTree → Prop
  | nil (t : FileTree) : Writes site t [] t
  | cons {p : Product} {content : Text} {later : List Product} {t t' : FileTree}
      (named : p.file.fileStem?.isSome = true) (made : p.content? site.time = some content)
      (written : p.tree.write (site.output.join p.name) (Utf8.encode content) = .ok t)
      (rest : Writes site t later t') : Writes site p.tree (p :: later) t'

/-- The scripts of the entries of a configuration: one for each file that each entry names. -/
inductive Builds (site : Site) (root : Path) (indent : Option Int) :
    FileTree → List DatabaseEntry → List Product → FileTree → Prop
  | nil (t : FileTree) : Builds site root indent t [] [] t
  | cons {entry : DatabaseEntry} {entries : List DatabaseEntry} {made later : List Product}
      {t t' t'' : FileTree}
      (all : made.map (fun p => (p.root, p.indent, p.entry, p.file)) =
        (entry.filesIn t root).map fun file => (root, indent, entry, file))
      (written : Writes site t made t') (rest : Builds site root indent t' entries later t'') :
      Builds site root indent t (entry :: entries) (made ++ later) t''

/-- The scripts of a build: those of the entries of each configuration, and then those that its vendors
lead to. -/
inductive Makes (site : Site) : FileTree → List Task → List Product → FileTree → Prop
  | nil (t : FileTree) : Makes site t [] [] t
  | vendor {name : Text} {tasks : List Task} {made : List Product} {t t' : FileTree}
      (rest : Makes site t tasks made t') : Makes site t (.vendor name :: tasks) made t'
  | config {config root : Path} {c : Config} {vendors : List Vendor} {tasks : List Task}
      {made later : List Product} {t t' t'' : FileTree}
      (read : (t.text? (root.join config)).bind Config.read? = some c)
      (own : Builds site root c.indent t (c.databases.getD []) made t')
      (named : c.vendorEntries = .ok vendors)
      (rest : Makes site t' (Building.tasksOf site vendors ++ tasks) later t'') :
      Makes site t (.config config root :: tasks) (made ++ later) t''

variable {site : Site} {root config : Path} {indent : Option Int} {entry : DatabaseEntry}
  {log log' : List Notice} {t t' t'' : FileTree} {made later : List Product}

theorem Writes.append (h : Writes site t made t') (h' : Writes site t' later t'') :
    Writes site t (made ++ later) t'' := by
  induction h with
  | nil => exact h'
  | cons named made written _ ih => exact .cons named made written (ih h')

theorem Builds.writes {entries : List DatabaseEntry} (h : Builds site root indent t entries made t') :
    Writes site t made t' := by
  induction h with
  | nil => exact .nil _
  | cons _ written _ ih => exact written.append ih

theorem Makes.writes {tasks : List Task} (h : Makes site t tasks made t') :
    Writes site t made t' := by
  induction h with
  | nil => exact .nil _
  | vendor _ ih => exact ih
  | config _ own _ _ ih => exact own.writes.append ih

theorem Makes.append {tasks tasks' : List Task} (h : Makes site t tasks made t')
    (h' : Makes site t' tasks' later t'') : Makes site t (tasks ++ tasks') (made ++ later) t'' := by
  induction h with
  | nil => exact h'
  | vendor _ ih => exact .vendor (ih h')
  | config read own named _ ih =>
      have rest := ih h'
      rw [List.append_assoc] at rest ⊢
      exact .config read own named rest

namespace Building

/-- A part of a build that makes no script, leaves the files as they are and gives a known answer. -/
def Gives {α : Type} (x : Building (StateM FileTree) α) (t : FileTree) (a : α) : Prop :=
  ∀ log b log' t', outcome x log t = (.ok (b, log'), t') →
    b = a ∧ scriptsIn log' = scriptsIn log ∧ t' = t

theorem Gives.pure {α : Type} (a : α) : Gives (pure a) t a := by
  intro log b log' t' h
  cases h
  exact ⟨rfl, rfl, rfl⟩

theorem Gives.bind {α β : Type} {x : Building (StateM FileTree) α}
    {f : α → Building (StateM FileTree) β} {a : α} {b : β} (hx : Gives x t a) (hf : Gives (f a) t b) :
    Gives (x >>= f) t b := by
  intro log c log' t' h
  obtain ⟨a', log₁, t₁, hx', hf'⟩ := outcome_bind_eq_ok.1 h
  obtain ⟨rfl, hlog₁, rfl⟩ := hx _ _ _ _ hx'
  obtain ⟨rfl, hlog', rfl⟩ := hf _ _ _ _ hf'
  exact ⟨rfl, hlog'.trans hlog₁, rfl⟩

theorem Gives.mapM {α β : Type} {f : α → Building (StateM FileTree) β} {g : α → β}
    (hf : ∀ a, Gives (f a) t (g a)) (l : List α) : Gives (l.mapM f) t (l.map g) := by
  induction l with
  | nil => exact .pure []
  | cons a l ih =>
      rw [List.mapM_cons]
      exact (hf a).bind (ih.bind (.pure _))

theorem Gives.note {n : Notice} (h : n.scripts = []) : Gives (note n) t () := by
  intro log b log' t' hnote
  cases hnote
  exact ⟨rfl, by simp [scriptsIn, h], rfl⟩

theorem Gives.looks {α : Type} {x : StateM FileTree α} (h : Looks x) :
    Gives (liftM x) t (x.run t).1 := by
  intro log b log' t' hx
  rw [outcome_liftM, h.run] at hx
  cases hx
  exact ⟨rfl, rfl, rfl⟩

/-- Asking of each path whether a file is there picks the paths of files. -/
theorem Gives.filterM {α : Type} {f : α → Building (StateM FileTree) Bool} {g : α → Bool}
    (hf : ∀ a, Gives (f a) t (g a)) (l : List α) : Gives (l.filterM f) t (l.filter g) := by
  have haux (l kept : List α) :
      Gives (l.filterAuxM f kept) t ((l.filter g).reverse ++ kept) := by
    induction l generalizing kept with
    | nil => exact .pure kept
    | cons a l ih =>
        refine (hf a).bind ?_
        rw [List.filter_cons]
        cases g a with
        | true => simpa using ih (a :: kept)
        | false => exact ih kept
  have hreverse : (l.filter g) = ((l.filter g).reverse ++ []).reverse := by simp
  rw [hreverse]
  exact (haux l []).bind (.pure _)

theorem gives_postText (root : Path) (posts : List Path) :
    Gives (postText root posts) t (posts.flatMap (Product.postSection t root)) := by
  rw [List.flatMap_def]
  refine (Gives.mapM (fun post => ?_) posts).bind (.pure _)
  refine (Gives.looks (Files.looks_readText (root.join post))).bind ?_
  have htext := Files.toOption_readText (root.join post) t
  unfold Product.postSection
  rw [← htext]
  cases ((Files.readText (m := StateM FileTree) (root.join post)).run t).1 with
  | ok content => exact .pure _
  | error e => exact (Gives.note rfl).bind (.pure _)

theorem gives_expandPattern (pattern : Path) :
    Gives (liftM (expandPattern (m := StateM FileTree) pattern)) t
      (((Glob.expand (m := StateM FileTree) (Glob.withSlashes pattern)).run t).1.toOption.getD []) := by
  intro log b log' t' h
  obtain ⟨hrun, hlog⟩ := outcome_attempt_eq_ok.1 h
  have hexpand : (expandPattern (m := StateM FileTree) pattern).run.run t =
      (Attempt.ofExcept (m := StateM FileTree) (.pattern (Glob.withSlashes pattern))
        ((Glob.expand (m := StateM FileTree) (Glob.withSlashes pattern)).run t).1).run.run
          ((Glob.expand (m := StateM FileTree) (Glob.withSlashes pattern)).run t).2 := rfl
  rw [hexpand, Glob.looks_expand] at hrun
  cases hfound : ((Glob.expand (m := StateM FileTree) (Glob.withSlashes pattern)).run t).1 with
  | error e =>
      rw [hfound] at hrun
      cases hrun
  | ok found =>
      rw [hfound] at hrun
      cases hrun
      exact ⟨rfl, by rw [hlog], rfl⟩

theorem gives_databaseFiles (entry : DatabaseEntry) (root : Path) :
    Gives (databaseFiles entry root) t (entry.filesIn t root) := by
  unfold databaseFiles DatabaseEntry.filesIn
  refine (Gives.looks (fun _ => rfl)).bind ?_
  rw [Files.isFile_run]
  have hnote (files : List Path) : Gives
      (if files.isEmpty then do
        note (m := StateM FileTree) (.databaseMissing (root.join entry.path))
        return files
      else return files) t files := by
    split
    · exact (Gives.note rfl).bind (.pure files)
    · exact .pure files
  dsimp only
  split
  · have hisFile (p : Path) : Gives (liftM (Files.isFile (m := StateM FileTree) p)) t
        (t.kind? p == some .file) := Gives.looks fun _ => rfl
    exact (gives_expandPattern _).bind ((Gives.filterM hisFile _).bind (hnote _))
  · split
    · exact (Gives.pure _).bind (hnote _)
    · exact (Gives.pure _).bind (hnote _)

theorem change_eq_ok {f : FileTree → Except FileError FileTree} :
    (FileTree.change f).run t = (.ok (), t') ↔ f t = .ok t' := by
  have hrun : (FileTree.change f).run t = FileTree.change f t := rfl
  rw [hrun]
  unfold FileTree.change
  cases f t with
  | error e =>
      constructor
      · intro h
        cases h
      · intro h
        cases h
  | ok next =>
      constructor
      · intro h
        cases h
        rfl
      · intro h
        cases h
        rfl

theorem writeText_eq_ok {p : Path} {text : Text} :
    (Files.writeText (m := StateM FileTree) p text).run t = (.ok (), t') ↔
      t.write p (Utf8.encode text) = .ok t' :=
  change_eq_ok

/-- A database that is built has its script written, under the name that is given back. -/
theorem buildDatabase_writes {file : Path} {name : Text}
    (h : outcome (buildDatabase site root indent entry file) log t = (.ok (name, log'), t')) :
    name = (Product.mk root indent entry file t).name ∧ scriptsIn log' = scriptsIn log ∧
      Writes site t [⟨root, indent, entry, file, t⟩] t' := by
  unfold buildDatabase at h
  obtain ⟨source, log₁, t₁, hsource, h⟩ := outcome_bind_eq_ok.1 h
  obtain ⟨hsource, hlog₁⟩ := outcome_attempt_eq_ok.1 hsource
  obtain ⟨htext, -, ht₁⟩ := readSource_eq_ok.1 hsource
  rw [hlog₁, ht₁] at h
  obtain ⟨schema, log₂, t₂, hschema, h⟩ := outcome_bind_eq_ok.1 h
  obtain ⟨hschema, hlog₂, ht₂⟩ := outcome_ofExcept_eq_ok.1 hschema
  rw [hlog₂, ht₂] at h
  obtain ⟨post, log₃, t₃, hpost, h⟩ := outcome_bind_eq_ok.1 h
  obtain ⟨hpost, hlog₃, ht₃⟩ := gives_postText root entry.post _ _ _ _ hpost
  rw [ht₃] at h
  -- Only now the name is looked at: a document without one is read before it is refused.
  cases hstem : Path.fileStem? file with
  | none =>
      rw [hstem] at h
      cases h
  | some stem =>
      rw [hstem] at h
      obtain ⟨u, log₄, t₄, hwrite, h⟩ := outcome_bind_eq_ok.1 h
      obtain ⟨hwritten, hlog₄⟩ := outcome_orFail_eq_ok.1 hwrite
      cases h
      have hname : (Product.mk root indent entry file t).name = stem ++ ".sql".toList := by
        rw [Product.name, hstem]
        rfl
      have hcontent : (Product.mk root indent entry file t).content? site.time =
          some (Script.render site.time (Script.resolveIndent indent) schema ++ post) := by
        simp [Product.content?, htext, hschema, hpost, Except.toOption]
      refine ⟨hname.symm, by rw [hlog₄, hlog₃], ?_⟩
      refine .cons (p := ⟨root, indent, entry, file, t⟩) (by simp [hstem]) hcontent ?_ (.nil t')
      rw [hname]
      exact writeText_eq_ok.1 hwritten

theorem mapM_buildDatabase_writes {files : List Path} {names : List Text}
    (h : outcome (files.mapM (buildDatabase site root indent entry)) log t = (.ok (names, log'), t')) :
    ∃ made : List Product,
      made.map (fun p => (p.root, p.indent, p.entry, p.file)) =
          files.map (fun file => (root, indent, entry, file)) ∧
        Writes site t made t' ∧ names = made.map Product.name ∧ scriptsIn log' = scriptsIn log := by
  induction files generalizing log t names with
  | nil =>
      cases h
      exact ⟨[], rfl, .nil _, rfl, rfl⟩
  | cons file files ih =>
      obtain ⟨name, log₁, t₁, hfile, later, hfiles, rfl⟩ := outcome_mapM_cons_eq_ok.1 h
      obtain ⟨rfl, hlog₁, hwrites⟩ := buildDatabase_writes hfile
      obtain ⟨made, hall, hlater, rfl, hlog'⟩ := ih hfiles
      refine ⟨⟨root, indent, entry, file, t⟩ :: made, ?_, hwrites.append hlater, rfl,
        hlog'.trans hlog₁⟩
      rw [List.map_cons, List.map_cons, hall]

theorem mapM_entries_builds {entries : List DatabaseEntry} {names : List (List Text)}
    (h : outcome (entries.mapM fun entry => do
      (← databaseFiles entry root).mapM (buildDatabase site root indent entry)) log t =
        (.ok (names, log'), t')) :
    ∃ made : List Product, Builds site root indent t entries made t' ∧
      names.flatten = made.map Product.name ∧ scriptsIn log' = scriptsIn log := by
  induction entries generalizing log t names with
  | nil =>
      cases h
      exact ⟨[], .nil _, rfl, rfl⟩
  | cons entry entries ih =>
      obtain ⟨these, log₁, t₁, hentry, later, hentries, rfl⟩ := outcome_mapM_cons_eq_ok.1 h
      obtain ⟨files, log₂, t₂, hfiles, hmapM⟩ := outcome_bind_eq_ok.1 hentry
      obtain ⟨rfl, hlog₂, rfl⟩ := gives_databaseFiles entry root _ _ _ _ hfiles
      obtain ⟨made, hall, hwrites, rfl, hlog₁⟩ := mapM_buildDatabase_writes hmapM
      obtain ⟨rest, hbuilds, hnames, hlog'⟩ := ih hentries
      refine ⟨made ++ rest, .cons hall hwrites hbuilds, ?_, hlog'.trans (hlog₁.trans hlog₂)⟩
      rw [List.flatten_cons, List.map_append, hnames]

theorem buildDatabases_builds {entries : List DatabaseEntry} {u : Unit}
    (h : outcome (buildDatabases site root indent entries) log t = (.ok (u, log'), t')) :
    ∃ made : List Product, Builds site root indent t entries made t' ∧
      scriptsIn log' = scriptsIn log ++ made.map Product.name := by
  obtain ⟨names, log₁, t₁, hentries, hnote⟩ := outcome_bind_eq_ok.1 h
  obtain ⟨made, hbuilds, hnames, hlog₁⟩ := mapM_entries_builds hentries
  cases hnote
  refine ⟨made, hbuilds, ?_⟩
  rw [scriptsIn_append, hlog₁, ← hnames]
  simp [scriptsIn, Notice.scripts]

/-- What building a configuration does by itself: the scripts of its entries. -/
theorem buildOwn_builds {tasks : List Task}
    (h : outcome (buildOwn site config root) log t = (.ok (tasks, log'), t')) :
    ∃ c vendors made, (t.text? (root.join config)).bind Config.read? = some c ∧
      Builds site root c.indent t (c.databases.getD []) made t' ∧
        c.vendorEntries = .ok vendors ∧ tasks = tasksOf site vendors ∧
          scriptsIn log' = scriptsIn log ++ made.map Product.name := by
  obtain ⟨u, log₁, t₁, hnote, h⟩ := outcome_bind_eq_ok.1 h
  cases hnote
  obtain ⟨c, log₂, t₂, hconfig, hown⟩ := outcome_bind_eq_ok.1 h
  obtain ⟨hrun, hlog₂⟩ := outcome_attempt_eq_ok.1 hconfig
  obtain ⟨hread, rfl⟩ := readConfig_eq_ok.1 hrun
  have hsilent : scriptsIn (log ++ [.config (root.join config)]) = scriptsIn log := by
    simp [scriptsIn, Notice.scripts]
  have hrest {log₃ : List Notice} {t₃ : FileTree}
      (h : outcome (do
        let vendors ← Attempt.ofExcept (m := StateM FileTree) .vendor c.vendorEntries
        return tasksOf site vendors) log₃ t₃ = (.ok (tasks, log'), t')) :
      ∃ vendors, c.vendorEntries = .ok vendors ∧ tasks = tasksOf site vendors ∧
        log' = log₃ ∧ t' = t₃ := by
    obtain ⟨vendors, log₄, t₄, hvendors, htasks⟩ := outcome_bind_eq_ok.1 h
    obtain ⟨hnamed, rfl, rfl⟩ := outcome_ofExcept_eq_ok.1 hvendors
    cases htasks
    exact ⟨vendors, hnamed, rfl, rfl, rfl⟩
  subst hlog₂
  dsimp only at hown
  split at hown
  · obtain ⟨u, log₃, t₃, hentries, hthen⟩ := outcome_bind_eq_ok.1 hown
    obtain ⟨made, hbuilds, hlog₃⟩ := buildDatabases_builds hentries
    obtain ⟨vendors, hvendors, htasks, rfl, rfl⟩ := hrest hthen
    exact ⟨c, vendors, made, hread, hbuilds, hvendors, htasks, by rw [hlog₃, hsilent]⟩
  · next hempty =>
    have hnone : c.databases.getD [] = [] := by simpa using hempty
    obtain ⟨vendors, hvendors, htasks, rfl, rfl⟩ := hrest hown
    refine ⟨c, vendors, [], hread, ?_, hvendors, htasks, by simp [hsilent]⟩
    rw [hnone]
    exact .nil _

theorem forM_perform_makes {depth : Nat} {tasks : List Task} {u : Unit}
    (hconfig : ∀ {config root : Path} {log log' : List Notice} {t t' : FileTree} {u : Unit},
      outcome (buildConfig site depth config root) log t = (.ok (u, log'), t') →
        ∃ made, Makes site t [.config config root] made t' ∧
          scriptsIn log' = scriptsIn log ++ made.map Product.name)
    (h : outcome (tasks.forM (perform site depth)) log t = (.ok (u, log'), t')) :
    ∃ made, Makes site t tasks made t' ∧
      scriptsIn log' = scriptsIn log ++ made.map Product.name := by
  induction tasks generalizing log t with
  | nil =>
      cases h
      exact ⟨[], .nil _, (List.append_nil _).symm⟩
  | cons task tasks ih =>
      obtain ⟨u, log₁, t₁, htask, htasks⟩ := outcome_bind_eq_ok.1 h
      obtain ⟨later, hlater, hlog'⟩ := ih htasks
      cases task with
      | vendor name =>
          cases htask
          refine ⟨later, .vendor hlater, ?_⟩
          rw [hlog']
          simp [scriptsIn, Notice.scripts]
      | config config root =>
          obtain ⟨made, hmakes, hlog₁⟩ := hconfig htask
          refine ⟨made ++ later, hmakes.append hlater, ?_⟩
          rw [hlog', hlog₁, List.map_append, List.append_assoc]

/-- A build of a configuration makes what its entries and its vendors lead to, and the log tells the
names. -/
theorem buildConfig_makes {depth : Nat} {u : Unit}
    (h : outcome (buildConfig site depth config root) log t = (.ok (u, log'), t')) :
    ∃ made, Makes site t [.config config root] made t' ∧
      scriptsIn log' = scriptsIn log ++ made.map Product.name := by
  induction depth generalizing config root log log' t t' u with
  | zero => cases h
  | succ depth ih =>
      rw [buildConfig_succ] at h
      obtain ⟨tasks, log₁, t₁, hown, htasks⟩ := outcome_bind_eq_ok.1 h
      obtain ⟨c, vendors, made, hread, hbuilds, hvendors, rfl, hlog₁⟩ := buildOwn_builds hown
      obtain ⟨later, hlater, hlog'⟩ := forM_perform_makes ih htasks
      refine ⟨made ++ later, .config hread hbuilds hvendors ?_, ?_⟩
      · rw [List.append_nil]
        exact hlater
      · rw [hlog', hlog₁, List.map_append, List.append_assoc]

end Building

end SchemaScript.Project
