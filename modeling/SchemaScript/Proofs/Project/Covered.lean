/- What a check covers: the documents below a directory, each of them once and in the order of the
   paths. -/
import SchemaScript.Proofs.Files.Below
import SchemaScript.Proofs.Project.Partway

namespace SchemaScript

open FileTree SchemaScript.Path Glob

variable {t : FileTree} {p q : Path} {l : Location} {names : List Text}

theorem FileTree.mem_below : names ∈ t.below l ↔ names ≠ [] ∧ ∃ e, (l ++ names, e) ∈ t.entries := by
  unfold below
  simp only [List.mem_map, List.mem_filter, Bool.and_eq_true, List.isPrefixOf_iff_prefix,
    decide_eq_true_eq]
  constructor
  · rintro ⟨⟨k, e⟩, ⟨hmem, ⟨rest, rfl⟩, hlength⟩, rfl⟩
    rw [List.drop_left]
    refine ⟨?_, e, hmem⟩
    rintro rfl
    rw [List.append_nil] at hlength
    exact Nat.lt_irrefl _ hlength
  · rintro ⟨hne, e, hmem⟩
    refine ⟨(l ++ names, e), ⟨hmem, List.prefix_append l names, ?_⟩, List.drop_left⟩
    rw [List.length_append]
    exact Nat.lt_add_of_pos_right (List.length_pos_iff.2 hne)

namespace Project

/-- Names that lead to something with the ending of a document. -/
def Lookalike (names : List Text) : Prop :=
  ∃ ending ∈ documentEndings, ∃ name, names.getLast? = some name ∧ '.' :: ending <:+ name

/-- Names that lead from a directory to a file with the ending of a document. -/
def IsDocument (t : FileTree) (l : Location) (names : List Text) : Prop :=
  names ∈ t.below l ∧ Lookalike names ∧ ∃ content, t.entry? (l ++ names) = some (.file content)

/-- A report has a finding for each document below a directory, and for nothing else. -/
structure Covers (t : FileTree) (l : Location) (report : Report) : Prop where
  only : ∀ finding ∈ report.findings, ∃ names, IsDocument t l names ∧
    t.locate finding.1 = .ok (l ++ names)
  each : ∀ names, IsDocument t l names → ∃ finding ∈ report.findings,
    t.locate finding.1 = .ok (l ++ names)
  once : report.findings.Pairwise fun finding other => t.locate finding.1 ≠ t.locate other.1
  inOrder : report.findings.Pairwise fun finding other => Path.le finding.1 other.1 = true
  verdict : ∀ finding ∈ report.findings, ∃ text, t.text? finding.1 = some text ∧
    ((∃ schema, Schema.ofText text = .ok schema) ∧ finding.2 = none ∨
      ∃ fault, Schema.ofText text = .error fault ∧ finding.2 = some fault)

/-- What a search below a directory finds that has the ending of a document. -/
def foundIn (t : FileTree) (l : Location) (q : Path) : List Path :=
  withoutRepeats (sort (documentEndings.map fun ending =>
    sort (((t.below l).filter (endsIn ending)).map fun names => names.foldl within q)).flatten)

theorem expandPattern_run {pattern : Path} {found : List Path} {t' : FileTree}
    (h : (Glob.expand (m := StateM FileTree) (Glob.withSlashes pattern)).run t = (.ok found, t')) :
    (expandPattern (m := StateM FileTree) pattern).run.run t = (.ok found, t') := by
  have hrun : (expandPattern (m := StateM FileTree) pattern).run.run t =
      (Attempt.ofExcept (m := StateM FileTree) (.pattern (Glob.withSlashes pattern))
        ((Glob.expand (m := StateM FileTree) (Glob.withSlashes pattern)).run t).1).run.run
          ((Glob.expand (m := StateM FileTree) (Glob.withSlashes pattern)).run t).2 := rfl
  rw [hrun, h]
  rfl

theorem withSlashes_eq {u : Text} (h : '\\' ∉ u) : Glob.withSlashes u = u := by
  have hkept : ∀ c ∈ u, (if c = '\\' then '/' else c) = id c := by
    intro c hc
    rw [if_neg]
    · rfl
    · rintro rfl
      exact h hc
  exact (List.map_congr_left hkept).trans (List.map_id u)

theorem Attempt.mapM_run_eq_ok {α β : Type} {f : α → Attempt (StateM FileTree) β} {g : α → β}
    {as : List α} (h : ∀ a ∈ as, (f a).run.run t = (.ok (g a), t)) :
    (as.mapM f).run.run t = (.ok (as.map g), t) := by
  induction as with
  | nil => rfl
  | cons a as ih =>
      obtain ⟨ha, has⟩ := List.forall_mem_cons.1 h
      rw [List.mapM_cons, run_bind_eq_ok]
      refine ⟨g a, t, ha, run_bind_eq_ok.2 ⟨as.map g, t, ih has, rfl⟩⟩

theorem plain_of_mem_documentEndings {ending : Text} (h : ending ∈ documentEndings) :
    Plain ending ∧ '/' ∉ ending ∧ '\\' ∉ ending := by
  have hall : documentEndings.all (fun ending => !Glob.isPattern ending && !ending.contains '/' &&
      !ending.contains '\\') = true := by decide
  have hone := List.all_eq_true.1 hall ending h
  simpa [Plain, and_assoc] using hone

theorem withSlashes_documentPattern (hp : p ≠ []) (hback : '\\' ∉ p) {ending : Text}
    (hending : ending ∈ documentEndings) :
    Glob.withSlashes (documentPattern p ending) = deepPattern p ending := by
  obtain ⟨-, -, hending⟩ := plain_of_mem_documentEndings hending
  have hjoin : documentPattern p ending = deepPattern p ending := join_eq hp rfl
  rw [hjoin]
  refine withSlashes_eq fun hmem => ?_
  rcases List.mem_append.1 hmem with hmem | hmem
  · rcases List.mem_append.1 ((slashed_sublist p).subset hmem) with hmem | hmem
    · exact hback hmem
    · exact absurd (List.mem_singleton.1 hmem) (by decide)
  · rcases List.mem_append.1 hmem with hmem | hmem
    · exact absurd hmem (by decide)
    · exact hending hmem

/-- The documents in a plain directory are what a search with each ending finds. -/
theorem documentsIn_run (h : t.locate p = .ok l) (hl : t.entry? l = some .directory)
    (hplain : Plain p) (hback : '\\' ∉ p) (hfits : Fits (slashed p)) :
    (documentsIn (m := StateM FileTree) p).run.run t =
      (.ok (if stumbles p then [] else foundIn t l (spot p)), t) := by
  have hp : p ≠ [] := (FileTree.locate_eq_ok.1 h).1
  unfold documentsIn
  rw [Attempt.run_bind_eq_ok]
  cases hstumbles : stumbles p with
  | true =>
      have hrelative : p.isAbsolute = false := by
        unfold isAbsolute
        split
        · cases hstumbles
        · rfl
      have hstraight : straight (lead p) = false := by
        rw [straight_lead hp hrelative, hstumbles]
        rfl
      refine ⟨documentEndings.map fun _ => [], t, Attempt.mapM_run_eq_ok fun ending hending => ?_, ?_⟩
      · obtain ⟨hplain', hslash, -⟩ := plain_of_mem_documentEndings hending
        apply expandPattern_run
        rw [withSlashes_documentPattern hp hback hending]
        exact expand_run_nil hp hplain hrelative hstraight hplain' hslash
      · have hsort : sort [] = [] := List.mergeSort_nil
        exact congrArg (fun paths => (Except.ok (withoutRepeats paths), t)) hsort
  | false =>
      refine ⟨_, t, Attempt.mapM_run_eq_ok fun ending hending => ?_, rfl⟩
      obtain ⟨hplain', hslash, -⟩ := plain_of_mem_documentEndings hending
      apply expandPattern_run
      rw [withSlashes_documentPattern hp hback hending]
      refine expand_run h hl hplain (fun hrelative => ?_) hfits hplain' hslash
      rw [straight_lead hp hrelative, hstumbles]
      rfl

/-- A tree in which names are names: none of them is empty, a dot, two dots, or has a slash in it. -/
def Named (t : FileTree) : Prop := ∀ e ∈ t.entries, ∀ name ∈ e.1, IsName name

instance (name : Text) : Decidable (IsName name) :=
  decidable_of_iff (name ≠ [] ∧ name ≠ ['.'] ∧ name ≠ ['.', '.'] ∧ '/' ∉ name)
    ⟨fun ⟨hne, hdot, hdots, hslash⟩ => ⟨hne, hdot, hdots, hslash⟩,
      fun h => ⟨h.ne_nil, h.ne_dot, h.ne_dots, h.no_slash⟩⟩

instance (t : FileTree) : Decidable (Named t) :=
  inferInstanceAs (Decidable (∀ e ∈ t.entries, ∀ name ∈ e.1, IsName name))

theorem Named.below (hnamed : Named t) (h : names ∈ t.below l) :
    names ≠ [] ∧ ∀ name ∈ names, IsName name := by
  obtain ⟨hne, e, hmem⟩ := mem_below.1 h
  exact ⟨hne, fun name hname => hnamed _ hmem name (List.mem_append_right l hname)⟩

theorem lookalike_iff : Lookalike names ↔ ∃ ending ∈ documentEndings, endsIn ending names = true := by
  simp only [Lookalike, endsIn_iff]

instance (names : List Text) : Decidable (Lookalike names) :=
  decidable_of_iff (∃ ending ∈ documentEndings, endsIn ending names = true) lookalike_iff.symm

instance (e : Option Entry) : Decidable (∃ content, e = some (.file content)) :=
  match e with
  | some (.file content) => .isTrue ⟨content, rfl⟩
  | none | some .directory | some .sink => .isFalse (by simp)

instance (t : FileTree) (l : Location) (names : List Text) : Decidable (IsDocument t l names) :=
  inferInstanceAs (Decidable (_ ∧ _ ∧ _))

theorem mem_found : q ∈ (documentEndings.map fun ending =>
      sort (((t.below l).filter (endsIn ending)).map fun names => names.foldl within p)).flatten ↔
    ∃ names ∈ t.below l, Lookalike names ∧ names.foldl within p = q := by
  simp only [List.mem_flatten, List.mem_map, lookalike_iff]
  constructor
  · rintro ⟨_, ⟨ending, hending, rfl⟩, hq⟩
    obtain ⟨names, hnames, rfl⟩ := List.mem_map.1 (mem_sort.1 hq)
    obtain ⟨hbelow, hends⟩ := List.mem_filter.1 hnames
    exact ⟨names, hbelow, ⟨ending, hending, hends⟩, rfl⟩
  · rintro ⟨names, hbelow, ⟨ending, hending, hends⟩, rfl⟩
    refine ⟨_, ⟨ending, hending, rfl⟩, mem_sort.2 ?_⟩
    exact List.mem_map_of_mem (List.mem_filter.2 ⟨hbelow, hends⟩)

/-- What is found is exactly the path of each that has the ending, once and in order. -/
theorem foundIn_spec (hnamed : Named t) (hq : Ready p) :
    (∀ q, q ∈ foundIn t l p ↔ ∃ names ∈ t.below l, Lookalike names ∧ names.foldl within p = q) ∧
      (foundIn t l p).Pairwise (fun q r => Path.le q r = true ∧ same q r = false) := by
  have hsorted := sort_pairwise (documentEndings.map fun ending =>
    sort (((t.below l).filter (endsIn ending)).map fun names => names.foldl within p)).flatten
  obtain ⟨hsub, hall, hapart⟩ := withoutRepeats_spec hsorted
  refine ⟨fun q => ⟨fun h => mem_found.1 (mem_sort.1 (hsub.subset h)), ?_⟩,
    (hsorted.sublist hsub).and hapart⟩
  rintro ⟨names, hbelow, hlook, rfl⟩
  obtain ⟨r, hr, hsame⟩ := hall _ (mem_sort.2 (mem_found.2 ⟨names, hbelow, hlook, rfl⟩))
  obtain ⟨more, hmore, -, rfl⟩ := mem_found.1 (mem_sort.1 (hsub.subset hr))
  obtain ⟨hne, hnames⟩ := hnamed.below hbelow
  obtain ⟨hne', hnames'⟩ := hnamed.below hmore
  rw [← foldl_within_inj hq hne' hnames' hne hnames hsame]
  exact hr

theorem mapM_readSource_eq_ok {paths : List Path} {sources : List Source} {t' : FileTree} :
    (paths.mapM (readSource (m := StateM FileTree))).run.run t = (.ok sources, t') ↔
      sources.map Source.path = paths ∧ (∀ s ∈ sources, t.text? s.path = some s.content) ∧ t' = t := by
  induction paths generalizing sources t' with
  | nil =>
      constructor
      · intro h
        cases h
        exact ⟨rfl, fun s hs => (List.not_mem_nil hs).elim, rfl⟩
      · rintro ⟨hpaths, -, rfl⟩
        rw [List.map_eq_nil_iff] at hpaths
        subst hpaths
        rfl
  | cons path paths ih =>
      rw [List.mapM_cons, Attempt.run_bind_eq_ok]
      simp only [Attempt.run_bind_eq_ok, readSource_eq_ok]
      constructor
      · rintro ⟨s, _, ⟨htext, rfl, rfl⟩, rest, _, hrest, h⟩
        obtain ⟨rfl, hall, rfl⟩ := ih.1 hrest
        cases h
        exact ⟨rfl, List.forall_mem_cons.2 ⟨htext, hall⟩, rfl⟩
      · rintro ⟨hpaths, hall, rfl⟩
        obtain ⟨s, rest, rfl, rfl, rfl⟩ := List.map_eq_cons_iff.1 hpaths
        obtain ⟨htext, hall⟩ := List.forall_mem_cons.1 hall
        exact ⟨s, t', ⟨htext, rfl, rfl⟩, rest, t', ih.2 ⟨rfl, hall, rfl⟩, rfl⟩

/-- A check of a directory reads all that is found before it says something of it. -/
theorem check_eq_ok {paths : List Path} {report : Report} {t' : FileTree}
    (hkind : t.kind? p = some .directory)
    (hdocuments : (documentsIn (m := StateM FileTree) p).run.run t = (.ok paths, t)) :
    (check (m := StateM FileTree) p).run.run t = (.ok report, t') ↔
      ∃ sources : List Source, sources.map Source.path = paths ∧
        (∀ s ∈ sources, t.text? s.path = some s.content) ∧ sources ≠ [] ∧
          report = .ofSources sources ∧ t' = t := by
  have hsources {sources : List Source} {t₁ : FileTree} :
      (readSources (m := StateM FileTree) p).run.run t = (.ok sources, t₁) ↔
        sources.map Source.path = paths ∧ (∀ s ∈ sources, t.text? s.path = some s.content) ∧
          t₁ = t := by
    have hask : (liftM (FileSystem.kind? (m := StateM FileTree) p) :
        Attempt (StateM FileTree) (Option FileKind)).run.run t = (.ok (t.kind? p), t) := rfl
    unfold readSources
    rw [Attempt.run_bind, hask, hkind]
    dsimp only
    rw [Attempt.run_bind, hdocuments]
    exact mapM_readSource_eq_ok
  unfold check
  rw [Attempt.run_bind_eq_ok]
  simp only [hsources]
  constructor
  · rintro ⟨sources, _, ⟨hpaths, hall, rfl⟩, h⟩
    cases sources with
    | nil => cases h
    | cons s rest =>
        cases h
        exact ⟨s :: rest, hpaths, hall, List.cons_ne_nil s rest, rfl, rfl⟩
  · rintro ⟨sources, hpaths, hall, hne, rfl, rfl⟩
    obtain ⟨s, rest, rfl⟩ := List.exists_cons_of_ne_nil hne
    exact ⟨s :: rest, t', ⟨hpaths, hall, rfl⟩, rfl⟩

theorem findings_paths (sources : List Source) :
    (Report.ofSources sources).findings.map (·.1) = sources.map Source.path := by
  rw [Report.ofSources, List.map_map]
  refine List.map_congr_left fun s _ => ?_
  dsimp only [Function.comp_apply]
  split
  · rfl
  · rfl

theorem findings_verdict {sources : List Source} {finding : Path × Option Document.Fault}
    (h : finding ∈ (Report.ofSources sources).findings) : ∃ s ∈ sources, finding.1 = s.path ∧
      ((∃ schema, Schema.ofText s.content = .ok schema) ∧ finding.2 = none ∨
        ∃ fault, Schema.ofText s.content = .error fault ∧ finding.2 = some fault) := by
  obtain ⟨s, hs, rfl⟩ := List.mem_map.1 h
  refine ⟨s, hs, ?_⟩
  split
  · next schema hschema => exact ⟨rfl, .inl ⟨⟨schema, hschema⟩, rfl⟩⟩
  · next fault hfault => exact ⟨rfl, .inr ⟨fault, hfault, rfl⟩⟩

/-- What is found can be read if all of it are documents. -/
theorem foundIn_located (hnamed : Named t) (hq : Arrives t q l) {path : Path}
    (hpath : path ∈ foundIn t l q) {text : Text} (htext : t.text? path = some text) :
    ∃ names ∈ t.below l, Lookalike names ∧ names.foldl Glob.within q = path ∧
      t.locate path = .ok (l ++ names) := by
  obtain ⟨names, hbelow, hlook, rfl⟩ := ((foundIn_spec hnamed hq.ready).1 path).1 hpath
  obtain ⟨hne, hnames⟩ := hnamed.below hbelow
  obtain ⟨k, hk⟩ := locate_of_text? htext
  obtain rfl := locate_foldl_within hq.ready hq.walk hne hnames hk
  exact ⟨names, hbelow, hlook, rfl, hk⟩

/-- A report of what is found covers a directory if all of it is documents that can be read. -/
theorem covers_foundIn (hnamed : Named t) (hq : Arrives t q l) {sources : List Source}
    (hpaths : sources.map Source.path = foundIn t l q)
    (htext : ∀ s ∈ sources, t.text? s.path = some s.content)
    (hfiles : ∀ names ∈ t.below l, Lookalike names →
      ∃ content, t.entry? (l ++ names) = some (.file content)) :
    Covers t l (.ofSources sources) := by
  obtain ⟨hmem, hapart⟩ := foundIn_spec (l := l) hnamed hq.ready
  have hfirst := (findings_paths sources).trans hpaths
  have hlocated {path : Path} (hpath : path ∈ foundIn t l q) :
      ∃ names ∈ t.below l, Lookalike names ∧ names.foldl Glob.within q = path ∧
        t.locate path = .ok (l ++ names) := by
    obtain ⟨s, hs, rfl⟩ := List.mem_map.1 (hpaths ▸ hpath)
    exact foundIn_located hnamed hq hpath (htext s hs)
  constructor
  case only =>
    intro finding hfinding
    obtain ⟨names, hbelow, hlook, -, hlocate⟩ := hlocated (hfirst ▸ List.mem_map_of_mem hfinding)
    exact ⟨names, ⟨hbelow, hlook, hfiles names hbelow hlook⟩, hlocate⟩
  case each =>
    rintro names ⟨hbelow, hlook, -⟩
    have hpath := (hmem _).2 ⟨names, hbelow, hlook, rfl⟩
    obtain ⟨hne, hnames⟩ := hnamed.below hbelow
    obtain ⟨more, -, -, -, hlocate⟩ := hlocated hpath
    obtain rfl := List.append_cancel_left (locate_foldl_within hq.ready hq.walk hne hnames hlocate)
    obtain ⟨finding, hfinding, hfirst'⟩ := List.mem_map.1 (hfirst ▸ hpath)
    exact ⟨finding, hfinding, hfirst' ▸ hlocate⟩
  case once =>
    rw [← List.pairwise_map (f := Prod.fst) (R := fun p q => t.locate p ≠ t.locate q), hfirst]
    refine hapart.imp_of_mem fun {p r} hp hr h heq => ?_
    obtain ⟨names, -, -, rfl, hlocate⟩ := hlocated hp
    obtain ⟨more, -, -, rfl, hlocate'⟩ := hlocated hr
    rw [hlocate, hlocate'] at heq
    obtain rfl := List.append_cancel_left (Except.ok.inj heq)
    rw [same_iff.2 rfl] at h
    exact Bool.noConfusion h.2
  case inOrder =>
    rw [← List.pairwise_map (f := Prod.fst) (R := fun p q => Path.le p q = true), hfirst]
    exact hapart.imp And.left
  case verdict =>
    intro finding hfinding
    obtain ⟨s, hs, hpath, hverdict⟩ := findings_verdict hfinding
    exact ⟨s.content, hpath ▸ htext s hs, hverdict⟩

/-- A report of what is found covers a directory only if all of it is documents. -/
theorem files_of_covers (hnamed : Named t) (hq : Arrives t q l) {sources : List Source}
    (hpaths : sources.map Source.path = foundIn t l q) (hcovers : Covers t l (.ofSources sources))
    (hbelow : names ∈ t.below l) (hlook : Lookalike names) :
    ∃ content, t.entry? (l ++ names) = some (.file content) := by
  have hpath := ((foundIn_spec hnamed hq.ready).1 _).2 ⟨names, hbelow, hlook, rfl⟩
  rw [← hpaths, ← findings_paths] at hpath
  obtain ⟨finding, hfinding, hfirst⟩ := List.mem_map.1 hpath
  obtain ⟨more, ⟨-, -, hfile⟩, hlocate⟩ := hcovers.only finding hfinding
  obtain ⟨hne, hnames⟩ := hnamed.below hbelow
  rw [hfirst] at hlocate
  obtain rfl := List.append_cancel_left (locate_foldl_within hq.ready hq.walk hne hnames hlocate)
  exact hfile

theorem exists_sources {paths : List Path} (h : ∀ path ∈ paths, (t.text? path).isSome = true) :
    ∃ sources : List Source, sources.map Source.path = paths ∧
      ∀ s ∈ sources, t.text? s.path = some s.content := by
  induction paths with
  | nil => exact ⟨[], rfl, fun s hs => (List.not_mem_nil hs).elim⟩
  | cons path paths ih =>
      obtain ⟨hpath, hpaths⟩ := List.forall_mem_cons.1 h
      obtain ⟨content, hcontent⟩ := Option.isSome_iff_exists.1 hpath
      obtain ⟨sources, rfl, hsources⟩ := ih hpaths
      exact ⟨⟨path, content⟩ :: sources, rfl, List.forall_mem_cons.2 ⟨hcontent, hsources⟩⟩

/-- Where something below a directory can be read, a search has room for the path of the directory. -/
theorem fits_slashed (hp : p ≠ []) (hnames : ∀ name ∈ names, IsName name)
    (h : (t.text? (p.join (Text.join ['/'] names))).isSome = true) : Fits (slashed p) := by
  obtain ⟨text, htext⟩ := Option.isSome_iff_exists.1 h
  obtain ⟨k, hk⟩ := locate_of_text? htext
  have hlong := fits_of_locate hk
  rw [join_eq hp (isAbsolute_join hnames)] at hlong
  exact hlong.of_sublist (List.sublist_append_left _ _)

/-- When all documents below a plain directory can be read, a check covers them unless the path
stumbles, or something with the ending of a document is no file. -/
theorem check_covers_iff (hnamed : Named t) (hfind : t.find p = .ok (l, .directory))
    (hplain : Plain p) (hback : '\\' ∉ p) (hsome : ∃ names, IsDocument t l names)
    (htext : ∀ names, IsDocument t l names →
      (t.text? (p.join (Text.join ['/'] names))).isSome = true) :
    (∃ report, (check (m := StateM FileTree) p).run.run t = (.ok report, t) ∧ Covers t l report) ↔
      stumbles p = false ∧ ∀ names ∈ t.below l, Lookalike names →
        ∃ content, t.entry? (l ++ names) = some (.file content) := by
  obtain ⟨hlocate, hentry⟩ := find_eq_ok hfind
  have hp : p ≠ [] := (FileTree.locate_eq_ok.1 hlocate).1
  obtain ⟨first, hfirst⟩ := hsome
  have hfits := fits_slashed hp (hnamed.below hfirst.1).2 (htext first hfirst)
  have hdocuments := documentsIn_run hlocate hentry hplain hback hfits
  have hcheck {report : Report} :
      (check (m := StateM FileTree) p).run.run t = (.ok report, t) ↔ _ :=
    check_eq_ok (kind?_directory hlocate hentry) hdocuments
  cases hstumbles : stumbles p with
  | true =>
      constructor
      · rintro ⟨report, hreport, -⟩
        obtain ⟨sources, hpaths, -, hsources, -⟩ := hcheck.1 hreport
        rw [hstumbles, if_pos rfl, List.map_eq_nil_iff] at hpaths
        exact absurd hpaths hsources
      · rintro ⟨h, -⟩
        cases h
  | false =>
      have hstraight : p.isAbsolute = false → straight (lead p) = true := by
        intro hrelative
        rw [straight_lead hp hrelative, hstumbles]
        rfl
      obtain ⟨hq, hopening, -⟩ := arrives_spot hlocate hentry hstraight hfits
      rw [hstumbles, if_neg Bool.false_ne_true] at hcheck
      constructor
      · rintro ⟨report, hreport, hcovers⟩
        obtain ⟨sources, hpaths, -, -, rfl, -⟩ := hcheck.1 hreport
        exact ⟨rfl, fun names => files_of_covers hnamed hq hpaths hcovers⟩
      · rintro ⟨-, hfiles⟩
        obtain ⟨hmem, -⟩ := foundIn_spec (l := l) hnamed hq.ready
        have hread : ∀ path ∈ foundIn t l (spot p), (t.text? path).isSome = true := by
          intro path hpath
          obtain ⟨names, hbelow, hlook, rfl⟩ := (hmem path).1 hpath
          obtain ⟨hne, hnames⟩ := hnamed.below hbelow
          obtain ⟨text, hjoin⟩ := Option.isSome_iff_exists.1
            (htext names ⟨hbelow, hlook, hfiles names hbelow hlook⟩)
          rw [text?_foldl_within hq hopening hlocate hne hnames hjoin]
          rfl
        obtain ⟨sources, hpaths, hsources⟩ := exists_sources hread
        have hfound := (hmem _).2 ⟨first, hfirst.1, hfirst.2.1, rfl⟩
        have hne : sources ≠ [] := by
          rintro rfl
          rw [← hpaths] at hfound
          exact List.not_mem_nil hfound
        exact ⟨_, hcheck.2 ⟨sources, hpaths, hsources, hne, rfl, rfl⟩,
          covers_foundIn hnamed hq hpaths hsources hfiles⟩

end Project

end SchemaScript
