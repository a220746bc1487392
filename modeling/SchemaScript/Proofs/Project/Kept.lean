/- What is left of the scripts of a build: the last one of each name. -/
import SchemaScript.Proofs.Project.Products
import SchemaScript.Proofs.Text.Utf8

namespace SchemaScript.Project

open FileTree

theorem not_slash_of_fileName? {p : Path} {n : Text} (h : p.fileName? = some n) : '/' ∉ n := by
  unfold Path.fileName? at h
  split at h
  · next hlast =>
    cases h
    have hmem : Path.Part.name n ∈ p.parts := List.mem_of_getLast? hlast
    rw [Path.parts, List.mem_append] at hmem
    rcases hmem with hstart | hpiece
    · unfold Path.start at hstart
      split at hstart
      · simp at hstart
      · split at hstart
        · simp at hstart
        · simp at hstart
    · obtain ⟨piece, hpiece, hpart⟩ := List.mem_filterMap.1 hpiece
      unfold Path.part? at hpart
      split at hpart
      · cases hpart
      · split at hpart
        · cases hpart
        · cases hpart
          exact Text.not_mem_of_mem_splitOn hpiece
  · cases h

theorem mem_of_mem_stem {name : Text} {c : Char} (h : c ∈ Path.stem name) : c ∈ name := by
  unfold Path.stem at h
  split at h
  · next front hcut =>
    obtain ⟨dot, -, hname, -⟩ := Text.cutAt?_eq_some.1 hcut
    split at h
    · exact h
    · rw [List.mem_reverse] at h
      rw [← List.mem_reverse, hname]
      exact List.mem_append_right _ (List.mem_cons_of_mem _ h)
  · exact h

/-- The name of a script is no way to another directory. -/
theorem Product.isName {p : Product} (h : p.file.fileStem?.isSome = true) : IsName p.name := by
  obtain ⟨stem, hstem⟩ := Option.isSome_iff_exists.1 h
  have hname : p.name = stem ++ ".sql".toList := by
    rw [Product.name, hstem]
    rfl
  have hlong {t : Text} (h : t.length < 4) : p.name ≠ t := by
    rintro rfl
    rw [hname, List.length_append] at h
    exact absurd h (Nat.not_lt.2 (Nat.le_add_left 4 stem.length))
  refine ⟨hlong (by decide), hlong (by decide), hlong (by decide), ?_⟩
  rw [hname, List.mem_append, not_or]
  refine ⟨fun hslash => ?_, by decide⟩
  rw [Path.fileStem?, Option.map_eq_some_iff] at hstem
  obtain ⟨fileName, hfileName, rfl⟩ := hstem
  exact not_slash_of_fileName? hfileName (mem_of_mem_stem hslash)

variable {site : Site} {t t' : FileTree} {before after made : List Product} {p : Product}

/-- A script stays as it was written while scripts of other names are written. -/
theorem Writes.written {path : Path} {name : Text} {content : Bytes} {l : Location}
    (h : Writes site t made t') (hname : IsName name) (hother : ∀ q ∈ made, q.name ≠ name)
    (hwritten : t.Written (path.join name) content l) : t'.Written (path.join name) content l := by
  induction h with
  | nil => exact hwritten
  | @cons q _ _ _ _ named _ write _ ih =>
      have hne : name ≠ q.name := (hother q List.mem_cons_self).symm
      have haway : q.tree.locate (site.output.join q.name) ≠ .ok l :=
        locate_join_ne hname (Product.isName named) hne hwritten.located
      exact ih (fun r hr => hother r (List.mem_cons_of_mem _ hr)) (hwritten.of_write write haway)

theorem Writes.holds (h : Writes site t (before ++ p :: after) t')
    (hlast : ∀ q ∈ after, q.name ≠ p.name) :
    ∃ content, p.content? site.time = some content ∧
      t'.Holds (site.output.join p.name) (Utf8.encode content) := by
  induction before generalizing t with
  | nil =>
      cases h with
      | cons named made write rest =>
          obtain ⟨l, hwritten⟩ := written_of_write write
          exact ⟨_, made, (rest.written (Product.isName named) hlast hwritten).holds⟩
  | cons q before ih =>
      cases h with
      | cons _ _ _ rest => exact ih rest

theorem time_of_openSite {time : Timestamp} {output vendors : Path}
    (h : (openSite (m := StateM FileTree) time output vendors).run.run t = (.ok site, t')) :
    site.time = time := by
  obtain ⟨u, t₁, -, h₁⟩ := Attempt.run_bind_eq_ok.1 h
  obtain ⟨resolved, t₂, -, h₂⟩ := Attempt.run_bind_eq_ok.1 h₁
  obtain ⟨answer, t₃, -, h₃⟩ := Attempt.run_bind_eq_ok.1 h₂
  cases answer with
  | ok vendors =>
      cases h₃
      rfl
  | error e =>
      cases h₃
      rfl

/-- A build that ends well has made a script for each file that its configurations and those of its
vendors name, and the log tells their names. -/
theorem exists_makes_of_build {depth : Nat} {time : Timestamp} {config output vendors : Path}
    {log : List Notice}
    (h : (build (m := StateM FileTree) depth time config output vendors).run.run t = (.ok log, t')) :
    ∃ site t₀ made,
      (openSite (m := StateM FileTree) time output vendors).run.run t = (.ok site, t₀) ∧
        Makes site t₀ [.config config ['.']] made t' ∧ scriptsIn log = made.map Product.name := by
  obtain ⟨site, t₀, hsite, hbuild⟩ := Attempt.run_bind_eq_ok.1 h
  obtain ⟨⟨u, log'⟩, t₁, hconfig, hlog⟩ := Attempt.run_bind_eq_ok.1 hbuild
  cases hlog
  obtain ⟨made, hmakes, hscripts⟩ := Building.buildConfig_makes hconfig
  exact ⟨site, t₀, made, hsite, hmakes, hscripts⟩

/-- For each name, a build that ends well leaves the script that it made last. -/
theorem build_keeps_last {depth : Nat} {time : Timestamp} {config output vendors : Path}
    {log : List Notice}
    (h : (build (m := StateM FileTree) depth time config output vendors).run.run t = (.ok log, t')) :
    ∃ site t₀ made,
      (openSite (m := StateM FileTree) time output vendors).run.run t = (.ok site, t₀) ∧
        Makes site t₀ [.config config ['.']] made t' ∧ scriptsIn log = made.map Product.name ∧
          ∀ before p after, made = before ++ p :: after → (∀ q ∈ after, q.name ≠ p.name) →
            ∃ content, p.content? time = some content ∧
              t'.Holds (site.output.join p.name) (Utf8.encode content) := by
  obtain ⟨site, t₀, made, hsite, hmakes, hscripts⟩ := exists_makes_of_build h
  refine ⟨site, t₀, made, hsite, hmakes, hscripts, ?_⟩
  rintro before p after rfl hlast
  rw [← time_of_openSite hsite]
  exact hmakes.writes.holds hlast

/-- A project of two databases, whose documents have one name in two directories. -/
def namesakes : FileTree where
  entries := [(["config"], .directory),
    (["config", "databases.yml"],
      .file (Utf8.encode "databases:\n  - one/x.yml\n  - two/x.yml\n".toList)),
    (["one"], .directory),
    (["one", "x.yml"], .file (Utf8.encode "database:\n  name: one\n".toList)),
    (["two"], .directory),
    (["two", "x.yml"], .file (Utf8.encode "database:\n  name: two\n".toList))]

def namesakesTime : Timestamp := ⟨2024, 1, 2, 3, 4, 5, 0⟩

theorem exists_log_of_namesakes : ∃ log t',
    (build (m := StateM FileTree) 1 namesakesTime defaultConfig "build" "vendor").run.run namesakes =
      (.ok log, t') := by
  have hok : ((build (m := StateM FileTree) 1 namesakesTime defaultConfig "build" "vendor").run.run
      namesakes).1.isOk = true := by decide +kernel
  revert hok
  generalize (build (m := StateM FileTree) 1 namesakesTime defaultConfig "build" "vendor").run.run
    namesakes = result
  rcases result with ⟨_ | log, t'⟩
  · intro hok
    cases hok
  · exact fun _ => ⟨log, t', rfl⟩

theorem build_keeps_last_namesakes : ∃ log t' site t₀ made,
    (build (m := StateM FileTree) 1 namesakesTime defaultConfig "build" "vendor").run.run namesakes =
        (.ok log, t') ∧
      Makes site t₀ [.config defaultConfig ['.']] made t' ∧ scriptsIn log = made.map Product.name ∧
        ∀ before p after, made = before ++ p :: after → (∀ q ∈ after, q.name ≠ p.name) →
          ∃ content, p.content? namesakesTime = some content ∧
            t'.Holds (site.output.join p.name) (Utf8.encode content) := by
  obtain ⟨log, t', h⟩ := exists_log_of_namesakes
  obtain ⟨site, t₀, made, -, hmakes, hscripts, hkept⟩ := build_keeps_last h
  exact ⟨log, t', site, t₀, made, h, hmakes, hscripts, hkept⟩

/-- The namesakes once the directory for their scripts is made. -/
def openedNamesakes : FileTree :=
  ((openSite (m := StateM FileTree) namesakesTime "build" "vendor").run.run namesakes).2

/-- The first file that a configuration names is built from the files as they are found. -/
theorem Makes.first_mem {config root file : Path} {indent : Option Int} {entry : DatabaseEntry}
    {entries : List DatabaseEntry} {files : List Path} {tasks : List Task}
    (h : Makes site t (.config config root :: tasks) made t')
    (hread : ((t.text? (root.join config)).bind Config.read?).map
      (fun c => (c.indent, c.databases.getD [])) = some (indent, entry :: entries))
    (hfiles : entry.filesIn t root = file :: files) : ⟨root, indent, entry, file, t⟩ ∈ made := by
  cases h with
  | config read own named rest =>
      rw [read, Option.map_some, Option.some.injEq, Prod.mk.injEq] at hread
      rw [hread.1, hread.2] at own
      cases own with
      | cons all written rest =>
          rw [hfiles] at all
          cases written with
          | nil => cases all
          | @cons p =>
              have hp : (p.root, p.indent, p.entry, p.file) = (root, indent, entry, file) :=
                (List.cons.inj all).1
              cases hp
              exact List.mem_append_left _ (List.mem_append_left _ List.mem_cons_self)

theorem mem_entries_of_read {path : Path} {content : Bytes} (h : t.read path = .ok content)
    (hcontent : content ≠ []) : ∃ l, (l, Entry.file content) ∈ t.entries := by
  unfold FileTree.read FileTree.find at h
  cases hlocate : t.locate path with
  | error e =>
      rw [hlocate] at h
      cases h
  | ok l =>
      have hentry : t.entry? l = some (.file content) := by
        rw [hlocate] at h
        simp only [bind, Except.bind] at h
        cases he : t.entry? l with
        | none => simp [he] at h
        | some e => cases e <;> cases hslash : path.endsInSlash <;> simp_all
      unfold FileTree.entry? at hentry
      split at hentry
      · cases hentry
      · obtain ⟨before, after, hentries, -⟩ := List.lookup_eq_some_iff.1 hentry
        exact ⟨l, hentries ▸ List.mem_append_right _ List.mem_cons_self⟩

/-- The script of the first of the namesakes. -/
def firstNamesake : Product where
  root := ['.']
  indent := none
  entry := { path := "one/x.yml" }
  file := "./one/x.yml"
  tree := openedNamesakes

/-- Of two databases whose documents have one name, the script of the first is nowhere once that of the
second is made. -/
theorem build_loses_namesake : ∃ log t' site t₀ made p content,
    (build (m := StateM FileTree) 1 namesakesTime defaultConfig "build" "vendor").run.run namesakes =
        (.ok log, t') ∧
      (openSite (m := StateM FileTree) namesakesTime "build" "vendor").run.run namesakes =
          (.ok site, t₀) ∧
        Makes site t₀ [.config defaultConfig ['.']] made t' ∧ p ∈ made ∧
          p.content? namesakesTime = some content ∧
            ∀ path, t'.read path ≠ .ok (Utf8.encode content) := by
  obtain ⟨log, t', h⟩ := exists_log_of_namesakes
  obtain ⟨site, t₀, made, hsite, hmakes, -⟩ := exists_makes_of_build h
  obtain rfl : openedNamesakes = t₀ := congrArg Prod.snd hsite
  have hread : ((openedNamesakes.text? (Path.join ['.'] defaultConfig)).bind Config.read?).map
      (fun c => (c.indent, c.databases.getD [])) =
        some (none, [{ path := "one/x.yml" }, { path := "two/x.yml" }]) := by decide +kernel
  have hfiles : DatabaseEntry.filesIn openedNamesakes ['.'] { path := "one/x.yml" } =
      ["./one/x.yml".toList] := by decide +kernel
  have hmem : firstNamesake ∈ made := hmakes.first_mem hread hfiles
  have hmade : (firstNamesake.content? namesakesTime).any (!·.isEmpty) = true := by decide +kernel
  have hleft : ∀ e ∈ ((build (m := StateM FileTree) 1 namesakesTime defaultConfig "build"
      "vendor").run.run namesakes).2.entries,
        (firstNamesake.content? namesakesTime).map (fun c => .file (Utf8.encode c)) ≠ some e.2 := by
    decide +kernel
  cases hcontent : firstNamesake.content? namesakesTime with
  | none =>
      rw [hcontent] at hmade
      cases hmade
  | some content =>
      refine ⟨log, t', site, _, made, firstNamesake, content, h, hsite, hmakes, hmem, hcontent, ?_⟩
      intro path hpath
      have hsome : Utf8.encode content ≠ [] := by
        refine Utf8.encode_ne_nil fun hnil => ?_
        rw [hcontent, hnil] at hmade
        cases hmade
      obtain ⟨l, hl⟩ := mem_entries_of_read hpath hsome
      rw [h, hcontent] at hleft
      exact hleft _ hl rfl

end SchemaScript.Project
