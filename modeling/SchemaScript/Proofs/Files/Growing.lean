/- A tree that only gets more directories, and where the names of a path lead in it. -/
import SchemaScript.Proofs.Files.Looking
import SchemaScript.Proofs.Files.Writing

namespace SchemaScript

namespace FileTree

variable {t t' t'' : FileTree} {l l' : Location} {p q : Path}

theorem foldlM_step_cons_eq_ok {piece : Text} {pieces : List Text} :
    (piece :: pieces).foldlM t.step l = .ok l' ↔
      ∃ next, t.step l piece = .ok next ∧ pieces.foldlM t.step next = .ok l' := by
  rw [List.foldlM_cons]
  cases t.step l piece with
  | error e =>
      constructor
      · intro h
        cases h
      · rintro ⟨_, h, -⟩
        cases h
  | ok next =>
      constructor
      · exact fun h => ⟨next, rfl, h⟩
      · rintro ⟨_, h, hrest⟩
        cases h
        exact hrest

/-- A way stays one as long as the directories on it do. -/
theorem locate_of_directories (hhere : t'.here = t.here)
    (hkept : ∀ l, t.entry? l = some .directory → t'.entry? l = some .directory)
    (h : t.locate p = .ok l) : t'.locate p = .ok l := by
  have hfold {pieces : List Text} {k : Location} (hk : pieces.foldlM t.step k = .ok l) :
      pieces.foldlM t'.step k = .ok l := by
    induction pieces generalizing k with
    | nil => exact hk
    | cons piece pieces ih =>
        obtain ⟨next, hstep, hrest⟩ := foldlM_step_cons_eq_ok.1 hk
        obtain ⟨hdirectory, hnext⟩ := step_eq_ok.1 hstep
        have hstep' : t'.step k piece = .ok next := step_eq_ok.2 ⟨hkept k hdirectory, hnext⟩
        exact foldlM_step_cons_eq_ok.2 ⟨next, hstep', ih hrest⟩
  obtain ⟨hne, hzero, hsize, hwalk⟩ := FileTree.locate_eq_ok.1 h
  refine FileTree.locate_eq_ok.2 ⟨hne, hzero, hsize, ?_⟩
  rw [walk, hhere]
  exact hfold hwalk

/-- The later tree has directories in places where nothing was, to which the paths lead, and is the
same elsewhere. -/
structure Grows (paths : List Path) (t t' : FileTree) : Prop where
  here : t'.here = t.here
  entry : ∀ l, t'.entry? l = t.entry? l ∨
    t.entry? l = none ∧ t'.entry? l = some .directory ∧ ∃ p ∈ paths, t'.locate p = .ok l

variable {paths more : List Path}

theorem Grows.refl (paths : List Path) (t : FileTree) : Grows paths t t := ⟨rfl, fun _ => .inl rfl⟩

theorem Grows.kept (h : Grows paths t t') {e : Entry} (he : t.entry? l = some e) :
    t'.entry? l = some e := by
  rcases h.entry l with hsame | ⟨hnone, -⟩
  · rw [hsame, he]
  · rw [hnone] at he
    cases he

theorem Grows.locate (h : Grows paths t t') (hl : t.locate p = .ok l) : t'.locate p = .ok l :=
  locate_of_directories h.here (fun _ he => h.kept he) hl

theorem Grows.trans (h : Grows paths t t') (h' : Grows paths t' t'') : Grows paths t t'' := by
  refine ⟨h'.here.trans h.here, fun l => ?_⟩
  rcases h'.entry l with hsame' | ⟨hnone', hnew'⟩
  · rcases h.entry l with hsame | ⟨hnone, hnew, p, hp, hl⟩
    · exact .inl (hsame'.trans hsame)
    · exact .inr ⟨hnone, hsame'.trans hnew, p, hp, h'.locate hl⟩
  · rcases h.entry l with hsame | ⟨-, hnew, -⟩
    · exact .inr ⟨hsame.symm.trans hnone', hnew'⟩
    · rw [hnew] at hnone'
      cases hnone'

theorem Grows.mono (h : Grows paths t t') (hmore : paths ⊆ more) : Grows more t t' := by
  refine ⟨h.here, fun l => (h.entry l).imp_right ?_⟩
  rintro ⟨hnone, hnew, p, hp, hl⟩
  exact ⟨hnone, hnew, p, hmore hp, hl⟩

theorem grows_of_makeDirectory (h : t.makeDirectory p = .ok t') : Grows [p] t t' := by
  unfold makeDirectory at h
  cases hlocate : t.locate p with
  | error e =>
      rw [hlocate] at h
      cases h
  | ok l =>
      rw [hlocate] at h
      cases hentry : t.entry? l with
      | some e =>
          simp only [bind, Except.bind, hentry] at h
          cases h
      | none =>
          simp only [bind, Except.bind, hentry, Except.ok.injEq] at h
          subst h
          have hne : l ≠ [] := by
            rintro rfl
            cases hentry
          have hkept (k : Location) (hk : t.entry? k = some .directory) :
              FileTree.entry? (t.insert l .directory) k = some .directory := by
            rw [insert_entry_of_ne, hk]
            rintro rfl
            rw [hentry] at hk
            cases hk
          refine ⟨rfl, fun k => ?_⟩
          by_cases hk : k = l
          · have hlocate' : FileTree.locate (t.insert l .directory) p = .ok l :=
              locate_of_directories (t := t) rfl hkept hlocate
            subst hk
            exact .inr ⟨hentry, insert_entry_self hne _, p, List.mem_cons_self, hlocate'⟩
          · exact .inl (insert_entry_of_ne hk _)

end FileTree

open FileTree

/-- Work that does nothing to a tree but make directories to which the paths lead. -/
def Extends {α : Type} (paths : List Path) (x : StateM FileTree α) : Prop :=
  ∀ t, Grows paths t (x.run t).2

namespace Extends

variable {α β : Type} {paths more : List Path}

theorem of_looks {x : StateM FileTree α} (h : Looks x) : Extends paths x := by
  intro t
  rw [h t]
  exact .refl paths t

theorem bind {x : StateM FileTree α} {f : α → StateM FileTree β} (hx : Extends paths x)
    (hf : ∀ a, Extends paths (f a)) : Extends paths (x >>= f) :=
  fun t => (hx t).trans (hf (x.run t).1 (x.run t).2)

theorem mono {x : StateM FileTree α} (h : Extends paths x) (hmore : paths ⊆ more) :
    Extends more x := fun t => (h t).mono hmore

end Extends

namespace Files

theorem extends_makeDirectory (p : Path) :
    Extends [p] (FileSystem.makeDirectory (m := StateM FileTree) p) := by
  intro t
  have hrun : (FileSystem.makeDirectory (m := StateM FileTree) p).run t =
      FileTree.change (·.makeDirectory p) t := rfl
  rw [hrun]
  unfold FileTree.change
  dsimp only
  cases h : t.makeDirectory p with
  | error e => exact .refl [p] t
  | ok next => exact grows_of_makeDirectory h

theorem extends_unlessDirectory (p : Path) (e : FileError) : Extends [p]
    (do if ← isDirectory (m := StateM FileTree) p then return .ok () else return .error e :
      StateM FileTree (Except FileError Unit)) :=
  .of_looks ((looks_isDirectory p).bind fun _ => .ite (.pure _) (.pure _))

theorem extends_makeOrKeep (p : Path) :
    Extends [p] (makeChain.makeOrKeep (m := StateM FileTree) p) := by
  refine (extends_makeDirectory p).bind fun answer => ?_
  cases answer with
  | ok u => exact .of_looks (.pure _)
  | error e => exact extends_unlessDirectory p e

theorem extends_makeChain (paths : List Path) :
    Extends paths (makeChain (m := StateM FileTree) paths) := by
  induction paths with
  | nil => exact .of_looks (.pure _)
  | cons p parents ih =>
      have hone : [p] ⊆ p :: parents := List.cons_subset_cons p (List.nil_subset parents)
      refine ((extends_makeDirectory p).mono hone).bind fun answer => ?_
      -- A parent is made only where that is why the directory itself could not be made.
      split
      · exact .of_looks (.pure _)
      · refine (ih.mono (List.subset_cons_self p parents)).bind fun answer => ?_
        cases answer with
        | error e => exact .of_looks (.pure _)
        | ok u => exact (extends_makeOrKeep p).mono hone
      · exact (extends_unlessDirectory p _).mono hone

theorem extends_makeDirectories (p : Path) :
    Extends (p :: p.ancestors) (makeDirectories (m := StateM FileTree) p) := by
  unfold makeDirectories
  split
  · exact .of_looks (.pure _)
  · exact extends_makeChain (p :: p.ancestors)

end Files

theorem Path.isAbsolute_eq_false {piece : Text} (h : '/' ∉ piece) : isAbsolute piece = false := by
  unfold isAbsolute
  split
  · exact absurd List.mem_cons_self h
  · rfl

namespace FileTree

variable {t : FileTree} {d l l' : Location} {p : Path} {name : Text}

theorem find_eq_ok {e : Entry} (h : t.find p = .ok (l, e)) :
    t.locate p = .ok l ∧ t.entry? l = some e := by
  unfold FileTree.find at h
  cases hlocate : t.locate p with
  | error e' =>
      rw [hlocate] at h
      cases h
  | ok k =>
      rw [hlocate] at h
      simp only [bind, Except.bind] at h
      split at h
      · cases h
      · next hentry =>
        cases h
        exact ⟨rfl, hentry⟩
      · next hentry =>
        split at h
        · cases h
        · cases h
          exact ⟨rfl, hentry⟩

theorem find_directory {p : Path} (hl : t.locate p = .ok l) (he : t.entry? l = some .directory) :
    t.find p = .ok (l, .directory) := by
  unfold FileTree.find
  rw [hl]
  simp only [bind, Except.bind, he]

theorem names_locate (hhere : ∀ name ∈ t.here, IsName name) (h : t.locate p = .ok l) :
    ∀ name ∈ l, IsName name := by
  have hfold {pieces : List Text} {k : Location}
      (hpieces : ∀ piece ∈ pieces, piece ≠ [] ∧ '/' ∉ piece) (hk : ∀ name ∈ k, IsName name)
      (h : pieces.foldlM t.step k = .ok l) : ∀ name ∈ l, IsName name := by
    induction pieces generalizing k with
    | nil =>
        cases h
        exact hk
    | cons piece pieces ih =>
        obtain ⟨⟨hne, hslash⟩, hpieces⟩ := List.forall_mem_cons.1 hpieces
        obtain ⟨next, hstep, hrest⟩ := foldlM_step_cons_eq_ok.1 h
        refine ih hpieces ?_ hrest
        obtain ⟨-, ⟨-, rfl⟩ | ⟨-, rfl⟩ | ⟨hdot, hdots, -, rfl⟩⟩ := step_eq_ok.1 hstep
        · exact hk
        · exact fun name hname => hk name (List.mem_of_mem_dropLast hname)
        · intro name hname
          rw [List.mem_append, List.mem_singleton] at hname
          rcases hname with hname | rfl
          · exact hk name hname
          · exact ⟨hne, hdot, hdots, hslash⟩
  obtain ⟨-, -, -, hwalk⟩ := FileTree.locate_eq_ok.1 h
  refine hfold (fun piece hpiece => ?_) ?_ hwalk
  · obtain ⟨hpiece, hne⟩ := List.mem_filter.1 hpiece
    refine ⟨?_, Text.not_mem_of_mem_splitOn hpiece⟩
    rintro rfl
    cases hne
  · split
    · exact fun name hname => absurd hname List.not_mem_nil
    · exact hhere

theorem foldlM_step_names {d : Location} (hl : ∀ name ∈ l, IsName name)
    (h : l.foldlM t.step d = .ok l') : l' = d ++ l := by
  induction l generalizing d with
  | nil =>
      have hsame : d = l' := Except.ok.inj h
      rw [hsame, List.append_nil]
  | cons name l ih =>
      obtain ⟨hname, hl⟩ := List.forall_mem_cons.1 hl
      obtain ⟨next, hstep, hrest⟩ := foldlM_step_cons_eq_ok.1 h
      rw [ih hl hrest]
      obtain ⟨-, ⟨hdot, -⟩ | ⟨hdots, -⟩ | ⟨-, -, -, rfl⟩⟩ := step_eq_ok.1 hstep
      · exact absurd hdot hname.ne_dot
      · exact absurd hdots hname.ne_dots
      · exact List.append_assoc d [name] l

theorem names_pathOf (hl : ∀ name ∈ l, IsName name) : names (pathOf l) = l := by
  have hkept : l.filter (!·.isEmpty) = l := by
    refine List.filter_eq_self.2 fun name hname => ?_
    simp [(hl name hname).ne_nil]
  have hcut : Text.splitOn '/' (pathOf l) = [] :: Text.splitOn '/' (Text.join ['/'] l) :=
    Text.splitOn_append_cons '/' [] (Text.join ['/'] l)
  rw [names, hcut]
  cases hnil : l with
  | nil => rfl
  | cons first rest =>
      rw [← hnil, Text.splitOn_join (hnil ▸ List.cons_ne_nil first rest) fun name hname =>
        (hl name hname).no_slash, List.filter_cons_of_neg (by simp), hkept]

/-- The path of a directory other than the root ends as its last name does. -/
theorem exists_pathOf_concat (l : Location) (name : Text) :
    ∃ front, pathOf (l ++ [name]) = front ++ name := by
  rcases l with _ | ⟨first, rest⟩
  · exact ⟨['/'], rfl⟩
  · refine ⟨pathOf (first :: rest) ++ ['/'], ?_⟩
    rw [pathOf, pathOf, Text.join_append (List.cons_ne_nil first rest) (List.cons_ne_nil name [])]
    simp [Text.join]

theorem endsInSlash_pathOf (hd : ∀ name ∈ d, IsName name) :
    (pathOf d).endsInSlash = d.isEmpty := by
  rcases List.eq_nil_or_concat d with rfl | ⟨front, last, rfl⟩
  · rfl
  · rw [List.concat_eq_append] at hd ⊢
    have hlast : IsName last := hd last (by simp)
    obtain ⟨before, hpath⟩ := exists_pathOf_concat front last
    rw [Path.endsInSlash, hpath, List.getLast?_append_of_ne_nil _ hlast.ne_nil]
    have hslash : last.getLast? ≠ some '/' := fun h => hlast.no_slash (List.mem_of_getLast? h)
    have hsome : (front ++ [last]).isEmpty = false := by simp
    rw [hsome]
    exact beq_eq_false_iff_ne.2 hslash

theorem join_pathOf (hd : ∀ name ∈ d, IsName name) (hname : IsName name) :
    (pathOf d).join name = pathOf (d ++ [name]) := by
  have hrelative := Path.isAbsolute_eq_false hname.no_slash
  have hsome : List.isEmpty (pathOf d) = false := rfl
  unfold Path.join
  rw [hrelative, hsome, endsInSlash_pathOf hd]
  cases hnil : d with
  | nil => rfl
  | cons first rest =>
      rw [pathOf, pathOf, Text.join_append (List.cons_ne_nil first rest) (List.cons_ne_nil name [])]
      simp [Text.join]

/-- A name behind the path of a directory leads into that directory. -/
theorem locate_join_pathOf (hd : ∀ name ∈ d, IsName name) (hname : IsName name)
    (h : t.locate ((pathOf d).join name) = .ok l) :
    l = d ++ [name] ∧ t.entry? d = some .directory := by
  obtain ⟨-, -, -, hwalk⟩ := FileTree.locate_eq_ok.1 h
  have hall : ∀ n ∈ d ++ [name], IsName n := by
    intro n hn
    rw [List.mem_append, List.mem_singleton] at hn
    rcases hn with hn | rfl
    · exact hd n hn
    · exact hname
  rw [walk, join_pathOf hd hname, names_pathOf hall, List.foldlM_append] at hwalk
  have hroot : (if Path.isAbsolute (pathOf (d ++ [name])) = true then [] else t.here) = [] := rfl
  rw [hroot] at hwalk
  cases hfront : d.foldlM t.step [] with
  | error e =>
      rw [hfront] at hwalk
      cases hwalk
  | ok directory =>
      rw [hfront] at hwalk
      obtain rfl : directory = d := foldlM_step_names hd hfront
      have hlast : [name].foldlM t.step directory = .ok l := hwalk
      refine ⟨foldlM_step_names (fun n hn => List.mem_singleton.1 hn ▸ hname) hlast, ?_⟩
      have hstep : t.step directory name = .ok l := by
        simpa only [List.foldlM_cons, List.foldlM_nil, bind_pure] using hlast
      exact (step_eq_ok.1 hstep).1

end FileTree

end SchemaScript
