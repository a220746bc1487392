/- The search along the pieces of a path, of which each leads on to a directory, and from there to all
   that is below. -/
import SchemaScript.Proofs.Files.Pieces

namespace SchemaScript

open FileTree

variable {t : FileTree} {p q bound : Path} {k l : Location} {piece : Text} {pieces : List Text}

theorem Utf8.size_le_of_sublist {s u : Text} (h : s.Sublist u) : Utf8.size s ≤ Utf8.size u := by
  induction h with
  | slnil => exact Nat.le_refl 0
  | cons c _ ih => exact Nat.le_trans ih (Nat.le_add_left _ c.utf8Size)
  | cons_cons c _ ih => exact Nat.add_le_add_left ih c.utf8Size

namespace FileTree

/-- A text that is no longer than a path may be, and has no zero character. -/
structure Fits (s : Text) : Prop where
  zero : '\x00' ∉ s
  size : Utf8.size s ≤ greatestPath

theorem Fits.of_sublist {s u : Text} (h : Fits u) (hsub : s.Sublist u) : Fits s :=
  ⟨fun hzero => h.zero (hsub.subset hzero), (Utf8.size_le_of_sublist hsub).trans h.size⟩

theorem fits_of_locate (h : t.locate p = .ok l) : Fits p := by
  obtain ⟨-, hzero, hsize, -⟩ := FileTree.locate_eq_ok.1 h
  exact ⟨hzero, hsize⟩

theorem kind?_directory (hl : t.locate p = .ok l) (he : t.entry? l = some .directory) :
    t.kind? p = some .directory := by
  rw [kind?, find_directory hl he]

theorem foldlM_step_append_eq_ok {before after : List Text} :
    (before ++ after).foldlM t.step k = .ok l ↔
      ∃ next, before.foldlM t.step k = .ok next ∧ after.foldlM t.step next = .ok l := by
  rw [List.foldlM_append]
  cases before.foldlM t.step k with
  | error e =>
      constructor
      · intro h
        cases h
      · rintro ⟨_, h, -⟩
        cases h
  | ok next =>
      constructor
      · intro h
        exact ⟨next, rfl, h⟩
      · rintro ⟨_, h, h'⟩
        cases h
        exact h'

/-- What leads on to a directory is a directory. -/
theorem directory_of_foldlM (h : pieces.foldlM t.step k = .ok l)
    (hl : t.entry? l = some .directory) : t.entry? k = some .directory := by
  cases pieces with
  | nil =>
      cases h
      exact hl
  | cons piece pieces =>
      obtain ⟨next, hstep, -⟩ := foldlM_step_cons_eq_ok.1 h
      exact (step_eq_ok.1 hstep).1

end FileTree

theorem run_bind_of_run {α β : Type} {x : StateM FileTree α} {f : α → StateM FileTree β}
    {t' : FileTree} {a : α} (h : x.run t = (a, t')) : (x >>= f).run t = (f a).run t' := by
  rw [StateT.run_bind, h]
  rfl

theorem isDirectory_run (hl : t.locate p = .ok l) (he : t.entry? l = some .directory) :
    (Files.isDirectory (m := StateM FileTree) p).run t = (true, t) := by
  have hrun : (Files.isDirectory (m := StateM FileTree) p).run t =
      (t.kind? p == some .directory, t) := rfl
  rw [hrun, kind?_directory hl he]
  rfl

theorem isPresent_run (hl : t.locate p = .ok l) (he : t.entry? l = some .directory) :
    (Files.isPresent (m := StateM FileTree) p).run t = (true, t) := by
  have hrun : (Files.isPresent (m := StateM FileTree) p).run t = ((t.kind? p).isSome, t) := rfl
  rw [hrun, kind?_directory hl he]
  rfl

namespace Glob

/-- A path that a search has come to, and where it leads. -/
structure Arrives (t : FileTree) (q : Path) (k : Location) : Prop where
  ready : Ready q
  walk : t.walk q = .ok k
  fits : Fits (opening q)

theorem Arrives.locate (h : Arrives t q k) : t.locate q = .ok k := by
  have hfits : Fits q := by
    rcases h.ready with rfl | ⟨-, hcurrent⟩
    · exact ⟨by decide, by decide⟩
    · have hdot : q ≠ ['.'] := by
        rintro rfl
        cases hcurrent
      have hopening := h.fits
      rw [opening, if_neg hdot] at hopening
      exact hopening.of_sublist (Path.prefix_slashed q).sublist
  exact FileTree.locate_eq_ok.2 ⟨h.ready.ne_nil, hfits.zero, hfits.size, h.walk⟩

/-- What follows a path is gone along from where the path leads. -/
theorem walk_opening_append (hq : Ready q) (hwalk : t.walk q = .ok k) {u : Text}
    (hu : Path.isAbsolute u = false) : t.walk (opening q ++ u) = (names u).foldlM t.step k := by
  rw [opening]
  split
  -- A name at the place itself starts there, and no dot is in front of it.
  · next hdot =>
    subst hdot
    have hhere : k = t.here := by
      obtain ⟨next, hnext, hlast⟩ := foldlM_step_cons_eq_ok.1 hwalk
      obtain ⟨-, ⟨-, rfl⟩ | ⟨hdots, -⟩ | ⟨hdot, -⟩⟩ := step_eq_ok.1 hnext
      · exact (Except.ok.inj hlast).symm
      · cases hdots
      · exact absurd rfl hdot
    rw [List.nil_append, FileTree.walk, hu, hhere]
    rfl
  · rw [FileTree.walk] at hwalk
    rw [FileTree.walk, names_slashed_append, Path.isAbsolute_slashed_append hq.ne_nil,
      List.foldlM_append, hwalk]
    rfl

theorem Arrives.within (h : Arrives t q k) (hpiece : '/' ∉ piece) (hne : q = ['.'] → piece ≠ [])
    (hfits : Fits (opening q ++ piece ++ ['/'])) (hstep : (names piece).foldlM t.step k = .ok l) :
    Arrives t (within q piece) l := by
  refine ⟨h.ready.within hpiece hne, ?_, hfits.of_sublist (opening_within h.ready hpiece)⟩
  rw [h.ready.within_eq hpiece, walk_opening_append h.ready h.walk (Path.isAbsolute_eq_false hpiece)]
  exact hstep

/-- No empty piece stands behind nothing but dots. -/
def straight : List Text → Bool
  | [] => true
  | piece :: rest => if piece.isEmpty then false else piece != ['.'] || straight rest

theorem within_eq_dot (h : Ready q) (hpiece : '/' ∉ piece) (hdot : within q piece = ['.']) :
    q = ['.'] ∧ piece = ['.'] := by
  rw [h.within_eq hpiece, opening] at hdot
  split at hdot
  · next hq => exact ⟨hq, hdot⟩
  · obtain ⟨front, hslashed, -⟩ := Path.exists_slashed_eq q
    have hmem : '/' ∈ Path.slashed q ++ piece := by simp [hslashed]
    rw [hdot] at hmem
    exact absurd hmem (by decide)

variable {needs : Bool} {patterns : List NamePattern}

/-- An exact piece that leads to a directory is gone along. -/
theorem Arrives.expandFrom_cons (h : Arrives t q k) (hk : t.entry? k = some .directory)
    (h' : Arrives t (Glob.within q piece) l) (hl : t.entry? l = some .directory) :
    (expandFrom (m := StateM FileTree) needs (.exact piece :: patterns) q).run t =
      (expandFrom (m := StateM FileTree) needs patterns (Glob.within q piece)).run t := by
  rw [expandFrom]
  dsimp only
  split
  · exact run_bind_of_run (isDirectory_run h.locate hk)
  · exact run_bind_of_run (isPresent_run h'.locate hl)

/-- Exact pieces that lead to a directory are gone along one after the other. -/
theorem Arrives.expandFrom_exact (h : Arrives t q k) (hpieces : ∀ piece ∈ pieces, '/' ∉ piece)
    (hstraight : q = ['.'] → straight pieces = true)
    (hfits : Fits (opening q ++ pieces.flatMap (· ++ ['/'])))
    (hfold : (pieces.flatMap names).foldlM t.step k = .ok l) (hl : t.entry? l = some .directory) :
    (expandFrom (m := StateM FileTree) needs (pieces.map .exact ++ patterns) q).run t =
        (expandFrom (m := StateM FileTree) needs patterns (pieces.foldl Glob.within q)).run t ∧
      Arrives t (pieces.foldl Glob.within q) l ∧
        (opening (pieces.foldl Glob.within q)).Sublist
          (opening q ++ pieces.flatMap (· ++ ['/'])) := by
  induction pieces generalizing q k with
  | nil =>
      cases hfold
      exact ⟨rfl, h, by simp⟩
  | cons piece pieces ih =>
      obtain ⟨hpiece, hpieces⟩ := List.forall_mem_cons.1 hpieces
      rw [List.flatMap_cons] at hfold hfits ⊢
      obtain ⟨next, hstep, hrest⟩ := foldlM_step_append_eq_ok.1 hfold
      have hne : q = ['.'] → piece ≠ [] := by
        rintro hq rfl
        exact Bool.false_ne_true (hstraight hq)
      rw [← List.append_assoc, ← List.append_assoc] at hfits ⊢
      have harrives := h.within hpiece hne (hfits.of_sublist (List.sublist_append_left _ _)) hstep
      have hopening := (opening_within h.ready hpiece).append_right (pieces.flatMap (· ++ ['/']))
      have hstraight' : Glob.within q piece = ['.'] → straight pieces = true := by
        intro hdot
        obtain ⟨hq, rfl⟩ := within_eq_dot h.ready hpiece hdot
        exact hstraight hq
      obtain ⟨hexpand, hlast, hsub⟩ := ih harrives hpieces hstraight' (hfits.of_sublist hopening) hrest
      refine ⟨?_, hlast, hsub.trans hopening⟩
      rw [List.map_cons, List.cons_append, List.foldl_cons, ← hexpand]
      have hk : t.entry? k = some .directory := directory_of_foldlM hfold hl
      exact h.expandFrom_cons hk harrives (directory_of_foldlM hrest hl)

/-- An empty piece behind dots leads to no path at all. -/
theorem expandFrom_of_not_straight (hpieces : straight pieces = false) :
    (expandFrom (m := StateM FileTree) needs (pieces.map .exact ++ patterns) ['.']).run t =
      ([], t) := by
  induction pieces with
  | nil => cases hpieces
  | cons piece pieces ih =>
      rw [List.map_cons, List.cons_append, expandFrom]
      dsimp only
      by_cases hdot : piece = ['.']
      · subst hdot
        refine (run_bind_of_run (Looks.run (Files.looks_isDirectory _) t)).trans ?_
        split
        · exact ih hpieces
        · rfl
      · have hempty : piece = [] := by
          rw [straight] at hpieces
          split at hpieces
          · next h => exact List.isEmpty_iff.1 h
          · simp [hdot] at hpieces
        subst hempty
        -- Nothing is at the empty path.
        rfl

theorem found_run (p : Path) :
    (found (m := StateM FileTree) false p).run t = ([p], t) := rfl

theorem collect_run {α : Type} {f : α → StateM FileTree (List Path)} {g : α → Path}
    (hf : ∀ a, (f a).run t = ([g a], t)) (as : List α) :
    (collect f as).run t = (as.map g, t) := by
  have hmapM : (as.mapM f).run t = (as.map fun a => [g a], t) := by
    induction as with
    | nil => rfl
    | cons a as ih =>
        rw [List.mapM_cons]
        exact (run_bind_of_run (hf a)).trans (run_bind_of_run ih)
  have hflatten : (as.map fun a => [g a]).flatten = as.map g := by
    rw [← List.flatMap_def, ← List.map_eq_flatMap]
  exact (run_bind_of_run hmapM).trans (congrArg (·, t) hflatten)

/-- From a directory, all that is below and has a name that matches. -/
theorem Arrives.expandFrom_anyDepth (h : Arrives t q l) (hl : t.entry? l = some .directory)
    (tokens : List Pattern.Token) :
    (expandFrom (m := StateM FileTree) false [.anyDepth, .wild tokens] q).run t =
      (((t.below l).filter fun names =>
        (names.getLast?.map (Pattern.matchesName tokens)).getD false).map fun names =>
          names.foldl Glob.within q, t) := by
  have hbelow : t.descendants q = t.below l := by
    rw [descendants, find_directory h.locate hl]
  have hall : (FileSystem.descendants (m := StateM FileTree) q).run t = (t.below l, t) := by
    have hrun : (FileSystem.descendants (m := StateM FileTree) q).run t = (t.descendants q, t) := rfl
    rw [hrun, hbelow]
  have hfound (names : List Text) :
      (expandFrom (m := StateM FileTree) false [] (names.foldl Glob.within q)).run t =
        ([names.foldl Glob.within q], t) := by
    rw [expandFrom]
    exact found_run _
  rw [expandFrom]
  · refine (run_bind_of_run (isDirectory_run h.locate hl)).trans ?_
    exact (run_bind_of_run hall).trans (collect_run hfound _)
  · nofun

end Glob

end SchemaScript
