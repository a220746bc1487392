/- The paths of what is below a directory: which names they have, and where they lead. -/
import SchemaScript.Proofs.Files.Deep
import SchemaScript.Proofs.Files.Order

namespace SchemaScript

open FileTree SchemaScript.Path Glob

variable {t : FileTree} {p q : Path} {l : Location} {name : Text} {names more : List Text}

namespace FileTree

theorem IsName.part? (h : IsName name) : Path.part? name = some (.name name) := by
  rw [Path.part?, if_neg (by simp [h.ne_nil, h.ne_dot]), if_neg (by simp [h.ne_dots])]

theorem filterMap_part? (h : ∀ name ∈ names, IsName name) :
    names.filterMap Path.part? = names.map .name := by
  induction names with
  | nil => rfl
  | cons name names ih =>
      obtain ⟨hname, hnames⟩ := List.forall_mem_cons.1 h
      rw [List.filterMap_cons_some hname.part?, ih hnames, List.map_cons]

theorem isAbsolute_join (h : ∀ name ∈ names, IsName name) :
    isAbsolute (Text.join ['/'] names) = false := by
  rcases names with _ | ⟨first, rest⟩
  · rfl
  · obtain ⟨hfirst, -⟩ := List.forall_mem_cons.1 h
    obtain ⟨c, tail, rfl⟩ := List.exists_cons_of_ne_nil hfirst.ne_nil
    have hc : c ≠ '/' := by
      rintro rfl
      exact hfirst.no_slash List.mem_cons_self
    cases rest <;> simp [Text.join, isAbsolute, hc]

theorem splitOn_join_names (hne : names ≠ []) (h : ∀ name ∈ names, IsName name) :
    Text.splitOn '/' (Text.join ['/'] names) = names :=
  Text.splitOn_join hne fun name hname => (h name hname).no_slash

theorem names_join (hne : names ≠ []) (h : ∀ name ∈ names, IsName name) :
    FileTree.names (Text.join ['/'] names) = names := by
  rw [FileTree.names, splitOn_join_names hne h, List.filter_eq_self]
  intro name hname
  simp [(h name hname).ne_nil]

theorem endsInSlash_append_join (hne : names ≠ []) (h : ∀ name ∈ names, IsName name) (u : Text) :
    endsInSlash (u ++ Text.join ['/'] names) = false := by
  have hlast : endsInSlash (pathOf names) = false := by
    rw [endsInSlash_pathOf h]
    simpa using hne
  have hjoin : Text.join ['/'] names ≠ [] := by
    intro hnil
    have hcut := splitOn_join_names hne h
    rw [hnil] at hcut
    exact (h [] (hcut ▸ List.mem_cons_self)).ne_nil rfl
  have hcons : pathOf names = ['/'] ++ Text.join ['/'] names := rfl
  rw [endsInSlash, hcons, List.getLast?_append_of_ne_nil _ hjoin] at hlast
  rw [endsInSlash, List.getLast?_append_of_ne_nil _ hjoin]
  exact hlast

end FileTree

namespace Glob

/-- What a search calls something below a directory: the names behind what is in front of them. -/
theorem foldl_within (hq : Ready q) (hne : names ≠ []) (h : ∀ name ∈ names, IsName name) :
    names.foldl within q = opening q ++ Text.join ['/'] names := by
  induction names generalizing q with
  | nil => exact absurd rfl hne
  | cons name names ih =>
      obtain ⟨hname, hnames⟩ := List.forall_mem_cons.1 h
      rw [List.foldl_cons]
      cases names with
      | nil => exact hq.within_eq hname.no_slash
      | cons next rest =>
          have hready := hq.within hname.no_slash fun _ => hname.ne_nil
          have hdot : within q name ≠ ['.'] := fun hdot =>
            hname.ne_dot (within_eq_dot hq hname.no_slash hdot).2
          have hopening : opening (within q name) = opening q ++ name ++ ['/'] := by
            have hslash : endsInSlash (opening q ++ name) = false :=
              endsInSlash_append_join (List.cons_ne_nil name [])
                (fun n hn => List.mem_singleton.1 hn ▸ hname) (opening q)
            rw [opening, if_neg hdot, hq.within_eq hname.no_slash, slashed, if_neg (by simp [hslash])]
          rw [ih hready (List.cons_ne_nil next rest) hnames, hopening]
          simp [Text.join]

theorem parts_foldl_within (hq : Ready q) (hne : names ≠ []) (h : ∀ name ∈ names, IsName name) :
    (names.foldl within q).parts = (if q = ['.'] then [] else q.parts) ++ names.map .name := by
  rw [foldl_within hq hne h, opening]
  split
  · have hstart : start (Text.join ['/'] names) = [] := by
      have hhead : (Text.splitOn '/' (Text.join ['/'] names)).head? ≠ some ['.'] := by
        rw [splitOn_join_names hne h]
        intro hdot
        exact (h _ (List.mem_of_mem_head? hdot)).ne_dot rfl
      rw [start, if_neg (by simp [isAbsolute_join h]), if_neg (by simpa using hhead)]
    rw [List.nil_append, parts, hstart, splitOn_join_names hne h, filterMap_part? h]
  · rw [parts_slashed_append hq.ne_nil, splitOn_join_names hne h, filterMap_part? h]

/-- Different names below a directory make different paths. -/
theorem foldl_within_inj (hq : Ready q) (hne : names ≠ []) (h : ∀ name ∈ names, IsName name)
    (hne' : more ≠ []) (h' : ∀ name ∈ more, IsName name)
    (hsame : same (names.foldl within q) (more.foldl within q) = true) : names = more := by
  rw [same_iff, parts_foldl_within hq hne h, parts_foldl_within hq hne' h'] at hsame
  have hmap := List.append_cancel_left hsame
  exact List.map_injective_iff.2 (fun _ _ h => Part.name.inj h) hmap

theorem walk_foldl_within (hq : Ready q) (hwalk : t.walk q = .ok l) (hne : names ≠ [])
    (h : ∀ name ∈ names, IsName name) :
    t.walk (names.foldl within q) = names.foldlM t.step l := by
  rw [foldl_within hq hne h, walk_opening_append hq hwalk (isAbsolute_join h), names_join hne h]

theorem walk_join (hp : p ≠ []) (hwalk : t.walk p = .ok l) (hne : names ≠ [])
    (h : ∀ name ∈ names, IsName name) :
    t.walk (p.join (Text.join ['/'] names)) = names.foldlM t.step l := by
  rw [FileTree.walk] at hwalk
  rw [join_eq hp (isAbsolute_join h), FileTree.walk, names_slashed_append, names_join hne h,
    isAbsolute_slashed_append hp, List.foldlM_append, hwalk]
  rfl

end Glob

namespace FileTree

theorem locate_of_text? {text : Text} (h : t.text? p = some text) : ∃ l, t.locate p = .ok l := by
  unfold text? FileTree.read at h
  cases hfind : t.find p with
  | error e =>
      rw [hfind] at h
      cases h
  | ok found => exact ⟨found.1, (find_eq_ok hfind).1⟩

/-- What is read depends on where a path leads, and not on the way. -/
theorem text?_eq_of_locate (hp : t.locate p = .ok l) (hq : t.locate q = .ok l)
    (hp' : p.endsInSlash = false) (hq' : q.endsInSlash = false) : t.text? p = t.text? q := by
  have hfind : t.find p = t.find q := by
    unfold FileTree.find
    rw [hp, hq, hp', hq']
  unfold text? FileTree.read
  rw [hfind]

/-- What is read below the place of a search is at the names that lead there. -/
theorem locate_foldl_within (hq : Ready q) (hwalk : t.walk q = .ok l) (hne : names ≠ [])
    (h : ∀ name ∈ names, IsName name) {k : Location}
    (hk : t.locate (names.foldl Glob.within q) = .ok k) : k = l ++ names := by
  obtain ⟨-, -, -, hwalk'⟩ := FileTree.locate_eq_ok.1 hk
  rw [walk_foldl_within hq hwalk hne h] at hwalk'
  exact foldlM_step_names h hwalk'

/-- A search calls nothing by a longer path than the one by which it was asked for, so that what can be
read by this path can be read by that of the search. -/
theorem text?_foldl_within (hq : Arrives t q l) (hopening : (opening q).Sublist (slashed p))
    (hp : t.locate p = .ok l) (hne : names ≠ []) (h : ∀ name ∈ names, IsName name) {text : Text}
    (htext : t.text? (p.join (Text.join ['/'] names)) = some text) :
    t.text? (names.foldl Glob.within q) = some text := by
  obtain ⟨k, hk⟩ := locate_of_text? htext
  obtain ⟨hp', -, -, hwalk⟩ := FileTree.locate_eq_ok.1 hp
  have hpath : p.join (Text.join ['/'] names) = slashed p ++ Text.join ['/'] names :=
    join_eq hp' (isAbsolute_join h)
  have hfound : names.foldl Glob.within q = opening q ++ Text.join ['/'] names :=
    foldl_within hq.ready hne h
  have hend (u : Text) := endsInSlash_append_join hne h u
  have hk' : t.locate (names.foldl Glob.within q) = .ok k := by
    have hfits := fits_of_locate hk
    rw [hpath] at hfits
    have hfits' := hfits.of_sublist (hopening.append_right (Text.join ['/'] names))
    have hnil : names.foldl Glob.within q ≠ [] := by
      rw [hfound]
      intro hnil
      have hjoin := names_join hne h
      rw [(List.append_eq_nil_iff.1 hnil).2] at hjoin
      exact hne hjoin.symm
    rw [← hfound] at hfits'
    refine FileTree.locate_eq_ok.2 ⟨hnil, hfits'.zero, hfits'.size, ?_⟩
    rw [walk_foldl_within hq.ready hq.walk hne h, ← walk_join hp' hwalk hne h]
    exact (FileTree.locate_eq_ok.1 hk).2.2.2
  rw [← htext]
  exact text?_eq_of_locate hk' hk (by rw [hfound, hend]) (by rw [hpath, hend])

end FileTree

end SchemaScript
