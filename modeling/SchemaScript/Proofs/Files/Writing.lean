/- What writing a file changes in a tree: the file itself, and neither another file nor a way to one. -/
import SchemaScript.Files.Tree
import SchemaScript.Proofs.Text.Lines
import SchemaScript.Proofs.Text.Search

namespace SchemaScript

namespace FileTree

variable {t t' : FileTree} {l l' : Location} {p : Path} {content : Bytes}

theorem lookup_put_self (l : Location) (e : Entry) (entries : List (Location × Entry)) :
    (put l e entries).lookup l = some e := by
  induction entries with
  | nil => simp [put]
  | cons entry rest ih =>
      obtain ⟨k, old⟩ := entry
      rw [put]
      split
      · next h => simp [h]
      · next h =>
        have hne : (l == k) = false := beq_eq_false_iff_ne.2 (Ne.symm h)
        rw [List.lookup_cons, hne]
        exact ih

theorem lookup_put_of_ne {k l : Location} (h : k ≠ l) (e : Entry)
    (entries : List (Location × Entry)) : (put l e entries).lookup k = entries.lookup k := by
  induction entries with
  | nil => simp [put, h]
  | cons entry rest ih =>
      obtain ⟨j, old⟩ := entry
      rw [put]
      split
      · next hj =>
        subst hj
        have hne : (k == j) = false := beq_eq_false_iff_ne.2 h
        rw [List.lookup_cons, List.lookup_cons, hne]
      · rw [List.lookup_cons, List.lookup_cons, ih]

theorem insert_entry_self (h : l ≠ []) (e : Entry) : FileTree.entry? (t.insert l e) l = some e := by
  unfold entry?
  rw [if_neg (by simpa using h)]
  exact lookup_put_self l e t.entries

theorem insert_entry_of_ne {k : Location} (h : k ≠ l) (e : Entry) :
    FileTree.entry? (t.insert l e) k = t.entry? k := by
  unfold entry?
  rw [insert, lookup_put_of_ne h]

/-- The same directories, with paths that start at the same place. -/
structure SameWays (t t' : FileTree) : Prop where
  here : t'.here = t.here
  directory : ∀ l, t'.entry? l = some .directory ↔ t.entry? l = some .directory

theorem SameWays.refl (t : FileTree) : SameWays t t := ⟨rfl, fun _ => Iff.rfl⟩

theorem SameWays.trans {t'' : FileTree} (h : SameWays t t') (h' : SameWays t' t'') :
    SameWays t t'' :=
  ⟨h'.here.trans h.here, fun l => (h'.directory l).trans (h.directory l)⟩

/-- Where one step of a path leads from a directory. -/
theorem step_eq_ok {piece : Text} : t.step l piece = .ok l' ↔
    t.entry? l = some .directory ∧
      ((piece = ['.'] ∧ l' = l) ∨ (piece = ['.', '.'] ∧ l' = l.dropLast) ∨
        (piece ≠ ['.'] ∧ piece ≠ ['.', '.'] ∧ Utf8.size piece ≤ greatestName ∧ l' = l ++ [piece])) := by
  unfold step
  split
  · next h => simp [h]
  · next h =>
    simp only [h, beq_iff_eq]
    split
    · next hdot => simp [hdot, eq_comm]
    · next hdot =>
      split
      · next hdots => simp [hdots, eq_comm]
      · next hdots =>
        split
        · next hlong => simp [hdot, hdots, Nat.not_le.2 hlong]
        · next hlong => simp [hdot, hdots, Nat.le_of_not_lt hlong, eq_comm]
  · next h => simp_all

theorem SameWays.step_eq_ok (h : SameWays t t') {piece : Text} :
    t'.step l piece = .ok l' ↔ t.step l piece = .ok l' := by
  rw [FileTree.step_eq_ok, FileTree.step_eq_ok, h.directory]

/-- The names that a path is made of, between its slashes. -/
def names (p : Path) : List Text := (Text.splitOn '/' p).filter (!·.isEmpty)

/-- Where the names of a path lead, from the root or from the place where relative paths start. -/
def walk (t : FileTree) (p : Path) : Except FileError Location :=
  (names p).foldlM t.step (if p.isAbsolute then [] else t.here)

theorem SameWays.foldlM_eq_ok (h : SameWays t t') {pieces : List Text} :
    pieces.foldlM t'.step l = .ok l' ↔ pieces.foldlM t.step l = .ok l' := by
  induction pieces generalizing l with
  | nil => rfl
  | cons piece pieces ih =>
      simp only [List.foldlM_cons]
      constructor
      · intro hfold
        cases hstep : t'.step l piece with
        | error e =>
            rw [hstep] at hfold
            cases hfold
        | ok next =>
            rw [hstep] at hfold
            rw [h.step_eq_ok.1 hstep]
            exact ih.1 hfold
      · intro hfold
        cases hstep : t.step l piece with
        | error e =>
            rw [hstep] at hfold
            cases hfold
        | ok next =>
            rw [hstep] at hfold
            rw [h.step_eq_ok.2 hstep]
            exact ih.2 hfold

theorem locate_eq_ok : t.locate p = .ok l ↔
    p ≠ [] ∧ '\x00' ∉ p ∧ Utf8.size p ≤ greatestPath ∧ t.walk p = .ok l := by
  unfold locate
  split
  · next h => simp_all
  · next h =>
    split
    · next hzero => simp_all
    · next hzero =>
      split
      · next hlong => simp [Nat.not_le.2 hlong]
      · next hlong => simp_all [walk, names]

theorem SameWays.locate_eq_ok (h : SameWays t t') : t'.locate p = .ok l ↔ t.locate p = .ok l := by
  rw [FileTree.locate_eq_ok, FileTree.locate_eq_ok, walk, walk, h.here, h.foldlM_eq_ok]

/-- A name that is the last part of a path is the name of what the path leads to. -/
structure IsName (name : Text) : Prop where
  ne_nil : name ≠ []
  ne_dot : name ≠ ['.']
  ne_dots : name ≠ ['.', '.']
  no_slash : '/' ∉ name

theorem splitOn_of_not_mem {sep : Char} {t : Text} (h : sep ∉ t) : Text.splitOn sep t = [t] := by
  have hjoin : Text.splitOn sep (Text.join [sep] [t]) = [t] :=
    Text.splitOn_join (List.cons_ne_nil t []) (by simpa using h)
  exact hjoin

theorem IsName.exists_names {name : Text} (h : IsName name) (p : Path) :
    ∃ before, names (p.join name) = before ++ [name] := by
  have hkept : [name].filter (!·.isEmpty) = [name] := by simp [h.ne_nil]
  have habsolute : Path.isAbsolute name = false := by
    unfold Path.isAbsolute
    split
    · exact absurd List.mem_cons_self h.no_slash
    · rfl
  have hbehind (q : Path) : names (q ++ '/' :: name) = names q ++ [name] := by
    rw [names, Text.splitOn_append_cons, splitOn_of_not_mem h.no_slash, List.filter_append, hkept]
    rfl
  unfold Path.join
  rw [if_neg (by simp [habsolute])]
  split
  · next hend =>
    rw [Bool.or_eq_true, List.isEmpty_iff] at hend
    rcases hend with rfl | hslash
    · exact ⟨[], by rw [names, List.nil_append, splitOn_of_not_mem h.no_slash, hkept]; rfl⟩
    · unfold Path.endsInSlash at hslash
      obtain ⟨q, rfl⟩ := List.getLast?_eq_some_iff.1 (eq_of_beq hslash)
      refine ⟨names q, ?_⟩
      rw [List.append_assoc]
      exact hbehind q
  · exact ⟨names p, hbehind p⟩

theorem IsName.exists_location {name : Text} (h : IsName name) (hl : t.locate (p.join name) = .ok l) :
    ∃ directory, l = directory ++ [name] := by
  obtain ⟨-, -, -, hwalk⟩ := FileTree.locate_eq_ok.1 hl
  obtain ⟨before, hnames⟩ := h.exists_names p
  rw [walk, hnames, List.foldlM_append] at hwalk
  generalize (if Path.isAbsolute (p.join name) = true then [] else t.here) = from_ at hwalk
  cases hbefore : before.foldlM t.step from_ with
  | error e =>
      rw [hbefore] at hwalk
      cases hwalk
  | ok directory =>
      rw [hbefore] at hwalk
      have hstep : t.step directory name = .ok l := by
        have hlast : [name].foldlM t.step directory = .ok l := hwalk
        simpa only [List.foldlM_cons, List.foldlM_nil, bind_pure] using hlast
      obtain ⟨-, ⟨hdot, -⟩ | ⟨hdots, -⟩ | ⟨-, -, -, hl⟩⟩ := step_eq_ok.1 hstep
      · exact absurd hdot h.ne_dot
      · exact absurd hdots h.ne_dots
      · exact ⟨directory, hl⟩

theorem write_eq_ok : t.write p content = .ok t' ↔ ∃ l, t.locate p = .ok l ∧
    p.endsInSlash = false ∧ t.entry? l ≠ some .directory ∧
      t' = if t.entry? l = some .sink then t else t.insert l (.file content) := by
  unfold write
  cases hl : t.locate p with
  | error e => simp [bind, Except.bind]
  | ok l =>
      simp only [bind, Except.bind, Except.ok.injEq, exists_eq_left']
      cases hslash : p.endsInSlash with
      | true => simp
      | false =>
          cases he : t.entry? l with
          | none => simp [eq_comm]
          | some e => cases e <;> simp [eq_comm]

theorem ne_nil_of_not_directory (h : t.entry? l ≠ some .directory) : l ≠ [] := by
  rintro rfl
  exact h rfl

/-- A written file is no directory, and neither makes nor takes one. -/
theorem sameWays_of_write (h : t.write p content = .ok t') : SameWays t t' := by
  obtain ⟨l, -, -, hdirectory, rfl⟩ := write_eq_ok.1 h
  split
  · exact .refl t
  · refine ⟨rfl, fun k => ?_⟩
    by_cases hk : k = l
    · subst hk
      rw [insert_entry_self (ne_nil_of_not_directory hdirectory)]
      simp [hdirectory]
    · rw [insert_entry_of_ne hk]

/-- A file at a path holds a content, or a device is there, which holds none. -/
def Holds (t : FileTree) (p : Path) (content : Bytes) : Prop :=
  t.read p = .ok content ∨ t.kind? p = some .other

/-- A content at the place that a path leads to. -/
structure Written (t : FileTree) (p : Path) (content : Bytes) (l : Location) : Prop where
  located : t.locate p = .ok l
  noSlash : p.endsInSlash = false
  entry : t.entry? l = some (.file content) ∨ t.entry? l = some .sink

theorem Written.find (h : t.Written p content l) {e : Entry} (he : t.entry? l = some e) :
    t.find p = .ok (l, e) := by
  unfold FileTree.find
  rw [h.located]
  simp only [bind, Except.bind, he]
  cases e <;> simp [h.noSlash]

theorem Written.holds (h : t.Written p content l) : t.Holds p content := by
  rcases h.entry with he | he
  · left
    rw [read, h.find he]
    rfl
  · right
    rw [kind?, h.find he]

theorem written_of_write (h : t.write p content = .ok t') : ∃ l, t'.Written p content l := by
  have hways := sameWays_of_write h
  obtain ⟨l, hl, hslash, hdirectory, rfl⟩ := write_eq_ok.1 h
  refine ⟨l, hways.locate_eq_ok.2 hl, hslash, ?_⟩
  split
  · next hsink => exact .inr hsink
  · exact .inl (insert_entry_self (ne_nil_of_not_directory hdirectory) _)

/-- A written file stays as it is when another one is written. -/
theorem Written.of_write {q : Path} {other : Bytes} (h : t.Written p content l)
    (hw : t.write q other = .ok t') (hq : t.locate q ≠ .ok l) : t'.Written p content l := by
  have hways := sameWays_of_write hw
  obtain ⟨k, hk, -, -, rfl⟩ := write_eq_ok.1 hw
  refine ⟨hways.locate_eq_ok.2 h.located, h.noSlash, ?_⟩
  split
  · exact h.entry
  · have hne : l ≠ k := fun hlk => hq (hlk ▸ hk)
    rw [insert_entry_of_ne hne]
    exact h.entry

/-- Paths that end in different names lead to different places. -/
theorem locate_join_ne {m n : Text} (hm : IsName m) (hn : IsName n) (hmn : m ≠ n) {p q : Path}
    (hp : t.locate (p.join m) = .ok l) : t.locate (q.join n) ≠ .ok l := by
  intro hq
  obtain ⟨d, rfl⟩ := hm.exists_location hp
  obtain ⟨d', hd⟩ := hn.exists_location hq
  exact hmn (List.cons.inj (List.append_inj' hd rfl).2).1

end FileTree

end SchemaScript
