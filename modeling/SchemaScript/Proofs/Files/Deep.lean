/- The search for names with an ending at any depth below a directory. -/
import SchemaScript.Proofs.Files.Descent
import SchemaScript.Proofs.Files.Matching

namespace SchemaScript

namespace Glob

open FileTree SchemaScript.Path

variable {t : FileTree} {p q : Path} {l : Location} {ending : Text}

/-- The pieces of a path, in front of each slash and behind the one that stands for the root. -/
def lead (p : Path) : List Text := (Text.splitOn '/' (cutStart (slashed p)).2).dropLast

/-- A pattern for names with an ending at any depth below a directory. -/
def deepPattern (p : Path) (ending : Text) : Path := slashed p ++ ("**/*.".toList ++ ending)

theorem not_mem_of_mem_lead {piece : Text} (h : piece ∈ lead p) : '/' ∉ piece :=
  Text.not_mem_of_mem_splitOn (List.mem_of_mem_dropLast h)

/-- Pieces with a slash behind each are cut at these slashes. -/
theorem splitOn_slashes {pieces : List Text} (h : ∀ piece ∈ pieces, '/' ∉ piece) (u : Text) :
    Text.splitOn '/' (pieces.flatMap (· ++ ['/']) ++ u) = pieces ++ Text.splitOn '/' u := by
  induction pieces with
  | nil => rfl
  | cons piece pieces ih =>
      obtain ⟨hpiece, hpieces⟩ := List.forall_mem_cons.1 h
      have hcut := Text.splitOn_append_cons '/' piece (pieces.flatMap (· ++ ['/']) ++ u)
      rw [splitOn_of_not_mem hpiece, ih hpieces] at hcut
      rw [List.flatMap_cons, List.append_assoc, List.append_assoc]
      exact hcut

/-- A text that is empty or ends in a slash is put together from its pieces. -/
theorem flatMap_dropLast_splitOn {u : Text} (h : u = [] ∨ ∃ front, u = front ++ ['/']) :
    (Text.splitOn '/' u).dropLast.flatMap (· ++ ['/']) = u := by
  rcases h with rfl | ⟨front, rfl⟩
  · rfl
  · have hcut : Text.splitOn '/' (front ++ ['/']) = Text.splitOn '/' front ++ [[]] :=
      Text.splitOn_append_cons '/' front []
    have hjoin : Text.join ['/'] (Text.splitOn '/' front) = front := by
      rw [Text.splitOn_eq, Text.join_eq_intercalate, List.intercalate_splitOn]
    have hflat {pieces : List Text} (hne : pieces ≠ []) :
        pieces.flatMap (· ++ ['/']) = Text.join ['/'] pieces ++ ['/'] := by
      induction pieces with
      | nil => exact absurd rfl hne
      | cons piece pieces ih =>
          cases pieces with
          | nil => simp [Text.join]
          | cons next rest =>
              rw [List.flatMap_cons, ih (List.cons_ne_nil next rest)]
              simp [Text.join]
    rw [hcut, List.dropLast_concat, hflat (Text.splitOn_eq '/' front ▸ List.splitOn_ne_nil '/' front),
      hjoin]

/-- A path that starts with a dot and a slash, once or again and again, and then has another slash. -/
def stumbles : Path → Bool
  | '.' :: '/' :: '/' :: _ => true
  | '.' :: '/' :: rest => stumbles rest
  | _ => false

/-- Where the search for a path starts. -/
def origin (p : Path) : Path := if p.isAbsolute then ['/'] else ['.']

/-- What the search goes along is the path itself, but for what stands for the place where it starts. -/
theorem cutStart_slashed_append (hp : p ≠ []) (u : Text) :
    cutStart (slashed p ++ u) = (origin p, (lead p).flatMap (· ++ ['/']) ++ u) ∧
      slashed p = opening (origin p) ++ (lead p).flatMap (· ++ ['/']) := by
  obtain ⟨front, hslashed, -⟩ := exists_slashed_eq p
  obtain ⟨c, rest, rfl⟩ := List.exists_cons_of_ne_nil hp
  obtain ⟨more, hmore⟩ := prefix_slashed (c :: rest)
  rw [List.cons_append] at hmore
  by_cases hc : c = '/'
  · subst hc
    have htail : rest ++ more = [] ∨ ∃ front, rest ++ more = front ++ ['/'] := by
      rw [← hmore] at hslashed
      cases front with
      | nil => exact .inl (List.cons.inj hslashed).2
      | cons d front => exact .inr ⟨front, (List.cons.inj hslashed).2⟩
    have hlead : (lead ('/' :: rest)).flatMap (· ++ ['/']) = rest ++ more := by
      rw [lead, ← hmore]
      exact flatMap_dropLast_splitOn htail
    rw [hlead, ← hmore]
    exact ⟨rfl, rfl⟩
  · have hcut (u : Text) : cutStart (c :: u) = (['.'], c :: u) := by
      rw [cutStart]
      rintro _ h
      exact hc (List.cons.inj h).1
    have horigin : origin (c :: rest) = ['.'] := by simp [origin, isAbsolute, hc]
    have hlead : (lead (c :: rest)).flatMap (· ++ ['/']) = slashed (c :: rest) := by
      rw [lead, ← hmore, hcut, hmore]
      exact flatMap_dropLast_splitOn (.inr ⟨front, hslashed⟩)
    rw [hlead, horigin, ← hmore, List.cons_append, hcut]
    exact ⟨rfl, rfl⟩

theorem names_eq_flatMap_lead (hp : p ≠ []) : names p = (lead p).flatMap names := by
  have hlead : ∀ piece ∈ lead p, '/' ∉ piece := fun _ => not_mem_of_mem_lead
  have hpieces {pieces : List Text} (h : ∀ piece ∈ pieces, '/' ∉ piece) :
      names (pieces.flatMap (· ++ ['/'])) = pieces.flatMap names := by
    have hcut := splitOn_slashes h []
    rw [List.append_nil] at hcut
    have hnone : ([[]] : List Text).filter (!·.isEmpty) = [] := rfl
    rw [names, hcut, List.filter_append, Text.splitOn, hnone, List.append_nil]
    clear hcut
    induction pieces with
    | nil => rfl
    | cons piece pieces ih =>
        obtain ⟨hpiece, h⟩ := List.forall_mem_cons.1 h
        rw [List.flatMap_cons, names_of_not_mem hpiece, ← ih h]
        cases piece <;> rfl
  have hslashed : names (slashed p) = names p := by
    have happend := names_slashed_append p []
    rw [List.append_nil] at happend
    exact happend.trans (List.append_nil _)
  rw [← hslashed, (cutStart_slashed_append hp []).2, ← hpieces hlead]
  unfold origin
  split
  · exact names_slashed_append ['/'] _
  · rfl

/-- From where a search starts, the pieces of a path lead to where the path leads. -/
theorem arrives_origin (h : t.locate p = .ok l) (hl : t.entry? l = some .directory) :
    ∃ k, Arrives t (origin p) k ∧ ((lead p).flatMap names).foldlM t.step k = .ok l := by
  obtain ⟨hne, -, -, hwalk⟩ := FileTree.locate_eq_ok.1 h
  rw [FileTree.walk] at hwalk
  refine ⟨if p.isAbsolute then [] else t.here, ?_, names_eq_flatMap_lead hne ▸ hwalk⟩
  have hdirectory := directory_of_foldlM hwalk hl
  unfold origin
  split
  · exact ⟨.inr ⟨by decide, by decide⟩, rfl, ⟨by decide, by decide⟩⟩
  · next habsolute =>
    rw [if_neg habsolute] at hdirectory
    have hstep : t.step t.here ['.'] = .ok t.here := step_eq_ok.2 ⟨hdirectory, .inl ⟨rfl, rfl⟩⟩
    exact ⟨.inl rfl, foldlM_step_cons_eq_ok.2 ⟨t.here, hstep, rfl⟩, ⟨by decide, by decide⟩⟩

/-- Where a search finds a directory: the path of the directory, without what says nothing at its
start. -/
def spot (p : Path) : Path := (lead p).foldl within (origin p)

theorem mapM_eq_ok {α β ε : Type} {f : α → Except ε β} {g : α → β} {as : List α}
    (h : ∀ a ∈ as, f a = .ok (g a)) : as.mapM f = .ok (as.map g) := by
  induction as with
  | nil => rfl
  | cons a as ih =>
      obtain ⟨ha, has⟩ := List.forall_mem_cons.1 h
      rw [List.mapM_cons, ha, ih has]
      rfl

theorem Plain.slashed (h : Plain p) : Plain (slashed p) := by
  refine plain_iff.2 fun c hc => ?_
  rcases List.mem_append.1 ((slashed_sublist p).subset hc) with hc | hc
  · exact plain_iff.1 h c hc
  · rw [List.mem_singleton.1 hc]
    decide

theorem plain_of_mem_lead (hp : p ≠ []) (h : Plain p) {piece : Text} (hpiece : piece ∈ lead p) :
    Plain piece := by
  refine (Plain.slashed h).mono fun c hc => ?_
  rw [(cutStart_slashed_append hp []).2]
  exact List.mem_append_right _ (List.mem_flatMap.2 ⟨piece, hpiece, List.mem_append_left _ hc⟩)

theorem read_deepPattern (hplain : Plain p) (hending : Plain ending) :
    ∃ tokens, Pattern.read (deepPattern p ending) = .ok tokens := by
  obtain ⟨front, hslashed, -⟩ := exists_slashed_eq p
  have hfront : Plain front :=
    (Plain.slashed hplain).mono (hslashed ▸ List.subset_append_left front ['/'])
  have hrest (position : Nat) : Pattern.readFrom true position ("**/*.".toList ++ ending) =
      (Pattern.readFrom true (position + 3) ("*.".toList ++ ending)).map (.anyDepth :: ·) := rfl
  rw [Pattern.read, deepPattern, hslashed, List.append_assoc, List.singleton_append,
    Pattern.readFrom_plain_append hfront, hrest, Pattern.readFrom_ending hending]
  exact ⟨_, rfl⟩

theorem not_mem_ending (hslash : '/' ∉ ending) : '/' ∉ "*.".toList ++ ending := by
  rw [List.mem_append, not_or]
  exact ⟨by decide, hslash⟩

theorem pieces_deepPattern (hslash : '/' ∉ ending) :
    pieces ((lead p).flatMap (· ++ ['/']) ++ ("**/*.".toList ++ ending)) =
      lead p ++ ["**".toList, "*.".toList ++ ending] := by
  have htail : Text.splitOn '/' ("**/*.".toList ++ ending) =
      ["**".toList, "*.".toList ++ ending] := by
    have hcut := Text.splitOn_append_cons '/' "**".toList ("*.".toList ++ ending)
    rw [splitOn_of_not_mem (not_mem_ending hslash)] at hcut
    exact hcut
  rw [pieces, splitOn_slashes (fun _ => not_mem_of_mem_lead), htail]
  rw [if_neg]
  simp

theorem endsInSlash_deepPattern (hslash : '/' ∉ ending) :
    endsInSlash (deepPattern p ending) = false := by
  have hne : "*.".toList ++ ending ≠ [] := List.cons_ne_nil _ _
  have hlast : ("*.".toList ++ ending).getLast? ≠ some '/' := fun h =>
    not_mem_ending hslash (List.mem_of_getLast? h)
  have happend : deepPattern p ending = (slashed p ++ "**/".toList) ++ ("*.".toList ++ ending) := by
    rw [deepPattern, List.append_assoc]
    rfl
  rw [endsInSlash, happend, List.getLast?_append_of_ne_nil _ hne]
  exact beq_eq_false_iff_ne.2 hlast

/-- A plain directory and an ending make a pattern without a flaw, and the search goes along the pieces
of the directory first. -/
theorem expand_deepPattern (hp : p ≠ []) (hplain : Plain p) (hending : Plain ending)
    (hslash : '/' ∉ ending) (t : FileTree) :
    (expand (m := StateM FileTree) (deepPattern p ending)).run t =
      (.ok (Path.sort ((expandFrom (m := StateM FileTree) false
        ((lead p).map .exact ++ [.anyDepth, .wild (Pattern.endingTokens ending)]) (origin p)).run
          t).1), t) := by
  have hnames : (lead p ++ ["**".toList, "*.".toList ++ ending]).mapM NamePattern.read =
      .ok ((lead p).map .exact ++ [.anyDepth, .wild (Pattern.endingTokens ending)]) := by
    have hlead : (lead p).mapM NamePattern.read = .ok ((lead p).map .exact) :=
      mapM_eq_ok fun piece hpiece => NamePattern.read_plain (plain_of_mem_lead hp hplain hpiece)
    have hdepth : NamePattern.read "**".toList = .ok .anyDepth := rfl
    rw [List.mapM_append, hlead, List.mapM_cons, hdepth, List.mapM_cons,
      NamePattern.read_ending hending]
    rfl
  obtain ⟨tokens, hread⟩ := read_deepPattern hplain hending
  rw [expand, endsInSlash_deepPattern hslash, hread, deepPattern, (cutStart_slashed_append hp _).1]
  dsimp only
  rw [pieces_deepPattern hslash, hnames]
  exact run_bind_of_run ((looks_expandFrom _ _ _).run t)

def endsIn (ending : Text) (names : List Text) : Bool :=
  (names.getLast?.map (Pattern.matchesName (Pattern.endingTokens ending))).getD false

theorem endsIn_iff {names : List Text} :
    endsIn ending names = true ↔ ∃ name, names.getLast? = some name ∧ '.' :: ending <:+ name := by
  unfold endsIn
  cases names.getLast? with
  | none => simp
  | some name => simp [Pattern.matchesName_ending]

theorem arrives_spot (h : t.locate p = .ok l) (hl : t.entry? l = some .directory)
    (hstraight : p.isAbsolute = false → straight (lead p) = true) (hfits : Fits (slashed p)) :
    Arrives t (spot p) l ∧ (opening (spot p)).Sublist (slashed p) ∧
      ∀ patterns, (expandFrom (m := StateM FileTree) false ((lead p).map .exact ++ patterns)
        (origin p)).run t = (expandFrom (m := StateM FileTree) false patterns (spot p)).run t := by
  have hp : p ≠ [] := (FileTree.locate_eq_ok.1 h).1
  obtain ⟨k, harrives, hfold⟩ := arrives_origin h hl
  have hslashed := (cutStart_slashed_append hp []).2
  rw [hslashed] at hfits ⊢
  have hstraight' : origin p = ['.'] → straight (lead p) = true := by
    intro horigin
    apply hstraight
    by_contra habsolute
    rw [origin, if_pos (Bool.of_not_eq_false habsolute)] at horigin
    cases horigin
  have hlead : ∀ piece ∈ lead p, '/' ∉ piece := fun _ => not_mem_of_mem_lead
  have hall (patterns : List NamePattern) :
      (expandFrom (m := StateM FileTree) false ((lead p).map .exact ++ patterns) (origin p)).run t =
          (expandFrom (m := StateM FileTree) false patterns (spot p)).run t ∧
        Arrives t (spot p) l ∧ (opening (spot p)).Sublist _ :=
    harrives.expandFrom_exact hlead hstraight' hfits hfold hl
  exact ⟨(hall []).2.1, (hall []).2.2, fun patterns => (hall patterns).1⟩

theorem stumbles_dot_slash {rest : Text} (h : rest.head? ≠ some '/') :
    stumbles ('.' :: '/' :: rest) = stumbles rest := by
  rw [stumbles]
  rintro _ rfl
  exact h rfl

theorem stumbles_eq_false {u : Text} (h : ¬ ['.', '/'] <+: u) : stumbles u = false := by
  rw [stumbles]
  · rintro rest rfl
    exact h ⟨_, rfl⟩
  · rintro rest rfl
    exact h ⟨_, rfl⟩

/-- The pieces of a path that does not start with a slash show whether it stumbles. -/
theorem straight_eq_not_stumbles {pieces : List Text} (h : ∀ piece ∈ pieces, '/' ∉ piece)
    (hhead : pieces.head? ≠ some []) :
    straight pieces = !stumbles (pieces.flatMap (· ++ ['/'])) := by
  induction pieces with
  | nil => rfl
  | cons piece pieces ih =>
      obtain ⟨hpiece, hpieces⟩ := List.forall_mem_cons.1 h
      rcases piece with _ | ⟨c, piece⟩
      · exact absurd rfl hhead
      rw [straight, if_neg (by simp), List.flatMap_cons]
      by_cases hdot : c :: piece = ['.']
      · rw [hdot, bne_self_eq_false, Bool.false_or]
        rcases pieces with _ | ⟨_ | ⟨d, next⟩, pieces⟩
        · rfl
        · rfl
        · have hd : d ≠ '/' := by
            rintro rfl
            exact hpieces _ List.mem_cons_self List.mem_cons_self
          rw [ih hpieces (by simp)]
          exact congrArg _ (stumbles_dot_slash (by simp [hd])).symm
      · rw [bne_iff_ne.2 hdot, stumbles_eq_false]
        · rfl
        -- A piece that starts with a dot goes on with something other than a slash.
        · rintro ⟨rest, hprefix⟩
          obtain ⟨rfl, htail⟩ := List.cons.inj hprefix
          rcases piece with _ | ⟨d, piece⟩
          · exact hdot rfl
          · obtain ⟨rfl, -⟩ := List.cons.inj htail
            exact hpiece (List.mem_cons_of_mem _ List.mem_cons_self)

theorem stumbles_slashed (p : Path) : stumbles (slashed p) = stumbles p := by
  unfold slashed
  split
  · rfl
  · next hend =>
    induction p using stumbles.induct with
    | case1 rest => rfl
    | case2 rest hrest ih =>
        rcases rest with _ | ⟨c, rest⟩
        · exact absurd rfl hend
        · have hc : c ≠ '/' := by
            rintro rfl
            exact hrest rest rfl
          have hlast : endsInSlash (c :: rest) ≠ true := by
            simpa [endsInSlash, List.getLast?_cons_cons] using hend
          exact (stumbles_dot_slash (by simp [hc])).trans
            ((ih hlast).trans (stumbles_dot_slash (by simp [hc])).symm)
    | case3 p _ hrest =>
        have hnot : ¬ ['.', '/'] <+: p := by
          rintro ⟨rest, rfl⟩
          exact hrest rest rfl
        rw [stumbles_eq_false hnot]
        by_cases hlone : p = ['.']
        · rw [hlone]
          rfl
        · refine stumbles_eq_false fun hprefix => ?_
          rcases List.prefix_concat_iff.1 hprefix with hall | hprefix
          · exact hlone (List.append_inj_left' (hall.symm.trans rfl : p ++ ['/'] = ['.'] ++ ['/']) rfl)
          · exact hnot hprefix

theorem straight_lead (hp : p ≠ []) (hrelative : p.isAbsolute = false) :
    straight (lead p) = !stumbles p := by
  have hslashed := (cutStart_slashed_append hp []).2
  rw [origin, if_neg (by simp [hrelative]), opening, if_pos rfl, List.nil_append] at hslashed
  rw [← stumbles_slashed, hslashed]
  refine straight_eq_not_stumbles (fun _ => not_mem_of_mem_lead) fun hhead => ?_
  obtain ⟨rest, hrest⟩ : ∃ rest, lead p = [] :: rest := List.head?_eq_some_iff.1 hhead
  have habsolute := isAbsolute_slashed_append hp []
  rw [List.append_nil, hslashed, hrest, hrelative] at habsolute
  cases habsolute

/-- All below a plain directory that has a name with the ending, in the order of the paths. -/
theorem expand_run (h : t.locate p = .ok l) (hl : t.entry? l = some .directory) (hplain : Plain p)
    (hstraight : p.isAbsolute = false → straight (lead p) = true) (hfits : Fits (slashed p))
    (hending : Plain ending) (hslash : '/' ∉ ending) :
    (expand (m := StateM FileTree) (deepPattern p ending)).run t =
      (.ok (Path.sort (((t.below l).filter (endsIn ending)).map fun names =>
        names.foldl within (spot p))), t) := by
  have hp : p ≠ [] := (FileTree.locate_eq_ok.1 h).1
  obtain ⟨harrives, -, hexpand⟩ := arrives_spot h hl hstraight hfits
  rw [expand_deepPattern hp hplain hending hslash, hexpand, harrives.expandFrom_anyDepth hl]
  rfl

/-- Where an empty piece is behind nothing but dots, nothing is found. -/
theorem expand_run_nil (hp : p ≠ []) (hplain : Plain p) (hrelative : p.isAbsolute = false)
    (hstraight : straight (lead p) = false) (hending : Plain ending) (hslash : '/' ∉ ending) :
    (expand (m := StateM FileTree) (deepPattern p ending)).run t = (.ok [], t) := by
  have horigin : origin p = ['.'] := by rw [origin, if_neg (by simp [hrelative])]
  have hsort : Path.sort [] = [] := List.mergeSort_nil
  rw [expand_deepPattern hp hplain hending hslash, horigin, expandFrom_of_not_straight hstraight]
  exact congrArg (fun found => (Except.ok found, t)) hsort

end Glob

end SchemaScript
