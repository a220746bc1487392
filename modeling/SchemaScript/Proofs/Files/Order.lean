/- The order of paths is a total one, so that a sorted list has the paths that are the same beside each
   other. -/
import SchemaScript.Files.Path
import Mathlib.Data.Char

namespace SchemaScript.Path

theorem nameLe_total (s t : Text) : nameLe s t = true ∨ nameLe t s = true := by
  induction s generalizing t with
  | nil => exact .inl rfl
  | cons a s ih =>
      cases t with
      | nil => exact .inr rfl
      | cons b t =>
          simp only [nameLe, Bool.or_eq_true, Bool.and_eq_true, decide_eq_true_eq, beq_iff_eq]
          rcases lt_trichotomy a b with hab | rfl | hba
          · exact .inl (.inl hab)
          · exact (ih t).imp (fun h => .inr ⟨rfl, h⟩) fun h => .inr ⟨rfl, h⟩
          · exact .inr (.inl hba)

theorem nameLe_trans {s t u : Text} (h : nameLe s t = true) (h' : nameLe t u = true) :
    nameLe s u = true := by
  induction s generalizing t u with
  | nil => rfl
  | cons a s ih =>
      cases t with
      | nil => cases h
      | cons b t =>
          cases u with
          | nil => cases h'
          | cons c u =>
              simp only [nameLe, Bool.or_eq_true, Bool.and_eq_true, decide_eq_true_eq,
                beq_iff_eq] at h h' ⊢
              rcases h with hab | ⟨rfl, h⟩
              · rcases h' with hbc | ⟨rfl, -⟩
                · exact .inl (lt_trans hab hbc)
                · exact .inl hab
              · rcases h' with hbc | ⟨rfl, h'⟩
                · exact .inl hbc
                · exact .inr ⟨rfl, ih h h'⟩

theorem nameLe_antisymm {s t : Text} (h : nameLe s t = true) (h' : nameLe t s = true) : s = t := by
  induction s generalizing t with
  | nil =>
      cases t with
      | nil => rfl
      | cons b t => cases h'
  | cons a s ih =>
      cases t with
      | nil => cases h
      | cons b t =>
          simp only [nameLe, Bool.or_eq_true, Bool.and_eq_true, decide_eq_true_eq,
            beq_iff_eq] at h h'
          rcases h with hab | ⟨rfl, h⟩
          · rcases h' with hba | ⟨rfl, -⟩
            · exact absurd hab (lt_asymm hba)
            · exact absurd hab (lt_irrefl _)
          · rcases h' with haa | ⟨-, h'⟩
            · exact absurd haa (lt_irrefl _)
            · rw [ih h h']

namespace Part

variable {a b c : Part}

theorem le_iff : a.le b = true ↔
    a.rank < b.rank ∨ a.rank = b.rank ∧ nameLe a.text b.text = true := by
  simp [Part.le]

theorem le_total (a b : Part) : a.le b = true ∨ b.le a = true := by
  rw [le_iff, le_iff]
  rcases Nat.lt_trichotomy a.rank b.rank with hab | hab | hba
  · exact .inl (.inl hab)
  · exact (nameLe_total a.text b.text).imp (fun h => .inr ⟨hab, h⟩) fun h => .inr ⟨hab.symm, h⟩
  · exact .inr (.inl hba)

theorem le_trans (h : a.le b = true) (h' : b.le c = true) : a.le c = true := by
  rw [le_iff] at h h' ⊢
  rcases h with hab | ⟨hab, h⟩
  · rcases h' with hbc | ⟨hbc, -⟩
    · exact .inl (Nat.lt_trans hab hbc)
    · exact .inl (hbc ▸ hab)
  · rcases h' with hbc | ⟨hbc, h'⟩
    · exact .inl (hab ▸ hbc)
    · exact .inr ⟨hab.trans hbc, nameLe_trans h h'⟩

theorem eq_of_rank_of_text (hrank : a.rank = b.rank) (htext : a.text = b.text) : a = b := by
  cases a <;> cases b <;> first | rfl | exact congrArg Part.name htext | cases hrank

theorem le_antisymm (h : a.le b = true) (h' : b.le a = true) : a = b := by
  rw [le_iff] at h h'
  rcases h with hab | ⟨hab, h⟩
  · rcases h' with hba | ⟨hba, -⟩
    · exact absurd hab (Nat.lt_asymm hba)
    · exact absurd (hba ▸ hab) (Nat.lt_irrefl _)
  · rcases h' with hba | ⟨-, h'⟩
    · exact absurd (hab ▸ hba) (Nat.lt_irrefl _)
    · exact eq_of_rank_of_text hab (nameLe_antisymm h h')

end Part

theorem partsLe_total (s t : List Part) : partsLe s t = true ∨ partsLe t s = true := by
  induction s generalizing t with
  | nil => exact .inl rfl
  | cons a s ih =>
      cases t with
      | nil => exact .inr rfl
      | cons b t =>
          by_cases hab : a = b
          · subst hab
            simpa [partsLe] using ih t
          · simpa [partsLe, hab, Ne.symm hab] using Part.le_total a b

theorem partsLe_trans {s t u : List Part} (h : partsLe s t = true) (h' : partsLe t u = true) :
    partsLe s u = true := by
  induction s generalizing t u with
  | nil => rfl
  | cons a s ih =>
      cases t with
      | nil => cases h
      | cons b t =>
          cases u with
          | nil => cases h'
          | cons c u =>
              simp only [partsLe] at h h' ⊢
              by_cases hab : a = b
              · subst hab
                by_cases hac : a = c
                · simp only [hac, if_true] at h h' ⊢
                  exact ih h h'
                · simpa [hac] using h'
              · rw [if_neg hab] at h
                by_cases hbc : b = c
                · subst hbc
                  rw [if_neg hab]
                  exact h
                · rw [if_neg hbc] at h'
                  have hac : a ≠ c := by
                    rintro rfl
                    exact hab (Part.le_antisymm h h')
                  rw [if_neg hac]
                  exact Part.le_trans h h'

theorem partsLe_antisymm {s t : List Part} (h : partsLe s t = true) (h' : partsLe t s = true) :
    s = t := by
  induction s generalizing t with
  | nil =>
      cases t with
      | nil => rfl
      | cons b t => cases h'
  | cons a s ih =>
      cases t with
      | nil => cases h
      | cons b t =>
          simp only [partsLe] at h h'
          by_cases hab : a = b
          · subst hab
            simp only [if_true] at h h'
            rw [ih h h']
          · rw [if_neg hab] at h
            rw [if_neg (Ne.symm hab)] at h'
            exact absurd (Part.le_antisymm h h') hab

theorem same_iff {p q : Path} : same p q = true ↔ p.parts = q.parts := by simp [same]

theorem mem_sort {paths : List Path} {p : Path} : p ∈ sort paths ↔ p ∈ paths := List.mem_mergeSort

theorem sort_pairwise (paths : List Path) : (sort paths).Pairwise (fun p q => le p q = true) := by
  refine List.pairwise_mergeSort (fun p q r => ?_) (fun p q => ?_) paths
  · exact partsLe_trans
  · exact Bool.or_eq_true _ _ |>.mpr (partsLe_total p.parts q.parts)

/-- What follows a path in order and is not the same is behind it. -/
theorem dropSame_spec {p : Path} {rest : List Path} (hp : ∀ q ∈ rest, le p q = true)
    (hrest : rest.Pairwise (fun q r => le q r = true)) :
    (dropSame p rest).Sublist rest ∧
      (∀ q ∈ rest, same p q = true ∨ ∃ r ∈ dropSame p rest, same r q = true) ∧
        (p :: dropSame p rest).Pairwise (fun q r => same q r = false) := by
  induction rest generalizing p with
  | nil => exact ⟨.slnil, fun q hq => (List.not_mem_nil hq).elim, List.pairwise_singleton _ _⟩
  | cons q rest ih =>
      obtain ⟨hpq, hprest⟩ := List.forall_mem_cons.1 hp
      obtain ⟨hq, hrest⟩ := List.pairwise_cons.1 hrest
      rw [dropSame]
      split
      · next hsame =>
        obtain ⟨hsub, hall, hapart⟩ := ih hprest hrest
        refine ⟨hsub.cons q, fun r hr => ?_, hapart⟩
        rcases List.mem_cons.1 hr with rfl | hr
        · exact .inl hsame
        · exact hall r hr
      · next hsame =>
        obtain ⟨hsub, hall, hapart⟩ := ih hq hrest
        refine ⟨hsub.cons_cons q, fun r hr => .inr ?_, List.pairwise_cons.2 ⟨fun r hr => ?_, hapart⟩⟩
        · rcases List.mem_cons.1 hr with rfl | hr
          · exact ⟨r, List.mem_cons_self, same_iff.2 rfl⟩
          · rcases hall r hr with hqr | ⟨s, hs, hsr⟩
            · exact ⟨q, List.mem_cons_self, hqr⟩
            · exact ⟨s, List.mem_cons_of_mem q hs, hsr⟩
        -- A path that is the same as this one further on would be the same as all between.
        · rcases List.mem_cons.1 hr with rfl | hr
          · exact Bool.eq_false_iff.2 hsame
          · refine Bool.eq_false_iff.2 fun hpr => hsame (same_iff.2 ?_)
            have hqr : le q r = true := hq r (hsub.subset hr)
            rw [le, ← same_iff.1 hpr] at hqr
            exact partsLe_antisymm hpq hqr

/-- Without repeats, a list in order has for each of its paths exactly one that is the same. -/
theorem withoutRepeats_spec {paths : List Path}
    (h : paths.Pairwise (fun p q => le p q = true)) :
    (withoutRepeats paths).Sublist paths ∧
      (∀ q ∈ paths, ∃ r ∈ withoutRepeats paths, same r q = true) ∧
        (withoutRepeats paths).Pairwise (fun p q => same p q = false) := by
  cases paths with
  | nil => exact ⟨.slnil, fun q hq => (List.not_mem_nil hq).elim, .nil⟩
  | cons p rest =>
      obtain ⟨hp, hrest⟩ := List.pairwise_cons.1 h
      obtain ⟨hsub, hall, hapart⟩ := dropSame_spec hp hrest
      refine ⟨hsub.cons_cons p, fun q hq => ?_, hapart⟩
      rcases List.mem_cons.1 hq with rfl | hq
      · exact ⟨q, List.mem_cons_self, same_iff.2 rfl⟩
      · rcases hall q hq with hpq | ⟨r, hr, hrq⟩
        · exact ⟨p, List.mem_cons_self, hpq⟩
        · exact ⟨r, List.mem_cons_of_mem p hr, hrq⟩

end SchemaScript.Path
