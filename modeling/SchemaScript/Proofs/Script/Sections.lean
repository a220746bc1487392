/- Sections: the banners of a script show where one section ends and the next begins. -/
import SchemaScript.Proofs.Script.Tidy

namespace SchemaScript.Script

/-- A block that names the blocks behind it. -/
def IsBanner (b : Block) : Prop := ∃ title, b = banner title

theorem banner_inj {title title' : Text} (h : banner title = banner title') : title = title' := by
  simpa [banner] using h

/-- A script that is empty, or opens with a banner that has one of the given titles. -/
def Opens (titles : List Text) (s : Script) : Prop :=
  s = [] ∨ ∃ title ∈ titles, ∃ rest, s = banner title :: rest

theorem Opens.nil (titles : List Text) : Opens titles [] := .inl rfl

/-- A section in front adds its title to the possible ones. -/
theorem Opens.titled {titles : List Text} {s : Script} (h : Opens titles s) (title : Text)
    (body : Script) : Opens (title :: titles) (titled title body ++ s) := by
  cases body with
  | nil =>
      rcases h with rfl | ⟨title', ht, rest, rfl⟩
      · exact .inl rfl
      · exact .inr ⟨title', List.mem_cons_of_mem _ ht, rest, rfl⟩
  | cons block rest => exact .inr ⟨title, List.mem_cons_self, _, rfl⟩

theorem append_inj_of_opens {titles : List Text} {a b s t : Script} (hs : Opens titles s)
    (ht : Opens titles t) (ha : ∀ block ∈ a, ¬ IsBanner block) (hb : ∀ block ∈ b, ¬ IsBanner block)
    (h : a ++ s = b ++ t) : a = b ∧ s = t := by
  induction a generalizing b with
  | nil =>
      cases b with
      | nil => exact ⟨rfl, h⟩
      | cons block rest =>
          rcases hs with rfl | ⟨title, _, later, rfl⟩
          · cases h
          · exact absurd ⟨title, (List.cons.inj h).1.symm⟩ (hb block List.mem_cons_self)
  | cons block rest ih =>
      cases b with
      | nil =>
          rcases ht with rfl | ⟨title, _, later, rfl⟩
          · cases h
          · exact absurd ⟨title, (List.cons.inj h).1⟩ (ha block List.mem_cons_self)
      | cons block' rest' =>
          obtain ⟨rfl, tails⟩ := List.cons.inj h
          obtain ⟨rfl, hst⟩ := ih (fun x hx => ha x (List.mem_cons_of_mem _ hx))
            (fun x hx => hb x (List.mem_cons_of_mem _ hx)) tails
          exact ⟨rfl, hst⟩

/-- Two scripts that begin with a section of one title and go on with other sections agree only if
the sections agree, whether they are there or not. -/
theorem titled_append_inj {title : Text} {titles : List Text} {a b s t : Script}
    (hs : Opens titles s) (ht : Opens titles t) (hnew : title ∉ titles)
    (ha : ∀ block ∈ a, ¬ IsBanner block) (hb : ∀ block ∈ b, ¬ IsBanner block)
    (h : titled title a ++ s = titled title b ++ t) : a = b ∧ s = t := by
  have hother {u rest : Script} (hu : Opens titles u) (h : u = banner title :: rest) : False := by
    rcases hu with rfl | ⟨title', ht', later, rfl⟩
    · cases h
    · exact hnew (banner_inj (List.cons.inj h).1 ▸ ht')
  cases a with
  | nil =>
      cases b with
      | nil => exact ⟨rfl, h⟩
      | cons block rest => exact (hother hs h).elim
  | cons block rest =>
      cases b with
      | nil => exact (hother ht h.symm).elim
      | cons block' rest' => exact append_inj_of_opens hs ht ha hb (List.cons.inj h).2

theorem not_isBanner {line : Text} {rest : Block} (h : line ≠ "--".toList) :
    ¬ IsBanner (line :: rest) := by
  rintro ⟨title, he⟩
  exact h (List.cons.inj he).1

end SchemaScript.Script
