import Mathlib.Data.List.TakeWhile
set_option autoImplicit false

/-! # Runs of characters

A run of characters of a class ends where the text does not go on with one of them. So a text that
begins with a run tells the run and what follows it (`append_inj_of_head?`), and likewise a part
that ends at the first of some character (`append_cons_inj_of_not_mem`). -/

namespace LoxSyntax

variable {p : Char → Bool}

/-- A character of a class is none outside it. -/
theorem ne_of_class {c d : Char} (hc : p c = true) (hd : p d = false) : c ≠ d := by
  rintro rfl
  rw [hd] at hc
  cases hc

theorem forall_mem_takeWhile (p : Char → Bool) (cs : List Char) :
    ∀ c ∈ cs.takeWhile p, p c = true :=
  List.all_eq_true.mp List.all_takeWhile

/-- Where a run of characters of a class ends, the text does not go on with one of them. -/
theorem head?_dropWhile_eq_false (p : Char → Bool) (cs : List Char) :
    ∀ c ∈ (cs.dropWhile p).head?, p c = false := by
  intro c hc
  have hhead := List.head?_dropWhile_not p cs
  rw [Option.mem_def.mp hc] at hhead
  exact hhead

/-- A run of characters of a class ends in front of a text that does not begin with one of them. -/
theorem takeWhile_append_of_head? {cs : List Char} (following : List Char)
    (hcs : ∀ c ∈ cs, p c = true) (hfollowing : ∀ c ∈ following.head?, p c = false) :
    (cs ++ following).takeWhile p = cs ∧ (cs ++ following).dropWhile p = following := by
  rw [List.takeWhile_append_of_pos hcs, List.dropWhile_append_of_pos hcs]
  cases following with
  | nil => simp
  | cons c following => simp [hfollowing c rfl]

/-- A part without the character that stands behind it goes up to the first of that character. -/
theorem takeWhile_append_cons_of_not_mem {c : Char} {cs : List Char} (h : c ∉ cs)
    (following : List Char) :
    (cs ++ c :: following).takeWhile (· ≠ c) = cs ∧
      (cs ++ c :: following).dropWhile (· ≠ c) = c :: following := by
  refine takeWhile_append_of_head? (c :: following) ?_ (by simp)
  intro d hd
  rw [decide_eq_true_eq]
  rintro rfl
  exact h hd

section

variable {cs ds following following' : List Char}

/-- A run of characters of a class is told by the text that it begins, if the text does not go on
    with one of them. -/
theorem append_inj_of_head? (hcs : ∀ c ∈ cs, p c = true) (hds : ∀ c ∈ ds, p c = true)
    (hfollowing : ∀ c ∈ following.head?, p c = false)
    (hfollowing' : ∀ c ∈ following'.head?, p c = false)
    (h : cs ++ following = ds ++ following') : cs = ds ∧ following = following' := by
  obtain ⟨htake, hdrop⟩ := takeWhile_append_of_head? following hcs hfollowing
  obtain ⟨htake', hdrop'⟩ := takeWhile_append_of_head? following' hds hfollowing'
  rw [h] at htake hdrop
  exact ⟨htake.symm.trans htake', hdrop.symm.trans hdrop'⟩

/-- A part without the character that stands behind it is told by the text that it begins. -/
theorem append_cons_inj_of_not_mem {c : Char} (hcs : c ∉ cs) (hds : c ∉ ds)
    (h : cs ++ c :: following = ds ++ c :: following') : cs = ds ∧ following = following' := by
  obtain ⟨htake, hdrop⟩ := takeWhile_append_cons_of_not_mem hcs following
  obtain ⟨htake', hdrop'⟩ := takeWhile_append_cons_of_not_mem hds following'
  rw [h] at htake hdrop
  exact ⟨htake.symm.trans htake', (List.cons.inj (hdrop.symm.trans hdrop')).2⟩

end

end LoxSyntax
