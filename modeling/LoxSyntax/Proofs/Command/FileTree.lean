import LoxSyntax.Command.Files
set_option autoImplicit false

/-! # File systems

Writing a file changes what is at one location and nothing else. Since that location was no
directory before, every path still leads where it led, and the file read back has the content that
was written. -/

namespace LoxSyntax

/-- Taking out the entries of a key leaves the other keys alone. -/
theorem lookup_filter_of_ne {α β : Type} [BEq α] [LawfulBEq α] [DecidableEq α] {key other : α}
    (h : other ≠ key) (entries : List (α × β)) :
    (entries.filter (·.1 ≠ key)).lookup other = entries.lookup other := by
  induction entries with
  | nil => rfl
  | cons entry entries ih =>
    obtain ⟨name, value⟩ := entry
    by_cases hname : name = key
    · have hother : (other == name) = false := by simpa [hname] using h
      rw [List.filter_cons_of_neg (by simpa using hname), ih, List.lookup_cons, hother]
    · rw [List.filter_cons_of_pos (by simpa using hname), List.lookup_cons, List.lookup_cons, ih]

namespace FileTree

variable {t after : FileTree} {location other : Location} {node : FileNode} {p : Path}
  {content : Bytes}

/-! ## Locations -/

theorem node?_put_self (h : location ≠ []) : (t.put location node).node? location = some node := by
  simp [node?, put, h]

theorem node?_put_of_ne (h : other ≠ location) :
    (t.put location node).node? other = t.node? other := by
  have hother : (other == location) = false := by simpa using h
  simp only [node?, put, List.lookup_cons, hother, lookup_filter_of_ne h]

/-- Directories stay directories when something is put in another place. -/
theorem node?_put_directory (h : t.node? location ≠ some .directory)
    (hother : t.node? other = some .directory) :
    (t.put location node).node? other = some .directory := by
  have hne : other ≠ location := by
    rintro rfl
    exact h hother
  rw [node?_put_of_ne hne, hother]

/-- Names lead to the same location as long as directories stay directories. -/
theorem walk_of_directories {u : FileTree} {here : Location} {names : List String}
    (h : ∀ l, t.node? l = some .directory → u.node? l = some .directory)
    (hwalk : t.walk here names = .ok location) : u.walk here names = .ok location := by
  induction names generalizing here with
  | nil => exact hwalk
  | cons name names ih =>
    rw [walk] at hwalk ⊢
    by_cases hhere : t.node? here = some .directory
    · rw [hhere] at hwalk
      rw [h here hhere]
      by_cases hup : name = ".."
      · simp only [if_pos hup] at hwalk ⊢
        exact ih hwalk
      · by_cases hlong : maxNameBytes < name.utf8ByteSize
        · simp only [if_neg hup, if_pos hlong] at hwalk
          cases hwalk
        · simp only [if_neg hup, if_neg hlong] at hwalk ⊢
          exact ih hwalk
    · -- names are looked up in directories only
      split at hwalk
      · cases hwalk
      · cases hwalk
      · next hdirectory => exact absurd hdirectory hhere

theorem locate_put (hfree : t.node? location ≠ some .directory) (h : t.locate p = .ok other) :
    (t.put location node).locate p = .ok other := by
  unfold locate at h ⊢
  by_cases hlong : maxPathBytes < p.text.utf8ByteSize
  · rw [if_pos hlong] at h
    cases h
  · rw [if_neg hlong] at h ⊢
    exact walk_of_directories (fun l hl => node?_put_directory hfree hl) h

/-! ## Reading and writing -/

theorem read_eq_ok_iff :
    t.read p = .ok content ↔
      ∃ location, t.locate p = .ok location ∧ t.node? location = some (.file content) := by
  unfold read
  cases hlocate : t.locate p with
  | error fault => exact iff_of_false nofun (by simp)
  | ok location =>
    simp only [bind, Except.bind, Except.ok.injEq, exists_eq_left']
    cases t.node? location with
    | none => exact iff_of_false nofun nofun
    | some node =>
      cases node with
      | directory => exact iff_of_false nofun (by simp)
      | file held =>
        show Except.ok held = .ok content ↔ _
        simp

/-- Writing a file puts its content at the location of the path, unless a directory is there. -/
theorem write_eq_ok_iff :
    t.write p content = .ok after ↔
      ∃ location, t.locate p = .ok location ∧ t.node? location ≠ some .directory ∧
        after = t.put location (.file content) := by
  unfold write
  cases hlocate : t.locate p with
  | error fault => exact iff_of_false nofun (by simp)
  | ok location =>
    by_cases hdirectory : t.node? location = some .directory
    · simp [hdirectory, bind, Except.bind, throw, throwThe, MonadExceptOf.throw]
    · simp only [if_neg hdirectory, bind, Except.bind, pure, Except.pure, Except.ok.injEq]
      constructor
      · rintro rfl
        exact ⟨location, rfl, hdirectory, rfl⟩
      · rintro ⟨_, rfl, _, rfl⟩
        rfl

/-- The root is a directory, so that nothing is written there. -/
theorem ne_nil_of_node?_ne (h : t.node? location ≠ some .directory) : location ≠ [] := by
  rintro rfl
  exact h rfl

/-- What was written is read back. -/
theorem read_of_write (h : t.write p content = .ok after) : after.read p = .ok content := by
  obtain ⟨location, hlocate, hfree, rfl⟩ := write_eq_ok_iff.mp h
  exact read_eq_ok_iff.mpr
    ⟨location, locate_put hfree hlocate, node?_put_self (ne_nil_of_node?_ne hfree)⟩

end FileTree

end LoxSyntax
