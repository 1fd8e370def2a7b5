import LoxSyntax.Proofs.Command.Outcome
set_option autoImplicit false

/-! # Runs that end without a number

A run is to end in the number 0, 1 or 2. It does unless it meets one of the faults that nobody
catches (`MeetsCrash`): a configuration that cannot be looked for, is no text, or holds a number or
a nesting that the host has no room for; an input that is no text, whose path cannot be one, or
whose expressions there is no room to print; and an output that cannot be written. The main
statement is `runOn_ending`. -/

namespace LoxSyntax

variable {host : Host} {t : FileTree} {a : Arguments}

/-- A run with the arguments meets a fault that it does not tell. The files of a `FileTree` may all
    be read and written; what a run does where it is not allowed to is left out here. -/
inductive MeetsCrash (host : Host) (t : FileTree) (a : Arguments) : Crash → Prop
  | setup {crash : Crash} (unsettled : Unsettled host t a (.crashed crash)) :
      MeetsCrash host t a crash
  | inputPath {s : Settings} (settings : Resolves host t a s)
      (unread : t.contentAt a.inputPath = .error .embeddedNul) :
      MeetsCrash host t a (.access .embeddedNul a.inputPath)
  | inputText {s : Settings} {bytes : Bytes} {fault : Utf8.Fault} (settings : Resolves host t a s)
      (held : t.contentAt a.inputPath = .ok bytes) (undecoded : Utf8.decode bytes = .error fault) :
      MeetsCrash host t a (.undecodable fault)
  | printing {s : Settings} {bytes : Bytes} {cs : List Char} (settings : Resolves host t a s)
      (held : t.contentAt a.inputPath = .ok bytes) (decoded : Utf8.decode bytes = .ok cs)
      (noRoom : LacksRoom host s (String.ofList (unifyLineEnds cs))) :
      MeetsCrash host t a (.stackExhausted .printing)
  | output {s : Settings} {bytes : Bytes} {cs : List Char} {text name : String}
      {fault : AccessFault} (settings : Resolves host t a s)
      (held : t.contentAt a.inputPath = .ok bytes) (decoded : Utf8.decode bytes = .ok cs)
      (shown : Renders s (String.ofList (unifyLineEnds cs)) text)
      (room : ¬LacksRoom host s (String.ofList (unifyLineEnds cs))) (named : a.output = some name)
      (nonempty : name ≠ "") (refused : t.RefusesWriting (Path.ofString name) fault) :
      MeetsCrash host t a (.access fault (Path.ofString name))

/-- The output of a run, if its name is not empty. -/
theorem argumentPath?_eq_some_iff {argument : Option String} {p : Path} :
    argumentPath? argument = some p ↔
      ∃ name, argument = some name ∧ name ≠ "" ∧ Path.ofString name = p := by
  cases argument with
  | none => simp [argumentPath?]
  | some text => by_cases htext : text = "" <;> simp [argumentPath?, htext]

/-- A fault that is not told ends the run there, with all files as they were. -/
theorem MeetsCrash.run {crash : Crash} (h : MeetsCrash host t a crash) :
    ∃ debugText, (runArguments host a : StateM FileTree RunResult).run t =
      ({ ending := .crashed crash, stderr := debugText }, t) := by
  cases h with
  | setup unsettled => exact ⟨"", run_runArguments_of_crashed unsettled⟩
  | inputPath settings unread =>
    rw [← settings.paths.1] at unread ⊢
    exact ⟨"", (run_runArguments_of_resolves settings).trans (run_runWith_of_embeddedNul unread)⟩
  | inputText settings held undecoded =>
    rw [← settings.paths.1] at held
    exact ⟨"", (run_runArguments_of_resolves settings).trans
      (run_runWith_of_undecodable held undecoded)⟩
  | printing settings held decoded noRoom =>
    rw [← settings.paths.1] at held
    obtain ⟨debugText, hinspect⟩ := noRoom.exists_inspect
    refine ⟨debugText, ?_⟩
    rw [run_runArguments_of_resolves settings, run_runWith_of_text held decoded, hinspect]
    exact run_deliver_of_error
  | output settings held decoded shown room named nonempty refused =>
    obtain ⟨hinput, houtput⟩ := settings.paths
    rw [← hinput] at held
    obtain ⟨debugText, hinspect⟩ := shown.exists_inspect room
    have hnamed := houtput.trans (argumentPath?_eq_some_iff.mpr ⟨_, named, nonempty, rfl⟩)
    refine ⟨debugText, ?_⟩
    rw [run_runArguments_of_resolves settings, run_runWith_of_text held decoded, hinspect]
    exact run_deliver_of_refusesWriting hnamed refused

/-- With settings, a run ends in a number or meets a fault that it does not tell. -/
theorem finishes_or_meetsCrash_of_resolves {s : Settings} (hsettings : Resolves host t a s) :
    (∃ code ∈ [0, 1, 2],
        ((runArguments host a : StateM FileTree RunResult).run t).1.ending = .finished code) ∨
      ∃ crash, MeetsCrash host t a crash := by
  obtain ⟨hinput, houtput⟩ := hsettings.paths
  rw [run_runArguments_of_resolves hsettings]
  cases hcontent : t.contentAt a.inputPath with
  | error fault =>
    -- of the faults of reading only this one is not told
    by_cases hnul : fault = .embeddedNul
    · subst hnul
      exact Or.inr ⟨_, .inputPath hsettings hcontent⟩
    · rw [← hinput] at hcontent
      rw [run_runWith_of_error hcontent hnul]
      exact Or.inl ⟨2, by simp, rfl⟩
  | ok bytes =>
    cases hdecode : Utf8.decode bytes with
    | error fault => exact Or.inr ⟨_, .inputText hsettings hcontent hdecode⟩
    | ok cs =>
      rw [run_runWith_of_text (hinput ▸ hcontent) hdecode]
      by_cases hlacks : LacksRoom host s (String.ofList (unifyLineEnds cs))
      · exact Or.inr ⟨_, .printing hsettings hcontent hdecode hlacks⟩
      · rcases refuses_or_renders s (String.ofList (unifyLineEnds cs)) with
          ⟨d, hrefuses⟩ | ⟨text, hrenders⟩
        · rw [inspect_eq_error_iff.mpr hrefuses]
          exact Or.inl ⟨1, by simp, rfl⟩
        · obtain ⟨debugText, hinspect⟩ := hrenders.exists_inspect hlacks
          rw [hinspect]
          cases hout : s.output with
          | none =>
            left
            exact ⟨0, by simp, congrArg (fun r => r.1.ending) (run_deliver_of_none hout)⟩
          | some p =>
            -- the faults of writing are not told at all
            obtain ⟨name, hname, hne, rfl⟩ :=
              argumentPath?_eq_some_iff.mp (houtput.symm.trans hout)
            rcases t.opensAt_or_refusesWriting (Path.ofString name) with
              ⟨location, hopens⟩ | ⟨fault, hrefuses⟩
            · left
              exact ⟨0, by simp,
                congrArg (fun r => r.1.ending) (run_deliver_of_opensAt hout hopens)⟩
            · exact Or.inr ⟨_, .output hsettings hcontent hdecode hrenders hlacks hname hne
                hrefuses⟩

theorem finishes_or_meetsCrash (host : Host) (t : FileTree) (a : Arguments) :
    (∃ code ∈ [0, 1, 2],
        ((runArguments host a : StateM FileTree RunResult).run t).1.ending = .finished code) ∨
      ∃ crash, MeetsCrash host t a crash := by
  rcases resolves_or_unsettled host t a with ⟨s, hsettings⟩ | ⟨fault, hunsettled⟩
  · exact finishes_or_meetsCrash_of_resolves hsettings
  · cases fault with
    | refused message =>
      rw [run_runArguments_of_refused hunsettled]
      exact Or.inl ⟨2, by simp, rfl⟩
    | crashed crash => exact Or.inr ⟨crash, .setup hunsettled⟩

/-- A run with accepted arguments ends in the number 0, 1 or 2, unless it meets one of the faults
    that are not told, such as no room on the host. Then it ends with the fault, and all files are
    as they were. -/
theorem runOn_ending (host : Host) (texts : List String) (a : Arguments) (t : FileTree)
    (h : Arguments.ofList host texts = .ok a) :
    ((∃ code ∈ [0, 1, 2], (runOn host texts t).1.ending = .finished code) ↔
        ∀ crash, ¬MeetsCrash host t a crash) ∧
      ∀ crash, ((runOn host texts t).1.ending = .crashed crash ↔ MeetsCrash host t a crash) ∧
        (MeetsCrash host t a crash → (runOn host texts t).2 = t) := by
  rw [runOn_of_arguments h]
  have hmeets : ∀ crash, MeetsCrash host t a crash →
      ((runArguments host a : StateM FileTree RunResult).run t).1.ending = .crashed crash ∧
        ((runArguments host a : StateM FileTree RunResult).run t).2 = t := by
    intro crash hcrash
    obtain ⟨debugText, hrun⟩ := hcrash.run
    rw [hrun]
    exact ⟨rfl, rfl⟩
  refine ⟨⟨?_, fun hnone => ?_⟩, fun crash => ⟨⟨fun hcrashed => ?_, fun hcrash => ?_⟩, ?_⟩⟩
  · rintro ⟨code, _, hfinished⟩ crash hcrash
    rw [(hmeets crash hcrash).1] at hfinished
    cases hfinished
  · exact (finishes_or_meetsCrash host t a).resolve_right fun ⟨crash, hcrash⟩ => hnone crash hcrash
  · rcases finishes_or_meetsCrash host t a with ⟨code, _, hfinished⟩ | ⟨other, hother⟩
    · rw [hcrashed] at hfinished
      cases hfinished
    · rw [(hmeets other hother).1] at hcrashed
      cases hcrashed
      exact hother
  · exact (hmeets crash hcrash).1
  · exact fun hcrash => (hmeets crash hcrash).2

/-- The directory that was named as the output is left alone, and that is not told. -/
theorem runOn_ending_output_directory :
    let host := Host.standard
    let texts := ["a.lox", "-o", "d"]
    let a : Arguments := { input := "a.lox", output := some "d" }
    let t : FileTree := { entries := [(["d"], .directory), (["a.lox"], .file (Utf8.encode "1"))] }
    let crash : Crash := .access .isDirectory (Path.ofString "d")
    Arguments.ofList host texts = .ok a ∧ MeetsCrash host t a crash ∧ (runOn host texts t).2 = t ∧
      ¬∃ code ∈ [0, 1, 2], (runOn host texts t).1.ending = .finished code := by
  intro host texts a t crash
  have harguments : Arguments.ofList host texts = .ok a := by decide
  have hcrashed : (runOn host texts t).1.ending = .crashed crash := by decide +kernel
  obtain ⟨hfinished, hcrashes⟩ := runOn_ending host texts a t harguments
  have hmeets := (hcrashes crash).1.mp hcrashed
  exact ⟨harguments, hmeets, (hcrashes crash).2 hmeets, fun hcode => hfinished.mp hcode _ hmeets⟩

/-- A byte that no text has ends the run, and that is not told. -/
theorem runOn_undecodable_input :
    let t : FileTree := { entries := [(["a.lox"], .file [0xff])] }
    Arguments.ofList .standard ["a.lox"] = .ok { input := "a.lox" } ∧
      (runOn .standard ["a.lox"] t).1 =
        { ending := .crashed (.undecodable ⟨.badStart, 0xff, 0, 1⟩) } := by
  decide +kernel

end LoxSyntax
