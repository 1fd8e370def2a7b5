import LoxSyntax.Proofs.Command.FileTree
import LoxSyntax.Proofs.Command.Rendering
import LoxSyntax.Proofs.Command.Setup
import LoxSyntax.Proofs.Text.Utf8
set_option autoImplicit false

/-! # How a run ends

A run that has settings and an input ends in one of five ways: the input is refused, or shown, or
written to the file that was named, or that file cannot be written, or there is no room for showing
the input. The equations of `runWith` and `deliver` below say which one it is. The main statement,
`runOn_outcome`, puts them together for all hosts, files and arguments. -/

namespace LoxSyntax

namespace FileTree

/-- A file can be written at a path: the path leads to the location and no directory is there. -/
structure OpensAt (t : FileTree) (p : Path) (location : Location) : Prop where
  noNul : '\x00' ∉ p.text.toList
  located : t.locate p = .ok location
  free : t.node? location ≠ some .directory

/-- No file can be written at a path, for the reason given. -/
inductive RefusesWriting (t : FileTree) (p : Path) : AccessFault → Prop
  | nul (nul : '\x00' ∈ p.text.toList) : RefusesWriting t p .embeddedNul
  | unlocated {fault : AccessFault} (noNul : '\x00' ∉ p.text.toList)
      (unlocated : t.locate p = .error fault) : RefusesWriting t p fault
  | directory {location : Location} (noNul : '\x00' ∉ p.text.toList)
      (located : t.locate p = .ok location) (directory : t.node? location = some .directory) :
      RefusesWriting t p .isDirectory

theorem opensAt_or_refusesWriting (t : FileTree) (p : Path) :
    (∃ location, t.OpensAt p location) ∨ ∃ fault, t.RefusesWriting p fault := by
  by_cases hnul : '\x00' ∈ p.text.toList
  · exact Or.inr ⟨_, .nul hnul⟩
  · cases hlocate : t.locate p with
    | error fault => exact Or.inr ⟨fault, .unlocated hnul hlocate⟩
    | ok location =>
      by_cases hdirectory : t.node? location = some .directory
      · exact Or.inr ⟨_, .directory hnul hlocate hdirectory⟩
      · exact Or.inl ⟨location, hnul, hlocate, hdirectory⟩

variable {t : FileTree} {p : Path} {location : Location} {content : Bytes}

theorem OpensAt.write (h : t.OpensAt p location) (content : Bytes) :
    t.write p content = .ok (t.put location (.file content)) :=
  write_eq_ok_iff.mpr ⟨location, h.located, h.free, rfl⟩

theorem RefusesWriting.write {fault : AccessFault} (h : t.RefusesWriting p fault)
    (hnul : '\x00' ∉ p.text.toList) (content : Bytes) : t.write p content = .error fault := by
  unfold FileTree.write
  cases h with
  | nul nul => exact absurd nul hnul
  | unlocated _ unlocated =>
    rw [unlocated]
    rfl
  | directory _ located directory =>
    rw [located]
    show (if t.node? _ = some .directory then throw AccessFault.isDirectory else _) = _
    rw [if_pos directory]
    rfl

/-- What was written to a file is its content. -/
theorem OpensAt.contentAt_put (h : t.OpensAt p location) (content : Bytes) :
    (t.put location (.file content)).contentAt p = .ok content := by
  have hnul : p.text.toList.contains '\x00' = false := by simpa using h.noNul
  rw [contentAt, hnul, if_neg Bool.false_ne_true]
  exact read_of_write (h.write content)

/-- Nothing in a directory with too long a name can be looked for. -/
theorem contentAt_of_longName {name : String} {names : List String}
    (hnul : '\x00' ∉ (Path.text { names := name :: names }).toList)
    (hworking : t.node? t.workingDirectory = some .directory)
    (hlong : maxNameBytes < name.utf8ByteSize) :
    t.contentAt { names := name :: names } = .error .nameTooLong := by
  have hup : name ≠ ".." := by
    rintro rfl
    exact absurd hlong (by decide)
  have hlocate : t.locate { names := name :: names } = .error .nameTooLong := by
    unfold locate
    split
    · rfl
    · show t.walk t.workingDirectory (name :: names) = _
      rw [walk, hworking]
      simp only [if_neg hup, if_pos hlong]
  rw [contentAt, if_neg (by simpa using hnul), read, hlocate]
  rfl

end FileTree

theorem Path.text_pair (directory name : String) :
    Path.text { names := [directory, name] } = directory ++ "/" ++ name := by
  rw [Path.text, if_neg (by simp)]
  exact String.empty_append

variable {host : Host} {t : FileTree} {a : Arguments} {s : Settings} {p : Path}
  {text debugText : String}

/-! ## Delivering -/

theorem run_write (t : FileTree) (p : Path) (content : Bytes) :
    (FileAccess.write p content : StateM FileTree (Except AccessFault Unit)).run t =
      match t.write p content with
      | .ok u => (.ok (), u)
      | .error fault => (.error fault, t) := by
  show StateT.run (match t.write p content with | .ok u => _ | .error fault => _) t = _
  cases t.write p content <;> rfl

theorem run_writeFile_of_opensAt {location : Location} (h : t.OpensAt p location)
    (content : Bytes) :
    (writeFile p content : StateM FileTree (Except AccessFault Unit)).run t =
      (.ok (), t.put location (.file content)) := by
  have hnul : p.text.toList.contains '\x00' = false := by simpa using h.noNul
  rw [writeFile, hnul, if_neg Bool.false_ne_true, run_write, h.write content]

theorem run_writeFile_of_refusesWriting {fault : AccessFault} (h : t.RefusesWriting p fault)
    (content : Bytes) :
    (writeFile p content : StateM FileTree (Except AccessFault Unit)).run t =
      (.error fault, t) := by
  by_cases hnul : '\x00' ∈ p.text.toList
  · obtain rfl : fault = .embeddedNul := by
      cases h with
      | nul => rfl
      | unlocated noNul | directory noNul => exact absurd hnul noNul
    rw [writeFile, if_pos (by simpa using hnul)]
    rfl
  · rw [writeFile, if_neg (by simpa using hnul), run_write, h.write hnul content]

theorem run_deliver_of_none (h : s.output = none) :
    (deliver s { result := .ok text, debugText } : StateM FileTree RunResult).run t =
      ({ ending := .finished 0, stdout := text, stderr := debugText }, t) := by
  unfold deliver
  simp only [h]
  rfl

theorem run_deliver_of_opensAt {location : Location} (hout : s.output = some p)
    (h : t.OpensAt p location) :
    (deliver s { result := .ok text, debugText } : StateM FileTree RunResult).run t =
      ({ ending := .finished 0, stderr := debugText },
        t.put location (.file (Utf8.encode text))) := by
  unfold deliver
  simp only [hout]
  rw [run_bind_of (run_writeFile_of_opensAt h _)]
  rfl

theorem run_deliver_of_refusesWriting {fault : AccessFault} (hout : s.output = some p)
    (h : t.RefusesWriting p fault) :
    (deliver s { result := .ok text, debugText } : StateM FileTree RunResult).run t =
      ({ ending := .crashed (.access fault p), stderr := debugText }, t) := by
  unfold deliver
  simp only [hout]
  rw [run_bind_of (run_writeFile_of_refusesWriting h _)]
  rfl

theorem run_deliver_of_error {fault : PrintFault (CutLeaf Empty)} :
    (deliver s { result := .error fault, debugText } : StateM FileTree RunResult).run t =
      ({ ending := .crashed (.ofPrintFault fault), stderr := debugText }, t) := rfl

/-! ## Runs with settings -/

theorem run_runWith_of_error {fault : AccessFault} (h : t.contentAt s.input = .error fault)
    (hnul : fault ≠ .embeddedNul) :
    (runWith host s : StateM FileTree RunResult).run t =
      ({ ending := .finished 2
         stderr := "error: cannot read " ++ s.input.text ++ ": " ++ fault.reason ++ "\n" }, t) := by
  unfold runWith
  rw [run_bind_of (run_readFile t s.input), h]
  cases fault with
  | embeddedNul => exact absurd rfl hnul
  | notFound | notDirectory | isDirectory | nameTooLong | other => rfl

theorem run_runWith_of_embeddedNul (h : t.contentAt s.input = .error .embeddedNul) :
    (runWith host s : StateM FileTree RunResult).run t =
      ({ ending := .crashed (.access .embeddedNul s.input) }, t) := by
  unfold runWith
  rw [run_bind_of (run_readFile t s.input), h]
  rfl

theorem run_runWith_of_undecodable {bytes : Bytes} {fault : Utf8.Fault}
    (h : t.contentAt s.input = .ok bytes) (hdecode : Utf8.decode bytes = .error fault) :
    (runWith host s : StateM FileTree RunResult).run t =
      ({ ending := .crashed (.undecodable fault) }, t) := by
  have hinput : inputText bytes = .error fault := by
    rw [inputText, hdecode]
    rfl
  unfold runWith
  rw [run_bind_of (run_readFile t s.input), h]
  simp only [hinput]
  rfl

/-- With an input that is text, a run refuses or delivers. -/
theorem run_runWith_of_text {bytes : Bytes} {cs : List Char} (h : t.contentAt s.input = .ok bytes)
    (hdecode : Utf8.decode bytes = .ok cs) :
    (runWith host s : StateM FileTree RunResult).run t =
      match inspect host s (String.ofList (unifyLineEnds cs)) with
      | .error d => ({ ending := .finished 1, stderr := d.report ++ "\n" }, t)
      | .ok i => (deliver s i : StateM FileTree RunResult).run t := by
  have hinput : inputText bytes = .ok (String.ofList (unifyLineEnds cs)) := by
    rw [inputText, hdecode]
    rfl
  unfold runWith
  rw [run_bind_of (run_readFile t s.input), h]
  simp only [hinput]
  cases inspect host s (String.ofList (unifyLineEnds cs)) <;> rfl

/-! ## Runs with arguments -/

theorem run_runArguments_of_resolves (h : Resolves host t a s) :
    (runArguments host a : StateM FileTree RunResult).run t =
      (runWith host s : StateM FileTree RunResult).run t := by
  unfold runArguments
  rw [run_bind_of (run_loadSettings_of_resolves h)]

theorem run_runArguments_of_refused {message : String} (h : Unsettled host t a (.refused message)) :
    (runArguments host a : StateM FileTree RunResult).run t =
      ({ ending := .finished 2, stderr := "error: " ++ message ++ "\n" }, t) := by
  unfold runArguments
  rw [run_bind_of (run_loadSettings_of_unsettled h)]
  rfl

theorem run_runArguments_of_crashed {crash : Crash} (h : Unsettled host t a (.crashed crash)) :
    (runArguments host a : StateM FileTree RunResult).run t =
      ({ ending := .crashed crash }, t) := by
  unfold runArguments
  rw [run_bind_of (run_loadSettings_of_unsettled h)]
  rfl

/-- A single argument without a dash in front is the input. -/
theorem Arguments.ofList_of_not_dash {name : String} (h : name.toList.head? ≠ some '-') :
    Arguments.ofList host [name] = .ok { input := name } := by
  have hword : ArgumentWord.of name = .ok (.plain name) := by
    unfold ArgumentWord.of
    split
    · next hname => exact absurd (congrArg List.head? hname) h
    · next hname => exact absurd (congrArg List.head? hname) h
    · next hname => exact absurd (congrArg List.head? hname) h
    · rfl
  rw [Arguments.ofList, argumentWords, hword]
  rfl

/-- How a run of the command on the files ends, and the files afterwards. -/
def runOn (host : Host) (texts : List String) (t : FileTree) : RunResult × FileTree :=
  (runCommand host texts : StateM FileTree RunResult).run t

theorem runOn_of_arguments {texts : List String} (h : Arguments.ofList host texts = .ok a) :
    runOn host texts t = (runArguments host a : StateM FileTree RunResult).run t := by
  unfold runOn runCommand
  rw [h]

/-- With settings and an input that is text, a run refuses the input, telling why and changing
    nothing, or shows it, or writes what it would have shown to the file that was named, and to no
    other; if the host has no room for showing it, the run ends with that, and nothing is shown
    or changed. With settings that are refused or an input that cannot be read it tells why and
    changes nothing. -/
theorem runOn_outcome (host : Host) (texts : List String) (a : Arguments) (t : FileTree)
    (h : Arguments.ofList host texts = .ok a) :
    (∀ s input, Resolves host t a s → t.contentAt a.inputPath = .ok (Utf8.encode input) →
      let source := String.ofList (unifyLineEnds input.toList)
      ((∃ d, Refuses s source d) ∨ ∃ text, Renders s source text) ∧
        (∀ d, Refuses s source d →
          runOn host texts t = ({ ending := .finished 1, stderr := d.report ++ "\n" }, t)) ∧
        (LacksRoom host s source → ∃ debugText,
          runOn host texts t =
            ({ ending := .crashed (.stackExhausted .printing), stderr := debugText }, t)) ∧
        ∀ text, Renders s source text → ¬LacksRoom host s source →
          (a.output = none ∨ a.output = some "" → ∃ debugText,
            runOn host texts t =
              ({ ending := .finished 0, stdout := text, stderr := debugText }, t)) ∧
          ∀ name location, a.output = some name → name ≠ "" →
            t.OpensAt (Path.ofString name) location → ∃ debugText after,
              runOn host texts t = ({ ending := .finished 0, stderr := debugText }, after) ∧
              after.contentAt (Path.ofString name) = .ok (Utf8.encode text) ∧
              after.node? location = some (.file (Utf8.encode text)) ∧
              ∀ other, other ≠ location → after.node? other = t.node? other) ∧
      (∀ message, Unsettled host t a (.refused message) →
        runOn host texts t =
          ({ ending := .finished 2, stderr := "error: " ++ message ++ "\n" }, t)) ∧
      ∀ s fault, Resolves host t a s → t.contentAt a.inputPath = .error fault →
        fault ≠ .embeddedNul →
        runOn host texts t =
          ({ ending := .finished 2
             stderr := "error: cannot read " ++ a.inputPath.text ++ ": " ++ fault.reason ++ "\n" },
            t) := by
  rw [runOn_of_arguments h]
  refine ⟨fun s input hsettings hcontent => ?_, fun message hrefused => ?_,
    fun s fault hsettings hcontent hnul => ?_⟩
  · intro source
    obtain ⟨hinput, houtput⟩ := hsettings.paths
    rw [← hinput] at hcontent
    rw [run_runArguments_of_resolves hsettings,
      run_runWith_of_text hcontent (Utf8.decode_encode input)]
    refine ⟨refuses_or_renders s source, fun d hrefuses => ?_, fun hlacks => ?_,
      fun text hrenders hroom => ?_⟩
    · rw [inspect_eq_error_iff.mpr hrefuses]
    · obtain ⟨debugText, hinspect⟩ := hlacks.exists_inspect
      rw [hinspect]
      exact ⟨debugText, run_deliver_of_error⟩
    · -- nothing has been written yet, so the input may be the file that is written to
      obtain ⟨debugText, hinspect⟩ := hrenders.exists_inspect hroom
      rw [hinspect]
      refine ⟨fun hnone => ⟨debugText, ?_⟩, fun name location hname hne hopens => ?_⟩
      · have hunnamed : s.output = none := by
          rcases hnone with hnone | hnone <;> rw [houtput, hnone] <;> rfl
        exact run_deliver_of_none hunnamed
      · have hnamed : s.output = some (Path.ofString name) := by
          rw [houtput, hname, argumentPath?, if_neg (by simpa using hne)]
        exact ⟨debugText, _, run_deliver_of_opensAt hnamed hopens, hopens.contentAt_put _,
          FileTree.node?_put_self (FileTree.ne_nil_of_node?_ne hopens.free),
          fun other hother => FileTree.node?_put_of_ne hother⟩
  · exact run_runArguments_of_refused hrefused
  · rw [← hsettings.paths.1] at hcontent ⊢
    rw [run_runArguments_of_resolves hsettings]
    exact run_runWith_of_error hcontent hnul

/-- What is shown of an input may be written over it. -/
theorem runOn_outcome_over_input :
    let host := Host.standard
    let texts := ["-o", "a.lox", "a.lox"]
    let a : Arguments := { input := "a.lox", output := some "a.lox" }
    let t : FileTree := { entries := [(["a.lox"], .file (Utf8.encode "a +\r\nb"))] }
    Arguments.ofList host texts = .ok a ∧ ∃ debugText after,
      runOn host texts t = ({ ending := .finished 0, stderr := debugText }, after) ∧
      after.contentAt (Path.ofString "a.lox") = .ok (Utf8.encode "(+ a b)\n") ∧
      after.node? ["a.lox"] = some (.file (Utf8.encode "(+ a b)\n")) ∧
      ∀ other, other ≠ ["a.lox"] → after.node? other = t.node? other := by
  intro host texts a t
  let s : Settings :=
    { input := a.inputPath, output := some (Path.ofString "a.lox"), tokens := false,
      format := .prefixForm, showEnd := false, debug := false }
  have harguments : Arguments.ofList host texts = .ok a := by decide
  have hnoConfig : t.contentAt a.configPath = .error .notFound := by decide +kernel
  have hsettings : Resolves host t a s := ⟨[], .none hnoConfig rfl, rfl⟩
  have hcontent : t.contentAt a.inputPath = .ok (Utf8.encode "a +\r\nb") := by decide +kernel
  have hsource : String.ofList (unifyLineEnds "a +\r\nb".toList) = "a +\nb" := by decide
  have hparse : parseSource "a +\nb" "a.lox" = .ok [.binary (.name "a") .plus (.name "b")] := by
    decide +kernel
  have hprinted : [Tree.binary (.name "a") .plus (.name "b")].map Tree.prefixForm =
      ["(+ a b)"].map (.ok : String → Except (PrintFault Empty) String) := by decide
  have hrenders : Renders s "a +\nb" (String.join (["(+ a b)"].map (· ++ "\n"))) :=
    .expressions rfl hparse (.prefixForms hprinted)
  have hroom : ¬LacksRoom host s "a +\nb" := by
    rintro ⟨-, es, hes, hlacks⟩
    obtain rfl := Except.ok.inj (hparse.symm.trans hes)
    refine hlacks ⟨?_, nofun⟩
    unfold Host.HasRoom
    decide
  have hopens : t.OpensAt (Path.ofString "a.lox") ["a.lox"] :=
    ⟨by decide, by decide +kernel, by decide⟩
  obtain ⟨-, -, -, hshown⟩ := (runOn_outcome host texts a t harguments).1 s _ hsettings hcontent
  rw [hsource] at hshown
  exact ⟨harguments, (hshown _ hrenders hroom).2 "a.lox" ["a.lox"] rfl (by decide) hopens⟩

/-- An input in a directory with too long a name cannot be read, but before that no configuration
    can be looked for, which is not told. -/
theorem runOn_long_directory :
    let directory := String.ofList (List.replicate 256 'a')
    let name := directory ++ "/x.lox"
    let a : Arguments := { input := name }
    Arguments.ofList .standard [name] = .ok a ∧
      FileTree.contentAt {} a.inputPath = .error .nameTooLong ∧
      (runOn .standard [name] {}).1.ending = .crashed (.access .nameTooLong a.configPath) := by
  intro directory name a
  have hname : name.toList = List.replicate 256 'a' ++ "/x.lox".toList := by
    rw [String.toList_append, String.toList_ofList]
  have harguments : Arguments.ofList .standard [name] = .ok a := by
    refine Arguments.ofList_of_not_dash ?_
    rw [hname]
    decide
  have hinput : a.inputPath = { names := [directory, "x.lox"] } := by
    rw [Arguments.inputPath, Path.ofString, hname]
    decide +kernel
  have hconfig : a.configPath = { names := [directory, "loxfront.toml"] } := by
    rw [Arguments.configPath, hinput]
    rfl
  have hlong : FileTree.maxNameBytes < directory.utf8ByteSize := by decide +kernel
  have hunread : ∀ file : String, '\x00' ∉ file.toList →
      FileTree.contentAt {} { names := [directory, file] } = .error .nameTooLong := by
    intro file hfile
    refine FileTree.contentAt_of_longName ?_ rfl hlong
    rw [Path.text_pair, String.toList_append, String.toList_append, String.toList_ofList]
    simp only [List.mem_append, List.mem_replicate]
    rintro ((⟨-, hnul⟩ | hnul) | hnul)
    · exact absurd hnul (by decide)
    · exact absurd hnul (by decide)
    · exact hfile hnul
  -- a name that is too long is not taken to mean that there is no configuration
  have hlacks : LacksConfig .standard {} a.configPath
      (.crashed (.access .nameTooLong a.configPath)) := by
    refine .unreadable ?_ rfl
    rw [hconfig]
    exact hunread _ (by decide)
  refine ⟨harguments, ?_, ?_⟩
  · rw [hinput]
    exact hunread _ (by decide)
  · rw [runOn_of_arguments harguments, run_runArguments_of_crashed (.config hlacks)]

end LoxSyntax
