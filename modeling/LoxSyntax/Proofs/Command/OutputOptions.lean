import LoxSyntax.Proofs.Command.Outcome
import LoxSyntax.Proofs.Diagnostic.Concatenation
import LoxSyntax.Proofs.Lexeme.TokenPlace
import LoxSyntax.Proofs.Text.Returns
set_option autoImplicit false

/-! # What the output options change

The settings that concern the output say what is shown of an input, never whether it is in order.
Each of them is looked at in one mode only: the format where expressions are shown, the end of the
input where tokens are. Debugging adds the outline of the expressions to the error output, and
changes nothing else as long as there is room for that outline. It does change what is shown where
there is room for the prefix forms and none for the outline (`OutlineAloneLacksRoom`). The main
statement is `inspectInput_of_options`, about all hosts, files and settings. -/

namespace LoxSyntax

/-- Why nothing is shown of an input. -/
inductive InputFault
  | unread (fault : AccessFault)
  | undecoded (fault : Utf8.Fault)
  | refused (d : Diagnostic)
  | unprinted (fault : PrintFault (CutLeaf Empty))
  deriving DecidableEq

/-- What comes of inspecting an input: the text that is shown, or why there is none, and what is
    written to the error output on the way. -/
structure InputInspection where
  result : Except InputFault String
  errorText : String := ""
  deriving DecidableEq

namespace Settings

variable (host : Host) (s : Settings) (t : FileTree)

/-- Inspects the input that the settings name. -/
def inspectInput : InputInspection :=
  match t.contentAt s.input with
  | .error fault => { result := .error (.unread fault) }
  | .ok bytes =>
    match inputText bytes with
    | .error fault => { result := .error (.undecoded fault) }
    | .ok source =>
      match inspect host s source with
      | .error d => { result := .error (.refused d) }
      | .ok i => { result := i.result.mapError .unprinted, errorText := i.debugText }

/-- The input that the settings name is the given text. -/
def ReadsInput (source : String) : Prop :=
  ∃ bytes, t.contentAt s.input = .ok bytes ∧ inputText bytes = .ok source

/-- Prefix forms are to be shown, and there is room for them but not for the outline that debugging
    adds. -/
def OutlineAloneLacksRoom : Prop :=
  s.tokens = false ∧ s.format = .prefixForm ∧
    ∃ source es, s.ReadsInput t source ∧ parseSource source s.input.text = .ok es ∧
      host.HasRoom es .prefixForm ∧ ¬host.HasRoom es .outline

end Settings

variable {host : Host} {s s' : Settings} {t : FileTree} {source : String} {es : List Expr}

/-! ## Inspections and runs -/

theorem Settings.ReadsInput.inspectInput_eq (h : s.ReadsInput t source) :
    s.inspectInput host t =
      match inspect host s source with
      | .error d => { result := .error (.refused d) }
      | .ok i => { result := i.result.mapError .unprinted, errorText := i.debugText } := by
  obtain ⟨bytes, hcontent, htext⟩ := h
  simp only [Settings.inspectInput, hcontent, htext]

/-- Of an input that has expressions all is shown or nothing, as the host has room. -/
theorem Settings.ReadsInput.result_of_parse (host : Host) (h : s.ReadsInput t source)
    (hasked : s.tokens = false) (hparse : parseSource source s.input.text = .ok es) :
    ∃ text, Shows es s.format text ∧
      (s.HasRoom host es → (s.inspectInput host t).result = .ok text) ∧
      (¬s.HasRoom host es →
        (s.inspectInput host t).result = .error (.unprinted (.foreign .cutOff))) := by
  obtain ⟨text, hshows, hfits, hlacks⟩ :=
    inspectExprs_of_isNormal host s (isNormal_of_parseSource hparse)
  have hresult : (s.inspectInput host t).result =
      (inspectExprs host s es).result.mapError .unprinted := by
    rw [h.inspectInput_eq, inspect_of_expressions hasked, hparse]
    rfl
  refine ⟨text, hshows, fun hroom => ?_, fun hnone => ?_⟩
  · rw [hresult, hfits hroom]
    rfl
  · rw [hresult, hlacks hnone]
    rfl

/-- Before there is an input to print, nothing has been written. -/
theorem errorText_of_result_eq_error {fault : InputFault}
    (h : (s.inspectInput host t).result = .error fault) (hprinted : ∀ f, fault ≠ .unprinted f) :
    (s.inspectInput host t).errorText = "" := by
  revert h
  fun_cases Settings.inspectInput host s t with
  | case1 | case2 | case3 =>
    intro _
    rfl
  | case4 _ _ _ _ i =>
    intro h
    obtain ⟨f, -, rfl⟩ := mapError_eq_error_iff.mp h
    exact absurd rfl (hprinted f)

/-- A run delivers the inspection of its input, or ends as there is none. -/
theorem run_runWith (host : Host) (s : Settings) (t : FileTree) :
    (runWith host s : StateM FileTree RunResult).run t =
      match (s.inspectInput host t).result with
      | .error (.unread .embeddedNul) =>
        ({ ending := .crashed (.access .embeddedNul s.input) }, t)
      | .error (.unread fault) =>
        ({ ending := .finished 2
           stderr := "error: cannot read " ++ s.input.text ++ ": " ++ fault.reason ++ "\n" }, t)
      | .error (.undecoded fault) => ({ ending := .crashed (.undecodable fault) }, t)
      | .error (.refused d) => ({ ending := .finished 1, stderr := d.report ++ "\n" }, t)
      | .error (.unprinted fault) =>
        ({ ending := .crashed (.ofPrintFault fault)
           stderr := (s.inspectInput host t).errorText }, t)
      | .ok text =>
        (deliver s ⟨.ok text, (s.inspectInput host t).errorText⟩ :
          StateM FileTree RunResult).run t := by
  unfold runWith Settings.inspectInput
  rw [run_bind_of (run_readFile t s.input)]
  rcases t.contentAt s.input with fault | bytes
  · cases fault <;> rfl
  · rcases htext : inputText bytes with fault | source
    · simp only [htext]
      rfl
    · simp only [htext]
      rcases inspect host s source with d | ⟨_ | text, debugText⟩ <;> rfl

/-- Settings with the same paths that show the same of every text make the same inspections and the
    same runs. -/
theorem inspectInput_congr (hinput : s.input = s'.input)
    (hinspect : ∀ source, inspect host s source = inspect host s' source) :
    s.inspectInput host t = s'.inspectInput host t := by
  unfold Settings.inspectInput
  simp only [hinput, hinspect]

theorem run_runWith_congr (hinput : s.input = s'.input) (houtput : s.output = s'.output)
    (hinspect : ∀ source, inspect host s source = inspect host s' source) :
    (runWith host s : StateM FileTree RunResult).run t =
      (runWith host s' : StateM FileTree RunResult).run t := by
  have hdeliver : ∀ i, (deliver s i : StateM FileTree RunResult) = deliver s' i := by
    intro i
    unfold deliver
    rw [houtput]
  rw [run_runWith, run_runWith, inspectInput_congr hinput hinspect, hinput]
  simp only [hdeliver]

/-- Whatever becomes of what it shows, a run writes the debugging text to the error output. -/
theorem stderr_deliver (s : Settings) (i : Inspection) (t : FileTree) :
    ((deliver s i : StateM FileTree RunResult).run t).1.stderr = i.debugText := by
  obtain ⟨_ | text, debugText⟩ := i
  · rw [run_deliver_of_error]
  · cases hout : s.output with
    | none => rw [run_deliver_of_none hout]
    | some p =>
      rcases t.opensAt_or_refusesWriting p with ⟨location, hopens⟩ | ⟨fault, hrefuses⟩
      · rw [run_deliver_of_opensAt hout hopens]
      · rw [run_deliver_of_refusesWriting hout hrefuses]

/-- A run on an input that has expressions writes what inspecting it writes. -/
theorem Settings.ReadsInput.stderr_runWith (host : Host) (h : s.ReadsInput t source)
    (hasked : s.tokens = false) (hparse : parseSource source s.input.text = .ok es) :
    (s.inspectInput host t).errorText = (inspectExprs host s es).debugText ∧
      ((runWith host s : StateM FileTree RunResult).run t).1.stderr =
        (inspectExprs host s es).debugText := by
  have hinspect : s.inspectInput host t =
      { result := (inspectExprs host s es).result.mapError .unprinted
        errorText := (inspectExprs host s es).debugText } := by
    rw [h.inspectInput_eq, inspect_of_expressions hasked, hparse]
    rfl
  refine ⟨by rw [hinspect], ?_⟩
  rw [run_runWith, hinspect]
  cases (inspectExprs host s es).result with
  | error fault => rfl
  | ok text => exact stderr_deliver ..

/-! ## Options one by one -/

/-- Where tokens are asked for, neither the format nor debugging matters. -/
theorem inspect_of_tokens_congr (host : Host) (hasked : s.tokens = true) (format : OutputFormat)
    (debug : Bool) (source : String) : inspect host { s with format, debug } source = inspect host s source := by
  have hchanged : inspect host { s with format, debug } source = _ := inspect_of_tokens hasked
  rw [hchanged, inspect_of_tokens hasked]

/-- Where expressions are shown, listing the end of the input does not matter. -/
theorem inspect_of_expressions_congr (host : Host) (hasked : s.tokens = false) (showEnd : Bool)
    (source : String) : inspect host { s with showEnd } source = inspect host s source := by
  have hchanged : inspect host { s with showEnd } source = _ := inspect_of_expressions hasked
  rw [hchanged, inspect_of_expressions hasked]
  rfl

/-- Without expressions there is nothing to print, and debugging does not matter. -/
theorem inspectInput_debug_of_ne_ok (hasked : s.tokens = false)
    (hnone : ∀ source es, s.ReadsInput t source → parseSource source s.input.text ≠ .ok es)
    (debug : Bool) : { s with debug }.inspectInput host t = s.inspectInput host t := by
  by_cases hreads : ∃ source, s.ReadsInput t source
  · obtain ⟨source, hsource⟩ := hreads
    have hdebug : { s with debug }.ReadsInput t source := hsource
    have hinspect : inspect host { s with debug } source = _ := inspect_of_expressions hasked
    rw [hdebug.inspectInput_eq, hsource.inspectInput_eq, hinspect, inspect_of_expressions hasked]
    cases hparse : parseSource source s.input.text with
    | error d => rfl
    | ok es => exact absurd hparse (hnone source es hsource)
  · unfold Settings.inspectInput
    rcases hcontent : t.contentAt s.input with fault | bytes
    · rfl
    · rcases htext : inputText bytes with fault | source
      · simp only [htext]
      · exact absurd ⟨source, bytes, hcontent, htext⟩ hreads

/-- Debugging does not change what is shown unless the outline alone lacks room. -/
theorem result_inspectInput_debug_iff :
    (∀ debug, ({ s with debug }.inspectInput host t).result = (s.inspectInput host t).result) ↔
      ¬s.OutlineAloneLacksRoom host t := by
  constructor
  · rintro hsame ⟨hasked, hformat, source, es, hreads, hparse, hforms, houtline⟩
    have hon : { s with debug := true }.ReadsInput t source := hreads
    have hoff : { s with debug := false }.ReadsInput t source := hreads
    obtain ⟨-, -, -, hcut⟩ := hon.result_of_parse host hasked hparse
    obtain ⟨text, -, hshown, -⟩ := hoff.result_of_parse host hasked hparse
    have hdiffer := (hsame true).trans (hsame false).symm
    rw [hcut fun hroom => houtline (hroom.2 rfl), hshown ⟨hformat ▸ hforms, nofun⟩] at hdiffer
    cases hdiffer
  · intro halone debug
    rcases Bool.eq_false_or_eq_true s.tokens with hasked | hasked
    · exact congrArg InputInspection.result
        (inspectInput_congr rfl (inspect_of_tokens_congr host hasked s.format debug))
    by_cases hparsed : ∃ source es, s.ReadsInput t source ∧
        parseSource source s.input.text = .ok es
    · obtain ⟨source, es, hsource, hparse⟩ := hparsed
      have hdebug : { s with debug }.ReadsInput t source := hsource
      -- where there is room for the format, there is room for the outline too
      have hroom : ∀ d, { s with debug := d }.HasRoom host es ↔ host.HasRoom es s.format := by
        refine fun d => ⟨And.left, fun hformat => ⟨hformat, fun _ => ?_⟩⟩
        cases hshown : s.format with
        | outline => exact hshown ▸ hformat
        | prefixForm =>
          by_contra hlacks
          exact halone ⟨hasked, hshown, source, es, hsource, hparse, hshown ▸ hformat, hlacks⟩
      obtain ⟨text, hshows, hall, hcut⟩ := hsource.result_of_parse host hasked hparse
      obtain ⟨text', hshows', hall', hcut'⟩ := hdebug.result_of_parse host hasked hparse
      obtain rfl : text = text' := hshows.unique hshows'
      by_cases hformat : host.HasRoom es s.format
      · rw [hall ((hroom s.debug).mpr hformat), hall' ((hroom debug).mpr hformat)]
      · rw [hcut fun h => hformat ((hroom s.debug).mp h),
          hcut' fun h => hformat ((hroom debug).mp h)]
    · refine congrArg InputInspection.result (inspectInput_debug_of_ne_ok hasked ?_ debug)
      exact fun source es hreads hparse => hparsed ⟨source, es, hreads, hparse⟩

/-- The outline of expressions in normal form is complete if there is room, and otherwise has the
    rows of the nodes before the first one without room. -/
theorem outlineWithin_of_isNormal (host : Host) (h : ∀ e ∈ es, e.IsNormal) :
    let outline := Tree.outlineWithin host.outlineRoom es
    (host.HasRoom es .outline → outline.complete = .ok outline.text ∧
        Tree.outline es = { text := outline.text }) ∧
      (¬host.HasRoom es .outline → outline.complete = .error (.foreign .cutOff) ∧
        ∃ before n after, es.flatMap (Tree.nodes 0) = before ++ n :: after ∧
          (∀ m ∈ before, host.outlineRoom m.1 m.2 = true) ∧ host.outlineRoom n.1 n.2 = false ∧
          outline.text = String.join (before.map Tree.row)) := by
  intro outline
  obtain ⟨text, hshows, hroom, hnone⟩ := exprReport_of_isNormal host h .outline
  simp only [exprReport] at hroom hnone
  refine ⟨fun hfits => ?_, fun hlacks => ⟨hnone hlacks, ?_⟩⟩
  · have hcomplete := hroom hfits
    obtain ⟨-, htext⟩ := Written.complete_eq_ok_iff.mp hcomplete
    cases hshows with
    | outline printed => exact ⟨htext ▸ hcomplete, htext ▸ printed⟩
  · have hfault := Written.complete_eq_error_iff.mp (hnone hlacks)
    rw [Tree.fault?_outlineWithin] at hfault
    obtain ⟨before, n, after, hsplit, hn, hbefore⟩ := List.findSome?_eq_some_iff.mp hfault
    refine ⟨before, n, after, hsplit, fun m hm => Tree.room_of_faultWithin? (hbefore m hm), ?_,
      congrArg Written.text (Tree.outlineWithin_of_fault hsplit hbefore hn)⟩
    have hmem : n ∈ es.flatMap (Tree.nodes 0) := hsplit ▸ by simp
    obtain ⟨e, he, hnode⟩ := List.mem_flatMap.mp hmem
    have hown := Tree.firstFault?_eq_none_iff.mp (Tree.firstFault?_of_isNormal (h e he) 0) n hnode
    cases hroom : host.outlineRoom n.1 n.2 with
    | false => rfl
    | true => rw [Tree.faultWithin?_eq_none_iff.mpr ⟨hroom, hown⟩] at hn; cases hn

/-- A listing with the end of the input has one row more than one without it. -/
theorem tokenReport_showEnd {tokens : List Token} (h : scanText source = .ok tokens) :
    tokenReport true tokens =
      tokenReport false tokens ++
        (Token.endOfInput (1 + source.toList.count '\n' : Nat)).row := by
  obtain ⟨body, rfl, hbody⟩ := exists_body_of_scanText h
  have hshown : (body ++ [Token.endOfInput (1 + source.toList.count '\n' : Nat)]).filter
      (!·.isEnd) = body := by
    rw [List.filter_append, List.filter_eq_self.mpr]
    · exact List.append_nil body
    · intro t ht
      rw [(hbody t ht).isEnd]
      rfl
  have hhidden : tokenReport false
      (body ++ [Token.endOfInput (1 + source.toList.count '\n' : Nat)]) =
        String.join (body.map Token.row) := by
    rw [tokenReport, if_neg Bool.false_ne_true, hshown, Token.listing]
  rw [hhidden, tokenReport, if_pos rfl, Token.listing, List.map_append, String.join_append]
  simp [String.join]

theorem result_inspectInput_showEnd (hasked : s.tokens = true) (hreads : s.ReadsInput t source) :
    ({ s with showEnd := true }.inspectInput host t).result =
      ({ s with showEnd := false }.inspectInput host t).result.map
        (· ++ (Token.endOfInput (1 + source.toList.count '\n' : Nat)).row) := by
  have hshown : ∀ showEnd, ({ s with showEnd }.inspectInput host t).result =
      ((scanSource source s.input.text).map (tokenReport showEnd)).mapError .refused := by
    intro showEnd
    have hreads' : { s with showEnd }.ReadsInput t source := hreads
    have hinspect : inspect host { s with showEnd } source = _ := inspect_of_tokens hasked
    rw [hreads'.inspectInput_eq, hinspect]
    cases scanSource source s.input.text <;> rfl
  rw [hshown true, hshown false]
  rcases hscan : scanSource source s.input.text with d | tokens
  · rfl
  · have hrow := tokenReport_showEnd (scanSource_eq_ok_iff.mp hscan)
    exact congrArg Except.ok hrow

/-- The text that debugging adds is the one that an outline shows, or its rows as far as there is
    room. -/
theorem errorText_debug_of_parse (hasked : s.tokens = false) (hreads : s.ReadsInput t source)
    (hparse : parseSource source s.input.text = .ok es) :
    ∃ text, ({ s with debug := true }.inspectInput host t).errorText = text ∧
      ((runWith host { s with debug := true } : StateM FileTree RunResult).run t).1.stderr = text ∧
      (host.HasRoom es .outline →
        ({ s with format := .outline }.inspectInput host t).result = .ok text ∧
          Tree.outline es = { text }) ∧
      (¬host.HasRoom es .outline →
        ({ s with format := .outline }.inspectInput host t).result =
            .error (.unprinted (.foreign .cutOff)) ∧
          ∃ before n after, es.flatMap (Tree.nodes 0) = before ++ n :: after ∧
            (∀ m ∈ before, host.outlineRoom m.1 m.2 = true) ∧
            host.outlineRoom n.1 n.2 = false ∧ text = String.join (before.map Tree.row)) := by
  have hdebug : { s with debug := true }.ReadsInput t source := hreads
  have houtline : { s with format := .outline }.ReadsInput t source := hreads
  obtain ⟨herror, hstderr⟩ := hdebug.stderr_runWith host hasked hparse
  obtain ⟨hfull, hcut⟩ := outlineWithin_of_isNormal host (isNormal_of_parseSource hparse)
  obtain ⟨text, hshows, hall, hnone⟩ := houtline.result_of_parse host hasked hparse
  refine ⟨_, herror, hstderr, fun hroom => ?_, fun hlacks => ?_⟩
  · have hprinted := (hfull hroom).2
    obtain rfl := hshows.unique (.outline hprinted)
    exact ⟨hall ⟨hroom, fun _ => hroom⟩, hprinted⟩
  · exact ⟨hnone fun hroom => hlacks hroom.1, (hcut hlacks).2⟩

/-- Debugging adds nothing where there are no expressions. -/
theorem errorText_debug_of_result_eq_error {fault : InputFault} (hasked : s.tokens = false)
    (h : (s.inspectInput host t).result = .error fault) (hprinted : ∀ f, fault ≠ .unprinted f) :
    ({ s with debug := true }.inspectInput host t).errorText = "" := by
  have hnone : ∀ source es, s.ReadsInput t source → parseSource source s.input.text ≠ .ok es := by
    intro source es hreads hparse
    obtain ⟨text, -, hall, hcut⟩ := hreads.result_of_parse host hasked hparse
    by_cases hroom : s.HasRoom host es
    · cases (hall hroom).symm.trans h
    · cases (hcut hroom).symm.trans h
      exact hprinted _ rfl
  rw [inspectInput_debug_of_ne_ok hasked hnone true]
  exact errorText_of_result_eq_error h hprinted

/-- Whatever the host, the files and the settings: debugging changes nothing of what an inspection
    shows or of why it shows nothing, unless there is room for all but the outline that it adds.
    Where tokens are asked for, neither the format nor debugging changes anything, and listing the
    end of the input adds its one row behind the others. Where expressions are shown, listing the
    end of the input changes nothing, and debugging writes the text that an outline of the input is,
    or, where there is no room for one, its rows as far as there is; it writes nothing if there are
    no expressions. -/
theorem inspectInput_of_options (host : Host) (t : FileTree) (s : Settings) :
    ((∀ debug, ({ s with debug }.inspectInput host t).result = (s.inspectInput host t).result) ↔
        ¬s.OutlineAloneLacksRoom host t) ∧
      (s.tokens = true →
        (∀ format debug,
          { s with format, debug }.inspectInput host t = s.inspectInput host t ∧
            (runWith host { s with format, debug } : StateM FileTree RunResult).run t =
              (runWith host s : StateM FileTree RunResult).run t) ∧
          ∀ source, s.ReadsInput t source →
            ({ s with showEnd := true }.inspectInput host t).result =
              ({ s with showEnd := false }.inspectInput host t).result.map
                (· ++ (Token.endOfInput (1 + source.toList.count '\n' : Nat)).row)) ∧
      (s.tokens = false →
        (∀ showEnd,
          { s with showEnd }.inspectInput host t = s.inspectInput host t ∧
            (runWith host { s with showEnd } : StateM FileTree RunResult).run t =
              (runWith host s : StateM FileTree RunResult).run t) ∧
          (∀ source es, s.ReadsInput t source → parseSource source s.input.text = .ok es →
            ∃ text, ({ s with debug := true }.inspectInput host t).errorText = text ∧
              ((runWith host { s with debug := true } : StateM FileTree RunResult).run t).1.stderr =
                text ∧
              (host.HasRoom es .outline →
                ({ s with format := .outline }.inspectInput host t).result = .ok text ∧
                  Tree.outline es = { text }) ∧
              (¬host.HasRoom es .outline →
                ({ s with format := .outline }.inspectInput host t).result =
                    .error (.unprinted (.foreign .cutOff)) ∧
                  ∃ before n after, es.flatMap (Tree.nodes 0) = before ++ n :: after ∧
                    (∀ m ∈ before, host.outlineRoom m.1 m.2 = true) ∧
                    host.outlineRoom n.1 n.2 = false ∧ text = String.join (before.map Tree.row))) ∧
          ∀ fault, (s.inspectInput host t).result = .error fault →
            (∀ shown, fault ≠ .unprinted shown) →
            ({ s with debug := true }.inspectInput host t).errorText = "") := by
  refine ⟨result_inspectInput_debug_iff, fun hasked => ⟨fun format debug => ?_, ?_⟩,
    fun hasked => ⟨fun showEnd => ?_, ?_, ?_⟩⟩
  · have hsame := inspect_of_tokens_congr host hasked format debug
    exact ⟨inspectInput_congr rfl hsame, run_runWith_congr rfl rfl hsame⟩
  · exact fun source hreads => result_inspectInput_showEnd hasked hreads
  · have hsame := inspect_of_expressions_congr host hasked showEnd
    exact ⟨inspectInput_congr rfl hsame, run_runWith_congr rfl rfl hsame⟩
  · exact fun source es hreads hparse => errorText_debug_of_parse hasked hreads hparse
  · exact fun fault hfault hprinted => errorText_debug_of_result_eq_error hasked hfault hprinted

/-- An input of two lines, as expressions and as tokens, and one that is refused. -/
theorem inspectInput_of_options_two_lines :
    let host := Host.standard
    let t : FileTree :=
      { entries := [(["a.lox"], .file (Utf8.encode "-a\r\n+ 1")), (["b.lox"], .file [0x29])] }
    let s : Settings :=
      { input := Path.ofString "a.lox", output := none, tokens := false, format := .prefixForm
        showEnd := false, debug := false }
    let asked : Settings := { s with tokens := true }
    let refused : Settings := { s with input := Path.ofString "b.lox" }
    s.ReadsInput t "-a\n+ 1" ∧
      parseSource "-a\n+ 1" s.input.text =
        .ok [.binary (.unary .minus (.name "a")) .plus (.number .one)] ∧
      (∃ text, ({ s with format := .outline }.inspectInput host t).result = .ok text ∧
        ({ s with debug := true }.inspectInput host t).errorText = text) ∧
      { s with showEnd := true }.inspectInput host t = s.inspectInput host t ∧
      { asked with format := .outline, debug := true }.inspectInput host t =
        asked.inspectInput host t ∧
      ({ asked with showEnd := true }.inspectInput host t).result =
        ({ asked with showEnd := false }.inspectInput host t).result.map (· ++ "   2 EOF ''\n") ∧
      (∃ fault, (refused.inspectInput host t).result = .error fault) ∧
      ({ refused with debug := true }.inspectInput host t).errorText = "" := by
  intro host t s asked refused
  have hreads : s.ReadsInput t "-a\n+ 1" :=
    ⟨Utf8.encode "-a\r\n+ 1", by decide +kernel, by decide +kernel⟩
  have hparse : parseSource "-a\n+ 1" s.input.text =
      .ok [.binary (.unary .minus (.name "a")) .plus (.number .one)] := by
    decide +kernel
  have hroom : host.HasRoom [.binary (.unary .minus (.name "a")) .plus (.number .one)]
      .outline := by
    unfold Host.HasRoom
    decide +kernel
  let fault : InputFault := .refused
    { cause := .unexpectedToken ⟨.rightParen, ")", none, 1⟩, line := 1, source := ")"
      filename := "b.lox" }
  have hfault : (refused.inspectInput host t).result = .error fault := by decide +kernel
  have hend : (Token.endOfInput (1 + "-a\n+ 1".toList.count '\n' : Nat)).row = "   2 EOF ''\n" := by
    decide +kernel
  obtain ⟨-, -, hexpressions⟩ := inspectInput_of_options host t s
  obtain ⟨-, htokens, -⟩ := inspectInput_of_options host t asked
  obtain ⟨hshowEnd, hdebug, -⟩ := hexpressions rfl
  obtain ⟨hunused, hrow⟩ := htokens rfl
  obtain ⟨text, htext, -, hshown, -⟩ := hdebug _ _ hreads hparse
  have hlisting := hrow _ hreads
  rw [hend] at hlisting
  have hnothing := ((inspectInput_of_options host t refused).2.2 rfl).2.2 fault hfault nofun
  exact ⟨hreads, hparse, ⟨text, (hshown hroom).1, htext⟩, (hshowEnd true).1,
    (hunused .outline true).1, hlisting, ⟨fault, hfault⟩, hnothing⟩

/-! ## The text of a sum -/

/-- The text of the sum of a one and `count` more ones. -/
def onesText : Nat → List Char
  | 0 => ['1']
  | count + 1 => onesText count ++ ['+', '1']

/-- Its lexemes. -/
def onesLexemes : Nat → List Lexeme
  | 0 => [.numeral ['1'] none]
  | count + 1 => onesLexemes count ++ [.symbol .plus, .numeral ['1'] none]

theorem spelling_onesLexemes (count : Nat) :
    (onesLexemes count).flatMap Lexeme.spelling = onesText count := by
  induction count with
  | zero => rfl
  | succ count ih =>
    rw [onesLexemes, List.flatMap_append, ih, onesText]
    rfl

theorem isDivision_onesLexemes (count : Nat) {rest : List Char}
    (h : (Lexeme.numeral ['1'] none).EndsBefore rest) : IsDivision rest (onesLexemes count) := by
  have hwell : (Lexeme.numeral ['1'] none).IsWellFormed := ⟨⟨by simp, by simp⟩, nofun⟩
  have hplus : ∀ more : List Char, (Lexeme.numeral ['1'] none).EndsBefore ('+' :: more) := by
    intro more
    refine ⟨by simp, fun _ hfraction => ?_⟩
    exact absurd (Lexeme.beginsFraction_cons_iff.mp hfraction).1 (by decide)
  induction count generalizing rest with
  | zero => exact ⟨hwell, h, trivial⟩
  | succ count ih =>
    refine isDivision_append.mpr ⟨ih (hplus _), rfl, ?_, hwell, h, trivial⟩
    simp [Lexeme.EndsBefore, Lexeme.spelling, TokenKind.extension?]

theorem terminals_onesLexemes (count : Nat) (p : Position) :
    (tokensFrom p (onesLexemes count)).map Token.terminal = (onesSum count).terminals := by
  have hvalue : Double.ofDecimal (Decimal.ofDigits ['1'] [] 0) = .one := by decide +kernel
  have hone : ∀ q, (tokensFrom q [.numeral ['1'] none]).map Token.terminal = [.number .one] := by
    intro q
    simp [tokensFrom, Lexeme.token?, hvalue, Token.terminal, Literal.double?]
  induction count with
  | zero => exact hone p
  | succ count ih =>
    rw [onesLexemes, tokensFrom_append, List.map_append, ih, onesSum, Tree.terminals, tokensFrom,
      List.map_append, hone]
    rfl

theorem level_onesSum (count : Nat) : Level.term ≤ (onesSum count).level := by
  cases count with
  | zero => decide
  | succ count => exact Nat.le_refl _

theorem isProgram_onesSum (count : Nat) : IsProgram maxNesting [onesSum count] := by
  have hsum : (onesSum count).IsNormal ∧ (onesSum count).nestingDepth = 0 := by
    induction count with
    | zero => exact ⟨trivial, rfl⟩
    | succ count ih =>
      refine ⟨⟨⟨.term, rfl, level_onesSum count, by decide⟩, ih.1, trivial⟩, ?_⟩
      simp [onesSum, Tree.nestingDepth, ih.2]
  exact ⟨by simpa using hsum.1, by simp [hsum.2], by simp⟩

/-- The text is read as the sum. -/
theorem parseSource_onesText (count : Nat) (filename : String) :
    parseSource (String.ofList (onesText count)) filename = .ok [onesSum count] := by
  have hends : (Lexeme.numeral ['1'] none).EndsBefore [] := ⟨by simp, fun _ => nofun⟩
  have hscan := scanText_of_isDivision (isDivision_onesLexemes count hends)
  rw [spelling_onesLexemes] at hscan
  refine (parseSource_eq_ok_iff_isProgram (scanSource_eq_ok_iff.mpr hscan)).mpr
    ⟨isProgram_onesSum count, ?_⟩
  rw [terminals_onesLexemes, List.flatMap_singleton]

theorem return_not_mem_onesText (count : Nat) : '\r' ∉ onesText count := by
  induction count with
  | zero => decide
  | succ count ih => simp [onesText, ih]

/-- The sum of 985 ones is shown, unless debugging is asked for: of its outline there is room for
    the rows of all but the first of the ones. -/
theorem inspectInput_of_985_ones :
    let t : FileTree :=
      { entries := [(["a.lox"], .file (Utf8.encode (String.ofList (onesText 984))))] }
    let s : Settings :=
      { input := Path.ofString "a.lox", output := none, tokens := false, format := .prefixForm
        showEnd := false, debug := false }
    (∃ text, (s.inspectInput .standard t).result = .ok text) ∧
      ({ s with debug := true }.inspectInput .standard t).result =
        .error (.unprinted (.foreign .cutOff)) := by
  intro t s
  let source := String.ofList (onesText 984)
  have hcontent : t.contentAt s.input = .ok (Utf8.encode source) := by
    have hheld : ∀ content, FileTree.contentAt { entries := [(["a.lox"], .file content)] }
        (Path.ofString "a.lox") = .ok content := fun _ => rfl
    exact hheld _
  have htext : inputText (Utf8.encode source) = .ok source := by
    rw [inputText, Utf8.decode_encode, String.toList_ofList]
    exact congrArg (fun cs => Except.ok (String.ofList cs))
      (unifyLineEnds_eq_self (return_not_mem_onesText 984))
  have hreads : s.ReadsInput t source := ⟨_, hcontent, htext⟩
  have hdebug : { s with debug := true }.ReadsInput t source := hreads
  have hparse := parseSource_onesText 984 s.input.text
  obtain ⟨hall, n, hn, hdepth⟩ := Tree.mem_nodes_onesSum 984 0
  have hforms : Host.standard.HasRoom [onesSum 984] .prefixForm := by
    intro m hm
    rw [List.flatMap_singleton] at hm
    have hle := (hall m hm).1
    exact decide_eq_true (by omega)
  have houtline : ¬Host.standard.HasRoom [onesSum 984] .outline := by
    intro hroom
    have hfits := of_decide_eq_true (hroom n (by rwa [List.flatMap_singleton]))
    omega
  obtain ⟨text, -, hshown, -⟩ := hreads.result_of_parse .standard rfl hparse
  obtain ⟨-, -, -, hcut⟩ := hdebug.result_of_parse .standard rfl hparse
  have hunasked : s.debug = true → Host.standard.HasRoom [onesSum 984] .outline := by
    intro hdebug
    cases hdebug
  exact ⟨⟨text, hshown ⟨hforms, hunasked⟩⟩, hcut fun hroom => houtline (hroom.2 rfl)⟩

end LoxSyntax
