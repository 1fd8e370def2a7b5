import LoxSyntax.Command.Run
import LoxSyntax.Proofs.Diagnostic.ReportedToken
import LoxSyntax.Proofs.Expr.PrintingRoom
import LoxSyntax.Proofs.Expr.SourceTrees
set_option autoImplicit false

/-! # What a run shows

A source is refused, or else to be shown: as a listing of its tokens if these are asked for, and
otherwise as its expressions, each in prefix form on a line, or in an outline
(`refuses_or_renders`). No expression that was read is at fault when it is printed, since all its
operators have a spelling (`firstFault?_of_isNormal`). So nothing is left out of what is shown, if
the host has room for it (`Renders.exists_inspect`); where it has not, nothing is shown
(`LacksRoom.exists_inspect`). -/

namespace LoxSyntax

variable {host : Host}

/-! ## Expressions and their texts -/

/-- Is there room on the host for showing the expressions in the format? -/
def Host.HasRoom (host : Host) (es : List Expr) : OutputFormat → Prop
  | .prefixForm => ∀ n ∈ es.flatMap (Tree.nodes 0), host.prefixRoom n.1 n.2 = true
  | .outline => ∀ n ∈ es.flatMap (Tree.nodes 0), host.outlineRoom n.1 n.2 = true

/-- The expressions are shown as the text in the format. -/
inductive Shows (es : List Expr) : OutputFormat → String → Prop
  | prefixForms {forms : List String} (printed : es.map Tree.prefixForm = forms.map .ok) :
      Shows es .prefixForm (String.join (forms.map (· ++ "\n")))
  | outline {text : String} (printed : Tree.outline es = { text }) : Shows es .outline text

/-- An expression in normal form has a prefix form, which stands on its line if there is room. -/
theorem prefixLine_of_isNormal (host : Host) {e : Expr} (h : e.IsNormal) :
    ∃ form, e.prefixForm = .ok form ∧
      ((∀ n ∈ e.nodes 0, host.prefixRoom n.1 n.2 = true) →
        prefixLine host e = .ok (form ++ "\n")) ∧
      (¬(∀ n ∈ e.nodes 0, host.prefixRoom n.1 n.2 = true) →
        prefixLine host e = .error (.foreign .cutOff)) := by
  obtain ⟨form, hform⟩ := Tree.exists_prefixForm h
  refine ⟨form, hform, fun hroom => ?_, fun hnone => ?_⟩
  · rw [prefixLine, Tree.prefixFormWithin_eq_ok_iff.mpr ⟨hroom, hform⟩]
    rfl
  · have hown := Tree.firstFault?_eq_none_iff.mp (Tree.firstFault?_of_isNormal h 0)
    have hcut : e.prefixFormWithin host.prefixRoom = .error (.foreign .cutOff) := by
      rw [← Tree.faultOf_eq_some_iff, Tree.faultOf_prefixFormWithin,
        Tree.findSome?_faultWithin?_eq_some_iff hown]
      simpa using hnone
    rw [prefixLine, hcut]
    rfl

theorem prefixLines_of_isNormal (host : Host) {es : List Expr} (h : ∀ e ∈ es, e.IsNormal) :
    ∃ forms : List String, es.map Tree.prefixForm = forms.map .ok ∧
      (host.HasRoom es .prefixForm →
        es.mapM (prefixLine host) = .ok (forms.map (· ++ "\n"))) ∧
      (¬host.HasRoom es .prefixForm → es.mapM (prefixLine host) = .error (.foreign .cutOff)) := by
  induction es with
  | nil => exact ⟨[], rfl, fun _ => rfl, fun hnone => absurd (by simp [Host.HasRoom]) hnone⟩
  | cons e es ih =>
    obtain ⟨he, hes⟩ := List.forall_mem_cons.mp h
    obtain ⟨form, hform, hline, hnoLine⟩ := prefixLine_of_isNormal host he
    obtain ⟨forms, hforms, hlines, hnoLines⟩ := ih hes
    have hroom : host.HasRoom (e :: es) .prefixForm ↔
        (∀ n ∈ e.nodes 0, host.prefixRoom n.1 n.2 = true) ∧ host.HasRoom es .prefixForm := by
      rw [Host.HasRoom, List.flatMap_cons, List.forall_mem_append]
      rfl
    refine ⟨form :: forms, by rw [List.map_cons, hform, hforms, List.map_cons], ?_, ?_⟩
    · rw [hroom]
      rintro ⟨hfirst, hrest⟩
      rw [List.mapM_cons, hline hfirst, hlines hrest]
      rfl
    · rw [hroom, List.mapM_cons]
      intro hnone
      by_cases hfirst : ∀ n ∈ e.nodes 0, host.prefixRoom n.1 n.2 = true
      · rw [hline hfirst, hnoLines fun hrest => hnone ⟨hfirst, hrest⟩]
        rfl
      · rw [hnoLine hfirst]
        rfl

/-- Expressions in normal form are shown completely if there is room, and else not at all. -/
theorem exprReport_of_isNormal (host : Host) {es : List Expr} (h : ∀ e ∈ es, e.IsNormal)
    (format : OutputFormat) :
    ∃ text, Shows es format text ∧
      (host.HasRoom es format → exprReport host format es = .ok text) ∧
      (¬host.HasRoom es format → exprReport host format es = .error (.foreign .cutOff)) := by
  cases format with
  | prefixForm =>
    obtain ⟨forms, hforms, hlines, hnoLines⟩ := prefixLines_of_isNormal host h
    refine ⟨_, .prefixForms hforms, fun hroom => ?_, fun hnone => ?_⟩
    · rw [exprReport, hlines hroom]
      rfl
    · rw [exprReport, hnoLines hnone]
      rfl
  | outline =>
    have htext := Tree.outline_eq_text h
    refine ⟨_, .outline htext, fun hroom => ?_, fun hnone => ?_⟩
    · refine Tree.outlineWithin_complete_iff.mpr ⟨hroom, ?_⟩
      rw [htext]
      rfl
    · have hown : ∀ n ∈ es.flatMap (Tree.nodes 0), n.2.ownFault? = none := by
        intro n hn
        obtain ⟨e, he, hn⟩ := List.mem_flatMap.mp hn
        exact Tree.firstFault?_eq_none_iff.mp (Tree.firstFault?_of_isNormal (h e he) 0) n hn
      rw [exprReport, Written.complete_eq_error_iff, Tree.fault?_outlineWithin,
        Tree.findSome?_faultWithin?_eq_some_iff hown]
      simp only [Host.HasRoom, not_forall, Bool.not_eq_true, exists_prop] at hnone
      exact ⟨rfl, hnone⟩

/-- Is there room for the expressions in the format of the settings, and in an outline if debugging
    asks for one? -/
def Settings.HasRoom (host : Host) (s : Settings) (es : List Expr) : Prop :=
  host.HasRoom es s.format ∧ (s.debug = true → host.HasRoom es .outline)

theorem inspectExprs_of_isNormal (host : Host) {es : List Expr} (s : Settings)
    (h : ∀ e ∈ es, e.IsNormal) :
    ∃ text, Shows es s.format text ∧
      (s.HasRoom host es → (inspectExprs host s es).result = .ok text) ∧
      (¬s.HasRoom host es → (inspectExprs host s es).result = .error (.foreign .cutOff)) := by
  obtain ⟨text, hshows, hroom, hnone⟩ := exprReport_of_isNormal host h s.format
  refine ⟨text, hshows, ?_⟩
  unfold inspectExprs Settings.HasRoom
  cases hdebug : s.debug with
  | false =>
    rw [if_neg Bool.false_ne_true]
    exact ⟨fun hfits => hroom hfits.1, fun hlacks => hnone fun hfits => hlacks ⟨hfits, nofun⟩⟩
  | true =>
    rw [if_pos rfl]
    -- the outline that debugging adds comes first
    obtain ⟨outline, -, hall, hcut⟩ := exprReport_of_isNormal host h .outline
    simp only [exprReport] at hall hcut
    by_cases houtline : host.HasRoom es .outline
    · simp only [hall houtline]
      exact ⟨fun hfits => hroom hfits.1,
        fun hlacks => hnone fun hfits => hlacks ⟨hfits, fun _ => houtline⟩⟩
    · simp only [hcut houtline]
      exact ⟨fun hfits => absurd (hfits.2 trivial) houtline, fun _ => rfl⟩

/-! ## Refusing and showing -/

/-- The source is refused with the diagnostic, its tokens or its expressions being asked for. -/
def Refuses (s : Settings) (source : String) (d : Diagnostic) : Prop :=
  if s.tokens then scanSource source s.input.text = .error d
  else parseSource source s.input.text = .error d

/-- The source is in order and is to be shown as the text. -/
inductive Renders (s : Settings) (source : String) : String → Prop
  | tokens {ts : List Token} (asked : s.tokens = true)
      (scanned : scanSource source s.input.text = .ok ts) :
      Renders s source
        (String.join ((if s.showEnd then ts else ts.filter (!·.isEnd)).map Token.row))
  | expressions {es : List Expr} {text : String} (asked : s.tokens = false)
      (parsed : parseSource source s.input.text = .ok es) (shown : Shows es s.format text) :
      Renders s source text

/-- The source has expressions, for which there is not room enough to show them. -/
def LacksRoom (host : Host) (s : Settings) (source : String) : Prop :=
  s.tokens = false ∧ ∃ es, parseSource source s.input.text = .ok es ∧ ¬s.HasRoom host es

section

variable {s : Settings} {source : String}

theorem inspect_of_tokens (h : s.tokens = true) :
    inspect host s source =
      (scanSource source s.input.text).map fun ts =>
        { result := .ok (tokenReport s.showEnd ts) } := by
  unfold inspect
  simp only [h, if_true]
  cases scanSource source s.input.text <;> rfl

theorem inspect_of_expressions (h : s.tokens = false) :
    inspect host s source = (parseSource source s.input.text).map (inspectExprs host s) := by
  unfold inspect parseSource
  simp only [h]
  cases scanSource source s.input.text with
  | error d => rfl
  | ok ts =>
    show (do let es ← parseFrom ts source s.input.text; _) = (parseFrom ts source _).map _
    cases parseFrom ts source s.input.text <;> rfl

theorem inspect_eq_error_iff {d : Diagnostic} :
    inspect host s source = .error d ↔ Refuses s source d := by
  unfold Refuses
  cases htokens : s.tokens with
  | true => rw [inspect_of_tokens htokens, map_eq_error_iff, if_pos rfl]
  | false => rw [inspect_of_expressions htokens, map_eq_error_iff, if_neg Bool.false_ne_true]

/-- Expressions are shown as one text only. -/
theorem Shows.unique {es : List Expr} {format : OutputFormat} {text other : String}
    (h : Shows es format text) (hother : Shows es format other) : text = other := by
  cases h with
  | prefixForms printed =>
    cases hother with
    | prefixForms printed' =>
      have hinjective :
          Function.Injective (Except.ok : String → Except (PrintFault Empty) String) :=
        fun _ _ h => Except.ok.inj h
      rw [hinjective.list_map (printed.symm.trans printed')]
  | outline printed =>
    cases hother with
    | outline printed' => exact congrArg Written.text (printed.symm.trans printed')

/-- A source that is to be shown as a text is inspected with that text, if there is room. -/
theorem Renders.exists_inspect {text : String} (h : Renders s source text)
    (hroom : ¬LacksRoom host s source) :
    ∃ debugText, inspect host s source = .ok { result := .ok text, debugText } := by
  cases h with
  | tokens asked scanned =>
    rw [inspect_of_tokens asked, scanned]
    exact ⟨_, rfl⟩
  | @expressions es _ asked parsed shown =>
    obtain ⟨other, hother, hshown, -⟩ :=
      inspectExprs_of_isNormal host s (isNormal_of_parseSource parsed)
    have hfits : s.HasRoom host es := by
      by_contra hlacks
      exact hroom ⟨asked, es, parsed, hlacks⟩
    rw [inspect_of_expressions asked, parsed, shown.unique hother]
    exact ⟨(inspectExprs host s es).debugText, congrArg Except.ok
      (congrArg (fun result => Inspection.mk result _) (hshown hfits))⟩

/-- A source for which there is no room is inspected without a result. -/
theorem LacksRoom.exists_inspect (h : LacksRoom host s source) :
    ∃ debugText, inspect host s source =
      .ok { result := .error (.foreign .cutOff), debugText } := by
  obtain ⟨asked, es, parsed, hlacks⟩ := h
  obtain ⟨_, -, -, hcut⟩ := inspectExprs_of_isNormal host s (isNormal_of_parseSource parsed)
  rw [inspect_of_expressions asked, parsed]
  exact ⟨(inspectExprs host s es).debugText, congrArg Except.ok
    (congrArg (fun result => Inspection.mk result _) (hcut hlacks))⟩

/-- A source is refused or to be shown. -/
theorem refuses_or_renders (s : Settings) (source : String) :
    (∃ d, Refuses s source d) ∨ ∃ text, Renders s source text := by
  unfold Refuses
  cases htokens : s.tokens with
  | true =>
    cases hscan : scanSource source s.input.text with
    | error d => exact Or.inl ⟨d, rfl⟩
    | ok ts => exact Or.inr ⟨_, .tokens htokens hscan⟩
  | false =>
    cases hparse : parseSource source s.input.text with
    | error d => exact Or.inl ⟨d, rfl⟩
    | ok es =>
      obtain ⟨text, hshown, -⟩ :=
        exprReport_of_isNormal .standard (isNormal_of_parseSource hparse) s.format
      exact Or.inr ⟨text, .expressions htokens hparse hshown⟩

end

end LoxSyntax
