import LoxSyntax.Proofs.Editor.Marks
set_option autoImplicit false

/-! # Histories of documents

What an editor is told about a document depends on the text that the document was given last, and on
nothing else: not on its identifier, not on its earlier texts and their faults, not on the other
documents. A library holds the last text of each document (`Sends.exists_run`), the name that a text
goes by is not seen in its marks (`marksOf_congr_filename`), and a text that an editor can count has
marks, if only none (`exists_marksOf`). -/

namespace LoxSyntax

/-! ## Marks and names -/

/-- The name of a text is found in its diagnostic and nowhere else. -/
theorem parseSource_rename (source filename other : String) :
    parseSource source other =
      (parseSource source filename).mapError fun d => { d with filename := other } := by
  unfold parseSource scanSource
  rcases scanText source with fault | tokens
  · rfl
  · show parseFrom tokens source other = (parseFrom tokens source filename).mapError _
    unfold parseFrom
    rcases parseTokens tokens with fault | es
    · rfl
    · rfl

/-- The marks on a text are the same whatever it is called. -/
theorem EditorInterface.marksOf_congr_filename (E : EditorInterface)
    (source filename other : String) : E.marksOf source filename = E.marksOf source other := by
  unfold marksOf
  rw [parseSource_rename source filename other]
  rcases parseSource source filename with d | es
  · rfl
  · rfl

/-! ## Marks and lengths -/

/-- A diagnostic does not quote more than its text. -/
theorem Diagnostic.length_quotedLine_le {d : Diagnostic} {count : Nat}
    (h : d.line = (1 + count : Nat)) : d.quotedLine.length ≤ d.source.length := by
  rw [← String.length_toList, ← String.length_toList, toList_quotedLine d h]
  rcases hline : (splitLines d.source.toList)[count]? with _ | line
  · simp [hline]
  · have hmem : line ∈ splitLines d.source.toList := List.mem_of_getElem? hline
    simpa [hline] using length_le_of_mem_splitLines hmem

/-- A text that an editor can count has marks, if only none. -/
theorem EditorInterface.exists_marksOf {E : EditorInterface} (hE : E.IsDocumented) {source : String}
    (hlength : source.length ≤ maxSpot) (filename : String) :
    ∃ marks, E.marksOf source filename = .ok marks := by
  rcases hparse : parseSource source filename with d | es
  · suffices hrange : ∃ range, E.rangeOf d = .ok range by
      obtain ⟨range, hrange⟩ := hrange
      exact ⟨_, marksOf_eq_error hparse hrange⟩
    rcases hscan : scanSource source filename with fault | tokens
    · rcases parseSource_eq_error_iff.mp hparse with hfault | ⟨_, hok, _⟩
      · obtain ⟨range, hrange, _⟩ := range_of_scanSource_eq_error hE hlength hfault
        exact ⟨range, hrange⟩
      · rw [hscan] at hok
        cases hok
    · obtain ⟨ts, t, us, before, -, -, hplace, hline, hcolumn, hsource⟩ :=
        exists_reported_token hscan hparse
      have hcount : before.count '\n' ≤ source.length := by
        rw [← String.length_toList]
        exact List.count_le_length.trans hplace.isPrefix.length_le
      have hquoted := Diagnostic.length_quotedLine_le hline
      rw [hsource] at hquoted
      obtain ⟨range, hrange, _⟩ :=
        exists_rangeOf_of_line hE hline hcolumn (by omega) (by omega)
      exact ⟨range, hrange⟩
  · exact ⟨[], by rw [marksOf, hparse]⟩

/-! ## Last texts -/

/-- The text that an event gives to a document, if it is about the document and gives it one. -/
def DocumentEvent.textFor? (uri : String) : DocumentEvent → Option String
  | stored other text => if other = uri then some text else none
  | checked _ => none

/-- The text that a document was given last. -/
def lastText? (uri : String) (events : List DocumentEvent) : Option String :=
  (events.filterMap (DocumentEvent.textFor? uri)).getLast?

theorem lastText?_concat (uri : String) (events : List DocumentEvent) (event : DocumentEvent) :
    lastText? uri (events ++ [event]) = (event.textFor? uri).or (lastText? uri events) := by
  unfold lastText?
  rw [List.filterMap_append, List.getLast?_append]
  rcases htext : event.textFor? uri with _ | text
  · simp [htext]
  · simp [htext]

theorem lastText?_filter (uri : String) (events : List DocumentEvent) :
    lastText? uri (events.filter (·.uri = uri)) = lastText? uri events := by
  unfold lastText?
  rw [List.filterMap_filter]
  refine congrArg List.getLast? (List.filterMap_congr fun event _ => ?_)
  rcases event with ⟨other, text⟩ | other <;> by_cases h : other = uri <;>
    simp [DocumentEvent.textFor?, DocumentEvent.uri, h]

/-! ## Events -/

namespace EditorInterface

variable {E : EditorInterface} (hE : E.IsDocumented) {s : E.State}

section

include hE

/-- Receiving an event changes the text of one document at most. -/
theorem source_receive (event : DocumentEvent) (uri : String) :
    E.source (E.receive s event) uri =
      (event.textFor? uri).elim (E.source s uri) .ok := by
  rcases event with ⟨other, text⟩ | other
  · by_cases h : other = uri
    · subst h
      simp [receive, DocumentEvent.textFor?, hE.source_store_self]
    · have hne : uri ≠ other := fun heq => h heq.symm
      simp [receive, DocumentEvent.textFor?, h, hE.source_store_of_ne s other text uri hne]
  · rfl

theorem published_receive (event : DocumentEvent) :
    E.published (E.receive s event) = E.published s := by
  cases event with
  | stored uri text => exact hE.published_store s uri text
  | checked uri => rfl

/-- Handling an event publishes the marks on its document, and changes no text besides. -/
theorem exists_handle {event : DocumentEvent} {text : String} {marks : List (Mark E.Place)}
    (htext : E.source (E.receive s event) event.uri = .ok text)
    (hmarks : E.marksOf text unnamedInput = .ok marks) :
    ∃ next, E.handle s event = .ok next ∧
      E.published next = E.published s ++ [⟨event.uri, marks⟩] ∧
      ∀ uri, E.source next uri = E.source (E.receive s event) uri := by
  refine ⟨E.publish (E.receive s event) ⟨event.uri, marks⟩, ?_, ?_, fun uri => ?_⟩
  · rw [handle, validate, htext]
    show (do let found ← E.marksOf text (documentName event.uri); _) = _
    rw [marksOf_congr_filename E text _ unnamedInput, hmarks]
    rfl
  · rw [hE.published_publish, published_receive hE]
  · exact hE.source_publish ..

end

theorem run_concat (s : E.State) (events : List DocumentEvent) (event : DocumentEvent) :
    E.run s (events ++ [event]) = (E.run s events).bind (E.handle · event) := by
  induction events generalizing s with
  | nil =>
    show (E.handle s event).bind (fun next => E.run next []) = E.handle s event
    cases E.handle s event <;> rfl
  | cons first events ih =>
    show (E.handle s first).bind (fun next => E.run next (events ++ [event])) =
      ((E.handle s first).bind (fun next => E.run next events)).bind (E.handle · event)
    cases E.handle s first with
    | error fault => rfl
    | ok next => exact ih next

/-! ## Rows of events -/

/-- From the state on, the events are handled without a fault and publish what is given. -/
def Publishes (E : EditorInterface) (s : E.State) (events : List DocumentEvent)
    (sent : List (Publication E.Place)) : Prop :=
  ∃ final, E.run s events = .ok final ∧ E.published final = E.published s ++ sent

/-- Each event has its publication: the marks on the last text of its document. -/
inductive Sends (E : EditorInterface) :
    List DocumentEvent → List (Publication E.Place) → Prop
  | nil : Sends E [] []
  | concat {events : List DocumentEvent} {sent : List (Publication E.Place)} {event : DocumentEvent}
      {text : String} {marks : List (Mark E.Place)} (before : Sends E events sent)
      (last : lastText? event.uri (events ++ [event]) = some text)
      (marks_eq : E.marksOf text unnamedInput = .ok marks) :
      Sends E (events ++ [event]) (sent ++ [⟨event.uri, marks⟩])

namespace Sends

variable {events : List DocumentEvent} {sent : List (Publication E.Place)}

theorem length_eq (h : Sends E events sent) : sent.length = events.length := by
  induction h with
  | nil => rfl
  | concat _ _ _ ih => simp [ih]

theorem take (h : Sends E events sent) (n : Nat) : Sends E (events.take n) (sent.take n) := by
  induction h with
  | nil => simpa using Sends.nil
  | @concat events sent event text marks before last marks_eq ih =>
    have hlength := before.length_eq
    by_cases hn : n ≤ events.length
    · rw [List.take_append_of_le_length hn, List.take_append_of_le_length (hlength ▸ hn)]
      exact ih
    · rw [List.take_of_length_le (by simp; omega), List.take_of_length_le (by simp; omega)]
      exact .concat before last marks_eq

/-- The publication of an event, by its index. -/
theorem getElem? (h : Sends E events sent) {i : Nat} {event : DocumentEvent}
    (hevent : events[i]? = some event) :
    ∃ text marks, lastText? event.uri (events.take (i + 1)) = some text ∧
      E.marksOf text unnamedInput = .ok marks ∧ sent[i]? = some ⟨event.uri, marks⟩ := by
  have hlt : i < events.length := (List.getElem?_eq_some_iff.mp hevent).1
  have hsent := h.take (i + 1)
  rw [List.take_add_one, hevent, Option.toList_some] at hsent ⊢
  generalize hfirst : events.take i ++ [event] = first at hsent
  generalize hpublished : sent.take (i + 1) = published at hsent
  cases hsent with
  | nil => simp at hfirst
  | @concat events' sent' other text marks before last marks_eq =>
    obtain ⟨rfl, hsame⟩ := List.append_inj' hfirst rfl
    obtain rfl := List.singleton_inj.mp hsame
    have hlength : sent'.length = i := by
      rw [before.length_eq, List.length_take]
      omega
    refine ⟨text, marks, last, marks_eq, ?_⟩
    have hat := congrArg (·[i]?) hpublished
    simpa [← hlength] using hat

/-- The events of one document send by themselves what they send among those of others. -/
theorem filter (h : Sends E events sent) (uri : String) :
    Sends E (events.filter (·.uri = uri)) (sent.filter (·.uri = uri)) := by
  induction h with
  | nil => exact .nil
  | @concat events sent event text marks _ last marks_eq ih =>
    by_cases hevent : event.uri = uri
    · subst hevent
      rw [List.filter_append, List.filter_append]
      have hlast : lastText? event.uri
          (events.filter (·.uri = event.uri) ++ [event]) = some text := by
        rw [lastText?_concat, lastText?_filter, ← lastText?_concat]
        exact last
      simpa using Sends.concat ih hlast marks_eq
    · rw [List.filter_append, List.filter_append]
      simpa [hevent] using ih

/-- Handled one after the other, the events leave each document with its last text. -/
theorem exists_run (hE : E.IsDocumented) (h : Sends E events sent) (s : E.State) :
    ∃ final, E.run s events = .ok final ∧ E.published final = E.published s ++ sent ∧
      ∀ uri, E.source final uri = (lastText? uri events).elim (E.source s uri) .ok := by
  induction h with
  | nil => exact ⟨s, rfl, (List.append_nil _).symm, fun _ => rfl⟩
  | @concat events sent event text marks _ last marks_eq ih =>
    obtain ⟨before, hrun, hpublished, hsource⟩ := ih
    have hreceived (uri : String) : E.source (E.receive before event) uri =
        (lastText? uri (events ++ [event])).elim (E.source s uri) .ok := by
      rw [source_receive hE, hsource, lastText?_concat]
      cases event.textFor? uri <;> rfl
    have htext : E.source (E.receive before event) event.uri = .ok text := by
      rw [hreceived, last]
      rfl
    obtain ⟨next, hnext, hsent, hkeeps⟩ := exists_handle hE htext marks_eq
    refine ⟨next, ?_, ?_, fun uri => (hkeeps uri).trans (hreceived uri)⟩
    · rw [run_concat, hrun]
      exact hnext
    · rw [hsent, hpublished, List.append_assoc]

theorem publishes (hE : E.IsDocumented) (h : Sends E events sent) (s : E.State) :
    E.Publishes s events sent := by
  obtain ⟨final, hrun, hpublished, -⟩ := h.exists_run hE s
  exact ⟨final, hrun, hpublished⟩

end Sends

end EditorInterface

/-! ## Histories -/

/-- A row of events as an editor sends them: a document is looked at again only after it has been
    given a text, and no text is longer than an editor can count. -/
structure IsHistory (events : List DocumentEvent) : Prop where
  opened : ∀ i uri, events[i]? = some (.checked uri) →
    ∃ text, lastText? uri (events.take i) = some text
  countable : ∀ uri text, .stored uri text ∈ events → text.length ≤ maxSpot

theorem stored_mem_of_lastText? {uri text : String} {events : List DocumentEvent}
    (h : lastText? uri events = some text) : .stored uri text ∈ events := by
  obtain ⟨event, hmem, hgives⟩ := List.mem_filterMap.mp (List.mem_of_getLast? h)
  rcases event with ⟨other, given⟩ | other
  · simp only [DocumentEvent.textFor?] at hgives
    split at hgives
    · next heq =>
      cases heq
      cases hgives
      exact hmem
    · cases hgives
  · cases hgives

namespace IsHistory

variable {events : List DocumentEvent} {event : DocumentEvent}

theorem of_concat (h : IsHistory (events ++ [event])) : IsHistory events where
  opened i uri hevent := by
    have hlt : i < events.length := (List.getElem?_eq_some_iff.mp hevent).1
    have hopened := h.opened i uri (by rw [List.getElem?_append_left hlt, hevent])
    rwa [List.take_append_of_le_length (Nat.le_of_lt hlt)] at hopened
  countable uri text hstored := h.countable uri text (List.mem_append_left _ hstored)

/-- Behind an event its document has a text, which an editor can count. -/
theorem exists_lastText? (h : IsHistory (events ++ [event])) :
    ∃ text, lastText? event.uri (events ++ [event]) = some text ∧ text.length ≤ maxSpot := by
  have hsome : ∃ text, lastText? event.uri (events ++ [event]) = some text := by
    rw [lastText?_concat]
    rcases event with ⟨uri, text⟩ | uri
    · exact ⟨text, by simp [DocumentEvent.textFor?, DocumentEvent.uri]⟩
    · have hopened := h.opened events.length uri (by simp)
      rwa [List.take_left'] at hopened
      rfl
  obtain ⟨text, htext⟩ := hsome
  exact ⟨text, htext, h.countable _ _ (stored_mem_of_lastText? htext)⟩

/-- Each event of a history has its publication. -/
theorem exists_sends {E : EditorInterface} (hE : E.IsDocumented) (h : IsHistory events) :
    ∃ sent, E.Sends events sent := by
  induction events using List.reverseRecOn with
  | nil => exact ⟨[], .nil⟩
  | append_singleton events event ih =>
    obtain ⟨sent, hsent⟩ := ih h.of_concat
    obtain ⟨text, htext, hlength⟩ := h.exists_lastText?
    obtain ⟨marks, hmarks⟩ := EditorInterface.exists_marksOf hE hlength unnamedInput
    exact ⟨_, .concat hsent htext hmarks⟩

end IsHistory

/-- Each event of a history publishes once, and on its own document: the marks on the last text of
    the document, whatever the library held before the history. So two events, of one history or of
    two, that leave their documents with the same text publish the same marks, with their ranges,
    messages and severities, whatever the documents are called, and what is published on a document
    is what its own events publish without those of the others. -/
theorem EditorInterface.publications_of_last_texts (E : EditorInterface) (hE : E.IsDocumented)
    (events others : List DocumentEvent) (h : IsHistory events) (hothers : IsHistory others) :
    ∃ sent sent' : List (Publication E.Place),
      (sent.length = events.length ∧ ∀ s n, E.Publishes s (events.take n) (sent.take n)) ∧
      (sent'.length = others.length ∧ ∀ s n, E.Publishes s (others.take n) (sent'.take n)) ∧
      (∀ i event, events[i]? = some event →
        ∃ text marks, lastText? event.uri (events.take (i + 1)) = some text ∧
          E.marksOf text unnamedInput = .ok marks ∧ sent[i]? = some ⟨event.uri, marks⟩) ∧
      (∀ i j event other, events[i]? = some event → others[j]? = some other →
        lastText? event.uri (events.take (i + 1)) = lastText? other.uri (others.take (j + 1)) →
        ∃ p ∈ sent[i]?, ∃ q ∈ sent'[j]?, p.uri = event.uri ∧ q.uri = other.uri ∧
          p.marks = q.marks) ∧
      ∀ uri s n, E.Publishes s ((events.take n).filter (·.uri = uri))
        ((sent.take n).filter (·.uri = uri)) := by
  obtain ⟨sent, hsent⟩ := h.exists_sends hE
  obtain ⟨sent', hsent'⟩ := hothers.exists_sends hE
  refine ⟨sent, sent', ⟨hsent.length_eq, fun s n => (hsent.take n).publishes hE s⟩,
    ⟨hsent'.length_eq, fun s n => (hsent'.take n).publishes hE s⟩, fun i event => hsent.getElem?,
    ?_, fun uri s n => ((hsent.take n).filter uri).publishes hE s⟩
  intro i j event other hevent hother htexts
  obtain ⟨text, marks, htext, hmarks, hp⟩ := hsent.getElem? hevent
  obtain ⟨text', marks', htext', hmarks', hq⟩ := hsent'.getElem? hother
  obtain rfl : text = text' := Option.some.inj (htext.symm.trans (htexts.trans htext'))
  obtain rfl : marks = marks' := Except.ok.inj (hmarks.symm.trans hmarks')
  exact ⟨_, hp, _, hq, rfl, rfl, rfl⟩

/-- The second document, looked at again after the first has been mended, has the mark that a third
    one with its text has in another history. -/
theorem EditorInterface.publications_of_last_texts_two_histories :
    let E := Workspace.interface
    let start : Workspace := {}
    let events : List DocumentEvent :=
      [.stored "file:///d/a.lox" "1 +", .stored "b" "x\n%", .stored "file:///d/a.lox" "1 + 2",
        .checked "b"]
    let others : List DocumentEvent := [.stored "/c/d.lox" "(", .stored "/c/d.lox" "x\n%"]
    let marks : List (Mark Spot) :=
      [⟨.ofCharacter 1 0, "unexpected character '%'", .error, "loxfront"⟩]
    E.IsDocumented ∧ IsHistory events ∧ IsHistory others ∧
      ∃ sent sent' : List (Publication Spot),
        E.Publishes start events sent ∧ E.Publishes start others sent' ∧
        (∃ p ∈ sent[3]?, ∃ q ∈ sent'[1]?, p.uri = "b" ∧ q.uri = "/c/d.lox" ∧ p.marks = q.marks ∧
          p.marks = marks) ∧
        E.Publishes start [.stored "b" "x\n%", .checked "b"] (sent.filter (·.uri = "b")) := by
  intro E start events others marks
  have hevents : IsHistory events := by
    constructor
    · intro i uri hchecked
      rcases i with _ | _ | _ | _ | i <;> cases hchecked
      exact ⟨"x\n%", by decide⟩
    · intro uri text hstored
      simp only [events, List.mem_cons, List.not_mem_nil, or_false] at hstored
      rcases hstored with h | h | h | h <;> cases h <;> decide
  have hothers : IsHistory others := by
    constructor
    · intro i uri hchecked
      rcases i with _ | _ | i <;> cases hchecked
    · intro uri text hstored
      simp only [others, List.mem_cons, List.not_mem_nil, or_false] at hstored
      rcases hstored with h | h <;> cases h <;> decide
  have hE : E.IsDocumented := Workspace.isDocumented_interface
  obtain ⟨sent, sent', ⟨hlength, hsent⟩, ⟨hlength', hsent'⟩, hmarks, hsame, halone⟩ :=
    publications_of_last_texts E hE events others hevents hothers
  have hfound : E.marksOf "x\n%" unnamedInput = .ok marks := rfl
  obtain ⟨_, _, htext, hfourth, hsent3⟩ := hmarks 3 _ rfl
  obtain rfl := Option.some.inj htext
  obtain rfl := Except.ok.inj (hfourth.symm.trans hfound)
  obtain ⟨p, hp, q, hq, huri, huri', hpq⟩ := hsame 3 1 _ _ rfl rfl (by decide)
  have hall : sent.take 4 = sent := List.take_of_length_le (Nat.le_of_eq hlength)
  have hall' : sent'.take 2 = sent' := List.take_of_length_le (Nat.le_of_eq hlength')
  have hwhole := hsent start 4
  have hother := hsent' start 2
  have hsecond := halone "b" start 4
  rw [hall] at hwhole hsecond
  rw [hall'] at hother
  refine ⟨hE, hevents, hothers, sent, sent', hwhole, hother,
    ⟨p, hp, q, hq, huri, huri', hpq, ?_⟩, hsecond⟩
  rw [← Option.some.inj (hsent3.symm.trans hp)]

end LoxSyntax
