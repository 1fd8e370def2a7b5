import LoxSyntax.Proofs.Expr.SourceTrees
import LoxSyntax.Proofs.Number.ShortestText
set_option autoImplicit false

/-! # Reading outlines back

A row of an outline says where it ends, whatever its text holds: its class is told by how it begins,
and its content is followed by a character that the content does not have, such as the quote behind
a text (`Tree.row_append_injective`). So the rows tell the nodes of a row of trees, which in turn
tell the trees, because the class of a node says how many trees lie below it
(`Tree.nodes_append_injective`). The main statement is `outline_text_injective`. -/

namespace LoxSyntax

/-! ## Classes of nodes -/

/-- What a node is, apart from its content and from what lies below it. -/
inductive NodeClass
  | number | text | truth | nil | name | unary | binary | group

namespace NodeClass

/-- The word that a row begins with. -/
@[simp] def title : NodeClass → String
  | number => "Number"
  | text => "String"
  | truth => "Bool"
  | nil => "Nil"
  | name => "Variable"
  | unary => "Unary"
  | binary => "Binary"
  | group => "Grouping"

/-- What stands between the title and the content. -/
@[simp] def bracket : NodeClass → String
  | number | truth | name => "("
  | text => "(\""
  | unary | binary => " "
  | nil | group => ""

/-- The character behind the content. -/
@[simp] def terminator : NodeClass → Char
  | number | truth | name => ')'
  | text => '"'
  | unary | binary | nil | group => '\n'

/-- The rest of the row. -/
@[simp] def closing : NodeClass → String
  | number | truth | name => "\n"
  | text => ")\n"
  | unary | binary | nil | group => ""

/-- A node of the class that shows the content, with nothing below it. -/
def label : NodeClass → String → Expr
  | number, content => .number ((Numeral.read? content).getD .nan)
  | text, content => .text content
  | truth, content => .truth (content = "true")
  | nil, _ => .nil
  | name, content => .name content
  | unary, content => .unary (TokenKind.ofSymbol content.toList) .nil
  | binary, content => .binary .nil (TokenKind.ofSymbol content.toList) .nil
  | group, _ => .group .nil

theorem title_injective : Function.Injective title := by
  intro a b h
  cases a <;> cases b <;> simp at h ⊢

/-- Titles are made of letters. -/
theorem isAlpha_of_mem_title (a : NodeClass) : ∀ c ∈ a.title.toList, c.isAlpha = true := by
  rw [← List.all_eq_true]
  cases a <;> decide

theorem head?_title_append (a : NodeClass) (rest : List Char) :
    ∀ c ∈ (a.title.toList ++ rest).head?, decide (c = ' ') = false := by
  cases a <;> simp

end NodeClass

namespace Tree

/-- The class of a node. -/
@[simp] def nodeClass : Expr → NodeClass
  | number _ => .number
  | text _ => .text
  | truth _ => .truth
  | nil => .nil
  | name _ => .name
  | unary _ _ => .unary
  | binary _ _ _ => .binary
  | group _ => .group

/-- What the row of a node shows besides its class. -/
@[simp] def content : Expr → String
  | number value => value.display
  | text value => value
  | truth value => if value then "true" else "false"
  | name spelling => spelling
  | unary operator _ | binary _ operator _ => operator.symbol?.getD ""
  | nil | group _ => ""

/-- A node with nothing below it. -/
@[simp] def label : Expr → Expr
  | unary operator _ => unary operator nil
  | binary _ operator _ => binary nil operator nil
  | group _ => group nil
  | leaf => leaf

/-- The row of a node in parts. -/
theorem toList_row (depth : Nat) (e : Expr) :
    (row (depth, e)).toList =
      List.replicate (2 * depth) ' ' ++ (e.nodeClass.title.toList ++
        (e.nodeClass.bracket.toList ++
          (e.content.toList ++ e.nodeClass.terminator :: e.nodeClass.closing.toList))) := by
  cases e with
  | truth value => cases value <;> simp [row, heading, spaces]
  | foreign value => exact value.elim
  | _ => simp [row, heading, spaces]

theorem toList_row_ne_nil (node : Nat × Expr) : (row node).toList ≠ [] := by
  rw [toList_row]
  simp

/-- Behind the title the row does not go on with a letter. -/
theorem isAlpha_head?_bracket_append (e : Expr) (rest : List Char) :
    ∀ c ∈ (e.nodeClass.bracket.toList ++
      (e.content.toList ++ e.nodeClass.terminator :: rest)).head?, c.isAlpha = false := by
  cases e with
  | foreign value => exact value.elim
  | _ => simp

/-- Only texts hold line feeds, and no other node shows the character that ends its content. -/
theorem content_of_ne_text {e : Expr} (h : e.IsSource) (htext : ∀ value, e ≠ text value) :
    ∀ c ∈ e.content.toList, c ≠ '\n' ∧ c ≠ e.nodeClass.terminator := by
  have hoperator : ∀ {operator : TokenKind}, (∃ symbol, operator.symbol? = some symbol) →
      ∀ c ∈ (operator.symbol?.getD "").toList, c ≠ '\n' ∧ c ≠ '\n' := by
    rintro operator ⟨symbol, hsymbol⟩ c hc
    rw [hsymbol] at hc
    have hfeed : c ≠ '\n' := by
      rintro rfl
      exact (TokenKind.chars_of_symbol? hsymbol).2.1 hc
    exact ⟨hfeed, hfeed⟩
  cases e with
  | number value =>
    obtain ⟨rank, rfl⟩ := h.spelled _ (List.mem_singleton_self _)
    intro c hc
    have hchar := Double.isNumberChar_of_mem_display hc
    exact ⟨ne_of_class hchar rfl, ne_of_class hchar rfl⟩
  | text value => exact absurd rfl (htext value)
  | truth value => cases value <;> simp
  | nil | group => simp
  | name spelling =>
    obtain ⟨hword, _⟩ := h.spelled _ (List.mem_singleton_self _)
    intro c hc
    have hchar := hword.isWordChar c hc
    exact ⟨ne_of_class hchar rfl, ne_of_class hchar rfl⟩
  | unary operator operand => exact hoperator h.unary.1
  | binary left operator right => exact hoperator h.binary.1
  | foreign value => exact value.elim

theorem terminator_not_mem_content {e : Expr} (h : e.IsSource) :
    e.nodeClass.terminator ∉ e.content.toList := by
  by_cases htext : ∃ value, e = text value
  · obtain ⟨value, rfl⟩ := htext
    exact h.spelled _ (List.mem_singleton_self _)
  · intro hmem
    exact (content_of_ne_text h (fun value heq => htext ⟨value, heq⟩) _ hmem).2 rfl

/-- The label of a node is told by its class and by what its row shows. -/
theorem label_eq {e : Expr} (h : e.IsSource) : e.label = e.nodeClass.label e.content := by
  have hoperator : ∀ {operator : TokenKind}, (∃ symbol, operator.symbol? = some symbol) →
      TokenKind.ofSymbol (operator.symbol?.getD "").toList = operator := by
    rintro operator ⟨symbol, hsymbol⟩
    rw [hsymbol]
    exact TokenKind.ofSymbol_of_symbol? hsymbol
  cases e with
  | number value =>
    obtain ⟨rank, rfl⟩ := h.spelled _ (List.mem_singleton_self _)
    rw [nodeClass, content, NodeClass.label, Double.read?_display]
    rfl
  | truth value => cases value <;> decide
  | text | nil | name | group => rfl
  | unary operator operand =>
    rw [nodeClass, content, NodeClass.label, hoperator h.unary.1]
    rfl
  | binary left operator right =>
    rw [nodeClass, content, NodeClass.label, hoperator h.binary.1]
    rfl
  | foreign value => exact value.elim

/-- A row tells its node and where it ends. -/
theorem row_append_injective {d e : Expr} (hd : d.IsSource) (he : e.IsSource)
    {depth depth' : Nat} {rest rest' : List Char}
    (h : (row (depth, d)).toList ++ rest = (row (depth', e)).toList ++ rest') :
    depth = depth' ∧ d.label = e.label ∧ rest = rest' := by
  rw [toList_row, toList_row] at h
  simp only [List.append_assoc, List.cons_append] at h
  obtain ⟨hindent, htitled⟩ := append_inj_of_head? (p := (· = ' ')) (by simp) (by simp)
    (d.nodeClass.head?_title_append _) (e.nodeClass.head?_title_append _) h
  obtain ⟨htitle, hbracket⟩ := append_inj_of_head? d.nodeClass.isAlpha_of_mem_title
    e.nodeClass.isAlpha_of_mem_title (isAlpha_head?_bracket_append d _)
    (isAlpha_head?_bracket_append e _) htitled
  have hclass := NodeClass.title_injective (String.toList_injective htitle)
  rw [hclass] at hbracket
  have hquote := terminator_not_mem_content hd
  rw [hclass] at hquote
  obtain ⟨hcontent, hclosing⟩ := append_cons_inj_of_not_mem hquote
    (terminator_not_mem_content he) (List.append_cancel_left hbracket)
  refine ⟨?_, ?_, List.append_cancel_left hclosing⟩
  · have hlength := congrArg List.length hindent
    rw [List.length_replicate, List.length_replicate] at hlength
    omega
  · rw [label_eq hd, label_eq he, hclass, String.toList_injective hcontent]

/-! ## Rows of trees -/

/-- The nodes of a tree tell the tree and where its nodes end. -/
theorem nodes_append_injective {d e : Expr} {depth depth' : Nat} {rest rest' : List Expr}
    (h : (d.nodes depth).map (·.2.label) ++ rest = (e.nodes depth').map (·.2.label) ++ rest') :
    d = e ∧ rest = rest' := by
  induction d generalizing e depth depth' rest rest' with
  | unary operator operand ih =>
    cases e with
    | unary operator' operand' =>
      obtain ⟨hlabel, hmore⟩ := List.cons.inj h
      obtain ⟨rfl, hrest⟩ := ih hmore
      cases hlabel
      exact ⟨rfl, hrest⟩
    | foreign value => exact value.elim
    | _ => cases (List.cons.inj h).1
  | binary left operator right ihLeft ihRight =>
    cases e with
    | binary left' operator' right' =>
      simp only [nodes, List.map_cons, List.map_append, List.cons_append, List.append_assoc] at h
      obtain ⟨hlabel, hmore⟩ := List.cons.inj h
      obtain ⟨rfl, hbehind⟩ := ihLeft hmore
      obtain ⟨rfl, hrest⟩ := ihRight hbehind
      cases hlabel
      exact ⟨rfl, hrest⟩
    | foreign value => exact value.elim
    | _ => cases (List.cons.inj h).1
  | group inner ih =>
    cases e with
    | group inner' =>
      obtain ⟨_, hmore⟩ := List.cons.inj h
      obtain ⟨rfl, hrest⟩ := ih hmore
      exact ⟨rfl, hrest⟩
    | foreign value => exact value.elim
    | _ => cases (List.cons.inj h).1
  | number | text | truth | nil | name =>
    cases e with
    | unary | binary | group => cases (List.cons.inj h).1
    | foreign value => exact value.elim
    | _ =>
      obtain ⟨hlabel, hrest⟩ := List.cons.inj h
      exact ⟨hlabel, hrest⟩
  | foreign value => exact value.elim

/-- Equal rows are rows of equal nodes. -/
theorem labels_eq_of_rows_eq {ns ms : List (Nat × Expr)} (hns : ∀ n ∈ ns, n.2.IsSource)
    (hms : ∀ m ∈ ms, m.2.IsSource)
    (h : ns.flatMap (fun n => (row n).toList) = ms.flatMap fun m => (row m).toList) :
    ns.map (·.2.label) = ms.map (·.2.label) := by
  induction ns generalizing ms with
  | nil =>
    cases ms with
    | nil => rfl
    | cons m ms => exact absurd (List.append_eq_nil_iff.mp h.symm).1 (toList_row_ne_nil m)
  | cons n ns ih =>
    cases ms with
    | nil => exact absurd (List.append_eq_nil_iff.mp h).1 (toList_row_ne_nil n)
    | cons m ms =>
      obtain ⟨hn, hns⟩ := List.forall_mem_cons.mp hns
      obtain ⟨hm, hms⟩ := List.forall_mem_cons.mp hms
      obtain ⟨_, hlabel, hmore⟩ := row_append_injective hn hm h
      rw [List.map_cons, List.map_cons, hlabel, ih hns hms hmore]

/-- Equal nodes are the nodes of equal trees. -/
theorem eq_of_labels_eq {ds es : List Expr}
    (h : (ds.flatMap (nodes 0)).map (·.2.label) = (es.flatMap (nodes 0)).map (·.2.label)) :
    ds = es := by
  have hne : ∀ e : Expr, e.nodes 0 ≠ [] := by
    intro e
    cases e <;> simp [nodes]
  induction ds generalizing es with
  | nil =>
    cases es with
    | nil => rfl
    | cons e es => simp [hne] at h
  | cons d ds ih =>
    cases es with
    | nil => simp [hne] at h
    | cons e es =>
      rw [List.flatMap_cons, List.flatMap_cons, List.map_append, List.map_append] at h
      obtain ⟨rfl, hmore⟩ := nodes_append_injective h
      rw [ih hmore]

end Tree

/-- Outlines of the expressions of texts are complete, and equal outlines are outlines of equal
    expressions. How far down a host can go is left out: this is the outline that it writes where
    it has room for all rows (`Tree.outlineWithin_complete_iff`). -/
theorem outline_text_injective (s t filename filename' : String) (ds es : List Expr)
    (hs : parseSource s filename = .ok ds) (ht : parseSource t filename' = .ok es) :
    (Tree.outline ds).fault? = none ∧ (Tree.outline es).fault? = none ∧
      ((Tree.outline ds).text = (Tree.outline es).text → ds = es) := by
  have hds := isSource_of_parseSource hs
  have hes := isSource_of_parseSource ht
  obtain ⟨hdsFault, hdsText⟩ := Tree.outline_of_isSource hds
  obtain ⟨hesFault, hesText⟩ := Tree.outline_of_isSource hes
  refine ⟨hdsFault, hesFault, ?_⟩
  intro htext
  rw [htext, hesText] at hdsText
  exact Tree.eq_of_labels_eq (Tree.labels_eq_of_rows_eq (Tree.isSource_of_mem_flatMap_nodes hds)
    (Tree.isSource_of_mem_flatMap_nodes hes) hdsText.symm)

/-- A text that looks like a row is told from that row. -/
theorem outline_text_injective_looking_alike :
    let ds : List Expr := [.text "a)\nNil", .group (.name "b")]
    let es : List Expr := [.text "a)", .nil, .group (.name "b")]
    parseSource "\"a)\nNil\"(b)" = .ok ds ∧ parseSource "\"a)\" nil // Nil\n(b)" = .ok es ∧
      (Tree.outline ds).fault? = none ∧ (Tree.outline es).fault? = none ∧
      (Tree.outline ds).text ≠ (Tree.outline es).text := by
  intro ds es
  have hs : parseSource "\"a)\nNil\"(b)" = .ok ds := by decide +kernel
  have ht : parseSource "\"a)\" nil // Nil\n(b)" = .ok es := by decide +kernel
  obtain ⟨hds, hes, hinjective⟩ := outline_text_injective _ _ _ _ ds es hs ht
  exact ⟨hs, ht, hds, hes, fun h => absurd (hinjective h) (by decide)⟩

end LoxSyntax
