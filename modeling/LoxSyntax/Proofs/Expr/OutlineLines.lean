import LoxSyntax.Proofs.Expr.OutlineReading
set_option autoImplicit false

/-! # Lines of an outline

A row of an outline is one line, unless its node is a text that holds line feeds: these are written
as they are, so that the row takes one line more for each of them. The first line of a row shows the
depth and the class of the node (`outline_lines`). -/

namespace LoxSyntax

/-! ## Lines of a text -/

/-- There is one line more than there are line feeds. -/
theorem length_splitOn_lineFeed (cs : List Char) :
    (cs.splitOn '\n').length = cs.count '\n' + 1 := by
  induction cs with
  | nil => rfl
  | cons c cs ih =>
    rw [List.splitOn_cons_eq_if_modifyHead, List.count_cons]
    by_cases h : (c == '\n') = true
    · rw [if_pos h, if_pos h, List.length_cons, ih]
    · rw [if_neg h, if_neg h, List.length_modifyHead, ih]

/-- The first line of a text goes on with the first line of what follows. -/
theorem splitOn_lineFeed_append {line : List Char} (h : '\n' ∉ line) (more : List Char) :
    ∃ rest lines, (line ++ more).splitOn '\n' = (line ++ rest) :: lines := by
  by_cases hmore : '\n' ∈ more
  · obtain ⟨rest, behind, rfl, hrest⟩ := List.eq_append_cons_of_mem hmore
    refine ⟨rest, behind.splitOn '\n', ?_⟩
    rw [← List.append_assoc, List.splitOn_append_cons_self_of_not_mem]
    simp [h, hrest]
  · exact ⟨more, [], List.splitOn_eq_singleton (by simp [h, hmore])⟩

namespace Tree

/-! ## Lines of a row -/

/-- How many line feeds the row of a node has in front of the one at its end. -/
def lineFeeds : Expr → Nat
  | text value => value.toList.count '\n'
  | _ => 0

/-- The row of a node without the line feed at its end. -/
def rowBody (node : Nat × Expr) : List Char := (spaces (2 * node.1) ++ node.2.heading).toList

theorem toList_row_eq_body (node : Nat × Expr) : (row node).toList = rowBody node ++ ['\n'] := by
  simp [row, rowBody]

theorem count_content {e : Expr} (h : e.IsSource) :
    e.content.toList.count '\n' = e.lineFeeds := by
  by_cases htext : ∃ value, e = text value
  · obtain ⟨value, rfl⟩ := htext
    rfl
  · have hnone : e.content.toList.count '\n' = 0 := by
      rw [List.count_eq_zero]
      intro hmem
      exact (content_of_ne_text h (fun value heq => htext ⟨value, heq⟩) _ hmem).1 rfl
    cases e with
    | text value => exact absurd ⟨value, rfl⟩ htext
    | _ => exact hnone

/-- The row begins with the indent and the title of the node. -/
theorem exists_rowBody_eq (depth : Nat) {e : Expr} (h : e.IsSource) :
    ∃ tail, rowBody (depth, e) =
        List.replicate (2 * depth) ' ' ++ e.nodeClass.title.toList ++ tail ∧
      (rowBody (depth, e)).count '\n' = e.lineFeeds := by
  have hrow := toList_row depth e
  rw [toList_row_eq_body, ← List.append_assoc] at hrow
  have hcount := congrArg (List.count '\n') hrow
  have hparts : ∀ a : NodeClass, a.title.toList.count '\n' = 0 ∧ a.bracket.toList.count '\n' = 0 ∧
      (a.terminator :: a.closing.toList).count '\n' = 1 := by
    intro a
    cases a <;> decide
  obtain ⟨htitle, hbracket, hclosing⟩ := hparts e.nodeClass
  simp only [List.count_append, count_content h, htitle, hbracket, hclosing] at hcount
  have hbody := congrArg List.dropLast hrow
  rw [List.dropLast_concat, List.dropLast_append_of_ne_nil (by simp)] at hbody
  refine ⟨_, hbody, ?_⟩
  simpa [List.count_replicate] using hcount

/-! ## Lines of rows -/

/-- The lines of a row of nodes, each node's own lines put one after the other. -/
theorem splitOn_rows (ns : List (Nat × Expr)) :
    (ns.flatMap fun n => (row n).toList).splitOn '\n' =
      (ns.flatMap fun n => (rowBody n).splitOn '\n') ++ [[]] := by
  induction ns with
  | nil => rfl
  | cons n ns ih =>
    rw [List.flatMap_cons, List.flatMap_cons, toList_row_eq_body, List.append_assoc,
      List.singleton_append, List.splitOn_append_cons_self, ih, List.append_assoc]

/-- How many line feeds rows have besides those at their ends. -/
def totalLineFeeds (ns : List (Nat × Expr)) : Nat := (ns.map fun n => n.2.lineFeeds).sum

theorem totalLineFeeds_eq_zero_iff {ns : List (Nat × Expr)} :
    totalLineFeeds ns = 0 ↔ ∀ depth value, (depth, text value) ∈ ns → '\n' ∉ value.toList := by
  simp only [totalLineFeeds, List.sum_eq_zero_iff, List.forall_mem_map]
  constructor
  · intro h depth value hmem
    exact List.count_eq_zero.mp (h _ hmem)
  · rintro h ⟨depth, e⟩ hmem
    cases e with
    | text value => exact List.count_eq_zero.mpr (h depth value hmem)
    | _ => rfl

theorem length_lines {ns : List (Nat × Expr)} (h : ∀ n ∈ ns, n.2.IsSource) :
    (ns.flatMap fun n => (rowBody n).splitOn '\n').length = ns.length + totalLineFeeds ns := by
  induction ns with
  | nil => rfl
  | cons n ns ih =>
    obtain ⟨hn, hns⟩ := List.forall_mem_cons.mp h
    obtain ⟨_, _, hcount⟩ := exists_rowBody_eq n.1 hn
    rw [List.flatMap_cons, List.length_append, ih hns, length_splitOn_lineFeed, hcount]
    simp only [totalLineFeeds, List.map_cons, List.sum_cons, List.length_cons]
    omega

/-- The first line of each node stands behind all lines of the nodes before it. -/
theorem getElem?_lines {before after : List (Nat × Expr)} {depth : Nat} {node : Expr}
    (hbefore : ∀ n ∈ before, n.2.IsSource) (hnode : node.IsSource) :
    ∃ rest, ((before ++ (depth, node) :: after).flatMap
        fun n => (rowBody n).splitOn '\n')[before.length + totalLineFeeds before]? =
      some (List.replicate (2 * depth) ' ' ++ node.nodeClass.title.toList ++ rest) := by
  obtain ⟨tail, hbody, _⟩ := exists_rowBody_eq depth hnode
  have hline : '\n' ∉ List.replicate (2 * depth) ' ' ++ node.nodeClass.title.toList := by
    rw [List.mem_append, not_or]
    refine ⟨by simp, ?_⟩
    intro hmem
    cases node.nodeClass.isAlpha_of_mem_title _ hmem
  obtain ⟨rest, lines, hsplit⟩ := splitOn_lineFeed_append hline tail
  refine ⟨rest, ?_⟩
  rw [List.flatMap_append, List.flatMap_cons, ← length_lines hbefore, hbody, hsplit,
    List.getElem?_append_right (Nat.le_refl _), Nat.sub_self]
  rfl

end Tree

/-- The outline of the expressions of a text is complete and ends with a line feed. It has one line
    for each node and one more for each line feed in a text, and so one line for each node if and
    only if no text holds a line feed. Behind the lines of the nodes before it, the line of a node
    begins with two spaces for each step of its depth and with the title of its class. How far down
    a host can go is left out: this is the outline that it writes where it has room for all rows
    (`Tree.outlineWithin_complete_iff`). -/
theorem outline_lines (source filename : String) (es : List Expr)
    (h : parseSource source filename = .ok es) :
    let nodes := es.flatMap (Tree.nodes 0)
    (Tree.outline es).fault? = none ∧
      ∃ lines, (Tree.outline es).text.toList.splitOn '\n' = lines ++ [[]] ∧
        lines.length = nodes.length + Tree.totalLineFeeds nodes ∧
        (lines.length = nodes.length ↔
          ∀ depth value, (depth, Tree.text value) ∈ nodes → '\n' ∉ value.toList) ∧
        ∀ before depth node after, nodes = before ++ (depth, node) :: after →
          ∃ rest, lines[before.length + Tree.totalLineFeeds before]? =
            some (List.replicate (2 * depth) ' ' ++ node.nodeClass.title.toList ++ rest) := by
  intro nodes
  have hes := isSource_of_parseSource h
  have hnodes : ∀ n ∈ nodes, n.2.IsSource := Tree.isSource_of_mem_flatMap_nodes hes
  have hlength := Tree.length_lines hnodes
  obtain ⟨hfault, htext⟩ := Tree.outline_of_isSource hes
  refine ⟨hfault, nodes.flatMap fun n => (Tree.rowBody n).splitOn '\n', ?_, hlength, ?_, ?_⟩
  · rw [htext, Tree.splitOn_rows]
  · rw [hlength, ← Tree.totalLineFeeds_eq_zero_iff]
    omega
  · intro before depth node after hsplit
    rw [hsplit] at hnodes ⊢
    exact Tree.getElem?_lines (fun n hn => hnodes n (List.mem_append_left _ hn))
      (hnodes (depth, node) (by simp))

/-- Two expressions, the first of them with a text that takes two lines. -/
theorem outline_lines_over_two_lines :
    let es : List Expr := [.unary .bang (.text "a\nb"), .name "c"]
    let nodes := es.flatMap (Tree.nodes 0)
    parseSource "!\"a\nb\" c" = .ok es ∧ nodes.length = 3 ∧ Tree.totalLineFeeds nodes = 1 ∧
      ∃ lines, (Tree.outline es).text.toList.splitOn '\n' = lines ++ [[]] ∧
        lines.length = 4 ∧ ∃ rest, lines[3]? = some ("Variable".toList ++ rest) := by
  intro es nodes
  have hparse : parseSource "!\"a\nb\" c" = .ok es := by decide +kernel
  obtain ⟨_, lines, hsplit, hlength, _, hline⟩ := outline_lines _ _ es hparse
  obtain ⟨rest, hrest⟩ := hline (nodes.take 2) 0 (.name "c") [] rfl
  exact ⟨hparse, rfl, by decide, lines, hsplit, hlength, rest, hrest⟩

/-- A text that holds a line feed takes two lines, though it is one node. -/
theorem outline_of_text_over_two_lines :
    let es : List Expr := [.text "a\nb"]
    parseSource "\"a\nb\"" = .ok es ∧ (es.flatMap (Tree.nodes 0)).length = 1 ∧
      Tree.outline es = { text := "String(\"a\nb\")\n" } ∧
      (Tree.outline es).text.toList.splitOn '\n' =
        ["String(\"a".toList, "b\")".toList, []] := by
  decide +kernel

end LoxSyntax
