import LoxSyntax.Proofs.Expr.OutlineRows
import LoxSyntax.Host
set_option autoImplicit false

/-! # Printing where there is room

A tree for which there is not room enough is printed as if it were cut, so that a node without room
is at fault like an operator without a spelling: each way to print stops at the first node that is
out of room or at fault (`faultOf_prefixFormWithin`, `fault?_outlineWithin`). The two ways need not
have the same room. Where they have, they refuse the same trees for the same reason, and where they
have not, they may part (`outline_first_fault`). With room for all nodes a tree is printed as if no
room were needed (`prefixFormWithin_eq_ok_iff`, `outlineWithin_complete_iff`). -/

namespace LoxSyntax

/-- A fault of a tree, as a fault of the tree when it is cut. -/
def PrintFault.own {φ : Type} : PrintFault φ → PrintFault (CutLeaf φ)
  | .noSymbol kind => .noSymbol kind
  | .foreign value => .foreign (.own value)

namespace Tree

variable {φ : Type} {room : Nat → Tree φ → Bool}

/-! ## Nodes of a tree that is cut -/

/-- What keeps a node from being printed, its children left aside: there is no room for it, or it is
    at fault. -/
def faultWithin? (room : Nat → Tree φ → Bool) (n : Nat × Tree φ) :
    Option (PrintFault (CutLeaf φ)) :=
  if room n.1 n.2 then n.2.ownFault?.map .own else some (.foreign .cutOff)

/-- A node of a tree, the tree below it cut. -/
def cutNode (room : Nat → Tree φ → Bool) (n : Nat × Tree φ) : Nat × Tree (CutLeaf φ) :=
  (n.1, n.2.cut room n.1)

theorem cut_of_no_room {t : Tree φ} {depth : Nat} (h : room depth t = false) :
    t.cut room depth = .foreign .cutOff := by
  cases t <;> simp [cut, orCutOff, h]

/-- A tree is the first of its nodes. -/
theorem exists_nodes_eq_cons (t : Tree φ) (depth : Nat) :
    ∃ below, t.nodes depth = (depth, t) :: below := by
  cases t <;> exact ⟨_, rfl⟩

theorem ownFault?_cutNode (n : Nat × Tree φ) :
    (cutNode room n).2.ownFault? = faultWithin? room n := by
  obtain ⟨depth, t⟩ := n
  cases h : room depth t with
  | false => simp [cutNode, cut_of_no_room h, faultWithin?, h, ownFault?]
  | true =>
    cases t with
    | unary operator operand =>
      cases hsymbol : operator.symbol? <;>
        simp [cutNode, cut, orCutOff, faultWithin?, h, ownFault?, hsymbol, PrintFault.own]
    | binary left operator right =>
      cases hsymbol : operator.symbol? <;>
        simp [cutNode, cut, orCutOff, faultWithin?, h, ownFault?, hsymbol, PrintFault.own]
    | number | text | truth | nil | name | group | foreign =>
      simp [cutNode, cut, orCutOff, faultWithin?, h, ownFault?, PrintFault.own]

/-- Where there is room for a node, it shows what it shows in the tree itself. -/
theorem row_cutNode {n : Nat × Tree φ} (h : room n.1 n.2 = true) :
    row (cutNode room n) = row n := by
  obtain ⟨depth, t⟩ := n
  cases t <;> simp_all [cutNode, cut, orCutOff, row, heading]

theorem room_of_faultWithin? {n : Nat × Tree φ} (h : faultWithin? room n = none) :
    room n.1 n.2 = true := by
  cases hroom : room n.1 n.2 with
  | true => rfl
  | false => simp [faultWithin?, hroom] at h

/-- Nothing is written of a tree without room. -/
theorem concat_cutNode_of_no_room {t : Tree φ} {depth : Nat} (h : room depth t = false) :
    Written.concat (((t.nodes depth).map (cutNode room)).map writtenRow) =
      { fault? := some (.foreign .cutOff) } := by
  obtain ⟨below, hbelow⟩ := exists_nodes_eq_cons t depth
  rw [hbelow, List.map_cons, List.map_cons, cutNode, cut_of_no_room h]
  rfl

/-- What is written of a tree that is cut is what is written of its nodes, each of them cut: the
    nodes below one without room come after it, where nothing more is written. -/
theorem concat_nodes_cut (t : Tree φ) (depth : Nat) :
    Written.concat (((t.cut room depth).nodes depth).map writtenRow) =
      Written.concat (((t.nodes depth).map (cutNode room)).map writtenRow) := by
  induction t generalizing depth with
  | unary operator operand ih =>
    cases h : room depth (unary operator operand) with
    | false =>
      rw [concat_cutNode_of_no_room h, cut_of_no_room h]
      rfl
    | true =>
      have hcut : (unary operator operand).cut room depth =
          unary operator (operand.cut room (depth + 1)) := by simp [cut, orCutOff, h]
      rw [hcut, nodes, nodes, List.map_cons, List.map_cons, List.map_cons, cutNode, hcut,
        Written.concat_cons, Written.concat_cons, ih]
  | binary left operator right ihLeft ihRight =>
    cases h : room depth (binary left operator right) with
    | false =>
      rw [concat_cutNode_of_no_room h, cut_of_no_room h]
      rfl
    | true =>
      have hcut : (binary left operator right).cut room depth =
          binary (left.cut room (depth + 1)) operator (right.cut room (depth + 1)) := by
        simp [cut, orCutOff, h]
      rw [hcut, nodes, nodes, List.map_cons, List.map_cons, List.map_cons, cutNode, hcut,
        Written.concat_cons, Written.concat_cons]
      simp only [List.map_append, Written.concat_append, ihLeft, ihRight]
  | group inner ih =>
    cases h : room depth (group inner) with
    | false =>
      rw [concat_cutNode_of_no_room h, cut_of_no_room h]
      rfl
    | true =>
      have hcut : (group inner).cut room depth = group (inner.cut room (depth + 1)) := by
        simp [cut, orCutOff, h]
      rw [hcut, nodes, nodes, List.map_cons, List.map_cons, List.map_cons, cutNode, hcut,
        Written.concat_cons, Written.concat_cons, ih]
  | number | text | truth | nil | name | foreign =>
    simp only [cut, orCutOff, nodes, List.map_cons, List.map_nil, cutNode]
    split <;> rfl

/-! ## Prefix forms and outlines of trees that are cut -/

theorem firstFault?_map_cutNode (ns : List (Nat × Tree φ)) :
    firstFault? (ns.map (cutNode room)) = ns.findSome? (faultWithin? room) := by
  rw [firstFault?, List.findSome?_map]
  exact congrArg (List.findSome? · ns) (funext ownFault?_cutNode)

/-- The prefix form of a tree is lost to the first node that is out of room or at fault. -/
theorem faultOf_prefixFormWithin (room : Nat → Tree φ → Bool) (t : Tree φ) :
    faultOf (t.prefixFormWithin room) = (t.nodes 0).findSome? (faultWithin? room) := by
  rw [prefixFormWithin, faultOf_prefixForm _ 0, ← fault?_concat_writtenRow, concat_nodes_cut,
    fault?_concat_writtenRow, firstFault?_map_cutNode]

theorem outlineWithin_eq (room : Nat → Tree φ → Bool) (trees : List (Tree φ)) :
    outlineWithin room trees =
      Written.concat (((trees.flatMap (nodes 0)).map (cutNode room)).map writtenRow) := by
  rw [outlineWithin, outline_eq]
  induction trees with
  | nil => rfl
  | cons t trees ih =>
    simp only [List.map_cons, List.flatMap_cons, List.map_append, Written.concat_append, ih,
      concat_nodes_cut]

/-- An outline stops at the first node that is out of room or at fault. -/
theorem fault?_outlineWithin (room : Nat → Tree φ → Bool) (trees : List (Tree φ)) :
    (outlineWithin room trees).fault? =
      (trees.flatMap (nodes 0)).findSome? (faultWithin? room) := by
  rw [outlineWithin_eq, fault?_concat_writtenRow, firstFault?_map_cutNode]

/-- The rows in front of that node are written, each in full, and nothing of the node. -/
theorem outlineWithin_of_fault {trees : List (Tree φ)} {before after : List (Nat × Tree φ)}
    {n : Nat × Tree φ} {f : PrintFault (CutLeaf φ)}
    (hsplit : trees.flatMap (nodes 0) = before ++ n :: after)
    (hbefore : ∀ m ∈ before, faultWithin? room m = none) (hn : faultWithin? room n = some f) :
    outlineWithin room trees = { text := String.join (before.map row), fault? := some f } := by
  have hrows : (before.map (cutNode room)).map row = before.map row := by
    rw [List.map_map]
    exact List.map_congr_left fun m hm => row_cutNode (room_of_faultWithin? (hbefore m hm))
  rw [outlineWithin_eq, hsplit, List.map_append, List.map_cons, ← hrows]
  refine concat_writtenRow_of_fault (fun m hm => ?_) ((ownFault?_cutNode n).trans hn)
  obtain ⟨u, hu, rfl⟩ := List.mem_map.mp hm
  exact (ownFault?_cutNode u).trans (hbefore u hu)

/-- Without such a node all rows are written. -/
theorem outlineWithin_of_no_fault {trees : List (Tree φ)}
    (h : ∀ n ∈ trees.flatMap (nodes 0), faultWithin? room n = none) :
    outlineWithin room trees =
      { text := String.join ((trees.flatMap (nodes 0)).map row) } := by
  have hrows : ((trees.flatMap (nodes 0)).map (cutNode room)).map row =
      (trees.flatMap (nodes 0)).map row := by
    rw [List.map_map]
    exact List.map_congr_left fun n hn => row_cutNode (room_of_faultWithin? (h n hn))
  rw [outlineWithin_eq, ← hrows]
  refine concat_writtenRow fun n hn => ?_
  obtain ⟨u, hu, rfl⟩ := List.mem_map.mp hn
  exact (ownFault?_cutNode u).trans (h u hu)

/-! ## Room for all nodes -/

theorem faultWithin?_eq_none_iff {n : Nat × Tree φ} :
    faultWithin? room n = none ↔ room n.1 n.2 = true ∧ n.2.ownFault? = none := by
  cases h : room n.1 n.2 <;> simp [faultWithin?, h]

/-- With room for all nodes the prefix form is the one that needs no room. -/
theorem prefixForm_cut {t : Tree φ} {depth : Nat}
    (h : ∀ n ∈ t.nodes depth, room n.1 n.2 = true) :
    (t.cut room depth).prefixForm = t.prefixForm.mapError .own := by
  have hsymbol : ∀ kind, operatorSymbol (φ := CutLeaf φ) kind =
      (operatorSymbol (φ := φ) kind).mapError .own := by
    intro kind
    unfold operatorSymbol
    cases kind.symbol? <;> rfl
  induction t generalizing depth with
  | unary operator operand ih =>
    obtain ⟨hroom, hbelow⟩ := List.forall_mem_cons.mp h
    have hcut : (unary operator operand).cut room depth =
        unary operator (operand.cut room (depth + 1)) := by simp [cut, orCutOff, hroom]
    rw [hcut, prefixForm, prefixForm, ih hbelow, hsymbol]
    cases operatorSymbol (φ := φ) operator <;> cases operand.prefixForm <;> rfl
  | binary left operator right ihLeft ihRight =>
    obtain ⟨hroom, hbelow⟩ := List.forall_mem_cons.mp h
    obtain ⟨hleft, hright⟩ := List.forall_mem_append.mp hbelow
    have hcut : (binary left operator right).cut room depth =
        binary (left.cut room (depth + 1)) operator (right.cut room (depth + 1)) := by
      simp [cut, orCutOff, hroom]
    rw [hcut, prefixForm, prefixForm, ihLeft hleft, ihRight hright, hsymbol]
    cases operatorSymbol (φ := φ) operator <;> cases left.prefixForm <;>
      cases right.prefixForm <;> rfl
  | group inner ih =>
    obtain ⟨hroom, hbelow⟩ := List.forall_mem_cons.mp h
    have hcut : (group inner).cut room depth = group (inner.cut room (depth + 1)) := by
      simp [cut, orCutOff, hroom]
    rw [hcut, prefixForm, prefixForm, ih hbelow]
    cases inner.prefixForm <;> rfl
  | number | text | truth | nil | name | foreign =>
    have hroom := h _ (List.mem_singleton.mpr rfl)
    simp only at hroom
    simp only [cut, orCutOff, hroom, if_true]
    rfl

/-- A tree has a prefix form if there is room for all its nodes and it has one without regard to
    room, which is then the same. -/
theorem prefixFormWithin_eq_ok_iff {t : Tree φ} {form : String} :
    t.prefixFormWithin room = .ok form ↔
      (∀ n ∈ t.nodes 0, room n.1 n.2 = true) ∧ t.prefixForm = .ok form := by
  have hroom : (∃ form, t.prefixFormWithin room = .ok form) →
      ∀ n ∈ t.nodes 0, room n.1 n.2 = true := by
    rw [← faultOf_eq_none_iff, faultOf_prefixFormWithin, List.findSome?_eq_none_iff]
    exact fun hnone n hn => room_of_faultWithin? (hnone n hn)
  constructor
  · intro h
    have hall := hroom ⟨form, h⟩
    rw [prefixFormWithin, prefixForm_cut hall] at h
    cases hform : t.prefixForm with
    | error fault =>
      rw [hform] at h
      cases h
    | ok other =>
      rw [hform] at h
      cases h
      exact ⟨hall, rfl⟩
  · rintro ⟨hall, h⟩
    rw [prefixFormWithin, prefixForm_cut hall, h]
    rfl

/-- Trees have an outline if there is room for all their nodes and they have one without regard to
    room, which is then the same. -/
theorem outlineWithin_complete_iff {trees : List (Tree φ)} {text : String} :
    (outlineWithin room trees).complete = .ok text ↔
      (∀ n ∈ trees.flatMap (nodes 0), room n.1 n.2 = true) ∧
        (outline trees).complete = .ok text := by
  simp only [Written.complete_eq_ok_iff]
  by_cases hnone : ∀ n ∈ trees.flatMap (nodes 0), faultWithin? room n = none
  · have hown : ∀ n ∈ trees.flatMap (nodes 0), n.2.ownFault? = none := fun n hn =>
      (faultWithin?_eq_none_iff.mp (hnone n hn)).2
    rw [outlineWithin_of_no_fault hnone, outline_eq, concat_writtenRow hown]
    have hroom : ∀ n ∈ trees.flatMap (nodes 0), room n.1 n.2 = true :=
      fun n hn => room_of_faultWithin? (hnone n hn)
    exact ⟨fun h => ⟨hroom, rfl, h.2⟩, fun h => ⟨rfl, h.2.2⟩⟩
  · refine iff_of_false (fun h => hnone ?_) (fun h => hnone fun n hn => ?_)
    · obtain ⟨hfault, -⟩ := h
      rwa [fault?_outlineWithin, List.findSome?_eq_none_iff] at hfault
    · obtain ⟨hroom, hfault, -⟩ := h
      rw [outline_eq, fault?_concat_writtenRow] at hfault
      exact faultWithin?_eq_none_iff.mpr ⟨hroom n hn, firstFault?_eq_none_iff.mp hfault n hn⟩

/-- Where no node is at fault, printing stops for want of room or not at all. -/
theorem findSome?_faultWithin?_eq_some_iff {ns : List (Nat × Tree φ)}
    (hown : ∀ n ∈ ns, n.2.ownFault? = none) {f : PrintFault (CutLeaf φ)} :
    ns.findSome? (faultWithin? room) = some f ↔
      f = .foreign .cutOff ∧ ∃ n ∈ ns, room n.1 n.2 = false := by
  induction ns with
  | nil => simp
  | cons n ns ih =>
    obtain ⟨hn, hns⟩ := List.forall_mem_cons.mp hown
    cases hroom : room n.1 n.2 with
    | false =>
      have hfault : faultWithin? room n = some (.foreign .cutOff) := by simp [faultWithin?, hroom]
      rw [List.findSome?_cons, hfault]
      simp only [Option.some.injEq]
      exact ⟨fun h => ⟨h.symm, n, List.mem_cons_self, hroom⟩, fun h => h.1.symm⟩
    | true => simp [faultWithin?, hroom, hn, ih hns]

/-- Nodes for which there is the same room are kept from being printed by the same faults. -/
theorem findSome?_faultWithin?_congr {room other : Nat → Tree φ → Bool}
    {ns : List (Nat × Tree φ)} (h : ∀ n ∈ ns, room n.1 n.2 = other n.1 n.2) :
    ns.findSome? (faultWithin? room) = ns.findSome? (faultWithin? other) := by
  induction ns with
  | nil => rfl
  | cons n ns ih =>
    obtain ⟨hn, hns⟩ := List.forall_mem_cons.mp h
    rw [List.findSome?_cons, List.findSome?_cons, ih hns, faultWithin?, faultWithin?, hn]

/-! ## Both ways to print -/

/-- The first of the trees without a prefix form has none because of the first node of all that is
    out of room or at fault. -/
theorem findSome?_faultOf_prefixFormWithin (room : Nat → Tree φ → Bool) (trees : List (Tree φ)) :
    trees.findSome? (fun t => faultOf (t.prefixFormWithin room)) =
      (trees.flatMap (nodes 0)).findSome? (faultWithin? room) := by
  induction trees with
  | nil => rfl
  | cons t trees ih =>
    rw [List.flatMap_cons, List.findSome?_append, ← ih, List.findSome?_cons,
      faultOf_prefixFormWithin]
    cases (t.nodes 0).findSome? (faultWithin? room) <;> rfl

end Tree

/-- Each way to print a row of trees stops at the first node that is out of room or at fault. An
    outline has then written the rows of all nodes before it, each in full, and nothing else;
    without such a node it has written all rows. Where both ways have the same room, a row of trees
    has no outline if and only if one of them has no prefix form, and the outline stops for the
    reason that the first such tree has none. -/
theorem outline_first_fault {φ : Type} (prefixRoom outlineRoom : Nat → Tree φ → Bool)
    (trees : List (Tree φ)) :
    let nodes := trees.flatMap (Tree.nodes 0)
    let outline := Tree.outlineWithin outlineRoom trees
    (outline.fault? = none → (∀ n ∈ nodes, Tree.faultWithin? outlineRoom n = none) ∧
        outline.text = String.join (nodes.map Tree.row)) ∧
      (∀ f, outline.fault? = some f → ∃ before n after, nodes = before ++ n :: after ∧
        (∀ m ∈ before, Tree.faultWithin? outlineRoom m = none) ∧
        Tree.faultWithin? outlineRoom n = some f ∧
        outline.text = String.join (before.map Tree.row)) ∧
      (∀ t ∈ trees, ∀ f, t.prefixFormWithin prefixRoom = .error f ↔
        ∃ before n after, t.nodes 0 = before ++ n :: after ∧
          (∀ m ∈ before, Tree.faultWithin? prefixRoom m = none) ∧
          Tree.faultWithin? prefixRoom n = some f) ∧
      ((∀ n ∈ nodes, outlineRoom n.1 n.2 = prefixRoom n.1 n.2) →
        (outline.fault? = none ↔ ∀ t ∈ trees, ∃ form, t.prefixFormWithin prefixRoom = .ok form) ∧
        ∀ f, outline.fault? = some f → ∃ before t after, trees = before ++ t :: after ∧
          (∀ u ∈ before, ∃ form, u.prefixFormWithin prefixRoom = .ok form) ∧
          t.prefixFormWithin prefixRoom = .error f) := by
  intro nodes outline
  have hfault : outline.fault? = nodes.findSome? (Tree.faultWithin? outlineRoom) :=
    Tree.fault?_outlineWithin outlineRoom trees
  refine ⟨fun hnone => ?_, fun f hf => ?_, fun t ht f => ?_, fun hroom => ?_⟩
  · rw [hfault, List.findSome?_eq_none_iff] at hnone
    exact ⟨hnone, congrArg Written.text (Tree.outlineWithin_of_no_fault hnone)⟩
  · rw [hfault] at hf
    obtain ⟨before, n, after, hsplit, hn, hbefore⟩ := List.findSome?_eq_some_iff.mp hf
    exact ⟨before, n, after, hsplit, hbefore, hn,
      congrArg Written.text (Tree.outlineWithin_of_fault hsplit hbefore hn)⟩
  · rw [← Tree.faultOf_eq_some_iff, Tree.faultOf_prefixFormWithin, List.findSome?_eq_some_iff]
    constructor
    · rintro ⟨before, n, after, hsplit, hn, hbefore⟩
      exact ⟨before, n, after, hsplit, hbefore, hn⟩
    · rintro ⟨before, n, after, hsplit, hbefore, hn⟩
      exact ⟨before, n, after, hsplit, hn, hbefore⟩
  · -- the same room means the same faults, and so the same first one
    have hsame : nodes.findSome? (Tree.faultWithin? outlineRoom) =
        trees.findSome? fun t => Tree.faultOf (t.prefixFormWithin prefixRoom) := by
      rw [Tree.findSome?_faultOf_prefixFormWithin]
      exact Tree.findSome?_faultWithin?_congr hroom
    rw [hfault, hsame]
    refine ⟨?_, fun f hf => ?_⟩
    · simp only [List.findSome?_eq_none_iff, Tree.faultOf_eq_none_iff]
    · obtain ⟨before, t, after, hsplit, ht, hbefore⟩ := List.findSome?_eq_some_iff.mp hf
      exact ⟨before, t, after, hsplit, fun u hu => Tree.faultOf_eq_none_iff.mp (hbefore u hu),
        Tree.faultOf_eq_some_iff.mp ht⟩

/-- A foreign leaf on the left comes before an operator without a spelling on the right, and before
    what there is no room for. -/
theorem outline_first_fault_left_operand :
    let trees : List (Tree Nat) :=
      [.name "a", .binary (.unary .bang (.foreign 7)) .plus (.unary .andWord (.unary .bang .nil))]
    let room (depth : Nat) (_ : Tree Nat) : Bool := depth < 3
    let outline := Tree.outlineWithin room trees
    outline = { text := "Variable(a)\nBinary +\n  Unary !\n", fault? := some (.foreign (.own 7)) } ∧
      ∃ before t after, trees = before ++ t :: after ∧
        (∀ u ∈ before, ∃ form, u.prefixFormWithin room = .ok form) ∧
        t.prefixFormWithin room = .error (.foreign (.own 7)) := by
  intro trees room outline
  have houtline : outline =
      { text := "Variable(a)\nBinary +\n  Unary !\n", fault? := some (.foreign (.own 7)) } := by
    decide
  have hfault : outline.fault? = some (.foreign (.own 7)) := by
    rw [houtline]
  obtain ⟨-, -, -, halike⟩ := outline_first_fault room room trees
  exact ⟨houtline, (halike fun _ _ => rfl).2 _ hfault⟩

/-! ## Trees that lean to the left -/

/-- The sum of a one and `count` more ones, each of which lies one level less deep than the one
    before. -/
def onesSum : Nat → Expr
  | 0 => .number .one
  | count + 1 => .binary (onesSum count) .plus (.number .one)

namespace Tree

/-- A sum of ones reaches down as many levels as it has operators, and none of its nodes is at
    fault. -/
theorem mem_nodes_onesSum (count depth : Nat) :
    (∀ n ∈ (onesSum count).nodes depth, n.1 ≤ depth + count ∧ n.2.ownFault? = none) ∧
      ∃ n ∈ (onesSum count).nodes depth, n.1 = depth + count := by
  induction count generalizing depth with
  | zero => exact ⟨by simp [onesSum, nodes, ownFault?], by simp [onesSum, nodes]⟩
  | succ count ih =>
    obtain ⟨hall, n, hn, hdepth⟩ := ih (depth + 1)
    constructor
    · simp only [onesSum, nodes, List.forall_mem_cons, List.forall_mem_append]
      refine ⟨⟨by omega, rfl⟩, fun m hm => ?_, ?_⟩
      · obtain ⟨hle, hown⟩ := hall m hm
        exact ⟨by omega, hown⟩
      · simp [ownFault?]
    · exact ⟨n, List.mem_cons_of_mem _ (List.mem_append_left _ hn), by omega⟩

end Tree

/-- Of the sum of 985 ones there is a prefix form and no outline: the outline begins one level
    further down, where there is no room for the first of the ones. -/
theorem outline_of_985_ones :
    (∃ form, (onesSum 984).prefixFormWithin Host.standard.prefixRoom = .ok form) ∧
      (Tree.outlineWithin Host.standard.outlineRoom [onesSum 984]).fault? =
        some (.foreign .cutOff) := by
  obtain ⟨hall, n, hn, hdepth⟩ := Tree.mem_nodes_onesSum 984 0
  constructor
  · obtain ⟨form, hform⟩ : ∃ form, (onesSum 984).prefixForm = .ok form := by
      rw [← Tree.faultOf_eq_none_iff, Tree.faultOf_prefixForm _ 0, Tree.firstFault?_eq_none_iff]
      exact fun n hn => (hall n hn).2
    refine ⟨form, Tree.prefixFormWithin_eq_ok_iff.mpr ⟨fun n hn => ?_, hform⟩⟩
    have hle := (hall n hn).1
    exact decide_eq_true (by omega)
  · rw [Tree.fault?_outlineWithin, List.flatMap_singleton,
      Tree.findSome?_faultWithin?_eq_some_iff fun n hn => (hall n hn).2]
    exact ⟨rfl, n, hn, decide_eq_false (by omega)⟩

end LoxSyntax
