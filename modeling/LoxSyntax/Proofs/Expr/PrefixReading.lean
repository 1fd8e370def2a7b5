import LoxSyntax.Proofs.Expr.SourceTrees
import LoxSyntax.Proofs.Number.ShortestText
set_option autoImplicit false

/-! # Reading prefix forms back

A prefix form says where it ends: a text at its quote, a parenthesis at the one that closes it, and
any other leaf in front of a blank or a parenthesis. So it can be read back, with one exception: an
infinite number is shown as `inf`, which is a name as well, and is read back as that
(`Tree.readForm_append`). Hence two expressions have one prefix form only if they are equal, such
numbers apart (`prefixForm_eq_iff`). -/

namespace LoxSyntax

namespace Tree

/-- The leaf that a word is the form of. -/
def ofAtom (word : List Char) : Expr :=
  if word = "true".toList then .truth true
  else if word = "false".toList then .truth false
  else if word = "nil".toList then .nil
  else
    match Numeral.decimal? word with
    | some d => .number (.ofDecimal d)
    | none => .name (String.ofList word)

/-- The expression with the name `inf` in place of each infinite number. -/
def namingInfinity : Expr → Expr
  | number (.infinite false) => name "inf"
  | unary operator operand => unary operator operand.namingInfinity
  | binary left operator right => binary left.namingInfinity operator right.namingInfinity
  | group inner => group inner.namingInfinity
  | leaf => leaf

theorem namingInfinity_number {value : Double} (h : value ≠ .infinite false) :
    namingInfinity (number value) = number value := by
  rcases value with _ | (_ | _) | _
  · rfl
  · exact absurd rfl h
  · rfl
  · rfl

/-- Without infinite numbers nothing is named. -/
theorem namingInfinity_eq_self {e : Expr}
    (h : .number (.infinite false) ∉ e.terminals) : e.namingInfinity = e := by
  induction e with
  | number value =>
    refine namingInfinity_number fun hvalue => h ?_
    rw [hvalue]
    exact List.mem_singleton_self _
  | unary operator operand ih =>
    rw [namingInfinity, ih fun hmem => h (List.mem_cons_of_mem _ hmem)]
  | binary left operator right ihLeft ihRight =>
    rw [namingInfinity, ihLeft fun hmem => h (List.mem_append_left _ hmem),
      ihRight fun hmem => h (List.mem_append_right _ (List.mem_cons_of_mem _ hmem))]
  | group inner ih =>
    rw [namingInfinity, ih fun hmem => h (List.mem_cons_of_mem _ (List.mem_append_left _ hmem))]
  | text | truth | nil | name => rfl
  | foreign value => exact value.elim

/-! ## Forms as characters -/

/-- The characters of the prefix form. -/
def form : Expr → List Char
  | number value => value.display.toList
  | text value => '"' :: (value.toList ++ ['"'])
  | truth value => (if value then "true" else "false").toList
  | nil => "nil".toList
  | name spelling => spelling.toList
  | unary operator operand =>
    '(' :: ((operator.symbol?.getD "").toList ++ ' ' :: (operand.form ++ [')']))
  | binary left operator right =>
    '(' :: ((operator.symbol?.getD "").toList ++ ' ' :: (left.form ++ ' ' :: (right.form ++ [')'])))
  | group inner => '(' :: ("group".toList ++ ' ' :: (inner.form ++ [')']))

/-- The trees that a text can hold have prefix forms. -/
theorem IsSource.prefixForm_eq {e : Expr} (h : e.IsSource) :
    e.prefixForm = .ok (String.ofList e.form) := by
  induction e with
  | unary operator operand ih =>
    obtain ⟨⟨symbol, hsymbol⟩, hoperand⟩ := h.unary
    rw [prefixForm, ih hoperand, operatorSymbol, hsymbol]
    refine congrArg Except.ok (String.toList_injective ?_)
    simp [form, hsymbol]
  | binary left operator right ihLeft ihRight =>
    obtain ⟨⟨symbol, hsymbol⟩, hleft, hright⟩ := h.binary
    rw [prefixForm, ihLeft hleft, ihRight hright, operatorSymbol, hsymbol]
    refine congrArg Except.ok (String.toList_injective ?_)
    simp [form, hsymbol]
  | group inner ih =>
    rw [prefixForm, ih h.group]
    refine congrArg Except.ok (String.toList_injective ?_)
    simp [form]
  | text value =>
    refine congrArg Except.ok (String.toList_injective ?_)
    simp [form]
  | number | truth | nil | name => exact congrArg Except.ok String.ofList_toList.symm
  | foreign value => exact value.elim

/-! ## Leaves -/

/-- Can the character stand in the form of a number, a reserved word or a name? -/
def isAtomChar (c : Char) : Bool := !decide (c ∈ [' ', '(', ')', '"'])

theorem isAtomChar_of_class {p : Char → Bool} (hp : [' ', '(', ')', '"'].any p = false) {c : Char}
    (h : p c = true) : isAtomChar c = true := by
  simp only [isAtomChar, Bool.not_eq_true', decide_eq_false_iff_not]
  intro hmem
  exact List.any_eq_false.mp hp c hmem h

/-- The form of a leaf that stands without quotes. -/
structure IsAtom (e : Expr) : Prop where
  chars : ∀ c ∈ e.form, isAtomChar c = true
  ne_nil : e.form ≠ []
  read : ofAtom e.form = e.namingInfinity

theorem ofAtom_of_decimal? {word : List Char} {d : Decimal} (h : Numeral.decimal? word = some d) :
    ofAtom word = .number (.ofDecimal d) := by
  have hword : ∀ reserved : List Char, Numeral.decimal? reserved = none → word ≠ reserved := by
    rintro reserved hnone rfl
    rw [hnone] at h
    cases h
  rw [ofAtom, if_neg (hword _ (by decide)), if_neg (hword _ (by decide)),
    if_neg (hword _ (by decide)), h]

theorem isAtom_number {rank : Nat} : IsAtom (.number (.ofRank false rank)) := by
  by_cases hfinite : rank < 2047 * Nat.pow 2 52
  · obtain ⟨d, hread, hnearest⟩ := Double.decimal?_display hfinite
    refine ⟨?_, ?_, ?_⟩
    · intro c hc
      exact isAtomChar_of_class (by decide) (Numeral.isNumberChar_of_decimal? hread c hc)
    · obtain ⟨first, rest, hcons, _⟩ := Numeral.exists_head_of_decimal? hread
      rw [form, hcons]
      exact List.cons_ne_nil _ _
    · rw [form, ofAtom_of_decimal? hread, hnearest, namingInfinity_number]
      rw [Double.ofRank, dif_pos hfinite]
      simp
  · rw [Double.ofRank_of_le (Nat.not_lt.mp hfinite)]
    exact ⟨List.all_eq_true.mp (by decide), by decide, by decide⟩

theorem isAtom_name {spelling : String} (h : IsWord spelling.toList)
    (hname : TokenKind.ofWord spelling = .identifier) : IsAtom (.name spelling) := by
  have hword := h.isWordChar
  obtain ⟨first, more, hspelling, hfirst, _⟩ := h
  refine ⟨?_, ?_, ?_⟩
  · intro c hc
    exact isAtomChar_of_class (p := isWordChar) (by decide) (hword c hc)
  · rw [form, hspelling]
    exact List.cons_ne_nil _ _
  · have hdecimal : Numeral.decimal? spelling.toList = none := by
      rw [Option.eq_none_iff_forall_ne_some]
      intro d hd
      obtain ⟨c, rest, hcons, hc⟩ := Numeral.exists_head_of_decimal? hd
      obtain rfl := (List.cons.inj (hspelling.symm.trans hcons)).1
      rcases hc with hdigit | rfl
      · rw [isDigit_of_isLetter hfirst] at hdigit
        cases hdigit
      · cases hfirst
    have hreserved : ∀ reserved : String, TokenKind.ofWord reserved ≠ .identifier →
        spelling.toList ≠ reserved.toList := by
      intro reserved hne heq
      obtain rfl := String.toList_injective heq
      exact hne hname
    rw [form, ofAtom, if_neg (hreserved _ (by decide)), if_neg (hreserved _ (by decide)),
      if_neg (hreserved _ (by decide)), hdecimal, String.ofList_toList]
    rfl

theorem isAtom_truth (value : Bool) : IsAtom (.truth value) := by
  cases value
  · exact ⟨List.all_eq_true.mp (by decide), by decide, by decide⟩
  · exact ⟨List.all_eq_true.mp (by decide), by decide, by decide⟩

theorem isAtom_nil : IsAtom .nil :=
  ⟨List.all_eq_true.mp (by decide), by decide, by decide⟩

/-! ## Reading -/

/-- Reads an expression off the front of a text that begins with its prefix form, and returns the
    text behind it as well. -/
def readForm : Nat → List Char → Option (Expr × List Char)
  | fuel + 1, c :: cs =>
    if c = '"' then
      some (.text (String.ofList (cs.takeWhile (· ≠ '"'))), (cs.dropWhile (· ≠ '"')).tail)
    else if c = '(' then
      let head := cs.takeWhile (· ≠ ' ')
      match readForm fuel (cs.dropWhile (· ≠ ' ')).tail with
      | some (operand, d :: rest) =>
        if d = ' ' then
          (readForm fuel rest).map fun right =>
            (.binary operand (TokenKind.ofSymbol head) right.1, right.2.tail)
        else if head = "group".toList then some (.group operand, rest)
        else some (.unary (TokenKind.ofSymbol head) operand, rest)
      | _ => none
    else some (ofAtom ((c :: cs).takeWhile isAtomChar), (c :: cs).dropWhile isAtomChar)
  | _, _ => none

theorem IsAtom.readForm_append {e : Expr} (h : e.IsAtom) {fuel : Nat}
    (hfuel : e.form.length ≤ fuel) {rest : List Char}
    (hrest : ∀ c ∈ rest.head?, isAtomChar c = false) :
    readForm fuel (e.form ++ rest) = some (e.namingInfinity, rest) := by
  obtain ⟨htake, hdrop⟩ := takeWhile_append_of_head? rest h.chars hrest
  obtain ⟨first, more, hform⟩ := List.exists_cons_of_ne_nil h.ne_nil
  have hfirst : isAtomChar first = true := h.chars first (by rw [hform]; exact List.mem_cons_self)
  have hquote : first ≠ '"' := ne_of_class hfirst rfl
  have hparen : first ≠ '(' := ne_of_class hfirst rfl
  rw [← h.read]
  rw [hform, List.cons_append] at htake hdrop
  rw [hform, List.length_cons] at hfuel
  obtain ⟨fuel, rfl⟩ := Nat.exists_eq_add_one_of_ne_zero (n := fuel) (by omega)
  rw [hform, List.cons_append, readForm, if_neg hquote, if_neg hparen, htake, hdrop]

/-- What is read behind an opening parenthesis. -/
theorem readForm_paren {fuel : Nat} {head text rest : List Char} {operand : Expr} {d : Char}
    (hhead : ' ' ∉ head) (hread : readForm fuel text = some (operand, d :: rest)) :
    readForm (fuel + 1) ('(' :: (head ++ ' ' :: text)) =
      if d = ' ' then
        (readForm fuel rest).map fun right =>
          (.binary operand (TokenKind.ofSymbol head) right.1, right.2.tail)
      else if head = "group".toList then some (.group operand, rest)
      else some (.unary (TokenKind.ofSymbol head) operand, rest) := by
  obtain ⟨htake, hdrop⟩ := takeWhile_append_cons_of_not_mem hhead text
  rw [readForm, if_neg (by decide), if_pos rfl]
  simp only [htake, hdrop, List.tail_cons, hread]

/-- A text is read up to its quote. -/
theorem readForm_text {value : String} (h : '"' ∉ value.toList) {fuel : Nat}
    (hfuel : (form (.text value)).length ≤ fuel) (rest : List Char) :
    readForm fuel (form (.text value) ++ rest) = some (.text value, rest) := by
  obtain ⟨htake, hdrop⟩ := takeWhile_append_cons_of_not_mem h rest
  simp only [form, List.length_cons] at hfuel
  obtain ⟨fuel, rfl⟩ := Nat.exists_eq_add_one_of_ne_zero (n := fuel) (by omega)
  simp only [form, List.cons_append, List.append_assoc, List.nil_append]
  rw [readForm, if_pos rfl, htake, hdrop, String.ofList_toList, List.tail_cons]

/-- The prefix form of a tree that a text can hold is read back, up to infinite numbers. What
    follows it may not go on with a word. -/
theorem readForm_append {e : Expr} (h : e.IsSource) {fuel : Nat} (hfuel : e.form.length ≤ fuel)
    {rest : List Char} (hrest : ∀ c ∈ rest.head?, isAtomChar c = false) :
    readForm fuel (e.form ++ rest) = some (e.namingInfinity, rest) := by
  induction e generalizing fuel rest with
  | unary operator operand ih =>
    obtain ⟨⟨symbol, hsymbol⟩, hoperand⟩ := h.unary
    obtain ⟨hblank, _, hgroup⟩ := TokenKind.chars_of_symbol? hsymbol
    simp only [form, hsymbol, Option.getD_some, List.length_cons, List.length_append] at hfuel
    obtain ⟨fuel, rfl⟩ := Nat.exists_eq_add_one_of_ne_zero (n := fuel) (by omega)
    have hread : readForm fuel (operand.form ++ ')' :: rest) =
        some (operand.namingInfinity, ')' :: rest) :=
      ih hoperand (by omega) (by simp [isAtomChar])
    simp only [form, hsymbol, Option.getD_some, List.cons_append, List.append_assoc,
      List.nil_append]
    rw [readForm_paren hblank hread, if_neg (by decide), if_neg hgroup,
      TokenKind.ofSymbol_of_symbol? hsymbol]
    rfl
  | binary left operator right ihLeft ihRight =>
    obtain ⟨⟨symbol, hsymbol⟩, hleft, hright⟩ := h.binary
    obtain ⟨hblank, _⟩ := TokenKind.chars_of_symbol? hsymbol
    simp only [form, hsymbol, Option.getD_some, List.length_cons, List.length_append] at hfuel
    obtain ⟨fuel, rfl⟩ := Nat.exists_eq_add_one_of_ne_zero (n := fuel) (by omega)
    have hreadLeft : readForm fuel (left.form ++ ' ' :: (right.form ++ ')' :: rest)) =
        some (left.namingInfinity, ' ' :: (right.form ++ ')' :: rest)) :=
      ihLeft hleft (by omega) (by simp [isAtomChar])
    have hreadRight : readForm fuel (right.form ++ ')' :: rest) =
        some (right.namingInfinity, ')' :: rest) :=
      ihRight hright (by omega) (by simp [isAtomChar])
    simp only [form, hsymbol, Option.getD_some, List.cons_append, List.append_assoc,
      List.nil_append]
    rw [readForm_paren hblank hreadLeft, if_pos rfl, hreadRight,
      TokenKind.ofSymbol_of_symbol? hsymbol]
    rfl
  | group inner ih =>
    simp only [form, List.length_cons, List.length_append] at hfuel
    obtain ⟨fuel, rfl⟩ := Nat.exists_eq_add_one_of_ne_zero (n := fuel) (by omega)
    have hread : readForm fuel (inner.form ++ ')' :: rest) =
        some (inner.namingInfinity, ')' :: rest) :=
      ih h.group (by omega) (by simp [isAtomChar])
    simp only [form, List.cons_append, List.append_assoc, List.nil_append]
    rw [readForm_paren (by decide) hread, if_neg (by decide), if_pos rfl]
    rfl
  | text value => exact readForm_text (h.spelled _ (List.mem_singleton_self _)) hfuel rest
  | number value =>
    obtain ⟨rank, rfl⟩ := h.spelled _ (List.mem_singleton_self _)
    exact isAtom_number.readForm_append hfuel hrest
  | truth value => exact (isAtom_truth value).readForm_append hfuel hrest
  | nil => exact isAtom_nil.readForm_append hfuel hrest
  | name spelling =>
    obtain ⟨hword, hname⟩ := h.spelled _ (List.mem_singleton_self _)
    exact (isAtom_name hword hname).readForm_append hfuel hrest
  | foreign value => exact value.elim

theorem readForm_form {e : Expr} (h : e.IsSource) :
    readForm e.form.length e.form = some (e.namingInfinity, []) := by
  have hread : readForm e.form.length (e.form ++ []) = some (e.namingInfinity, []) :=
    readForm_append h (Nat.le_refl _) (by simp)
  rwa [List.append_nil] at hread

/-! ## Equal forms -/

/-- Naming the infinite numbers changes no prefix form. -/
theorem form_namingInfinity (e : Expr) : e.namingInfinity.form = e.form := by
  induction e with
  | number value =>
    by_cases h : value = .infinite false
    · rw [h]
      decide
    · rw [namingInfinity_number h]
  | unary operator operand ih => rw [namingInfinity, form, form, ih]
  | binary left operator right ihLeft ihRight => rw [namingInfinity, form, form, ihLeft, ihRight]
  | group inner ih => rw [namingInfinity, form, form, ih]
  | text | truth | nil | name => rfl
  | foreign value => exact value.elim

/-- Trees that a text can hold have one form if and only if they are equal up to infinite
    numbers. -/
theorem form_eq_iff {d e : Expr} (hd : d.IsSource) (he : e.IsSource) :
    d.form = e.form ↔ d.namingInfinity = e.namingInfinity := by
  constructor
  · intro h
    have hread := readForm_form hd
    rw [h, readForm_form he] at hread
    exact (Prod.mk.inj (Option.some.inj hread)).1.symm
  · intro h
    rw [← form_namingInfinity d, h, form_namingInfinity]

end Tree

/-- Expressions of texts have prefix forms. Two of them have the same one if and only if they are
    equal up to infinite numbers, which are shown like the name `inf`. If neither of them has a
    numeral beyond the doubles, they are equal. How far down a host can go is left out: these are
    the forms that it gives where it has room for all nodes (`Tree.prefixFormWithin_eq_ok_iff`). -/
theorem prefixForm_eq_iff (s t filename filename' : String) (ds es : List Expr) (d e : Expr)
    (hs : parseSource s filename = .ok ds) (ht : parseSource t filename' = .ok es)
    (hd : d ∈ ds) (he : e ∈ es) :
    (∃ form, d.prefixForm = .ok form) ∧ (∃ form, e.prefixForm = .ok form) ∧
      (d.prefixForm = e.prefixForm ↔ d.namingInfinity = e.namingInfinity) ∧
      (.number (.infinite false) ∉ d.terminals → .number (.infinite false) ∉ e.terminals →
        d.prefixForm = e.prefixForm → d = e) := by
  have hdSource := isSource_of_parseSource hs d hd
  have heSource := isSource_of_parseSource ht e he
  have hiff : d.prefixForm = e.prefixForm ↔ d.namingInfinity = e.namingInfinity := by
    rw [hdSource.prefixForm_eq, heSource.prefixForm_eq, Except.ok.injEq, String.ofList_inj]
    exact Tree.form_eq_iff hdSource heSource
  refine ⟨⟨_, hdSource.prefixForm_eq⟩, ⟨_, heSource.prefixForm_eq⟩, hiff, ?_⟩
  intro hdFinite heFinite hform
  have hnamed := hiff.mp hform
  rwa [Tree.namingInfinity_eq_self hdFinite, Tree.namingInfinity_eq_self heFinite] at hnamed

/-- A sum of negations and the negation of a sum have forms of their own. -/
theorem prefixForm_eq_iff_negated_sum :
    let d : Expr := .binary (.unary .minus (.name "inf")) .plus (.name "b")
    let e : Expr := .unary .minus (.group (.binary (.name "inf") .plus (.name "b")))
    parseSource "-inf + b" = .ok [d] ∧ parseSource "-(inf+b) // inf" = .ok [e] ∧
      (∃ form, d.prefixForm = .ok form) ∧ (∃ form, e.prefixForm = .ok form) ∧
      d.prefixForm ≠ e.prefixForm := by
  intro d e
  have hd : parseSource "-inf + b" = .ok [d] := by decide +kernel
  have he : parseSource "-(inf+b) // inf" = .ok [e] := by decide +kernel
  obtain ⟨hdForm, heForm, hiff, _⟩ :=
    prefixForm_eq_iff _ _ _ _ _ _ d e hd he (by simp) (by simp)
  exact ⟨hd, he, hdForm, heForm, fun h => absurd (hiff.mp h) (by decide)⟩

/-- Digits alone are read as the number that they spell. -/
theorem parseSource_digits {digits : List Char} (h : IsDigits digits) (filename : String) :
    parseSource (String.ofList digits) filename =
      .ok [.number (.ofDecimal (Decimal.ofDigits digits [] 0))] := by
  have hdivision : IsDivision [] [.numeral digits none] :=
    ⟨⟨h, by simp⟩, ⟨by simp, fun _ => by simp [BeginsFraction]⟩, trivial⟩
  have hscan := scanText_of_isDivision hdivision
  rw [List.flatMap_singleton] at hscan
  exact parseSource_eq_ok_iff.mpr ⟨_, scanSource_eq_ok_iff.mpr hscan, rfl⟩

/-- A numeral of 310 digits, which is beyond the doubles, and the name `inf` have one form. -/
theorem prefixForm_of_overlarge_numeral :
    let numeral := String.ofList ('1' :: List.replicate 309 '0')
    let d : Expr := .name "inf"
    let e : Expr := .number (.infinite false)
    parseSource "inf" = .ok [d] ∧ parseSource numeral = .ok [e] ∧
      d.prefixForm = .ok "inf" ∧ e.prefixForm = .ok "inf" ∧ d ≠ e := by
  intro numeral d e
  have hd : parseSource "inf" = .ok [d] := by decide +kernel
  have hdecimal : Decimal.ofDigits ('1' :: List.replicate 309 '0') [] 0 = ⟨10 ^ 309, 0⟩ := by
    decide +kernel
  have hlarge : Double.ofDecimal ⟨10 ^ 309, 0⟩ = .infinite false := by decide +kernel
  have hdigits : IsDigits ('1' :: List.replicate 309 '0') := by
    refine ⟨List.cons_ne_nil _ _, List.forall_mem_cons.mpr ⟨rfl, ?_⟩⟩
    intro c hc
    rw [List.eq_of_mem_replicate hc]
    rfl
  have he : parseSource numeral = .ok [e] := by
    rw [parseSource_digits hdigits, hdecimal, hlarge]
  exact ⟨hd, he, rfl, rfl, by decide⟩

end LoxSyntax
