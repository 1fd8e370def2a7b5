import LoxSyntax.Proofs.Expr.Calls
set_option autoImplicit false

/-! # Where a reading is stopped

A fault is about one token of the list, or about the one that ends it. Which one can be told from
how far the reading has got: the tokens in front of it have been consumed, and so has the token
itself if it opens too much or is too large (`Outcome.StopsAt`). Each of the ways to read from a
cursor stops at such a token when it stops at all (`Call.exists_stopsAt`), and at one only
(`Call.StopsAt.unique`). -/

namespace LoxSyntax

/-! ## Faults and their tokens -/

/-- What a fault is, apart from the token that it is about. -/
inductive FaultClass
  | unexpected | unclosedGroup | unexpectedEnd | tooDeep | tooLarge
  deriving DecidableEq, Repr

namespace SyntaxFault

/-- The class of a fault. -/
def faultClass : SyntaxFault → FaultClass
  | unexpected _ => .unexpected
  | unclosedGroup _ => .unclosedGroup
  | unexpectedEnd _ => .unexpectedEnd
  | tooDeep _ => .tooDeep
  | tooLarge _ => .tooLarge

/-- The fault is about the token. Of the end of the input it tells the line only. -/
def IsAbout (f : SyntaxFault) (t : Token) : Prop :=
  match f with
  | unexpected found | unclosedGroup found | tooDeep found | tooLarge found => found = t
  | unexpectedEnd line => t.isEnd = true ∧ line = t.line

end SyntaxFault

/-- How many tokens have been consumed at such a fault besides those in front of its token. -/
def FaultClass.consumed : FaultClass → Nat
  | tooDeep | tooLarge => 1
  | unexpected | unclosedGroup | unexpectedEnd => 0

/-! ## Outcomes -/

/-- The outcome of reading the tokens in front of `stop` is the fault, about the token with the
    given index. -/
structure Outcome.StopsAt {α : Type} (outcome : Outcome α) (tokens : List Token) (stop : Token)
    (f : SyntaxFault) (index : Nat) : Prop where
  result : outcome.result = .error f
  about : ∃ t ∈ (tokens ++ [stop])[index]?, f.IsAbout t
  consumed : index + f.faultClass.consumed + outcome.rest.length = tokens.length

namespace Outcome.StopsAt

variable {α β : Type} {outcome : Outcome α} {tokens : List Token} {stop : Token} {f : SyntaxFault}
  {index : Nat}

theorem map (h : outcome.StopsAt tokens stop f index) (g : α → β) :
    (outcome.map g).StopsAt tokens stop f index :=
  ⟨by rw [Outcome.map, h.result]; rfl, h.about, h.consumed⟩

/-- Tokens that have been consumed already count. -/
theorem append (h : outcome.StopsAt tokens stop f index) (used : List Token) :
    outcome.StopsAt (used ++ tokens) stop f (used.length + index) := by
  refine ⟨h.result, ?_, ?_⟩
  · rw [List.append_assoc, List.getElem?_append_right (Nat.le_add_right _ _),
      Nat.add_sub_cancel_left]
    exact h.about
  · have hconsumed := h.consumed
    rw [List.length_append]
    omega

end Outcome.StopsAt

section

variable {room : Nat} {stop : Token} {f : SyntaxFault}

/-- Reading an expression stops at the token that its fault is about. -/
theorem exists_stopsAt_readFrom (hstop : stop.isEnd = true) {state : ReadState} {ts : List Token}
    (h : (readFrom room stop state ts).result = .error f) :
    ∃ index, (readFrom room stop state ts).StopsAt ts stop f index := by
  fun_induction readFrom room stop state ts with
  | case1 stack =>
    cases h
    exact ⟨0, rfl, ⟨stop, rfl, hstop, rfl⟩, rfl⟩
  | case2 stack t ts value _ ih | case4 stack t ts frame _ _ ih
  | case9 operand stack t ts level _ left outer _ ih
  | case10 operand stack t ts _ inner outer _ _ ih =>
    obtain ⟨index, hindex⟩ := ih h
    exact ⟨_, hindex.append [t]⟩
  | case3 stack t ts frame =>
    cases h
    exact ⟨0, rfl, ⟨t, rfl, rfl⟩, Nat.add_comm ..⟩
  | case5 stack t ts =>
    cases h
    exact ⟨0, rfl, ⟨t, rfl, rfl⟩, Nat.add_comm ..⟩
  | case6 stack t ts =>
    cases h
    exact ⟨0, rfl, ⟨t, rfl, rfl⟩, Nat.zero_add _⟩
  | case7 operand stack =>
    cases h
    exact ⟨0, rfl, ⟨stop, rfl, rfl⟩, rfl⟩
  | case11 operand stack t ts =>
    cases h
    exact ⟨0, rfl, ⟨t, rfl, rfl⟩, Nat.zero_add _⟩
  | case8 => cases h
  | case12 => cases h

/-- Where the first expression stops, the readings that begin with it do. -/
theorem Outcome.StopsAt.readExprs_of_readExpr {t : Token} {ts : List Token} {index : Nat}
    (h : (readExpr room stop (t :: ts)).StopsAt (t :: ts) stop f index) (count : Nat) :
    (readExprs room stop (count + 1) (t :: ts)).StopsAt (t :: ts) stop f index := by
  simp only [readExprs, h.result]
  exact ⟨rfl, h.about, h.consumed⟩

theorem Outcome.StopsAt.readSingle_of_readExpr {ts : List Token} {index : Nat}
    (h : (readExpr room stop ts).StopsAt ts stop f index) :
    (readSingle room stop ts).StopsAt ts stop f index := by
  have hsame : readSingle room stop ts = readExpr room stop ts := by
    simp only [readSingle, h.result]
  rw [hsame]
  exact h

/-- Behind the first expression, reading goes on with the next. -/
theorem readExprs_append_of_readExpr {first rest : List Token} {e : Expr}
    (hfirst : (readExpr room stop (first ++ rest)).result = .ok e)
    (hrest : (readExpr room stop (first ++ rest)).rest = rest) (count : Nat) :
    readExprs room stop (count + 1) (first ++ rest) =
      (readExprs room stop count rest).map (e :: ·) := by
  rcases htokens : first ++ rest with _ | ⟨t, ts⟩
  · rw [htokens] at hfirst
    cases hfirst
  · rw [htokens] at hfirst hrest
    simp only [readExprs, hfirst, hrest]
    rfl

/-- Reading a single expression stops at the token behind it. -/
theorem stopsAt_readSingle_append {first rest : List Token} {e : Expr} {t : Token}
    (hfirst : (readExpr room stop (first ++ t :: rest)).result = .ok e)
    (hrest : (readExpr room stop (first ++ t :: rest)).rest = t :: rest) :
    (readSingle room stop (first ++ t :: rest)).StopsAt (first ++ t :: rest) stop (.unexpected t)
      first.length := by
  have hplace : (readSingle room stop (first ++ t :: rest)).StopsAt (t :: rest) stop
      (.unexpected t) 0 := by
    simp only [readSingle, hfirst, hrest]
    exact ⟨rfl, ⟨t, rfl, rfl⟩, Nat.zero_add _⟩
  exact hplace.append first

theorem exists_stopsAt_readExprs (hstop : stop.isEnd = true) {count : Nat} {ts : List Token}
    (h : (readExprs room stop count ts).result = .error f) :
    ∃ index, (readExprs room stop count ts).StopsAt ts stop f index := by
  induction count generalizing ts with
  | zero => cases ts <;> cases h
  | succ count ih =>
    rcases ts with _ | ⟨t, ts⟩
    · cases h
    · rcases hfirst : (readExpr room stop (t :: ts)).result with g | e
      · obtain ⟨index, hindex⟩ := exists_stopsAt_readFrom hstop hfirst
        have hall := Outcome.StopsAt.readExprs_of_readExpr hindex count
        obtain rfl := Except.error.inj (hall.result.symm.trans h)
        exact ⟨index, hall⟩
      · obtain ⟨used, hused⟩ : (readExpr room stop (t :: ts)).rest <:+ t :: ts :=
          rest_suffix_readFrom ..
        generalize hrest : (readExpr room stop (t :: ts)).rest = rest at hused
        rw [← hused] at h hfirst hrest ⊢
        rw [readExprs_append_of_readExpr hfirst hrest] at h ⊢
        obtain ⟨index, hindex⟩ := ih (map_eq_error_iff.mp h)
        exact ⟨_, (hindex.map (e :: ·)).append used⟩

theorem exists_stopsAt_readSingle (hstop : stop.isEnd = true) {ts : List Token}
    (h : (readSingle room stop ts).result = .error f) :
    ∃ index, (readSingle room stop ts).StopsAt ts stop f index := by
  rcases readSingle_eq_error_iff.mp h with hfirst | ⟨e, t, rest, hfirst, hrest, rfl⟩
  · obtain ⟨index, hindex⟩ := exists_stopsAt_readFrom hstop hfirst
    exact ⟨index, hindex.readSingle_of_readExpr⟩
  · obtain ⟨used, rfl⟩ : t :: rest <:+ ts := hrest ▸ rest_suffix_readFrom ..
    exact ⟨_, stopsAt_readSingle_append hfirst hrest⟩

end

/-! ## Readings of a list of tokens -/

/-- Whatever tokens there are, the one that is read up to ends the input. -/
theorem isEnd_stop_ofTokens (tokens : List Token) :
    (TokenCursor.ofTokens tokens).stop.isEnd = true := by
  obtain ⟨body, stop, _, _, hcursor, -, hstop⟩ := exists_withEnd_eq tokens
  rw [hcursor]
  exact hstop

namespace Call

theorem exists_stopsAt_read {room : Nat} {stop : Token} {tokens : List Token} {f : SyntaxFault}
    {call : Call} (hstop : stop.isEnd = true)
    (h : (call.read room stop tokens).result = .error f) :
    ∃ index, (call.read room stop tokens).StopsAt tokens stop f index := by
  cases call with
  | all => exact exists_stopsAt_readExprs hstop h
  | next =>
    obtain ⟨index, hindex⟩ := exists_stopsAt_readFrom hstop (map_eq_error_iff.mp h)
    exact ⟨index, hindex.map _⟩
  | single =>
    obtain ⟨index, hindex⟩ := exists_stopsAt_readSingle hstop (map_eq_error_iff.mp h)
    exact ⟨index, hindex.map _⟩

/-- Reading a list of tokens is stopped by the fault, about the token with the given index; the list
    is taken to end with the end of the input. -/
structure StopsAt (call : Call) (tokens : List Token) (f : SyntaxFault) (index : Nat) : Prop where
  result : ((TokenCursor.ofTokens tokens).call call).1 = .error f
  about : ∃ t ∈ (withEnd tokens)[index]?, f.IsAbout t
  position :
    ((TokenCursor.ofTokens tokens).call call).2.position = index + f.faultClass.consumed

variable {call : Call} {tokens : List Token} {f : SyntaxFault}

/-- A cursor that nothing has been read from reads all its tokens. -/
theorem call_of_start (call : Call) (body : List Token) (stop : Token) :
    let c : TokenCursor := { body, stop }
    let outcome := call.read maxNesting stop body
    (c.call call).1 = outcome.result ∧
      (c.call call).2.position = body.length - outcome.rest.length := by
  intro c outcome
  rw [TokenCursor.call_eq_read]
  exact ⟨rfl, rfl⟩

/-- Tokens are read up to where reading those before the end of the input stops. -/
theorem stopsAt_of_read {index : Nat}
    (h : (call.read maxNesting (TokenCursor.ofTokens tokens).stop
      (TokenCursor.ofTokens tokens).body).StopsAt (TokenCursor.ofTokens tokens).body
      (TokenCursor.ofTokens tokens).stop f index) : call.StopsAt tokens f index := by
  obtain ⟨body, stop, more, htokens, hcursor, -, -⟩ := exists_withEnd_eq tokens
  rw [hcursor] at h
  obtain ⟨hresult, hposition⟩ := call_of_start call body stop
  refine ⟨?_, ?_, ?_⟩
  · rw [hcursor, hresult]
    exact h.result
  · obtain ⟨t, ht, habout⟩ := h.about
    obtain ⟨hlt, -⟩ := List.getElem?_eq_some_iff.mp ht
    refine ⟨t, ?_, habout⟩
    rw [htokens, List.append_cons, List.getElem?_append_left hlt]
    exact ht
  · have hconsumed :
        index + f.faultClass.consumed + (call.read maxNesting stop body).rest.length =
          body.length := h.consumed
    rw [hcursor, hposition]
    omega

/-- A reading that stops does so at one of the tokens. -/
theorem exists_stopsAt (h : ((TokenCursor.ofTokens tokens).call call).1 = .error f) :
    ∃ index, call.StopsAt tokens f index := by
  have hread : (call.read maxNesting (TokenCursor.ofTokens tokens).stop
      (TokenCursor.ofTokens tokens).body).result = .error f :=
    (call_of_start call _ _).1.symm.trans h
  obtain ⟨index, hindex⟩ := exists_stopsAt_read (isEnd_stop_ofTokens tokens) hread
  exact ⟨index, stopsAt_of_read hindex⟩

/-- A reading stops at one token only. -/
theorem StopsAt.unique {g : SyntaxFault} {i j : Nat} (hi : call.StopsAt tokens f i)
    (hj : call.StopsAt tokens g j) : f = g ∧ i = j := by
  obtain rfl := Except.error.inj (hi.result.symm.trans hj.result)
  have hposition := hi.position.symm.trans hj.position
  exact ⟨rfl, by omega⟩

end Call

end LoxSyntax
