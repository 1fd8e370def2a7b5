import LoxSyntax.Proofs.Expr.DepthCounter
import Mathlib.Data.List.TakeWhile
set_option autoImplicit false

/-! # One cursor, many readings

A cursor can be read from again and again, in any of the three ways there are, also after a fault.
What a reading gives depends on nothing but the tokens ahead and the room that is left: it is what a
cursor gives that begins at these tokens, with a counter that starts at zero and a limit that is
smaller by what was open before. The counter is where it was after a result, and after a fault it is
higher by what the tokens opened that the reading consumed. -/

namespace LoxSyntax

theorem rest_suffix_readExprs (room : Nat) (stop : Token) (count : Nat) (ts : List Token) :
    (readExprs room stop count ts).rest <:+ ts := by
  induction count generalizing ts with
  | zero => cases ts <;> exact List.suffix_rfl
  | succ count ih =>
    rcases ts with _ | ⟨t, ts⟩
    · exact List.suffix_rfl
    · have hfirst : (readExpr room stop (t :: ts)).rest <:+ t :: ts := rest_suffix_readFrom ..
      simp only [readExprs]
      split
      · exact hfirst
      · exact (ih _).trans hfirst

theorem rest_suffix_readSingle (room : Nat) (stop : Token) (ts : List Token) :
    (readSingle room stop ts).rest <:+ ts := by
  have hfirst : (readExpr room stop ts).rest <:+ ts := rest_suffix_readFrom ..
  simp only [readSingle]
  split <;> exact hfirst

/-- The ways to read from a cursor. -/
inductive Call
  /-- Reads expressions to the end. -/
  | all
  /-- Reads one expression. -/
  | next
  /-- Reads one expression that has to reach to the end. -/
  | single
  deriving DecidableEq

def Counted.map {α β : Type} (f : α → β) (counted : Counted α) : Counted β :=
  ⟨counted.result.map f, counted.rest, counted.depth⟩

namespace Call

/-- Reads from a list of tokens with the given room. -/
def read (room : Nat) (stop : Token) (tokens : List Token) : Call → Outcome (List Expr)
  | all => readExprs room stop tokens.length tokens
  | next => (readExpr room stop tokens).map ([·])
  | single => (readSingle room stop tokens).map ([·])

/-- Reads from a list of tokens with a counter that stands at the given depth. -/
def count (limit : Nat) (stop : Token) (depth : Nat) (tokens : List Token) :
    Call → Counted (List Expr)
  | all => countExprs limit stop tokens.length depth tokens
  | next => (countExpr limit stop depth tokens).map ([·])
  | single => (countSingle limit stop depth tokens).map ([·])

variable (limit room : Nat) (stop : Token) (depth : Nat) (tokens : List Token) (call : Call)

theorem count_eq :
    call.count limit stop depth tokens =
      (call.read (limit - depth) stop tokens).countedFrom depth := by
  cases call with
  | all => exact countExprs_eq limit stop tokens.length depth tokens
  | next =>
    rw [count, countExpr_eq]
    rfl
  | single =>
    rw [count, countSingle_eq]
    rfl

theorem accounts_read : (call.read room stop tokens).Accounts tokens := by
  cases call with
  | all => exact accounts_readExprs room stop tokens.length tokens
  | next => exact (accounts_readExpr room stop tokens).map _
  | single => exact (accounts_readSingle room stop tokens).map _

/-- Every reading consumes tokens from the front. -/
theorem rest_suffix_read : (call.read room stop tokens).rest <:+ tokens := by
  cases call with
  | all => exact rest_suffix_readExprs room stop tokens.length tokens
  | next => exact rest_suffix_readFrom room stop (.needsOperand []) tokens
  | single => exact rest_suffix_readSingle room stop tokens

end Call

namespace TokenCursor

/-- Reads from a cursor. -/
def call (c : TokenCursor) : Call → Except SyntaxFault (List Expr) × TokenCursor
  | .all => c.expressions
  | .next => (c.expression.1.map ([·]), c.expression.2)
  | .single => (c.single.1.map ([·]), c.single.2)

/-- Reads from a cursor with a counter, up to the given limit. -/
def callWithin (limit : Nat) (c : TokenCursor) (call : Call) :
    Except SyntaxFault (List Expr) × TokenCursor :=
  let counted := call.count limit c.stop c.depth c.ahead
  (counted.result,
    { c with position := c.body.length - counted.rest.length, depth := counted.depth })

theorem call_eq_read (c : TokenCursor) (call : Call) :
    c.call call = ((call.read c.room c.stop c.ahead).result,
      c.after (call.read c.room c.stop c.ahead)) := by
  cases call <;> rfl

/-- The counter of a cursor is what it counts. -/
theorem call_eq_callWithin (c : TokenCursor) (call : Call) :
    c.call call = c.callWithin maxNesting call := by
  rw [call_eq_read, callWithin, Call.count_eq]
  rfl

/-! ## Cursors on the tokens ahead -/

/-- A cursor that begins at the tokens that another one has ahead. -/
def fresh (c : TokenCursor) : TokenCursor := ⟨c.ahead, c.stop, 0, 0⟩

theorem length_ahead (c : TokenCursor) : c.ahead.length = c.body.length - c.position :=
  List.length_drop

theorem rest_length_le (c : TokenCursor) (call : Call) :
    (call.read c.room c.stop c.ahead).rest.length ≤ c.body.length - c.position := by
  rw [← length_ahead]
  exact (call.rest_suffix_read c.room c.stop c.ahead).length_le

/-- A reading gives what it gives from the tokens ahead and with the room that is left. -/
theorem call_eq_fresh {c : TokenCursor} (h : c.position ≤ c.body.length) (call : Call) :
    (c.call call).1 = (c.fresh.callWithin (maxNesting - c.depth) call).1 ∧
      (c.call call).2.position =
        c.position + (c.fresh.callWithin (maxNesting - c.depth) call).2.position ∧
      (c.call call).2.depth =
        c.depth + (c.fresh.callWithin (maxNesting - c.depth) call).2.depth := by
  have hrest := c.rest_length_le call
  have hlength := length_ahead c
  have hfresh : c.fresh.callWithin (maxNesting - c.depth) call =
      ((call.read c.room c.stop c.ahead).result,
        { c.fresh with
          position := c.ahead.length - (call.read c.room c.stop c.ahead).rest.length
          depth := 0 + (call.read c.room c.stop c.ahead).opened }) := by
    rw [callWithin, Call.count_eq]
    rfl
  rw [call_eq_read, hfresh]
  refine ⟨rfl, ?_, ?_⟩
  · show c.body.length - _ = c.position + (c.ahead.length - _)
    omega
  · show c.depth + _ = c.depth + (0 + _)
    omega

/-- The tokens that lie between two places of a cursor. -/
def upTo (c last : TokenCursor) : List Token := c.ahead.take (last.position - c.position)

/-- The counter is where it was after a result, and after a fault it is higher by what the consumed
    tokens leave open. -/
theorem depth_call {c : TokenCursor} (h : c.position ≤ c.body.length)
    (hnumbers : ∀ t ∈ c.body, t.CarriesDouble) (call : Call) :
    (∀ es, (c.call call).1 = .ok es → (c.call call).2.depth = c.depth) ∧
      ∀ f, (c.call call).1 = .error f →
        (c.call call).2.depth =
          c.depth + (Openings.of (c.upTo (c.call call).2)).nested.length := by
  have hlength := length_ahead c
  have haccounts := call.accounts_read c.room c.stop c.ahead
  rw [call_eq_read]
  constructor
  · intro es hes
    rcases haccounts with ⟨_, _, hopened⟩ | ⟨f, hfault, _⟩
    · show c.depth + _ = c.depth
      rw [hopened, Nat.add_zero]
    · rw [hfault] at hes
      cases hes
  · intro f hf
    rcases haccounts with ⟨es, hresult, _⟩ | ⟨g, _, hopened⟩
    · rw [hresult] at hf
      cases hf
    · obtain ⟨used, hused, hopened⟩ :=
        hopened fun t ht => hnumbers t (List.mem_of_mem_drop ht)
      have hconsumed : c.upTo (c.after (call.read c.room c.stop c.ahead)) = used := by
        have hsplit := congrArg List.length hused
        rw [List.length_append] at hsplit
        have hcount : c.body.length - (call.read c.room c.stop c.ahead).rest.length - c.position =
            used.length := by omega
        show c.ahead.take (c.body.length - _ - c.position) = used
        rw [hcount, hused, List.take_left]
      rw [hconsumed, ← hopened]
      rfl

end TokenCursor

/-! ## Cursors on a list of tokens -/

/-- The tokens, followed by the end of the input unless they end with it. -/
def withEnd (tokens : List Token) : List Token :=
  if tokens.getLast?.any (·.isEnd) then tokens
  else tokens ++ [Token.endOfInput ((tokens.getLast?.map (·.line)).getD 1)]

/-- Tokens are read up to the first that ends the input, which may have to be added. -/
theorem exists_withEnd_eq (tokens : List Token) :
    ∃ body stop more, withEnd tokens = body ++ stop :: more ∧
      TokenCursor.ofTokens tokens = { body := body, stop := stop } ∧
      (∀ t ∈ body, t.isEnd = false) ∧ stop.isEnd = true := by
  rcases hfind : tokens.find? (·.isEnd) with _ | stop
  · have hends : ∀ t ∈ tokens, t.isEnd = false := by simpa using hfind
    have hlast : ¬tokens.getLast?.any (·.isEnd) = true := by
      rcases htokens : tokens.getLast? with _ | t
      · simp
      · simp [hends t (List.mem_of_getLast? htokens)]
    refine ⟨tokens, _, [], by rw [withEnd, if_neg hlast], ?_, hends, rfl⟩
    have hbody : tokens.takeWhile (!·.isEnd) = tokens :=
      List.takeWhile_eq_self_iff.mpr (by simpa using hends)
    rw [TokenCursor.ofTokens, hbody, hfind, Option.getD_none]
  · obtain ⟨hstop, body, more, rfl, hbody⟩ := List.find?_eq_some_iff_append.mp hfind
    have hends : ∀ t ∈ body, t.isEnd = false := by simpa using hbody
    have hcursor := ofTokens_append_stop more hends hstop
    unfold withEnd
    split
    · exact ⟨body, stop, more, rfl, hcursor, hends, hstop⟩
    · exact ⟨body, stop, _, by rw [List.append_assoc, List.cons_append], hcursor, hends, hstop⟩

/-- The cursor after a row of readings. -/
def TokenCursor.calls (c : TokenCursor) (calls : List Call) : TokenCursor :=
  calls.foldl (fun c call => (c.call call).2) c

/-- A cursor that has been read from is still one on the same tokens. -/
theorem TokenCursor.calls_spec {c : TokenCursor} (h : c.position ≤ c.body.length)
    (calls : List Call) :
    (c.calls calls).body = c.body ∧ (c.calls calls).stop = c.stop ∧
      (c.calls calls).position ≤ c.body.length := by
  induction calls generalizing c with
  | nil => exact ⟨rfl, rfl, h⟩
  | cons call calls ih =>
    have hcall : (c.call call).2.body = c.body ∧ (c.call call).2.stop = c.stop ∧
        (c.call call).2.position ≤ c.body.length := by
      rw [call_eq_read]
      exact ⟨rfl, rfl, Nat.sub_le ..⟩
    obtain ⟨hbody, hstop, hposition⟩ := hcall
    obtain ⟨hbodies, hstops, hpositions⟩ := ih (by rw [hbody]; exact hposition)
    exact ⟨hbodies.trans hbody, hstops.trans hstop, hbody ▸ hpositions⟩

/-- The tokens from the place of a cursor on make up the cursor that begins there. -/
theorem ofTokens_drop_withEnd {tokens : List Token} {c : TokenCursor}
    (hbody : c.body = (TokenCursor.ofTokens tokens).body)
    (hstop : c.stop = (TokenCursor.ofTokens tokens).stop)
    (hposition : c.position ≤ (TokenCursor.ofTokens tokens).body.length) :
    TokenCursor.ofTokens ((withEnd tokens).drop c.position) = c.fresh := by
  obtain ⟨body, stop, more, htokens, hcursor, hends, hend⟩ := exists_withEnd_eq tokens
  rw [hcursor] at hbody hstop hposition
  have hahead : ∀ t ∈ body.drop c.position, t.isEnd = false :=
    fun t ht => hends t (List.mem_of_mem_drop ht)
  rw [htokens, List.drop_append_of_le_length hposition, ofTokens_append_stop more hahead hend,
    TokenCursor.fresh, TokenCursor.ahead, hbody, hstop]

/-! ## A row of readings -/

/-- On a list of tokens whose numbers are doubles, whatever has been read before, with or without
    faults: a reading is what counting it gives. Its counter ends where it was after a result, and
    after a fault higher by the groups and prefix operators that the consumed tokens leave open. And
    its result and the tokens that it consumes are those of a reading from the tokens ahead alone,
    with a counter that starts at zero, up to what is left of the limit. -/
theorem call_of_calls (tokens : List Token) (hnumbers : ∀ t ∈ tokens, t.CarriesDouble)
    (calls : List Call) (call : Call) :
    let c := (TokenCursor.ofTokens tokens).calls calls
    let last := c.call call
    let fresh := TokenCursor.ofTokens ((withEnd tokens).drop c.position)
    let alone := fresh.callWithin (maxNesting - c.depth) call
    last = c.callWithin maxNesting call ∧
      (∀ es, last.1 = .ok es → last.2.depth = c.depth) ∧
      (∀ f, last.1 = .error f →
        last.2.depth = c.depth + (Openings.of (c.upTo last.2)).nested.length) ∧
      last.1 = alone.1 ∧ last.2.position = c.position + alone.2.position ∧
      last.2.depth = c.depth + alone.2.depth := by
  intro c last fresh alone
  obtain ⟨hbody, hstop, hposition⟩ :=
    TokenCursor.calls_spec (c := TokenCursor.ofTokens tokens) (Nat.zero_le _) calls
  have hwithin : c.position ≤ c.body.length := by
    rw [hbody]
    exact hposition
  have hdoubles : ∀ t ∈ c.body, t.CarriesDouble := by
    intro t ht
    rw [hbody] at ht
    exact hnumbers t ((List.takeWhile_prefix _).subset ht)
  have halone : alone = c.fresh.callWithin (maxNesting - c.depth) call := by
    rw [← ofTokens_drop_withEnd hbody hstop hposition]
  obtain ⟨hresult, hfault⟩ := TokenCursor.depth_call hwithin hdoubles call
  refine ⟨c.call_eq_callWithin call, hresult, hfault, ?_⟩
  rw [halone]
  exact TokenCursor.call_eq_fresh hwithin call

/-- `(a !(b c` is read up to `!`, which does not close the group, and from there on up to `c`, which
    does not close the next one. -/
theorem call_of_calls_after_fault :
    let tokens : List Token :=
      [⟨.leftParen, "(", none, 1⟩, ⟨.identifier, "a", none, 1⟩, ⟨.bang, "!", none, 1⟩,
        ⟨.leftParen, "(", none, 1⟩, ⟨.identifier, "b", none, 1⟩, ⟨.identifier, "c", none, 2⟩]
    let c := (TokenCursor.ofTokens tokens).calls [.next]
    let last := c.call .all
    c.position = 2 ∧ c.depth = 1 ∧
      last.1 = .error (.unclosedGroup ⟨.identifier, "c", none, 2⟩) ∧
      last.2.depth = c.depth + (Openings.of (c.upTo last.2)).nested.length ∧
      last.1 = ((TokenCursor.ofTokens ((withEnd tokens).drop 2)).callWithin 99 .all).1 ∧
      last.2.depth = 3 := by
  intro tokens c last
  have h := call_of_calls tokens (by simp [tokens, Token.CarriesDouble]) [.next] .all
  exact ⟨rfl, rfl, rfl, h.2.2.1 _ rfl, h.2.2.2.1, rfl⟩

end LoxSyntax
