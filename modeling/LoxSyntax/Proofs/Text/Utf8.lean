import LoxSyntax.Text.Utf8
import Mathlib.Data.List.TakeWhile
set_option autoImplicit false

/-! # Decoding and encoding

A character is spelled by one to four bytes, as `SpellsCode` lists them, and no other bytes are read
as it (`readChar_of_spellsCode`, `spellsCode_of_readChar`). Hence bytes are decoded as a text if and
only if they are those that the text is encoded as (`decode_eq_ok_iff`). -/

namespace LoxSyntax.Utf8

/-! ## The bytes of a character -/

/-- The byte is one that continues a character. -/
def IsTail (b : UInt8) : Prop := 0x80 ≤ b.toNat ∧ b.toNat ≤ 0xbf

/-- The bytes spell the character with the code: so many of them as the first one tells, the others
    being such as continue a character, and no fewer bytes would do. -/
inductive SpellsCode (code : Nat) : List UInt8 → Prop
  | one {a : UInt8} (first : a.toNat < 0x80) (eq : code = a.toNat) : SpellsCode code [a]
  | two {a b : UInt8} (first : 0xc2 ≤ a.toNat ∧ a.toNat < 0xe0) (second : IsTail b)
      (eq : code = 0x40 * (a.toNat % 0x20) + b.toNat % 0x40) : SpellsCode code [a, b]
  | three {a b d : UInt8} (first : 0xe0 ≤ a.toNat ∧ a.toNat < 0xf0) (second : IsTail b)
      (third : IsTail d) (long : a.toNat = 0xe0 → 0xa0 ≤ b.toNat)
      (noSurrogate : a.toNat = 0xed → b.toNat ≤ 0x9f)
      (eq : code = 0x40 * (0x40 * (a.toNat % 0x10) + b.toNat % 0x40) + d.toNat % 0x40) :
      SpellsCode code [a, b, d]
  | four {a b d e : UInt8} (first : 0xf0 ≤ a.toNat ∧ a.toNat < 0xf5) (second : IsTail b)
      (third : IsTail d) (fourth : IsTail e) (long : a.toNat = 0xf0 → 0x90 ≤ b.toNat)
      (small : a.toNat = 0xf4 → b.toNat ≤ 0x8f)
      (eq : code = 0x40 * (0x40 * (0x40 * (a.toNat % 0x08) + b.toNat % 0x40) + d.toNat % 0x40) +
        e.toNat % 0x40) :
      SpellsCode code [a, b, d, e]

theorem SpellsCode.isValidChar {code : Nat} {bytes : List UInt8} (h : SpellsCode code bytes) :
    code.isValidChar := by
  cases h with
  | one first eq => exact Or.inl (by omega)
  | two first second eq =>
    unfold IsTail at second
    exact Or.inl (by omega)
  | three first second third long noSurrogate eq =>
    unfold IsTail at second third
    unfold Nat.isValidChar
    omega
  | four first second third fourth long small eq =>
    unfold IsTail at second third fourth
    unfold Nat.isValidChar
    omega

theorem SpellsCode.toNat_ofNat {code : Nat} {bytes : List UInt8} (h : SpellsCode code bytes) :
    (Char.ofNat code).toNat = code := by
  rw [Char.ofNat, dif_pos h.isValidChar]
  rfl

theorem utf8EncodeChar_eq {c : Char} {bytes : List UInt8} (h : SpellsCode c.toNat bytes) :
    String.utf8EncodeChar c = bytes := by
  have hbyte : ∀ n (b : UInt8), n = b.toNat → UInt8.ofNat n = b := by
    rintro n b rfl
    exact UInt8.ofNat_toNat
  unfold String.utf8EncodeChar
  simp only [Char.toNat_val]
  cases h with
  | @one a first eq =>
    rw [if_pos (by omega), hbyte _ a (by omega)]
  | @two a b first second eq =>
    unfold IsTail at second
    rw [if_neg (by omega), if_pos (by omega), hbyte _ a (by omega), hbyte _ b (by omega)]
  | @three a b d first second third long noSurrogate eq =>
    unfold IsTail at second third
    rw [if_neg (by omega), if_neg (by omega), if_pos (by omega), hbyte _ a (by omega),
      hbyte _ b (by omega), hbyte _ d (by omega)]
  | @four a b d e first second third fourth long small eq =>
    unfold IsTail at second third fourth
    rw [if_neg (by omega), if_neg (by omega), if_neg (by omega), hbyte _ a (by omega),
      hbyte _ b (by omega), hbyte _ d (by omega), hbyte _ e (by omega)]

theorem spellsCode_utf8EncodeChar (c : Char) : SpellsCode c.toNat (String.utf8EncodeChar c) := by
  have hvalid : c.toNat.isValidChar := c.valid
  unfold Nat.isValidChar at hvalid
  unfold String.utf8EncodeChar
  simp only [Char.toNat_val]
  split
  · refine .one ?_ ?_ <;> simp only [UInt8.toNat_ofNat'] <;> omega
  · split
    · refine .two ?_ ?_ ?_ <;> simp only [IsTail, UInt8.toNat_ofNat'] <;> omega
    · split
      · refine .three ?_ ?_ ?_ ?_ ?_ ?_ <;> simp only [IsTail, UInt8.toNat_ofNat'] <;> omega
      · refine .four ?_ ?_ ?_ ?_ ?_ ?_ ?_ <;> simp only [IsTail, UInt8.toNat_ofNat'] <;> omega

/-- A character is spelled by its bytes and by no others. -/
theorem spellsCode_iff {c : Char} {bytes : List UInt8} :
    SpellsCode c.toNat bytes ↔ bytes = String.utf8EncodeChar c := by
  constructor
  · intro h
    exact (utf8EncodeChar_eq h).symm
  · rintro rfl
    exact spellsCode_utf8EncodeChar c

/-! ## Reading one character -/

theorem shape?_eq (a : UInt8) :
    shape? a =
      if a.toNat < 0x80 then some (1, 0x80, 0xbf)
      else if a.toNat < 0xc2 then none
      else if a.toNat < 0xe0 then some (2, 0x80, 0xbf)
      else if a.toNat < 0xf0 then
        some (3, if a.toNat = 0xe0 then 0xa0 else 0x80, if a.toNat = 0xed then 0x9f else 0xbf)
      else if a.toNat < 0xf5 then
        some (4, if a.toNat = 0xf0 then 0x90 else 0x80, if a.toNat = 0xf4 then 0x8f else 0xbf)
      else none := by
  unfold shape?
  simp only [UInt8.lt_iff_toNat_lt, ← UInt8.toNat_inj, UInt8.reduceToNat]
  grind

theorem isContinuation_iff {b : UInt8} : isContinuation b = true ↔ IsTail b := by
  simp [isContinuation, IsTail, UInt8.le_iff_toNat_le]

/-- The bytes behind a first one are counted as far as they go on with a character. -/
theorem matching_of_tails {low high b : UInt8} {tails : List UInt8} (hlow : low.toNat ≤ b.toNat)
    (hhigh : b.toNat ≤ high.toNat) (htails : ∀ d ∈ tails, IsTail d) (more : List UInt8) :
    matching (tails.length + 2) low high (b :: (tails ++ more)) = tails.length + 1 := by
  have hall : ∀ d ∈ tails, isContinuation d = true := fun d hd =>
    isContinuation_iff.mpr (htails d hd)
  have hin : ¬(b.toNat < low.toNat ∨ high.toNat < b.toNat) := by omega
  simp [matching, UInt8.lt_iff_toNat_lt, hin, List.takeWhile_eq_self_iff.mpr hall, Nat.add_comm]

theorem exists_tails_of_matching {size : Nat} {low high : UInt8} {rest : List UInt8}
    (h : matching (size + 2) low high rest = size + 1) :
    ∃ b tails more, rest = b :: (tails ++ more) ∧ low.toNat ≤ b.toNat ∧ b.toNat ≤ high.toNat ∧
      tails.length = size ∧ ∀ d ∈ tails, IsTail d := by
  cases rest with
  | nil => cases h
  | cons b rest =>
    rw [matching] at h
    split at h
    · cases h
    · next hin =>
      simp only [UInt8.lt_iff_toNat_lt, Bool.or_eq_true, decide_eq_true_eq, not_or] at hin
      have hsize : ((rest.take size).takeWhile isContinuation).length = size := by
        simpa [Nat.add_comm] using h
      have hle := (List.takeWhile_prefix isContinuation (l := rest.take size)).length_le
      have htake := (List.takeWhile_prefix isContinuation (l := rest.take size)).eq_of_length_le
        (by rw [hsize, List.length_take]; omega)
      refine ⟨b, rest.take size, rest.drop size, by rw [List.take_append_drop], by omega, by omega,
        by rw [← htake, hsize], fun d hd => ?_⟩
      rw [← htake] at hd
      exact isContinuation_iff.mp (List.mem_takeWhile_imp hd)

/-- The code that the bytes of a character make. -/
def codeOf (size : Nat) (first : UInt8) (tail : List UInt8) : Nat :=
  tail.foldl (fun n b => 0x40 * n + b.toNat % 0x40) (leadBits size first)

theorem readChar_eq_ok_iff {first : UInt8} {rest : List UInt8} {c : Char} {found : Nat} :
    readChar first rest = .ok (c, found) ↔
      ∃ low high, shape? first = some (found + 1, low, high) ∧
        matching (found + 1) low high rest = found ∧
        Char.ofNat (codeOf (found + 1) first (rest.take found)) = c := by
  constructor
  · intro h
    unfold readChar at h
    split at h
    · cases h
    · next size low high hshape =>
      dsimp only at h
      split at h
      · next hsize =>
        obtain ⟨hc, hfound⟩ := Prod.mk.inj (Except.ok.inj h)
        rw [hfound] at hsize hc
        subst hsize
        exact ⟨low, high, hshape, hfound, hc⟩
      · split at h <;> cases h
  · rintro ⟨low, high, hshape, hfound, rfl⟩
    simp only [readChar, hshape, hfound, if_true]
    rfl

/-- A first byte and those that go on with it are read as the character with their code. -/
theorem readChar_of_tails {c : Char} {first low high b : UInt8} (tails : List UInt8)
    (hshape : shape? first = some (tails.length + 2, low, high)) (hlow : low.toNat ≤ b.toNat)
    (hhigh : b.toNat ≤ high.toNat) (htails : ∀ d ∈ tails, IsTail d)
    (hcode : c.toNat = codeOf (tails.length + 2) first (b :: tails)) (more : List UInt8) :
    readChar first (b :: (tails ++ more)) = .ok (c, tails.length + 1) := by
  refine readChar_eq_ok_iff.mpr
    ⟨low, high, hshape, matching_of_tails hlow hhigh htails more, ?_⟩
  rw [List.take_succ_cons, List.take_left, ← hcode, Char.ofNat_toNat]

/-- The bytes of a character are read as that character, whatever follows them. -/
theorem readChar_of_spellsCode {c : Char} {first : UInt8} {tail : List UInt8}
    (h : SpellsCode c.toNat (first :: tail)) (more : List UInt8) :
    readChar first (tail ++ more) = .ok (c, tail.length) := by
  have hshape := shape?_eq first
  generalize hbytes : first :: tail = bytes at h
  cases h with
  | one hfirst eq =>
    cases hbytes
    rw [if_pos hfirst] at hshape
    refine readChar_eq_ok_iff.mpr ⟨_, _, hshape, by cases more <;> rfl, ?_⟩
    show Char.ofNat first.toNat = c
    rw [← eq, Char.ofNat_toNat]
  | two hfirst second eq =>
    cases hbytes
    rw [if_neg (by omega), if_neg (by omega), if_pos (by omega)] at hshape
    exact readChar_of_tails [] hshape second.1 second.2 (by simp) eq more
  | @three _ b d hfirst second third long noSurrogate eq =>
    cases hbytes
    rw [if_neg (by omega), if_neg (by omega), if_neg (by omega), if_pos (by omega)] at hshape
    refine readChar_of_tails [d] hshape ?_ ?_ (by simpa using third) eq more
    · split
      · next hlong => exact long hlong
      · exact second.1
    · split
      · next hsurrogate => exact noSurrogate hsurrogate
      · exact second.2
  | @four _ b d e hfirst second third fourth long small eq =>
    cases hbytes
    rw [if_neg (by omega), if_neg (by omega), if_neg (by omega), if_neg (by omega),
      if_pos (by omega)] at hshape
    refine readChar_of_tails [d, e] hshape ?_ ?_ (by simpa using ⟨third, fourth⟩) eq more
    · split
      · next hlong => exact long hlong
      · exact second.1
    · split
      · next hlarge => exact small hlarge
      · exact second.2

/-- Bounds that are narrower under a condition. -/
theorem between_of_ite {p q : Prop} [Decidable p] [Decidable q] {low low' high high' b : UInt8}
    (hlow : (if p then low' else low).toNat ≤ b.toNat)
    (hhigh : b.toNat ≤ (if q then high' else high).toNat) (hlows : low ≤ low')
    (hhighs : high' ≤ high) :
    low.toNat ≤ b.toNat ∧ b.toNat ≤ high.toNat ∧ (p → low'.toNat ≤ b.toNat) ∧
      (q → b.toNat ≤ high'.toNat) := by
  rw [UInt8.le_iff_toNat_le] at hlows hhighs
  grind

/-- A first byte and those that go on with it spell a character. -/
theorem spellsCode_of_shape? {first low high b : UInt8} {tails : List UInt8}
    (hshape : shape? first = some (tails.length + 2, low, high)) (hlow : low.toNat ≤ b.toNat)
    (hhigh : b.toNat ≤ high.toNat) (htails : ∀ d ∈ tails, IsTail d) :
    SpellsCode (codeOf (tails.length + 2) first (b :: tails)) (first :: b :: tails) := by
  -- one range of first bytes after the other, each with the number of tails that it asks for
  rw [shape?_eq] at hshape
  split at hshape
  · cases hshape
  split at hshape
  · cases hshape
  split at hshape
  · simp only [Option.some.injEq, Prod.mk.injEq] at hshape
    obtain ⟨hlength, rfl, rfl⟩ := hshape
    obtain rfl : tails = [] := List.length_eq_zero_iff.mp (by omega)
    exact .two (by omega) ⟨hlow, hhigh⟩ rfl
  split at hshape
  · simp only [Option.some.injEq, Prod.mk.injEq] at hshape
    obtain ⟨hlength, rfl, rfl⟩ := hshape
    obtain ⟨d, rfl⟩ : ∃ d, tails = [d] := List.length_eq_one_iff.mp (by omega)
    obtain ⟨hfrom, hto, hlong, hsurrogate⟩ := between_of_ite hlow hhigh (by decide) (by decide)
    exact .three (by omega) ⟨hfrom, hto⟩ (htails d (by simp)) hlong hsurrogate rfl
  split at hshape
  · simp only [Option.some.injEq, Prod.mk.injEq] at hshape
    obtain ⟨hlength, rfl, rfl⟩ := hshape
    have htwo : tails.length = 1 + 1 := by omega
    obtain ⟨d, more, rfl⟩ := List.exists_cons_of_length_eq_add_one htwo
    obtain ⟨e, rfl⟩ : ∃ e, more = [e] := List.length_eq_one_iff.mp (by simpa using htwo)
    obtain ⟨hfrom, hto, hlong, hlarge⟩ := between_of_ite hlow hhigh (by decide) (by decide)
    exact .four (by omega) ⟨hfrom, hto⟩ (htails d (by simp)) (htails e (by simp)) hlong hlarge rfl
  · cases hshape

/-- Whatever is read as a character is spelled by its bytes. -/
theorem spellsCode_of_readChar {first : UInt8} {rest : List UInt8} {c : Char} {found : Nat}
    (h : readChar first rest = .ok (c, found)) :
    ∃ tail more, rest = tail ++ more ∧ tail.length = found ∧
      SpellsCode c.toNat (first :: tail) := by
  obtain ⟨low, high, hshape, hfound, rfl⟩ := readChar_eq_ok_iff.mp h
  cases found with
  | zero =>
    -- all other first bytes ask for at least one more
    have hfirst : first.toNat < 0x80 := by
      rw [shape?_eq] at hshape
      by_contra hlarge
      rw [if_neg hlarge] at hshape
      repeat' split at hshape
      all_goals simp at hshape
    have hspells : SpellsCode first.toNat [first] := .one hfirst rfl
    refine ⟨[], rest, rfl, rfl, ?_⟩
    exact hspells.toNat_ofNat.symm ▸ hspells
  | succ size =>
    obtain ⟨b, tails, more, rfl, hlow, hhigh, rfl, htails⟩ := exists_tails_of_matching hfound
    have hspells := spellsCode_of_shape? hshape hlow hhigh htails
    refine ⟨b :: tails, more, rfl, rfl, ?_⟩
    rw [List.take_succ_cons, List.take_left, hspells.toNat_ofNat]
    exact hspells

/-! ## Reading a text -/

theorem decodeFrom_skip (position skip : Nat) (bytes : List UInt8) (h : skip ≤ bytes.length) :
    decodeFrom position skip bytes = decodeFrom (position + skip) 0 (bytes.drop skip) := by
  induction bytes generalizing position skip with
  | nil =>
    obtain rfl : skip = 0 := by simpa using h
    rfl
  | cons b bytes ih =>
    cases skip with
    | zero => rfl
    | succ skip =>
      rw [decodeFrom, ih (position + 1) skip (by simpa using h), List.drop_succ_cons]
      congr 1
      omega

/-- A character in front of other bytes. -/
theorem decodeFrom_of_spellsCode {c : Char} {first : UInt8} {tail : List UInt8}
    (h : SpellsCode c.toNat (first :: tail)) (position : Nat) (more : List UInt8) :
    decodeFrom position 0 (first :: (tail ++ more)) =
      (decodeFrom (position + (tail.length + 1)) 0 more).map (c :: ·) := by
  rw [decodeFrom, readChar_of_spellsCode h more]
  simp only
  rw [decodeFrom_skip _ _ _ (by simp), List.drop_left, Nat.add_assoc, Nat.add_comm 1]

theorem decodeFrom_flatMap (position : Nat) (cs : List Char) :
    decodeFrom position 0 (cs.flatMap String.utf8EncodeChar) = .ok cs := by
  induction cs generalizing position with
  | nil => rfl
  | cons c cs ih =>
    have hspells := spellsCode_utf8EncodeChar c
    rw [List.flatMap_cons]
    generalize String.utf8EncodeChar c = bytes at hspells ⊢
    cases bytes with
    | nil => cases hspells
    | cons first tail =>
      rw [List.cons_append, decodeFrom_of_spellsCode hspells, ih]
      rfl

theorem eq_flatMap_of_decodeFrom {position : Nat} {bytes : List UInt8} {cs : List Char}
    (h : decodeFrom position 0 bytes = .ok cs) : bytes = cs.flatMap String.utf8EncodeChar := by
  -- several bytes go with a character, so the induction is on how many there are
  obtain ⟨size, hsize⟩ : ∃ size, bytes.length < size := ⟨_, Nat.lt_succ_self _⟩
  induction size generalizing position bytes cs with
  | zero => exact absurd hsize (Nat.not_lt_zero _)
  | succ size ih =>
    cases bytes with
    | nil =>
      cases h
      rfl
    | cons first rest =>
      cases hread : readChar first rest with
      | error fault => simp [decodeFrom, hread] at h
      | ok result =>
        obtain ⟨c, found⟩ := result
        obtain ⟨tail, more, rfl, rfl, hspells⟩ := spellsCode_of_readChar hread
        rw [decodeFrom_of_spellsCode hspells] at h
        cases hmore : decodeFrom (position + (tail.length + 1)) 0 more with
        | error fault =>
          rw [hmore] at h
          cases h
        | ok ds =>
          rw [hmore] at h
          cases h
          have hlength : more.length < size := by
            simp only [List.length_cons, List.length_append] at hsize
            omega
          rw [List.flatMap_cons, ← ih hmore hlength, ← spellsCode_iff.mp hspells,
            List.cons_append]

theorem toList_loop_eq (bytes : ByteArray) (i : Nat) (taken : List UInt8) :
    ByteArray.toList.loop bytes i taken = taken.reverse ++ bytes.data.toList.drop i := by
  fun_induction ByteArray.toList.loop bytes i taken with
  | case1 i taken hi ih =>
    have hlength : i < bytes.data.toList.length := by simpa using hi
    rw [ih, List.drop_eq_getElem_cons hlength]
    simp [ByteArray.get!, hi]
  | case2 i taken hi =>
    rw [List.drop_eq_nil_of_le (by simpa using Nat.le_of_not_lt hi), List.append_nil]

/-- The bytes that spell a text are those of its characters. -/
theorem encode_ofList (cs : List Char) :
    encode (String.ofList cs) = cs.flatMap String.utf8EncodeChar := by
  rw [encode, String.toUTF8_eq_toByteArray, ByteArray.toList, toList_loop_eq, List.reverse_nil,
    List.nil_append, List.drop_zero]
  exact List.toList_data_toByteArray

/-- Decoding gives a text for the bytes that spell it, and for no others. -/
theorem decode_eq_ok_iff {bytes : List UInt8} {cs : List Char} :
    decode bytes = .ok cs ↔ bytes = encode (String.ofList cs) := by
  rw [encode_ofList]
  constructor
  · exact eq_flatMap_of_decodeFrom
  · rintro rfl
    exact decodeFrom_flatMap 0 cs

theorem decode_encode (text : String) : decode (encode text) = .ok text.toList :=
  decode_eq_ok_iff.mpr (by rw [String.ofList_toList])

end LoxSyntax.Utf8
