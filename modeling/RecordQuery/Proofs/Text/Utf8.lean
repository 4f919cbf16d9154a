import RecordQuery.Text.Utf8

/-!
# Bytes read back from their text

* `utf8EncodeChar_two`, `utf8EncodeChar_three`, `utf8EncodeChar_four`: the bytes of the code point
  that some bytes make up.
* `PartialChar.Continues`: whatever bytes the partial character goes on with, they and those read
  before are the bytes of a character; `continues_of_firstByte`: the first byte of a longer
  character begins such a partial one.
* `decodeStrict?_eq_some_iff`: bytes decode to a text if they are the bytes of that text, and only
  then.
-/

namespace RecordQuery.Text

/-! ## The bytes of a code point -/

/-- The code point is no surrogate and none past the last one. -/
def IsScalar (n : Nat) : Prop := n < 0xD800 ∨ 0xDFFF < n ∧ n < 0x110000

theorem toNat_ofNat {n : Nat} (h : IsScalar n) : (Char.ofNat n).val.toNat = n := by
  have hvalid : n.isValidChar := h
  rw [Char.ofNat, dif_pos hvalid]
  rfl

theorem utf8EncodeChar_one {a : UInt8} (ha : a.toNat < 0x80) :
    String.utf8EncodeChar (Char.ofNat a.toNat) = [a] := by
  have hscalar : IsScalar a.toNat := .inl (by omega)
  rw [String.utf8EncodeChar, toNat_ofNat hscalar, if_pos (by omega)]
  simp

/-- A continuing byte. -/
def IsTail (b : UInt8) : Prop := 0x80 ≤ b.toNat ∧ b.toNat ≤ 0xBF

theorem utf8EncodeChar_two {a b : UInt8} {bits : Nat} (ha : 0xC2 ≤ a.toNat ∧ a.toNat < 0xE0)
    (hbits : bits = a.toNat % 0x20) (hb : IsTail b) :
    String.utf8EncodeChar (Char.ofNat (bits * 0x40 + b.toNat % 0x40)) = [a, b] := by
  unfold IsTail at hb
  have hscalar : IsScalar (bits * 0x40 + b.toNat % 0x40) := .inl (by omega)
  rw [String.utf8EncodeChar, toNat_ofNat hscalar, if_neg (by omega), if_pos (by omega)]
  simp only [List.cons.injEq, and_true, ← UInt8.toNat_inj, UInt8.toNat_ofNat']
  omega

theorem utf8EncodeChar_three {a b c : UInt8} {bits : Nat} (ha : 0xE0 ≤ a.toNat ∧ a.toNat < 0xF0)
    (hbits : bits = a.toNat % 0x10) (hb : IsTail b) (hc : IsTail c)
    (hlong : a.toNat = 0xE0 → 0xA0 ≤ b.toNat) (hsurrogate : a.toNat = 0xED → b.toNat ≤ 0x9F) :
    String.utf8EncodeChar
      (Char.ofNat ((bits * 0x40 + b.toNat % 0x40) * 0x40 + c.toNat % 0x40)) = [a, b, c] := by
  unfold IsTail at hb hc
  have hscalar : IsScalar ((bits * 0x40 + b.toNat % 0x40) * 0x40 + c.toNat % 0x40) := by
    unfold IsScalar
    omega
  rw [String.utf8EncodeChar, toNat_ofNat hscalar, if_neg (by omega), if_neg (by omega),
    if_pos (by omega)]
  simp only [List.cons.injEq, and_true, ← UInt8.toNat_inj, UInt8.toNat_ofNat']
  omega

theorem utf8EncodeChar_four {a b c d : UInt8} {bits : Nat} (ha : 0xF0 ≤ a.toNat ∧ a.toNat ≤ 0xF4)
    (hbits : bits = a.toNat % 0x08) (hb : IsTail b) (hc : IsTail c) (hd : IsTail d)
    (hlong : a.toNat = 0xF0 → 0x90 ≤ b.toNat) (hlast : a.toNat = 0xF4 → b.toNat ≤ 0x8F) :
    String.utf8EncodeChar
      (Char.ofNat (((bits * 0x40 + b.toNat % 0x40) * 0x40 + c.toNat % 0x40) * 0x40 +
        d.toNat % 0x40)) = [a, b, c, d] := by
  unfold IsTail at hb hc hd
  have hscalar : IsScalar (((bits * 0x40 + b.toNat % 0x40) * 0x40 + c.toNat % 0x40) * 0x40 +
      d.toNat % 0x40) := by
    unfold IsScalar
    omega
  rw [String.utf8EncodeChar, toNat_ofNat hscalar, if_neg (by omega), if_neg (by omega),
    if_neg (by omega)]
  simp only [List.cons.injEq, and_true, ← UInt8.toNat_inj, UInt8.toNat_ofNat']
  omega

/-! ## Characters that bytes have begun -/

/-- Whatever bytes a partial character goes on with, the bytes read before and they are the bytes of
the character that is read. -/
def Continues (bits : Nat) : (more : Nat) → (least greatest : Nat) → List UInt8 → Prop
  | 0, least, greatest, read => ∀ b : UInt8, least ≤ b.toNat → b.toNat ≤ greatest →
      String.utf8EncodeChar (Char.ofNat (bits * 0x40 + b.toNat % 0x40)) = read ++ [b]
  | n + 1, least, greatest, read => ∀ b : UInt8, least ≤ b.toNat → b.toNat ≤ greatest →
      Continues (bits * 0x40 + b.toNat % 0x40) n 0x80 0xBF (read ++ [b])

/-- What the first byte of a longer character says of the bytes after it. -/
theorem firstByte_cases {a : Nat} {p : PartialChar} (h : firstByte a = some (.inr p)) :
    0x80 ≤ p.least ∧ p.greatest ≤ 0xBF ∧
      (p.more = 0 ∧ (0xC2 ≤ a ∧ a < 0xE0) ∧ p.bits = a % 0x20 ∨
        p.more = 1 ∧ (0xE0 ≤ a ∧ a < 0xF0) ∧ p.bits = a % 0x10 ∧
          (a ≠ 0xE0 ∨ 0xA0 ≤ p.least) ∧ (a ≠ 0xED ∨ p.greatest ≤ 0x9F) ∨
        p.more = 2 ∧ (0xF0 ≤ a ∧ a ≤ 0xF4) ∧ p.bits = a % 0x08 ∧
          (a ≠ 0xF0 ∨ 0x90 ≤ p.least) ∧ (a ≠ 0xF4 ∨ p.greatest ≤ 0x8F)) := by
  unfold firstByte at h
  repeat' split at h
  all_goals cases h
  all_goals grind

/-- The first byte of a longer character begins a partial one. -/
theorem continues_of_firstByte {a : UInt8} {p : PartialChar}
    (h : firstByte a.toNat = some (.inr p)) : Continues p.bits p.more p.least p.greatest [a] := by
  obtain ⟨hleast, hgreatest, ⟨hmore, ha, hbits⟩ | ⟨hmore, ha, hbits, hlong, hsurrogate⟩ |
    ⟨hmore, ha, hbits, hlong, hlast⟩⟩ := firstByte_cases h
  · rw [hmore]
    intro b hb hb'
    exact utf8EncodeChar_two ha hbits ⟨by omega, by omega⟩
  · rw [hmore]
    intro b hb hb' c hc hc'
    exact utf8EncodeChar_three ha hbits ⟨by omega, by omega⟩ ⟨hc, hc'⟩ (by omega) (by omega)
  · rw [hmore]
    intro b hb hb' c hc hc' d hd hd'
    exact utf8EncodeChar_four ha hbits ⟨by omega, by omega⟩ ⟨hc, hc'⟩ ⟨hd, hd'⟩ (by omega) (by omega)

/-! ## Decoding -/

theorem utf8_cons (c : Char) (text : List Char) :
    utf8 (c :: text) = String.utf8EncodeChar c ++ utf8 text := by
  rw [utf8, List.flatMap_cons, utf8]

/-- The first byte of a text is a character of its own only if it is one of ASCII. -/
theorem eq_of_firstByte {b : UInt8} {c : Char} (h : firstByte b.toNat = some (.inl c)) :
    String.utf8EncodeChar c = [b] := by
  unfold firstByte at h
  repeat' split at h
  all_goals cases h
  exact utf8EncodeChar_one ‹_›

/-- Bytes that are read without an ill-formed piece are the bytes of what is read, with the bytes
before them if they go on with a character. -/
theorem utf8_of_decodeFrom (bytes : List UInt8) :
    (∀ text, decodeFrom none bytes = text.map some → utf8 text = bytes) ∧
      ∀ (p : PartialChar) (read : List UInt8) (text : List Char),
        Continues p.bits p.more p.least p.greatest read →
        decodeFrom (some p) bytes = text.map some → utf8 text = read ++ bytes := by
  -- Both states at once: a first byte leads into the middle of a character, a last one out of it.
  induction bytes with
  | nil =>
    refine ⟨fun text h => ?_, fun p read text _ h => ?_⟩
    · obtain rfl : text = [] := by simpa [decodeFrom] using h
      rfl
    · cases text <;> simp [decodeFrom] at h
  | cons b rest ih =>
    obtain ⟨ihnone, ihsome⟩ := ih
    constructor
    · intro text h
      simp only [decodeFrom] at h
      cases hb : firstByte b.toNat with
      | none =>
        rw [hb] at h
        cases text <;> simp at h
      | some start =>
        rw [hb] at h
        cases start with
        | inr p => exact ihsome p [b] text (continues_of_firstByte hb) h
        | inl c =>
          obtain ⟨d, text, rfl, ⟨⟩, hrest⟩ := List.map_eq_cons_iff.mp h.symm
          rw [utf8_cons, eq_of_firstByte hb, ihnone text hrest.symm, List.singleton_append]
    · rintro ⟨bits, more, least, greatest⟩ read text hp h
      by_cases hb : least ≤ b.toNat ∧ b.toNat ≤ greatest
      · cases more with
        | succ n =>
          simp only [decodeFrom, hb, and_self, if_true] at h
          rw [ihsome _ _ text (hp b hb.1 hb.2) h, List.append_assoc, List.singleton_append]
        | zero =>
          simp only [decodeFrom, hb, and_self, if_true] at h
          obtain ⟨d, text, rfl, ⟨⟩, hrest⟩ := List.map_eq_cons_iff.mp h.symm
          rw [utf8_cons, hp b hb.1 hb.2, ihnone text hrest.symm, List.append_assoc,
            List.singleton_append]
      · simp only [decodeFrom, hb, if_false] at h
        cases text <;> cases h

/-- A list of results all of which are there. -/
theorem mapM_id_eq_some_iff {α : Type} {xs : List (Option α)} {ys : List α} :
    xs.mapM id = some ys ↔ xs = ys.map some := by
  induction xs generalizing ys with
  | nil => cases ys <;> simp
  | cons x xs ih =>
    cases x with
    | none => cases ys <;> simp
    | some x =>
      cases ys with
      | nil => simp [Option.bind_eq_some_iff]
      | cons y ys => simp [Option.bind_eq_some_iff, ih, and_left_comm]

/-- Bytes decode to a text if they are its bytes, and only then. -/
theorem decodeStrict?_eq_some_iff {bytes : List UInt8} {text : List Char} :
    decodeStrict? bytes = some text ↔ utf8 text = bytes := by
  rw [decodeStrict?, mapM_id_eq_some_iff]
  constructor
  · exact (utf8_of_decodeFrom bytes).1 text
  · rintro rfl
    exact decodePieces_utf8 text

theorem utf8_injective : Function.Injective utf8 := by
  intro text text' h
  have hdecode := decodeStrict?_eq_some_iff.mpr h
  rwa [decodeStrict?_eq_some_iff.mpr rfl, Option.some_inj, eq_comm] at hdecode

end RecordQuery.Text
