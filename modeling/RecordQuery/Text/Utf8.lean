/-!
# UTF-8

* `Text.utf8`: the bytes of a text.
* `Text.decodePieces`: the characters that bytes encode, with `none` for each ill-formed piece:
  the longest start of a character that breaks off, or a byte that starts none.
* `Text.decodeStrict?`: the text that bytes encode, if all of them are well formed.
* `Text.decodeLossy`: the text with U+FFFD in place of each ill-formed piece.
* `Text.decodePieces_utf8`: a text is read back from its bytes.
-/

namespace RecordQuery.Text

/-- The bytes of a text. -/
def utf8 (text : List Char) : List UInt8 := text.flatMap String.utf8EncodeChar

/-- A character of which some bytes have been read. -/
structure PartialChar where
  /-- the bits read so far -/
  bits : Nat
  /-- how many bytes follow the next one -/
  more : Nat
  /-- the next byte is at least this -/
  least : Nat := 0x80
  /-- the next byte is at most this -/
  greatest : Nat := 0xBF
deriving DecidableEq

/-- What a byte at the start of a character means: a whole character, the start of a longer one,
or nothing. The bounds on the second byte keep out overlong forms, surrogates and code points
past U+10FFFF. -/
def firstByte (b : Nat) : Option (Char ⊕ PartialChar) :=
  if b < 0x80 then some (.inl (Char.ofNat b))
  else if b < 0xC2 then none
  else if b < 0xE0 then some (.inr { bits := b % 0x20, more := 0 })
  else if b = 0xE0 then some (.inr { bits := 0, more := 1, least := 0xA0 })
  else if b = 0xED then some (.inr { bits := 0xD, more := 1, greatest := 0x9F })
  else if b < 0xF0 then some (.inr { bits := b % 0x10, more := 1 })
  else if b = 0xF0 then some (.inr { bits := 0, more := 2, least := 0x90 })
  else if b = 0xF4 then some (.inr { bits := 4, more := 2, greatest := 0x8F })
  else if b < 0xF4 then some (.inr { bits := b % 0x08, more := 2 })
  else none

/-- Reads on after the start of a character, if one has been begun. A byte that cannot continue
it ends an ill-formed piece and is read afresh. -/
def decodeFrom : Option PartialChar → List UInt8 → List (Option Char)
  | none, [] => []
  | some _, [] => [none]
  | state, byte :: rest =>
    let b := byte.toNat
    let fresh := fun (_ : Unit) => match firstByte b with
      | some (.inl c) => some c :: decodeFrom none rest
      | some (.inr p) => decodeFrom (some p) rest
      | none => none :: decodeFrom none rest
    match state with
    | none => fresh ()
    | some p =>
      if p.least ≤ b ∧ b ≤ p.greatest then
        let bits := p.bits * 0x40 + b % 0x40
        match p.more with
        | 0 => some (Char.ofNat bits) :: decodeFrom none rest
        | n + 1 => decodeFrom (some { bits, more := n }) rest
      else none :: fresh ()

/-- The characters that the bytes encode, with `none` for each ill-formed piece. -/
def decodePieces (bytes : List UInt8) : List (Option Char) := decodeFrom none bytes

/-- The text that the bytes encode, if they are well formed throughout. -/
def decodeStrict? (bytes : List UInt8) : Option (List Char) := (decodePieces bytes).mapM id

/-- The text that the bytes encode, with U+FFFD in place of each ill-formed piece. -/
def decodeLossy (bytes : List UInt8) : List Char :=
  (decodePieces bytes).map fun c => c.getD '\uFFFD'

/-! ## Reading back -/

private theorem ofNat_eq_of_toNat {c : Char} {n : Nat} (h : n = c.toNat) : Char.ofNat n = c := by
  rw [h, Char.ofNat_toNat]

private theorem toNat_ofNat_byte {n : Nat} (h : n < 256) : (UInt8.ofNat n).toNat = n := by
  simp [Nat.mod_eq_of_lt h]

theorem decodeFrom_first {b : Nat} {p : PartialChar} (h : firstByte b = some (.inr p)) (hb : b < 256)
    (rest : List UInt8) :
    decodeFrom none (UInt8.ofNat b :: rest) = decodeFrom (some p) rest := by
  simp only [decodeFrom, toNat_ofNat_byte hb, h]

theorem decodeFrom_middle {b bits n least greatest : Nat} (h : least ≤ b ∧ b ≤ greatest)
    (hb : b < 256) (rest : List UInt8) :
    decodeFrom (some { bits, more := n + 1, least, greatest }) (UInt8.ofNat b :: rest) =
      decodeFrom (some { bits := bits * 0x40 + b % 0x40, more := n }) rest := by
  simp only [decodeFrom, toNat_ofNat_byte hb, h, and_self, if_true]

theorem decodeFrom_last {b bits least greatest : Nat} (h : least ≤ b ∧ b ≤ greatest)
    (hb : b < 256) (rest : List UInt8) :
    decodeFrom (some { bits, more := 0, least, greatest }) (UInt8.ofNat b :: rest) =
      some (Char.ofNat (bits * 0x40 + b % 0x40)) :: decodeFrom none rest := by
  simp only [decodeFrom, toNat_ofNat_byte hb, h, and_self, if_true]

/-- The first byte of a character of two bytes. -/
private theorem firstByte_two :
    ∀ n < 0x20, 2 ≤ n → firstByte (n + 0xC0) = some (.inr { bits := n, more := 0 }) := by decide

private theorem firstByte_three : ∀ n < 0x10, firstByte (n + 0xE0) =
    some (.inr ⟨n, 1, if n = 0 then 0xA0 else 0x80, if n = 0xD then 0x9F else 0xBF⟩) := by decide

private theorem firstByte_four : ∀ n < 5, firstByte (n + 0xF0) =
    some (.inr ⟨n, 2, if n = 0 then 0x90 else 0x80, if n = 4 then 0x8F else 0xBF⟩) := by decide

/-- The bytes of a character are read as that character, whatever follows. -/
theorem decodeFrom_utf8EncodeChar (c : Char) (rest : List UInt8) :
    decodeFrom none (String.utf8EncodeChar c ++ rest) = some c :: decodeFrom none rest := by
  have valid : c.toNat < 0xD800 ∨ 0xDFFF < c.toNat ∧ c.toNat < 0x110000 := c.valid
  unfold String.utf8EncodeChar
  rw [show c.val.toNat = c.toNat from rfl]
  simp only
  split
  · simp only [List.cons_append, List.nil_append, decodeFrom, firstByte,
      @toNat_ofNat_byte c.toNat (by omega)]
    rw [if_pos (by omega)]
    simp
  · split
    · simp only [List.cons_append, List.nil_append]
      rw [decodeFrom_first (firstByte_two _ (by omega) (by omega)) (by omega),
        decodeFrom_last, ofNat_eq_of_toNat]
      all_goals omega
    · split
      · have second : (if c.toNat / 4096 % 0x10 = 0 then 0xA0 else 0x80) ≤
            c.toNat / 64 % 64 + 0x80 ∧ c.toNat / 64 % 64 + 0x80 ≤
            (if c.toNat / 4096 % 0x10 = 0xD then 0x9F else 0xBF) := by
          constructor <;> split <;> omega
        simp only [List.cons_append, List.nil_append]
        rw [decodeFrom_first (firstByte_three _ (by omega)) (by omega), decodeFrom_middle second,
          decodeFrom_last, ofNat_eq_of_toNat]
        all_goals omega
      · have second : (if c.toNat / 262144 % 0x08 = 0 then 0x90 else 0x80) ≤
            c.toNat / 4096 % 64 + 0x80 ∧ c.toNat / 4096 % 64 + 0x80 ≤
            (if c.toNat / 262144 % 0x08 = 4 then 0x8F else 0xBF) := by
          constructor <;> split <;> omega
        simp only [List.cons_append, List.nil_append]
        rw [decodeFrom_first (firstByte_four _ (by omega)) (by omega), decodeFrom_middle second,
          decodeFrom_middle, decodeFrom_last, ofNat_eq_of_toNat]
        all_goals omega

theorem decodePieces_utf8 (text : List Char) : decodePieces (utf8 text) = text.map some := by
  induction text with
  | nil => rfl
  | cons c rest ih =>
    simp only [decodePieces, utf8, List.flatMap_cons, List.map_cons] at *
    rw [decodeFrom_utf8EncodeChar, ih]

/-- A text comes back from its bytes. -/
theorem decodeLossy_utf8 (text : List Char) : decodeLossy (utf8 text) = text := by
  simp [decodeLossy, decodePieces_utf8, Function.comp_def]

end RecordQuery.Text
