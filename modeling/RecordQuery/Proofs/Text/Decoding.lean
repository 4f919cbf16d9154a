import RecordQuery.Proofs.Text.Pieces
import RecordQuery.Text.Form

/-!
# What form decoding changes

Decoding is done to names too, which are written as they are.

* `Text.decodeFrom_none_cons`, `Text.decodeFrom_some_cons`: what one byte does to the decoding of
  UTF-8. `Text.PartialChar.IsBegun` holds of every character that bytes have begun.
* `Text.escapeRec`: induction on a text by escapes and characters, as they are read.
* `Text.length_formDecode_le`, `Text.length_formDecode_lt`: decoding lengthens no text, and shortens
  those with escapes.
* `Text.formDecode_eq_self_iff`: it keeps exactly the texts without plus signs and escapes.
* `Text.formDecode_dollar`: what starts with a dollar sign afterwards did so before, or with `%24`.
* `Text.formPairs_append`, `Text.formPairs_intercalate_eq_flatMap`: the names and values of queries
  that are put together.
* `Text.formPairs_value_congr`: what is read from a name and a value hangs on the bytes of the value.
-/

namespace RecordQuery.Text

/-! ## Decoding UTF-8 byte by byte -/

/-- A character that bytes have begun goes on with bytes that begin none, and it will be none that a
single byte stands for. -/
structure PartialChar.IsBegun (p : PartialChar) : Prop where
  least : 0x80 ≤ p.least
  greatest : p.greatest ≤ 0xBF
  long : 2 ≤ p.bits ∨ 1 ≤ p.more ∧ (1 ≤ p.bits ∨ 0x90 ≤ p.least)

theorem isBegun_of_firstByte {b : Nat} {p : PartialChar} (h : firstByte b = some (.inr p)) :
    p.IsBegun := by
  unfold firstByte at h
  repeat' split at h
  all_goals cases h
  all_goals constructor <;> simp only <;> omega

/-- The first byte of a character: a whole one, the start of a longer one, or neither. -/
theorem decodeFrom_none_cons (b : UInt8) (rest : List UInt8) :
    (b.toNat < 0x80 ∧
        decodeFrom none (b :: rest) = some (Char.ofNat b.toNat) :: decodeFrom none rest) ∨
      (∃ p : PartialChar, p.IsBegun ∧ decodeFrom none (b :: rest) = decodeFrom (some p) rest) ∨
      decodeFrom none (b :: rest) = none :: decodeFrom none rest := by
  simp only [decodeFrom]
  cases h : firstByte b.toNat with
  | none => exact .inr (.inr rfl)
  | some start =>
    cases start with
    | inl c =>
      unfold firstByte at h
      repeat' split at h
      all_goals cases h
      exact .inl ⟨‹_›, rfl⟩
    | inr p => exact .inr (.inl ⟨p, isBegun_of_firstByte h, rfl⟩)

/-- A byte after the start of a character: it ends the character, goes on with it, or breaks it off
and is read afresh. -/
theorem decodeFrom_some_cons {p : PartialChar} (h : p.IsBegun) (b : UInt8) (rest : List UInt8) :
    (∃ n, 0x80 ≤ n ∧
        decodeFrom (some p) (b :: rest) = some (Char.ofNat n) :: decodeFrom none rest) ∨
      (∃ q : PartialChar, q.IsBegun ∧ decodeFrom (some p) (b :: rest) = decodeFrom (some q) rest) ∨
      decodeFrom (some p) (b :: rest) = none :: decodeFrom none (b :: rest) := by
  obtain ⟨bits, more, least, greatest⟩ := p
  obtain ⟨hleast, hgreatest, hlong⟩ := h
  simp only at hleast hgreatest hlong
  by_cases hb : least ≤ b.toNat ∧ b.toNat ≤ greatest
  · cases more with
    | zero =>
      refine .inl ⟨bits * 0x40 + b.toNat % 0x40, by omega, ?_⟩
      simp only [decodeFrom, hb, and_self, if_true]
    | succ n =>
      refine .inr (.inl ⟨⟨bits * 0x40 + b.toNat % 0x40, n, 0x80, 0xBF⟩, ⟨?_, ?_, ?_⟩, ?_⟩)
      · exact Nat.le_refl _
      · exact Nat.le_refl _
      · simp only
        omega
      · simp only [decodeFrom, hb, and_self, if_true]
  · exact .inr (.inr (by simp only [decodeFrom, hb, if_false]))

theorem utf8EncodeChar_first (c : Char) :
    ∃ b rest, String.utf8EncodeChar c = b :: rest ∧ (b.toNat < 0x80 ∨ 0xC0 ≤ b.toNat) := by
  have valid : c.toNat < 0xD800 ∨ 0xDFFF < c.toNat ∧ c.toNat < 0x110000 := c.valid
  unfold String.utf8EncodeChar
  rw [show c.val.toNat = c.toNat from rfl]
  simp only
  repeat' split
  all_goals
    refine ⟨_, _, rfl, ?_⟩
    simp only [UInt8.toNat_ofNat']
    omega

/-- A character breaks off one that bytes have begun. -/
theorem decodeFrom_some_utf8EncodeChar {p : PartialChar} (h : p.IsBegun) (c : Char)
    (rest : List UInt8) :
    decodeFrom (some p) (String.utf8EncodeChar c ++ rest) =
      none :: some c :: decodeFrom none rest := by
  rw [← decodeFrom_utf8EncodeChar c rest]
  obtain ⟨b, bytes, hbytes, hfirst⟩ := utf8EncodeChar_first c
  have hout : ¬(p.least ≤ b.toNat ∧ b.toNat ≤ p.greatest) := by
    have := h.least
    have := h.greatest
    omega
  rw [hbytes, List.cons_append]
  simp only [decodeFrom, hout, if_false]

/-! ## Escapes -/

/-- The text starts with a percent sign before two hexadecimal digits. -/
def startsEscape : List Char → Bool
  | '%' :: high :: low :: _ => (hexValue? high).isSome && (hexValue? low).isSome
  | _ => false

/-- Somewhere in the text a percent sign stands before two hexadecimal digits. -/
def HasEscape (text : List Char) : Prop :=
  ∃ high low, (hexValue? high).isSome ∧ (hexValue? low).isSome ∧ ['%', high, low] <:+: text

/-- What a character outside an escape stands for. -/
def plusToBlank (c : Char) : Char := if c = '+' then ' ' else c

theorem hasEscape_cons {c : Char} {rest : List Char} :
    HasEscape (c :: rest) ↔ startsEscape (c :: rest) = true ∨ HasEscape rest := by
  constructor
  · rintro ⟨high, low, hhigh, hlow, hinfix⟩
    rcases List.infix_cons_iff.mp hinfix with ⟨after, hprefix⟩ | hinfix
    · left
      rw [← hprefix]
      simp [startsEscape, hhigh, hlow]
    · exact .inr ⟨high, low, hhigh, hlow, hinfix⟩
  · rintro (hstart | ⟨high, low, hhigh, hlow, hinfix⟩)
    · unfold startsEscape at hstart
      split at hstart
      · rename_i high low after heq
        obtain ⟨hhigh, hlow⟩ := Bool.and_eq_true_iff.mp hstart
        exact ⟨high, low, hhigh, hlow, heq ▸ List.infix_append [] ['%', high, low] after⟩
      · cases hstart
    · exact ⟨high, low, hhigh, hlow, hinfix.trans (List.suffix_cons c rest).isInfix⟩

theorem not_hasEscape_nil : ¬HasEscape [] := by
  rintro ⟨high, low, -, -, hinfix⟩
  cases List.infix_nil.mp hinfix

instance decidableHasEscape : (text : List Char) → Decidable (HasEscape text)
  | [] => isFalse not_hasEscape_nil
  | c :: rest =>
    have := decidableHasEscape rest
    decidable_of_iff (startsEscape (c :: rest) = true ∨ HasEscape rest) hasEscape_cons.symm

theorem formBytes_escape {high low : Char} {h l : Nat} (hhigh : hexValue? high = some h)
    (hlow : hexValue? low = some l) (rest : List Char) :
    formBytes ('%' :: high :: low :: rest) = UInt8.ofNat (16 * h + l) :: formBytes rest := by
  simp only [formBytes, hhigh, hlow]

theorem formBytes_plusToBlank {c : Char} {rest : List Char}
    (h : startsEscape (c :: rest) = false) :
    formBytes (c :: rest) = String.utf8EncodeChar (plusToBlank c) ++ formBytes rest := by
  by_cases plus : c = '+'
  · subst plus
    rfl
  · rw [plusToBlank, if_neg plus]
    by_cases percent : c = '%'
    · subst percent
      match rest, h with
      | [], _ => rfl
      | [_], _ => rfl
      | high :: low :: rest, h =>
        simp only [startsEscape] at h
        rw [formBytes]
        split
        · rename_i hhigh hlow
          simp [hhigh, hlow] at h
        · rfl
    · exact formBytes_of_ne plus percent rest

/-- A text is read by escapes and by single characters. -/
theorem escapeRec {motive : List Char → Prop} (nil : motive [])
    (escape : ∀ high low h l rest, hexValue? high = some h → hexValue? low = some l → motive rest →
      motive ('%' :: high :: low :: rest))
    (plain : ∀ c rest, startsEscape (c :: rest) = false → motive rest → motive (c :: rest))
    (text : List Char) : motive text := by
  induction text using formBytes.induct with
  | case1 => exact nil
  | case2 rest ih => exact plain _ _ rfl ih
  | case3 high low rest h l hlow hhigh ih => exact escape high low h l rest hhigh hlow ih
  | case4 high low rest hnone ih =>
    refine plain _ _ ?_ ih
    cases hhigh : hexValue? high with
    | none => simp [startsEscape, hhigh]
    | some h =>
      cases hlow : hexValue? low with
      | none => simp [startsEscape, hlow]
      | some l => exact (hnone h l hhigh hlow).elim
  | case5 c rest hplus hpercent ih =>
    refine plain _ _ ?_ ih
    unfold startsEscape
    split
    · rename_i heq
      cases heq
      exact (hpercent _ _ _ rfl rfl).elim
    · rfl

/-- No escape goes on with what is no hexadecimal digit. -/
theorem startsEscape_append {c : Char} (h : hexValue? c = none) (d : Char) (before rest : List Char) :
    startsEscape (d :: before ++ c :: rest) = startsEscape (d :: before) := by
  by_cases percent : d = '%'
  · subst percent
    match before with
    | [] => cases rest <;> simp [startsEscape, h]
    | [high] => simp [startsEscape, h]
    | high :: low :: before => rfl
  · simp [startsEscape, percent]

/-- What stands before a character that is no hexadecimal digit is read on its own. -/
theorem formBytes_append {c : Char} (h : hexValue? c = none) (before rest : List Char) :
    formBytes (before ++ c :: rest) = formBytes before ++ formBytes (c :: rest) := by
  induction before using escapeRec with
  | nil => rfl
  | escape high low n l before hhigh hlow ih =>
    simp only [List.cons_append, formBytes_escape hhigh hlow, ih]
  | plain d before hstart ih =>
    have hstart' := (startsEscape_append h d before rest).trans hstart
    rw [List.cons_append] at hstart' ⊢
    rw [formBytes_plusToBlank hstart', formBytes_plusToBlank hstart, ih, List.append_assoc]

/-! ## Lengths -/

/-- The bytes are decoded to so many characters at most, and to one more if a character that was
begun before them is broken off. -/
structure DecodesWithin (bytes : List UInt8) (n : Nat) : Prop where
  fresh : (decodeFrom none bytes).length ≤ n
  begun : ∀ p : PartialChar, p.IsBegun → (decodeFrom (some p) bytes).length ≤ n + 1

namespace DecodesWithin

variable {bytes : List UInt8} {n : Nat} (h : DecodesWithin bytes n)

theorem nil : DecodesWithin [] 0 where
  fresh := Nat.le_refl _
  begun := fun _ _ => Nat.le_refl _

include h

theorem mono {m : Nat} (hle : n ≤ m) : DecodesWithin bytes m where
  fresh := Nat.le_trans h.fresh hle
  begun := fun p hp => Nat.le_trans (h.begun p hp) (Nat.succ_le_succ hle)

theorem cons (b : UInt8) : DecodesWithin (b :: bytes) (n + 1) := by
  have hfresh : (decodeFrom none (b :: bytes)).length ≤ n + 1 := by
    obtain ⟨-, heq⟩ | ⟨p, hp, heq⟩ | heq := decodeFrom_none_cons b bytes
    · rw [heq]
      exact Nat.succ_le_succ h.fresh
    · rw [heq]
      exact h.begun p hp
    · rw [heq]
      exact Nat.succ_le_succ h.fresh
  refine ⟨hfresh, fun p hp => ?_⟩
  obtain ⟨_, -, heq⟩ | ⟨q, hq, heq⟩ | heq := decodeFrom_some_cons hp b bytes
  · rw [heq]
    exact Nat.le_succ_of_le (Nat.succ_le_succ h.fresh)
  · rw [heq]
    exact Nat.le_succ_of_le (h.begun q hq)
  · rw [heq]
    exact Nat.succ_le_succ hfresh

theorem char (c : Char) : DecodesWithin (String.utf8EncodeChar c ++ bytes) (n + 1) where
  fresh := by
    rw [decodeFrom_utf8EncodeChar]
    exact Nat.succ_le_succ h.fresh
  begun := fun p hp => by
    rw [decodeFrom_some_utf8EncodeChar hp]
    exact Nat.succ_le_succ (Nat.succ_le_succ h.fresh)

end DecodesWithin

/-- The bytes of a text make no more characters than it has. -/
theorem decodesWithin_formBytes (text : List Char) :
    DecodesWithin (formBytes text) text.length := by
  induction text using escapeRec with
  | nil => exact .nil
  | escape high low h l rest hhigh hlow ih =>
    rw [formBytes_escape hhigh hlow]
    exact (ih.cons _).mono (by simp)
  | plain c rest hstart ih =>
    rw [formBytes_plusToBlank hstart]
    exact ih.char _

/-- An escape takes three characters to write one byte. -/
theorem decodesWithin_of_hasEscape {text : List Char} (h : HasEscape text) :
    ∃ n < text.length, DecodesWithin (formBytes text) n := by
  induction text using escapeRec with
  | nil => exact absurd h not_hasEscape_nil
  | escape high low h l rest hhigh hlow ih =>
    rw [formBytes_escape hhigh hlow]
    exact ⟨rest.length + 1, by simp, (decodesWithin_formBytes rest).cons _⟩
  | plain c rest hstart ih =>
    obtain ⟨n, hn, hwithin⟩ := ih ((hasEscape_cons.mp h).resolve_left (by simp [hstart]))
    rw [formBytes_plusToBlank hstart]
    exact ⟨n + 1, by simpa using hn, hwithin.char _⟩

theorem length_formDecode (text : List Char) :
    (formDecode text).length = (decodeFrom none (formBytes text)).length :=
  List.length_map _

theorem length_formDecode_le (text : List Char) : (formDecode text).length ≤ text.length := by
  rw [length_formDecode]
  exact (decodesWithin_formBytes text).fresh

theorem length_formDecode_lt {text : List Char} (h : HasEscape text) :
    (formDecode text).length < text.length := by
  obtain ⟨n, hn, hwithin⟩ := decodesWithin_of_hasEscape h
  rw [length_formDecode]
  exact Nat.lt_of_le_of_lt hwithin.fresh hn

/-! ## Texts that are kept -/

theorem formDecode_eq_map {text : List Char} (h : ¬HasEscape text) :
    formDecode text = text.map plusToBlank := by
  have hbytes : formBytes text = utf8 (text.map plusToBlank) := by
    induction text with
    | nil => rfl
    | cons c rest ih =>
      obtain ⟨hstart, hrest⟩ := not_or.mp (mt hasEscape_cons.mpr h)
      rw [formBytes_plusToBlank ((Bool.not_eq_true _).mp hstart), ih hrest]
      rfl
  rw [formDecode, hbytes, decodeLossy_utf8]

theorem formDecode_eq_self_iff {text : List Char} :
    formDecode text = text ↔ '+' ∉ text ∧ ¬HasEscape text := by
  constructor
  · intro heq
    have hescape : ¬HasEscape text := by
      intro hescape
      have hlt := length_formDecode_lt hescape
      rw [heq] at hlt
      exact Nat.lt_irrefl _ hlt
    refine ⟨fun hplus => ?_, hescape⟩
    rw [formDecode_eq_map hescape] at heq
    have hid : text.map plusToBlank = text.map id := by rw [heq, List.map_id]
    have hblank : plusToBlank '+' = '+' := List.map_inj_left.mp hid '+' hplus
    revert hblank
    decide
  · rintro ⟨hplus, hescape⟩
    have hid : text.map plusToBlank = text.map id := by
      refine List.map_congr_left fun c hc => ?_
      have hne : c ≠ '+' := by
        rintro rfl
        exact hplus hc
      rw [plusToBlank, if_neg hne]
      rfl
    rw [formDecode_eq_map hescape, hid, List.map_id]

/-! ## Dollar signs -/

theorem ofNat_ne_dollar {n : Nat} (h : n ≠ 0x24) : Char.ofNat n ≠ '$' := by
  intro heq
  by_cases hvalid : n.isValidChar
  · rw [Char.ofNat, dif_pos hvalid] at heq
    exact h (congrArg Char.toNat heq)
  · rw [Char.ofNat, dif_neg hvalid] at heq
    revert heq
    decide

/-- What bytes begin, and a single byte does not, is no dollar sign. -/
theorem decodeFrom_some_dollar {p : PartialChar} (h : p.IsBegun) (bytes : List UInt8) :
    (decodeFrom (some p) bytes).head? ≠ some (some '$') := by
  induction bytes generalizing p with
  | nil => simp [decodeFrom]
  | cons b rest ih =>
    obtain ⟨n, hn, heq⟩ | ⟨q, hq, heq⟩ | heq := decodeFrom_some_cons h b rest
    · rw [heq]
      simpa using ofNat_ne_dollar (by omega)
    · rw [heq]
      exact ih hq
    · rw [heq]
      simp

/-- What starts with a dollar sign after decoding did so before, or with the escape of one. -/
theorem formDecode_dollar {text : List Char} (h : (formDecode text).head? = some '$') :
    text.head? = some '$' ∨ ['%', '2', '4'] <+: text := by
  have hhead : (decodeFrom none (formBytes text)).head? = some (some '$') := by
    rw [formDecode, decodeLossy, List.head?_map] at h
    obtain ⟨piece, hpiece, hdollar⟩ := Option.map_eq_some_iff.mp h
    cases piece with
    | none => exact absurd hdollar (by decide)
    | some c =>
      rw [← hdollar]
      exact hpiece
  clear h
  induction text using escapeRec with
  | nil => cases hhead
  | escape high low n l rest hhigh hlow _ =>
    obtain ⟨hn, hnDigit⟩ := hexValue?_bounds hhigh
    obtain ⟨hl, hlDigit⟩ := hexValue?_bounds hlow
    have hbyte : (UInt8.ofNat (16 * n + l)).toNat = 16 * n + l :=
      UInt8.toNat_ofNat_of_lt' (show 16 * n + l < 256 by omega)
    rw [formBytes_escape hhigh hlow] at hhead
    obtain ⟨-, heq⟩ | ⟨p, hp, heq⟩ | heq :=
      decodeFrom_none_cons (UInt8.ofNat (16 * n + l)) (formBytes rest)
    · rw [heq, hbyte] at hhead
      have hdollar : 16 * n + l = 0x24 := Decidable.byContradiction fun hne =>
        ofNat_ne_dollar hne (Option.some.inj (Option.some.inj hhead))
      obtain rfl : high = '2' := Char.toNat_inj.mp (by rw [hnDigit (by omega)]; simp; omega)
      obtain rfl : low = '4' := Char.toNat_inj.mp (by rw [hlDigit (by omega)]; simp; omega)
      exact .inr ⟨rest, rfl⟩
    · rw [heq] at hhead
      exact absurd hhead (decodeFrom_some_dollar hp _)
    · rw [heq] at hhead
      cases hhead
  | plain c rest hstart _ =>
    rw [formBytes_plusToBlank hstart, decodeFrom_utf8EncodeChar] at hhead
    have hdollar : plusToBlank c = '$' := Option.some.inj (Option.some.inj hhead)
    unfold plusToBlank at hdollar
    split at hdollar
    · exact absurd hdollar (by decide)
    · exact .inl (congrArg some hdollar)

/-! ## Queries -/

theorem formPairs_append (before after : List Char) :
    formPairs (before ++ '&' :: after) = formPairs before ++ formPairs after := by
  simp only [formPairs, List.splitOn_append_cons_self, List.filter_append, List.map_append]

/-- A query of pieces with `&` between them has the names and values of all pieces, which may be
parted themselves. -/
theorem formPairs_intercalate_eq_flatMap (pieces : List (List Char)) :
    formPairs (List.intercalate ['&'] pieces) = pieces.flatMap formPairs := by
  by_cases hnil : pieces = []
  · subst hnil
    rfl
  · rw [formPairs, splitOn_intercalate_eq_flatMap '&' hnil, List.filter_flatMap, List.map_flatMap]
    rfl

theorem formPairs_singleton {piece : List Char} (h : '&' ∉ piece) (hne : piece ≠ []) :
    formPairs piece = [(formDecode (formPair piece).1, formDecode (formPair piece).2)] := by
  simp [formPairs, List.splitOn_eq_singleton h, hne]

/-- A name goes on to the first `=` at most. -/
theorem formPair_name (name value : List Char) :
    (formPair (name ++ '=' :: value)).1 = name.takeWhile (· ≠ '=') := by
  rw [formPair, List.takeWhile_append]
  split
  · rename_i hall
    rw [(List.takeWhile_prefix _).eq_of_length hall]
    simp
  · rfl

/-- The value of a piece is what follows the name, after what the name leaves of itself past its
first `=`. -/
theorem formPair_value (name : List Char) :
    (∀ value, (formPair (name ++ '=' :: value)).2 = value) ∨
      ∃ left, ∀ value, (formPair (name ++ '=' :: value)).2 = left ++ '=' :: value := by
  by_cases hequals : '=' ∈ name
  · obtain ⟨before, left, rfl, hbefore⟩ := List.eq_append_cons_of_mem hequals
    refine .inr ⟨left, fun value => ?_⟩
    rw [List.append_assoc, List.cons_append, formPair_append hbefore]
  · exact .inl fun value => by rw [formPair_append hequals]

section SameBytes

variable (name : List Char) {value value' : List Char} (hbytes : formBytes value = formBytes value')
include hbytes

theorem formDecode_formPair_value_congr :
    formDecode (formPair (name ++ '=' :: value)).2 =
      formDecode (formPair (name ++ '=' :: value')).2 := by
  obtain hvalue | ⟨left, hvalue⟩ := formPair_value name
  · rw [hvalue, hvalue, formDecode, formDecode, hbytes]
  · have hequals : formBytes ('=' :: value) = formBytes ('=' :: value') := by
      rw [formBytes_of_ne (by decide) (by decide), formBytes_of_ne (by decide) (by decide), hbytes]
    rw [hvalue, hvalue, formDecode, formDecode, formBytes_append (by decide),
      formBytes_append (by decide), hequals]

/-- What is read from a name and a value hangs on the bytes of the value only, as long as the value
is not parted. The name may be. -/
theorem formPairs_value_congr (h : '&' ∉ value) (h' : '&' ∉ value') :
    formPairs (name ++ '=' :: value) = formPairs (name ++ '=' :: value') := by
  have hwhole : ∀ last, '&' ∉ last →
      formPairs (last ++ '=' :: value) = formPairs (last ++ '=' :: value') := by
    intro last hlast
    rw [formPairs_singleton (by simp [hlast, h]) (by simp),
      formPairs_singleton (by simp [hlast, h']) (by simp), formPair_name, formPair_name,
      formDecode_formPair_value_congr last hbytes]
  obtain hname | ⟨before, last, rfl, hlast⟩ := exists_last_piece '&' name
  · exact hwhole name hname
  · rw [List.append_assoc, List.append_assoc, List.cons_append, List.cons_append, formPairs_append,
      formPairs_append, hwhole last hlast]

end SameBytes

theorem length_le_of_mem_splitOn {text piece : List Char} (h : piece ∈ text.splitOn '&') :
    piece.length ≤ text.length :=
  ((sublist_of_mem_splitOnP h).trans List.filter_sublist).length_le

theorem length_name_le {query : List Char} {pair : List Char × List Char}
    (h : pair ∈ formPairs query) : pair.1.length ≤ query.length := by
  obtain ⟨piece, hpiece, rfl⟩ := List.mem_map.mp h
  calc (formDecode (formPair piece).1).length ≤ (formPair piece).1.length := length_formDecode_le _
    _ ≤ piece.length := (List.takeWhile_prefix _).length_le
    _ ≤ query.length := length_le_of_mem_splitOn (List.mem_filter.mp hpiece).1

/-- Without `&` there is one name, up to the first `=`. -/
theorem name_of_mem_formPairs {name value : List Char} (hname : '&' ∉ name) (hvalue : '&' ∉ value)
    {pair : List Char × List Char} (h : pair ∈ formPairs (name ++ '=' :: value)) :
    pair.1 = formDecode (name.takeWhile (· ≠ '=')) := by
  have hsplit : '&' ∉ name ++ '=' :: value := by simp [hname, hvalue]
  rw [formPairs_singleton hsplit (by simp), List.mem_singleton] at h
  rw [h, formPair_name]

/-- A name with a separator is parted, or ends early: no name that is read is as long. -/
theorem length_name_lt {name value : List Char} (hvalue : '&' ∉ value)
    (hname : '&' ∈ name ∨ '=' ∈ name) {pair : List Char × List Char}
    (h : pair ∈ formPairs (name ++ '=' :: value)) : pair.1.length < name.length := by
  obtain hampersand | ⟨before, last, rfl, hlast⟩ := exists_last_piece '&' name
  · obtain ⟨before, after, rfl, hbefore⟩ :=
      List.eq_append_cons_of_mem (hname.resolve_left hampersand)
    have hbefore : (before ++ '=' :: after).takeWhile (· ≠ '=') = before :=
      congrArg Prod.fst (formPair_append hbefore after)
    rw [name_of_mem_formPairs hampersand hvalue h, hbefore]
    have hle := length_formDecode_le before
    rw [List.length_append, List.length_cons]
    omega
  · -- The last `&` parts the name from the piece that goes on with the value.
    rw [List.append_assoc, List.cons_append, formPairs_append] at h
    rw [List.length_append, List.length_cons]
    rcases List.mem_append.mp h with h | h
    · have hle := length_name_le h
      omega
    · rw [name_of_mem_formPairs hlast hvalue h]
      have hle := length_formDecode_le (last.takeWhile (· ≠ '='))
      have hprefix := (List.takeWhile_prefix (l := last) (· ≠ '=')).length_le
      omega

end RecordQuery.Text
