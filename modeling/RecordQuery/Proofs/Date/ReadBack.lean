import RecordQuery.Date.Reader
import RecordQuery.Proofs.Number.ReadBack

/-!
# Dates read back from their text

* `Day.isValid_ofNumber`: the day with any number is a day of the calendar.
* `Instant.IsRegular`, `Instant.IsExact`: the instants of the calendar, and those whose text leaves
  nothing out. A leap second of the calendar ends a minute, but an instant may be in one after any
  second.
* `read?_isRegular`: every date that is read is an instant of the calendar.
* `readDigits?_padded`: a number filled up with zeros is read back.
* `read?_text`: so an exact instant is read back from its text.
* `Instant.told`: the instant that the text of any instant tells, `read?_text_told`.
-/

namespace RecordQuery.Date

/-! ## The day with a number -/

/-- Only a year before a leap day has 366 days, if years begin in March. -/
theorem leap_of_last_day {day : Nat} (h : day < 146097)
    (hlast : daysBeforeYear (yearOfDay day) + 365 ≤ day) :
    (yearOfDay day + 1) % 4 = 0 ∧
      ((yearOfDay day + 1) % 100 ≠ 0 ∨ (yearOfDay day + 1) % 400 = 0) := by
  obtain ⟨century, cycle, year, rest, hyearOfDay, hday, hcentury, hcycle, hyear, hrest, hlong⟩ :=
    exists_yearOfDay_eq h
  rw [hyearOfDay, daysBeforeYear_eq century hcycle hyear] at hlast
  rw [hyearOfDay]
  obtain ⟨hyear, hcycle⟩ := hlong (by omega)
  omega

/-- The months up to January, counted from March, have the same days in every year. -/
theorem daysInMonth_of_march (year : Int) {month : Nat} (h : month < 11) :
    daysBeforeMonth month + daysInMonth year ((month + 2) % 12 + 1) = daysBeforeMonth (month + 1) := by
  have hcases : month = 0 ∨ month = 1 ∨ month = 2 ∨ month = 3 ∨ month = 4 ∨ month = 5 ∨ month = 6 ∨
      month = 7 ∨ month = 8 ∨ month = 9 ∨ month = 10 := by omega
  rcases hcases with rfl | rfl | rfl | rfl | rfl | rfl | rfl | rfl | rfl | rfl | rfl <;> rfl

/-- A leap year, counted from March, ends with the leap day of the year after. -/
theorem isLeapYear_of_march (era : Int) {year : Nat} (h : (year + 1) % 4 = 0)
    (h' : (year + 1) % 100 ≠ 0 ∨ (year + 1) % 400 = 0) : isLeapYear (era * 400 + year + 1) = true := by
  have hfour : (era * 400 + (year : Int) + 1) % 4 = 0 := by omega
  have hhundred : (era * 400 + (year : Int) + 1) % 100 ≠ 0 ∨
      (era * 400 + (year : Int) + 1) % 400 = 0 := by omega
  simpa [isLeapYear, hfour] using hhundred

theorem Day.isValid_ofNumber (n : Int) : (Day.ofNumber n).IsValid := by
  have hday : ((n + 719468) % 146097).toNat < 146097 := by omega
  obtain ⟨hyear, hyear', -⟩ := daysBeforeYear_yearOfDay hday
  have hleap := leap_of_last_day hday
  simp only [Day.ofNumber]
  generalize (n + 719468) / 146097 = era
  generalize ((n + 719468) % 146097).toNat = day at *
  have hrest : day - daysBeforeYear (yearOfDay day) < 366 := by omega
  obtain ⟨hmonth, hmonth', hmonth''⟩ := daysBeforeMonth_monthOfDay hrest
  generalize hrest' : day - daysBeforeYear (yearOfDay day) = rest at *
  refine ⟨by simp, by simp only; omega, by simp, ?_⟩
  simp only
  by_cases hjanuary : monthOfDay rest < 11
  · have := daysInMonth_of_march (if (monthOfDay rest + 2) % 12 + 1 ≤ 2 then
      era * 400 + (yearOfDay day : Int) + 1 else era * 400 + yearOfDay day) hjanuary
    omega
  · have hfebruary : monthOfDay rest = 11 := by omega
    have hlong : (11 + 2) % 12 + 1 ≤ 2 := by decide
    rw [hfebruary] at *
    simp only [hlong, if_true, daysInMonth]
    have hbefore : daysBeforeMonth 11 = 337 := by rfl
    by_cases hlast : daysBeforeYear (yearOfDay day) + 365 ≤ day
    · obtain ⟨hfour, hhundred⟩ := hleap hlast
      rw [isLeapYear_of_march era hfour hhundred, if_pos rfl]
      omega
    · split <;> omega

/-! ## Instants of the calendar -/

/-- The nanoseconds stay below a second or, in a leap second, below two. -/
def Instant.IsValid (i : Instant) : Prop := i.nanos < 2000000000

instance (i : Instant) : Decidable i.IsValid := inferInstanceAs (Decidable (_ < _))

/-- If the instant is in a leap second, this follows the fifty-ninth second of a minute. -/
structure Instant.IsRegular (i : Instant) : Prop where
  valid : i.IsValid
  leap : 1000000000 ≤ i.nanos → i.seconds % 60 = 59

/-- The year in universal time is written with four digits and no sign. -/
def Instant.HasFourDigitYear (i : Instant) : Prop :=
  0 ≤ (Day.ofNumber (i.seconds / 86400)).year ∧ (Day.ofNumber (i.seconds / 86400)).year ≤ 9999

instance (i : Instant) : Decidable i.HasFourDigitYear := inferInstanceAs (Decidable (_ ∧ _))

/-- The text tells all of the instant: it is a whole number of milliseconds, in a year of four
digits. -/
structure Instant.IsExact (i : Instant) : Prop extends i.IsRegular where
  millis : i.nanos % 1000000 = 0
  year : i.HasFourDigitYear

theorem Instant.isRegular_of_ofParts? {d : Day} {t : Time} {offset : Int} {i : Instant}
    (h : Instant.ofParts? d t offset = some i) (hnanos : t.nanos < 1000000000) : i.IsRegular := by
  unfold ofParts? at h
  split at h
  · injection h with h
    subst h
    constructor
    · simp only [IsValid]
      split <;> omega
    · simp only
      split
      · intro; omega
      · intro; omega
  · cases h

theorem readFraction?_lt {text rest : List Char} {nanos : Nat}
    (h : readFraction? text = some (nanos, rest)) : nanos < 1000000000 := by
  unfold readFraction? at h
  split at h
  · rename_i text
    simp only at h
    split at h
    · cases h
    · injection h with h
      injection h with hnanos
      subst hnanos
      have hkept : ∀ c ∈ (text.takeWhile Char.isDigit).take 9, c.isDigit = true := fun c hc =>
        List.all_eq_true.mp List.all_takeWhile c (List.mem_of_mem_take hc)
      have hlength : ((text.takeWhile Char.isDigit).take 9).length ≤ 9 := List.length_take_le 9 _
      generalize (text.takeWhile Char.isDigit).take 9 = kept at *
      calc Nat.ofDigitChars 10 kept 0 * 10 ^ (9 - kept.length)
          < 10 ^ kept.length * 10 ^ (9 - kept.length) :=
            Nat.mul_lt_mul_of_pos_right (Number.ofDigitChars_lt hkept) (by positivity)
        _ = 10 ^ 9 := by rw [← Nat.pow_add, Nat.add_sub_cancel' hlength]
  · injection h with h
    injection h with hnanos
    omega

theorem isRegular_of_readOffset? {text : List Char} {i : Instant} (h : readOffset? text = some i) :
    i.IsRegular := by
  obtain ⟨⟨year, text⟩, -, h⟩ := Option.bind_eq_some_iff.mp h
  obtain ⟨text, -, h⟩ := Option.bind_eq_some_iff.mp h
  obtain ⟨⟨month, text⟩, -, h⟩ := Option.bind_eq_some_iff.mp h
  obtain ⟨text, -, h⟩ := Option.bind_eq_some_iff.mp h
  obtain ⟨⟨day, text⟩, -, h⟩ := Option.bind_eq_some_iff.mp h
  obtain ⟨text, -, h⟩ := Option.bind_eq_some_iff.mp h
  obtain ⟨⟨hour, text⟩, -, h⟩ := Option.bind_eq_some_iff.mp h
  obtain ⟨text, -, h⟩ := Option.bind_eq_some_iff.mp h
  obtain ⟨⟨minute, text⟩, -, h⟩ := Option.bind_eq_some_iff.mp h
  obtain ⟨text, -, h⟩ := Option.bind_eq_some_iff.mp h
  obtain ⟨⟨second, text⟩, -, h⟩ := Option.bind_eq_some_iff.mp h
  obtain ⟨⟨nanos, text⟩, hnanos, h⟩ := Option.bind_eq_some_iff.mp h
  obtain ⟨offset, -, h⟩ := Option.bind_eq_some_iff.mp h
  exact Instant.isRegular_of_ofParts? h (readFraction?_lt hnanos)

theorem isRegular_of_readMarked? {text : List Char} {i : Instant} (h : readMarked? text = some i) :
    i.IsRegular := by
  simp only [readMarked?, Option.bind_eq_bind, Option.bind_eq_some_iff, Prod.exists] at h
  obtain ⟨_, _, -, _, -, _, _, -, nanos, _, hnanos, h⟩ := h
  split at h
  · exact Instant.isRegular_of_ofParts? h (readFraction?_lt hnanos)
  · cases h

theorem nanos_of_readTime? {text rest : List Char} {t : Time}
    (h : readTime? text = some (t, rest)) : t.nanos = 0 := by
  simp only [readTime?, Option.bind_eq_bind, Option.bind_eq_some_iff, Prod.exists] at h
  obtain ⟨_, _, -, _, -, _, _, -, _, -, _, _, -, h⟩ := h
  cases h
  rfl

theorem isRegular_of_readSpaced? {text : List Char} {i : Instant} (h : readSpaced? text = some i) :
    i.IsRegular := by
  simp only [readSpaced?, Option.bind_eq_bind, Option.bind_eq_some_iff, Prod.exists] at h
  obtain ⟨_, _, -, time, _, htime, h⟩ := h
  split at h
  · exact Instant.isRegular_of_ofParts? h (by rw [nanos_of_readTime? htime]; decide)
  · cases h

theorem isRegular_of_readDay? {text : List Char} {i : Instant} (h : readDay? text = some i) :
    i.IsRegular := by
  simp only [readDay?, Option.bind_eq_bind, Option.bind_eq_some_iff, Prod.exists] at h
  obtain ⟨day, _, -, h⟩ := h
  split at h
  · cases h
    exact ⟨by simp [Day.midnight, Instant.IsValid], by simp [Day.midnight]⟩
  · cases h

/-- Every instant that is read is one of the calendar. -/
theorem read?_isRegular {text : List Char} {i : Instant} (h : read? text = some i) :
    i.IsRegular := by
  simp only [read?, readPlain?, Option.orElse_eq_orElse, Option.orElse_eq_or, Option.or_eq_some_iff]
    at h
  rcases h with h | ⟨-, (h | ⟨-, h⟩) | ⟨-, h⟩⟩
  · exact isRegular_of_readOffset? h
  · exact isRegular_of_readMarked? h
  · exact isRegular_of_readSpaced? h
  · exact isRegular_of_readDay? h

/-! ## Numbers filled up with zeros -/

theorem length_padded {width n : Nat} (hwidth : 0 < width) (h : n < 10 ^ width) :
    (padded width n).length = width := by
  have hdigits := (Nat.length_toDigits_le_iff (by decide : 1 < 10) hwidth).mpr h
  simp only [padded, List.length_append, List.length_replicate]
  omega

theorem isDigit_of_mem_padded {width n : Nat} : ∀ c ∈ padded width n, c.isDigit = true := by
  intro c hc
  rcases List.mem_append.mp hc with hc | hc
  · rw [(List.mem_replicate.mp hc).2]
    decide
  · exact Nat.isDigit_of_mem_toDigits (by decide) (by decide) hc

theorem isBlank_of_mem_padded {width n : Nat} {c : Char} (h : c ∈ padded width n) :
    Text.isBlank c = false :=
  Text.isBlank_of_isDigit (isDigit_of_mem_padded c h)

theorem padded_ne_nil (width n : Nat) : padded width n ≠ [] :=
  List.append_ne_nil_of_right_ne_nil _ Nat.toDigits_ne_nil

theorem ofDigitChars_padded (width n : Nat) : Nat.ofDigitChars 10 (padded width n) 0 = n := by
  unfold padded
  rw [Nat.ofDigitChars_append, Nat.ofDigitChars_replicate_zero, Nat.mul_zero,
    Nat.ofDigitChars_ten_toDigits]

/-- A number filled up with zeros is read back, whatever follows. -/
theorem readDigits?_padded {least width n : Nat} (hleast : least ≤ width) (hwidth : 0 < width)
    (h : n < 10 ^ width) (rest : List Char) :
    readDigits? least width (padded width n ++ rest) = some (n, rest) := by
  have hlength := length_padded hwidth h
  have hdigits : ((padded width n ++ rest).takeWhile Char.isDigit).take width = padded width n := by
    rw [List.takeWhile_append_of_pos isDigit_of_mem_padded, List.take_append_of_le_length (by omega),
      List.take_of_length_le (by omega)]
  simp only [readDigits?, hdigits, hlength, ofDigitChars_padded, if_pos hleast]
  rw [List.drop_left' hlength]

/-- A fraction of up to nine digits is read as nanoseconds. -/
theorem readFraction?_digits {digits rest : List Char} (h : ∀ c ∈ digits, c.isDigit = true)
    (hne : digits ≠ []) (hlength : digits.length ≤ 9) (hrest : ∀ c ∈ rest.head?, c.isDigit = false) :
    readFraction? ('.' :: (digits ++ rest)) =
      some (Nat.ofDigitChars 10 digits 0 * 10 ^ (9 - digits.length), rest) := by
  obtain ⟨htake, hdrop⟩ := Number.takeWhile_isDigit_append h rest hrest
  simp only [readFraction?, htake, hdrop, if_neg hne, List.take_of_length_le hlength]

theorem readFraction?_padded {n : Nat} (h : n < 1000) :
    readFraction? ('.' :: (padded 3 n ++ ['Z'])) = some (n * 1000000, ['Z']) := by
  have hlength : (padded 3 n).length = 3 := length_padded (by decide) h
  rw [readFraction?_digits isDigit_of_mem_padded (padded_ne_nil 3 n) (by omega) (by simp),
    ofDigitChars_padded, hlength]
  rfl

/-! ## Instants read back -/

/-- A day and a time in universal time as they are written, with three digits of a fraction. -/
def partsText (year month day hour minute second millis : Nat) : List Char :=
  padded 4 year ++ '-' :: padded 2 month ++ '-' :: padded 2 day ++ 'T' :: padded 2 hour
    ++ ':' :: padded 2 minute ++ ':' :: padded 2 second ++ '.' :: padded 3 millis ++ ['Z']

theorem bind_of_eq_some {α β : Type} {x : Option α} {a : α} {f : α → Option β} {y : Option β}
    (hx : x = some a) (hf : f a = y) : x >>= f = y := by
  subst hx
  exact hf

theorem expect?_cons (mark : Char) (rest : List Char) : expect? mark (mark :: rest) = some rest :=
  if_pos rfl

/-- Parts with their full number of digits are read, whatever follows. -/
theorem readOffset?_parts {year month day hour minute second : Nat} (hyear : year < 10 ^ 4)
    (hmonth : month < 10 ^ 2) (hday : day < 10 ^ 2) (hhour : hour < 10 ^ 2)
    (hminute : minute < 10 ^ 2) (hsecond : second < 10 ^ 2) {mark : Char}
    (hmark : mark = 'T' ∨ mark = 't' ∨ mark = ' ') (rest : List Char) :
    readOffset? (padded 4 year ++ '-' :: (padded 2 month ++ '-' :: (padded 2 day ++
        mark :: (padded 2 hour ++ ':' :: (padded 2 minute ++ ':' :: (padded 2 second ++ rest)))))) =
      (readFraction? rest >>= fun (nanos, rest) => readZone? rest >>= fun offset =>
        Instant.ofParts? ⟨year, month, day⟩ ⟨hour, minute, second, nanos⟩ offset) := by
  have htwo : 0 < 2 := by decide
  refine bind_of_eq_some (readDigits?_padded le_rfl (by decide) hyear _) ?_
  refine bind_of_eq_some (expect?_cons '-' _) ?_
  refine bind_of_eq_some (readDigits?_padded le_rfl htwo hmonth _) ?_
  refine bind_of_eq_some (expect?_cons '-' _) ?_
  refine bind_of_eq_some (readDigits?_padded le_rfl htwo hday _) ?_
  refine bind_of_eq_some (by rcases hmark with rfl | rfl | rfl <;> rfl) ?_
  refine bind_of_eq_some (readDigits?_padded le_rfl htwo hhour _) ?_
  refine bind_of_eq_some (expect?_cons ':' _) ?_
  refine bind_of_eq_some (readDigits?_padded le_rfl htwo hminute _) ?_
  refine bind_of_eq_some (expect?_cons ':' _) ?_
  exact bind_of_eq_some (readDigits?_padded le_rfl htwo hsecond _) rfl

/-- Parts with their full number of digits are read as the instant that they make. -/
theorem readOffset?_partsText {year month day hour minute second millis : Nat}
    (hyear : year < 10 ^ 4) (hmonth : month < 10 ^ 2) (hday : day < 10 ^ 2) (hhour : hour < 10 ^ 2)
    (hminute : minute < 10 ^ 2) (hsecond : second < 10 ^ 2) (hmillis : millis < 1000) :
    readOffset? (partsText year month day hour minute second millis) =
      Instant.ofParts? ⟨year, month, day⟩ ⟨hour, minute, second, millis * 1000000⟩ 0 := by
  simp only [partsText, List.append_assoc, List.cons_append]
  rw [readOffset?_parts hyear hmonth hday hhour hminute hsecond (.inl rfl)]
  exact bind_of_eq_some (readFraction?_padded hmillis) rfl

theorem exists_partsText {i : Instant} (h : i.IsExact) :
    ∃ second millis, millis < 1000 ∧
      (second = (i.seconds % 86400).toNat % 60 ∧ i.nanos = millis * 1000000 ∨
        second = 60 ∧ (i.seconds % 86400).toNat % 60 = 59 ∧
          i.nanos = millis * 1000000 + 1000000000) ∧
      i.text = partsText (Day.ofNumber (i.seconds / 86400)).year.toNat
        (Day.ofNumber (i.seconds / 86400)).month (Day.ofNumber (i.seconds / 86400)).day
        ((i.seconds % 86400).toNat / 3600) ((i.seconds % 86400).toNat / 60 % 60) second millis := by
  have hnanos : i.nanos < 2000000000 := h.valid
  have hmillis := h.millis
  have hyear : 0 ≤ (Day.ofNumber (i.seconds / 86400)).year ∧
      (Day.ofNumber (i.seconds / 86400)).year ≤ 9999 := h.year
  by_cases hleap : 1000000000 ≤ i.nanos
  · have hlast := h.leap hleap
    have hsecond : (i.seconds % 86400).toNat % 60 = 59 := by omega
    refine ⟨60, (i.nanos - 1000000000) / 1000000, by omega, .inr ⟨rfl, hsecond, by omega⟩, ?_⟩
    simp only [Instant.text, yearText, if_pos hyear, if_pos hleap, hsecond, partsText]
  · refine ⟨(i.seconds % 86400).toNat % 60, i.nanos / 1000000, by omega, .inl ⟨rfl, by omega⟩, ?_⟩
    simp only [Instant.text, yearText, if_pos hyear, if_neg hleap, partsText, Nat.add_zero]

theorem daysInMonth_le (year : Int) (month : Nat) : daysInMonth year month ≤ 31 := by
  unfold daysInMonth
  repeat' split
  all_goals decide

theorem readOffset?_text {i : Instant} (h : i.IsExact) : readOffset? i.text = some i := by
  obtain ⟨second, millis, hmillis, hsecond, htext⟩ := exists_partsText h
  have hvalid := Day.isValid_ofNumber (i.seconds / 86400)
  have hnumber := Day.number_ofNumber (i.seconds / 86400)
  obtain ⟨hyear, hyear'⟩ := h.year
  have hseconds : i.seconds / 86400 * 86400 + ((i.seconds % 86400).toNat : Int) = i.seconds := by
    omega
  have hofDay : (i.seconds % 86400).toNat < 86400 := by omega
  generalize (i.seconds % 86400).toNat = ofDay at *
  generalize Day.ofNumber (i.seconds / 86400) = d at *
  obtain ⟨-, hmonth, -, hday⟩ := id hvalid
  have hday' := hday.trans (daysInMonth_le d.year d.month)
  have htime : (⟨ofDay / 3600, ofDay / 60 % 60, second, millis * 1000000⟩ : Time).IsValid :=
    ⟨by simp only; omega, by simp only; omega, by simp only; omega⟩
  have hd : (⟨d.year.toNat, d.month, d.day⟩ : Day) = d := by rw [Int.toNat_of_nonneg hyear]
  rw [htext, readOffset?_partsText (by omega) (by omega) (by omega) (by omega) (by omega) (by omega)
    hmillis, hd, Instant.ofParts?, if_pos ⟨hvalid, htime⟩]
  obtain ⟨seconds, nanos⟩ := i
  simp only [Option.some.injEq, Instant.mk.injEq] at *
  rcases hsecond with ⟨rfl, hnanos⟩ | ⟨rfl, hlast, hnanos⟩
  · have hne : ofDay % 60 ≠ 60 := by omega
    rw [if_neg hne, if_neg hne]
    omega
  · rw [if_pos rfl, if_pos rfl]
    omega

/-- The text of a day and a time has digits and a few marks. -/
theorem isBlank_of_mem_partsText {year month day hour minute second millis : Nat} {c : Char}
    (h : c ∈ partsText year month day hour minute second millis) : Text.isBlank c = false := by
  have hmark : c ∈ ['-', 'T', ':', '.', 'Z'] → Text.isBlank c = false := by
    have hall : (['-', 'T', ':', '.', 'Z'].all fun d => !Text.isBlank d) = true := by decide
    intro hc
    simpa using List.all_eq_true.mp hall c hc
  grind [partsText, isBlank_of_mem_padded]

theorem trim_text {i : Instant} (h : i.IsExact) : Text.trim i.text = i.text := by
  obtain ⟨second, millis, -, -, htext⟩ := exists_partsText h
  rw [htext]
  exact Text.trim_eq_self fun c hc => isBlank_of_mem_partsText hc

/-- An exact instant is read back from its text. -/
theorem read?_text {i : Instant} (h : i.IsExact) : read? i.text = some i := by
  rw [read?, trim_text h, readOffset?_text h]
  rfl

/-- The text of an exact instant begins with digits and a hyphen. -/
theorem exists_text_eq {i : Instant} (h : i.IsExact) :
    ∃ c digits rest, (∀ d ∈ c :: digits, d.isDigit = true) ∧ i.text = c :: (digits ++ '-' :: rest) := by
  obtain ⟨second, millis, -, -, htext⟩ := exists_partsText h
  rw [htext, partsText]
  generalize (Day.ofNumber (i.seconds / 86400)).year.toNat = year
  obtain ⟨c, digits, hcons⟩ := List.exists_cons_of_ne_nil (padded_ne_nil 4 year)
  have hdigits : ∀ d ∈ padded 4 year, d.isDigit = true := isDigit_of_mem_padded
  rw [hcons] at hdigits ⊢
  exact ⟨c, digits, _, hdigits, by simp only [List.append_assoc, List.cons_append]; rfl⟩

/-! ## What the text of an instant tells -/

namespace Instant

variable {i : Instant}

/-- The instant without what is less than a millisecond. -/
def truncated (i : Instant) : Instant := { i with nanos := i.nanos / 1000000 * 1000000 }

/-- The instant that the text tells. What is less than a millisecond is cut off, and a leap second
that does not end a minute is written as the second that follows. -/
def told (i : Instant) : Instant :=
  if 1000000000 ≤ i.nanos ∧ i.seconds % 60 ≠ 59 then
    truncated ⟨i.seconds + 1, i.nanos - 1000000000⟩
  else i.truncated

theorem IsRegular.told_eq (h : i.IsRegular) : i.told = i.truncated :=
  if_neg fun ⟨hleap, hlast⟩ => hlast (h.leap hleap)

theorem IsExact.told_eq (h : i.IsExact) : i.told = i := by
  have hnanos : i.nanos / 1000000 * 1000000 = i.nanos :=
    Nat.div_mul_cancel (Nat.dvd_of_mod_eq_zero h.millis)
  rw [h.toIsRegular.told_eq, truncated, hnanos]

/-- The text does not tell what is less than a millisecond. -/
@[simp] theorem text_truncated (i : Instant) : i.truncated.text = i.text := by
  have hleap : 1000000000 ≤ i.nanos / 1000000 * 1000000 ↔ 1000000000 ≤ i.nanos := by omega
  have hmillis : (if 1000000000 ≤ i.nanos then i.nanos / 1000000 * 1000000 - 1000000000
      else i.nanos / 1000000 * 1000000) / 1000000 =
      (if 1000000000 ≤ i.nanos then i.nanos - 1000000000 else i.nanos) / 1000000 := by
    split <;> omega
  simp only [text, truncated, hleap, hmillis]

/-- A leap second that does not end a minute has the text of the second that follows. -/
theorem text_following (h : i.IsValid) (hleap : 1000000000 ≤ i.nanos)
    (hlast : i.seconds % 60 ≠ 59) :
    text ⟨i.seconds + 1, i.nanos - 1000000000⟩ = i.text := by
  have hnanos : ¬ 1000000000 ≤ i.nanos - 1000000000 := by
    have : i.nanos < 2000000000 := h
    omega
  have hday : (i.seconds + 1) / 86400 = i.seconds / 86400 := by omega
  have hofDay : ((i.seconds + 1) % 86400).toNat = (i.seconds % 86400).toNat + 1 := by omega
  have hsecond : (i.seconds % 86400).toNat % 60 ≠ 59 := by omega
  simp only [text, if_pos hleap, if_neg hnanos, hday, hofDay]
  generalize (i.seconds % 86400).toNat = ofDay at *
  have hhour : (ofDay + 1) / 3600 = ofDay / 3600 := by omega
  have hminute : (ofDay + 1) / 60 = ofDay / 60 := by omega
  have hsecond' : (ofDay + 1) % 60 + 0 = ofDay % 60 + 1 := by omega
  rw [hhour, hminute, hsecond']

@[simp] theorem text_told (h : i.IsValid) : i.told.text = i.text := by
  unfold told
  split
  · rename_i hleap
    rw [text_truncated, text_following h hleap.1 hleap.2]
  · rw [text_truncated]

theorem IsRegular.isExact_truncated (h : i.IsRegular) (hyear : i.HasFourDigitYear) :
    i.truncated.IsExact where
  valid := Nat.lt_of_le_of_lt (Nat.div_mul_le_self _ _) h.valid
  leap hleap := h.leap (Nat.le_trans hleap (Nat.div_mul_le_self _ _))
  millis := Nat.mul_mod_left _ _
  year := hyear

/-- The text of an instant tells all of the instant that it tells. -/
theorem isExact_told (h : i.IsValid) (hyear : i.HasFourDigitYear) : i.told.IsExact := by
  have hnanos : i.nanos < 2000000000 := h
  unfold told
  split
  · have hday : (i.seconds + 1) / 86400 = i.seconds / 86400 := by omega
    refine IsRegular.isExact_truncated ⟨?_, fun hleap => ?_⟩ ?_
    · simp only [IsValid]
      omega
    · simp only at hleap
      omega
    · simpa only [HasFourDigitYear, hday] using hyear
  · exact IsRegular.isExact_truncated ⟨h, by omega⟩ hyear

end Instant

end RecordQuery.Date
