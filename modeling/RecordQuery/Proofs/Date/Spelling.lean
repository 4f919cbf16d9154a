import RecordQuery.Proofs.Date.ReadBack
import RecordQuery.Proofs.Text.Trim
import RecordQuery.Value

/-!
# Spellings of one instant

* `Parts`: a day in a year of four digits, a time of day and the digits of a fraction of its second.
* `Parts.instant`: what the parts denote in universal time.
* `readDate?_text`, `readTime?_text`, `readZone?_offsetText`: each piece of a spelling is read before
  any rest.
* `read?_spellings`: the spellings of parts and what they denote, blanks around them, and the
  comparison of texts that denote one instant.
-/

namespace RecordQuery.Date

open Text (isBlank trim trimStart)

/-! ## Parts and their spellings -/

/-- A day as it is written: four digits of the year, two of the month and two of the day. -/
def Day.text (d : Day) : List Char :=
  padded 4 d.year.toNat ++ '-' :: padded 2 d.month ++ '-' :: padded 2 d.day

/-- An offset as it is written: a sign, two digits of hours and two of minutes. -/
def offsetText (negative : Bool) (hours minutes : Nat) : List Char :=
  (if negative then '-' else '+') :: padded 2 hours ++ ':' :: padded 2 minutes

/-- The minutes of an offset. -/
def offsetMinutes (negative : Bool) (hours minutes : Nat) : Int :=
  let offset : Int := hours * 60 + minutes
  if negative then -offset else offset

/-- The instant so many minutes later. -/
def Instant.later (i : Instant) (minutes : Int) : Instant :=
  { i with seconds := i.seconds + minutes * 60 }

/-- A day in a year of four digits, a time of day and the digits of a fraction, up to nine. -/
structure Parts where
  day : Day
  hour : Nat
  minute : Nat
  second : Nat
  fraction : List Char
  isValid_day : day.IsValid
  year_bounds : 0 ≤ day.year ∧ day.year ≤ 9999
  hour_le : hour ≤ 23
  minute_le : minute ≤ 59
  second_le : second ≤ 59
  isDigit_fraction : ∀ c ∈ fraction, c.isDigit = true
  length_fraction_le : fraction.length ≤ 9

namespace Parts

/-- What the parts denote in universal time. -/
def instant (p : Parts) : Instant where
  seconds := p.day.number * 86400 + (p.hour * 3600 + p.minute * 60 + p.second)
  nanos := Nat.ofDigitChars 10 p.fraction 0 * 10 ^ (9 - p.fraction.length)

/-- The time as it is written, without the fraction. -/
def clockText (p : Parts) : List Char :=
  padded 2 p.hour ++ ':' :: padded 2 p.minute ++ ':' :: padded 2 p.second

/-- The fraction as it is written, nothing if there is none. -/
def fractionText (p : Parts) : List Char :=
  if p.fraction = [] then [] else '.' :: p.fraction

/-- Day and time as they are written, with the fraction if there is one. -/
def text (p : Parts) : List Char := p.day.text ++ 'T' :: (p.clockText ++ p.fractionText)

end Parts

/-! ## No blanks in the pieces -/

/-- Blanks before a number are dropped, and none of its digits. -/
theorem trimStart_padded (width n : Nat) (rest : List Char) :
    trimStart (padded width n ++ rest) = padded width n ++ rest := by
  obtain ⟨c, digits, hcons⟩ := List.exists_cons_of_ne_nil (padded_ne_nil width n)
  have hc : isBlank c = false := isBlank_of_mem_padded (hcons ▸ List.mem_cons_self : c ∈ padded width n)
  rw [hcons]
  exact List.dropWhile_cons_of_neg (by rw [hc]; decide)

theorem Day.isBlank_of_mem_text {d : Day} {c : Char} (h : c ∈ d.text) : isBlank c = false := by
  have hmark : isBlank '-' = false := by decide
  grind [Day.text, isBlank_of_mem_padded]

namespace Parts

theorem isBlank_of_mem_clockText {p : Parts} {c : Char} (h : c ∈ p.clockText) :
    isBlank c = false := by
  have hmark : isBlank ':' = false := by decide
  grind [clockText, isBlank_of_mem_padded]

theorem isBlank_of_mem_fractionText {p : Parts} {c : Char} (h : c ∈ p.fractionText) :
    isBlank c = false := by
  have hmark : isBlank '.' = false := by decide
  grind [fractionText, p.isDigit_fraction, Text.isBlank_of_isDigit]

theorem isBlank_of_mem_text {p : Parts} {c : Char} (h : c ∈ p.text) : isBlank c = false := by
  have hmark : isBlank 'T' = false := by decide
  grind [text, Day.isBlank_of_mem_text, isBlank_of_mem_clockText, isBlank_of_mem_fractionText]

end Parts

theorem isBlank_of_mem_offsetText {negative : Bool} {hours minutes : Nat} {c : Char}
    (h : c ∈ offsetText negative hours minutes) : isBlank c = false := by
  have hmark : isBlank '-' = false ∧ isBlank '+' = false ∧ isBlank ':' = false := by decide
  grind [offsetText, isBlank_of_mem_padded]

/-! ## Days and times before any rest -/

theorem readPart?_padded {n : Nat} (h : n < 10 ^ 2) (rest : List Char) :
    readPart? (padded 2 n ++ rest) = some (n, rest) := by
  rw [readPart?, trimStart_padded, readDigits?_padded (by decide) (by decide) h]

theorem readYear?_padded {year : Nat} (h : year < 10 ^ 4) (rest : List Char) :
    readYear? (padded 4 year ++ rest) = some ((year : Int), rest) := by
  have hread : readDigits? 1 4 _ = _ := readDigits?_padded (by decide) (by decide) h rest
  obtain ⟨c, digits, hcons⟩ := List.exists_cons_of_ne_nil (padded_ne_nil 4 year)
  have hc : c.isDigit = true := isDigit_of_mem_padded c (hcons ▸ List.mem_cons_self : c ∈ padded 4 year)
  unfold readYear?
  rw [trimStart_padded]
  rw [hcons, List.cons_append] at hread ⊢
  split
  · rename_i heq; injection heq with heq; subst heq; cases hc
  · rename_i heq; injection heq with heq; subst heq; cases hc
  · rw [hread]; rfl

section Day

variable {d : Day} (hvalid : d.IsValid) (hyear : 0 ≤ d.year ∧ d.year ≤ 9999)

include hvalid hyear

theorem Day.parts_lt : d.year.toNat < 10 ^ 4 ∧ d.month < 10 ^ 2 ∧ d.day < 10 ^ 2 ∧
    (⟨d.year.toNat, d.month, d.day⟩ : Day) = d := by
  obtain ⟨-, hmonth, -, hday⟩ := hvalid
  have hday' := hday.trans (daysInMonth_le d.year d.month)
  exact ⟨by omega, by omega, by omega, by rw [Int.toNat_of_nonneg hyear.1]⟩

theorem readDate?_text (rest : List Char) : readDate? (d.text ++ rest) = some (d, rest) := by
  obtain ⟨hyear', hmonth, hday, hparts⟩ := Day.parts_lt hvalid hyear
  simp only [Day.text, List.append_assoc, List.cons_append]
  refine bind_of_eq_some (readYear?_padded hyear' _) ?_
  refine bind_of_eq_some (expect?_cons '-' _) ?_
  refine bind_of_eq_some (readPart?_padded hmonth _) ?_
  refine bind_of_eq_some (expect?_cons '-' _) ?_
  refine bind_of_eq_some (readPart?_padded hday _) ?_
  simp only [hparts]
  exact if_pos ⟨by omega, by omega⟩

/-- Without a mark between day and time a text does not have the full form. -/
theorem readOffset?_unmarked {rest : List Char}
    (h : ∀ c ∈ rest.head?, c ≠ 'T' ∧ c ≠ 't' ∧ c ≠ ' ') : readOffset? (d.text ++ rest) = none := by
  obtain ⟨hyear', hmonth, hday, -⟩ := Day.parts_lt hvalid hyear
  have hmark : (expect? 'T' rest <|> expect? 't' rest <|> expect? ' ' rest) = none := by
    cases rest with
    | nil => rfl
    | cons c rest =>
      obtain ⟨hT, ht, hspace⟩ := h c rfl
      simp [expect?, hT, ht, hspace]
  simp only [Day.text, List.append_assoc, List.cons_append]
  refine bind_of_eq_some (readDigits?_padded le_rfl (by decide) hyear' _) ?_
  refine bind_of_eq_some (expect?_cons '-' _) ?_
  refine bind_of_eq_some (readDigits?_padded le_rfl (by decide) hmonth _) ?_
  refine bind_of_eq_some (expect?_cons '-' _) ?_
  refine bind_of_eq_some (readDigits?_padded le_rfl (by decide) hday _) ?_
  simp only [hmark]
  rfl

end Day

theorem readZone?_offsetText (negative : Bool) {hours minutes : Nat} (hhours : hours ≤ 23)
    (hminutes : minutes ≤ 59) :
    readZone? (offsetText negative hours minutes) = some (offsetMinutes negative hours minutes) := by
  have hread : readDigits? 2 2 _ = _ :=
    readDigits?_padded le_rfl (by decide) (by omega : minutes < 10 ^ 2) []
  rw [List.append_nil] at hread
  cases negative with
  | true =>
    refine bind_of_eq_some (readDigits?_padded le_rfl (by decide) (by omega : hours < 10 ^ 2) _) ?_
    refine bind_of_eq_some (expect?_cons ':' _) ?_
    refine bind_of_eq_some hread ?_
    exact if_pos ⟨rfl, hhours, hminutes⟩
  | false =>
    refine bind_of_eq_some (readDigits?_padded le_rfl (by decide) (by omega : hours < 10 ^ 2) _) ?_
    refine bind_of_eq_some (expect?_cons ':' _) ?_
    refine bind_of_eq_some hread ?_
    exact if_pos ⟨rfl, hhours, hminutes⟩

/-! ## Parts with a day and a time -/

@[simp] theorem Instant.later_zero (i : Instant) : i.later 0 = i := by simp [later]

namespace Parts

variable (p : Parts)

/-- The instant of the parts where the time is so many minutes ahead. -/
theorem ofParts?_eq (offset : Int) :
    Instant.ofParts? p.day ⟨p.hour, p.minute, p.second, p.instant.nanos⟩ offset =
      some (p.instant.later (-offset)) := by
  have hsecond := p.second_le
  have hleap : p.second ≠ 60 := by omega
  have htime : Time.IsValid ⟨p.hour, p.minute, p.second, p.instant.nanos⟩ :=
    ⟨p.hour_le, p.minute_le, by simp only; omega⟩
  rw [Instant.ofParts?, if_pos ⟨p.isValid_day, htime⟩]
  simp only [if_neg hleap, Instant.later, instant, Int.neg_mul, ← Int.sub_eq_add_neg]

theorem readTime?_clockText (rest : List Char) :
    readTime? (p.clockText ++ rest) = some (⟨p.hour, p.minute, p.second, 0⟩, rest) := by
  have hhour := p.hour_le
  have hminute := p.minute_le
  have hsecond := p.second_le
  simp only [clockText, List.append_assoc, List.cons_append]
  refine bind_of_eq_some (readPart?_padded (by omega) _) ?_
  refine bind_of_eq_some (expect?_cons ':' _) ?_
  refine bind_of_eq_some (readPart?_padded (by omega) _) ?_
  refine bind_of_eq_some (expect?_cons ':' _) ?_
  exact bind_of_eq_some (readPart?_padded (by omega) _) rfl

/-- The fraction ends where neither a digit nor a point follows. -/
theorem readFraction?_fractionText {rest : List Char}
    (h : ∀ c ∈ rest.head?, c.isDigit = false ∧ c ≠ '.') :
    readFraction? (p.fractionText ++ rest) = some (p.instant.nanos, rest) := by
  by_cases hnone : p.fraction = []
  · rw [fractionText, if_pos hnone, List.nil_append]
    have hnanos : p.instant.nanos = 0 := by simp [instant, hnone]
    rw [hnanos]
    unfold readFraction?
    split
    · exact absurd rfl (h '.' rfl).2
    · rfl
  · rw [fractionText, if_neg hnone]
    exact readFraction?_digits p.isDigit_fraction hnone p.length_fraction_le fun c hc => (h c hc).1

/-- Day and time with a mark between them are read before a fraction and an offset. -/
theorem readOffset?_marked {mark : Char} (hmark : mark = 'T' ∨ mark = 't' ∨ mark = ' ')
    (rest : List Char) :
    readOffset? (p.day.text ++ mark :: (p.clockText ++ rest)) =
      (readFraction? rest >>= fun (nanos, rest) => readZone? rest >>= fun offset =>
        Instant.ofParts? p.day ⟨p.hour, p.minute, p.second, nanos⟩ offset) := by
  obtain ⟨hyear, hmonth, hday, hparts⟩ := Day.parts_lt p.isValid_day p.year_bounds
  have hhour := p.hour_le
  have hminute := p.minute_le
  have hsecond := p.second_le
  simp only [Day.text, clockText, List.append_assoc, List.cons_append]
  rw [readOffset?_parts hyear hmonth hday (by omega) (by omega) (by omega) hmark, hparts]

/-- In the full form the offset is taken off. -/
theorem readOffset?_text {zone : List Char} (h : ∀ c ∈ zone.head?, c.isDigit = false ∧ c ≠ '.') :
    readOffset? (p.text ++ zone) =
      (readZone? zone).map fun offset => p.instant.later (-offset) := by
  simp only [text, List.append_assoc, List.cons_append]
  rw [readOffset?_marked p (.inl rfl)]
  refine bind_of_eq_some (readFraction?_fractionText p h) ?_
  simp only [ofParts?_eq]
  cases readZone? zone <;> rfl

theorem readMarked?_text : readMarked? p.text = some p.instant := by
  have hfraction : readFraction? (p.fractionText ++ []) = _ :=
    readFraction?_fractionText p (by simp)
  rw [List.append_nil] at hfraction
  refine bind_of_eq_some (readDate?_text p.isValid_day p.year_bounds _) ?_
  refine bind_of_eq_some (expect?_cons 'T' _) ?_
  refine bind_of_eq_some (readTime?_clockText p _) ?_
  refine bind_of_eq_some hfraction ?_
  exact (if_pos rfl).trans (by simpa using ofParts?_eq p 0)

end Parts

/-! ## Spellings -/

namespace Parts

variable (p : Parts)

/-- With an offset the parts denote their instant less the offset. -/
theorem read?_zoned {zone : List Char} {offset : Int}
    (hhead : ∀ c ∈ zone.head?, c.isDigit = false ∧ c ≠ '.') (hblank : ∀ c ∈ zone, isBlank c = false)
    (hzone : readZone? zone = some offset) :
    read? (p.text ++ zone) = some (p.instant.later (-offset)) := by
  have htrim : trim (p.text ++ zone) = p.text ++ zone := Text.trim_eq_self fun c hc =>
    (List.mem_append.mp hc).elim isBlank_of_mem_text (hblank c)
  rw [read?, htrim, readOffset?_text p hhead, hzone]
  rfl

/-- Without an offset the parts denote their instant. -/
theorem read?_text : read? p.text = some p.instant := by
  have htrim : trim p.text = p.text := Text.trim_eq_self fun c hc => isBlank_of_mem_text hc
  have hoffset : readOffset? (p.text ++ []) = _ := readOffset?_text p (by simp)
  rw [List.append_nil] at hoffset
  rw [read?, htrim, hoffset, readPlain?, readMarked?_text p]
  rfl

/-- A text that begins and ends with digits has no blanks at its ends. -/
theorem trim_spaced (b : Char) :
    trim (p.day.text ++ b :: p.clockText) = p.day.text ++ b :: p.clockText := by
  rw [Text.trim_eq_dropEnds]
  refine Text.dropEnds_eq_self (fun c hc => Day.isBlank_of_mem_text (d := p.day) ?_)
    fun c hc => isBlank_of_mem_clockText (p := p) ?_
  · rw [List.head?_append_of_ne_nil _ (by simp [Day.text])] at hc
    exact List.mem_of_mem_head? hc
  · rw [List.append_cons, List.getLast?_append_of_ne_nil _ (by simp [clockText])] at hc
    exact List.mem_of_mem_getLast? hc

/-- With a blank between day and time the parts denote their instant if they have no fraction. -/
theorem read?_spaced (h : p.fraction = []) {b : Char} (hb : isBlank b = true) :
    read? (p.day.text ++ b :: p.clockText) = some p.instant := by
  have hmark : ∀ c, isBlank c = false → b ≠ c := by
    rintro c hc rfl
    rw [hb] at hc
    cases hc
  have hoffset : readOffset? (p.day.text ++ b :: p.clockText) = none := by
    by_cases hspace : b = ' '
    · have hread := readOffset?_marked p (.inr (.inr hspace)) []
      rw [List.append_nil] at hread
      rw [hread]
      rfl
    · refine readOffset?_unmarked p.isValid_day p.year_bounds fun c hc => ?_
      obtain rfl : b = c := Option.some.inj hc
      exact ⟨hmark 'T' (by decide), hmark 't' (by decide), hspace⟩
  have hmarked : readMarked? (p.day.text ++ b :: p.clockText) = none := by
    have hexpect : expect? 'T' (b :: p.clockText) = none := if_neg (hmark 'T' (by decide))
    refine bind_of_eq_some (readDate?_text p.isValid_day p.year_bounds _) ?_
    simp only [hexpect]
    rfl
  have hspaced : readSpaced? (p.day.text ++ b :: p.clockText) = some p.instant := by
    have hclock := readTime?_clockText p []
    have hstart : trimStart (b :: p.clockText) = p.clockText := by
      rw [trimStart, List.dropWhile_cons_of_pos hb, clockText, List.append_assoc]
      exact trimStart_padded _ _ _
    rw [List.append_nil, ← hstart] at hclock
    have hparts := ofParts?_eq p 0
    have hnanos : p.instant.nanos = 0 := by simp [instant, h]
    rw [hnanos] at hparts
    refine bind_of_eq_some (readDate?_text p.isValid_day p.year_bounds _) ?_
    refine bind_of_eq_some hclock ?_
    exact (if_pos rfl).trans (by simpa using hparts)
  rw [read?, trim_spaced, hoffset, readPlain?, hmarked, hspaced]
  rfl

end Parts

theorem read?_day {d : Day} (hvalid : d.IsValid) (hyear : 0 ≤ d.year ∧ d.year ≤ 9999) :
    read? d.text = some d.midnight := by
  have hdate := readDate?_text hvalid hyear []
  have hoffset : readOffset? (d.text ++ []) = none := readOffset?_unmarked hvalid hyear (by simp)
  rw [List.append_nil] at hdate hoffset
  have hmarked : readMarked? d.text = none := bind_of_eq_some hdate rfl
  have hspaced : readSpaced? d.text = none := bind_of_eq_some hdate rfl
  have hday : readDay? d.text = some d.midnight := bind_of_eq_some hdate (if_pos ⟨rfl, hvalid⟩)
  rw [read?, Text.trim_eq_self fun c hc => Day.isBlank_of_mem_text hc, hoffset, readPlain?, hmarked,
    hspaced, hday]
  rfl

theorem read?_append {before after : List Char} (hbefore : ∀ c ∈ before, isBlank c = true)
    (hafter : ∀ c ∈ after, isBlank c = true) (text : List Char) :
    read? (before ++ text ++ after) = read? text := by
  rw [read?, Text.trim_append hbefore hafter, read?]

theorem compare?_of_read? {s t : String} {i : Instant} (hs : read? s.toList = some i)
    (ht : read? t.toList = some i) : (Value.text s).compare? (.text t) = some .eq := by
  have hself : compare i i = .eq := by
    show (compare i.seconds i.seconds).then (compare i.nanos i.nanos) = .eq
    simp
  rw [Value.compare?, Value.compareTexts?, hs, ht]
  simp only [hself]

/-- A day and a time with `Z`, without an offset and, if there is no fraction, with a blank in place
of `T` denote one instant, and with an offset the instant that much earlier. A day alone denotes its
midnight. Blanks around a text do not matter, and texts that denote one instant compare as equal. -/
theorem read?_spellings (p : Parts) :
    read? (p.text ++ ['Z']) = some p.instant ∧
      (∀ negative hours minutes, hours ≤ 23 → minutes ≤ 59 →
        read? (p.text ++ offsetText negative hours minutes) =
          some (p.instant.later (-offsetMinutes negative hours minutes))) ∧
      read? p.text = read? (p.text ++ ['Z']) ∧
      (p.fraction = [] → ∀ b, isBlank b = true →
        read? (p.day.text ++ b :: p.clockText) = read? (p.text ++ ['Z'])) ∧
      read? p.day.text = some p.day.midnight ∧
      read? p.day.text = read? (p.day.text ++ "T00:00:00Z".toList) ∧
      (∀ before after : List Char, (∀ c ∈ before, isBlank c = true) →
        (∀ c ∈ after, isBlank c = true) → ∀ text, read? (before ++ text ++ after) = read? text) ∧
      ∀ (s t : String) (i : Instant), read? s.toList = some i → read? t.toList = some i →
        (Value.text s).compare? (.text t) = some .eq := by
  have hzone (q : Parts) : read? (q.text ++ ['Z']) = some q.instant := by
    have hblank : ∀ c ∈ ['Z'], isBlank c = false := List.forall_mem_singleton.mpr (by decide)
    simpa using q.read?_zoned (by simp) hblank rfl
  have hday := read?_day p.isValid_day p.year_bounds
  have hmidnight := hzone { p with
    hour := 0, minute := 0, second := 0, fraction := []
    hour_le := by decide, minute_le := by decide, second_le := by decide
    isDigit_fraction := by simp, length_fraction_le := by simp }
  refine ⟨hzone p, fun negative hours minutes hhours hminutes => ?_, ?_, fun hnone b hb => ?_, hday,
    ?_, fun before after => read?_append, fun s t i => compare?_of_read?⟩
  · refine p.read?_zoned ?_ (fun c => isBlank_of_mem_offsetText)
      (readZone?_offsetText negative hhours hminutes)
    cases negative <;> simp [offsetText]
  · rw [hzone, p.read?_text]
  · rw [hzone, p.read?_spaced hnone hb]
  · rw [hday]
    have hzeros : padded 2 0 = ['0', '0'] := by decide
    simpa [Parts.text, Parts.clockText, Parts.fractionText, Parts.instant, Day.midnight, hzeros]
      using hmidnight.symm

/-- A time behind universal time, which is already in the leap day there. -/
theorem read?_spellings_leap_day :
    read? "2024-02-28T23:30:00.25-01:30".toList = some ⟨1709168400, 250000000⟩ ∧
      (Value.text "2024-02-28T23:30:00.25-01:30").compare? (.text " 2024-02-29T01:00:00.25\n") =
        some .eq := by
  obtain ⟨p, hp, hinstant⟩ : ∃ p : Parts,
      p.text ++ offsetText true 1 30 = "2024-02-28T23:30:00.25-01:30".toList ∧
        p.instant.later (-offsetMinutes true 1 30) = ⟨1709168400, 250000000⟩ :=
    ⟨⟨⟨2024, 2, 28⟩, 23, 30, 0, ['2', '5'], by decide, by decide, by decide, by decide, by decide,
      by simp, by decide⟩, by decide +kernel, by decide +kernel⟩
  obtain ⟨q, hq, hinstant'⟩ : ∃ q : Parts,
      [' '] ++ q.text ++ ['\n'] = " 2024-02-29T01:00:00.25\n".toList ∧
        q.instant = ⟨1709168400, 250000000⟩ :=
    ⟨⟨⟨2024, 2, 29⟩, 1, 0, 0, ['2', '5'], by decide, by decide, by decide, by decide, by decide,
      by simp, by decide⟩, by decide +kernel, by decide +kernel⟩
  obtain ⟨-, hoffset, -, -, -, -, -, hcompare⟩ := read?_spellings p
  obtain ⟨hzone, -, hplain, -, -, -, hblanks, -⟩ := read?_spellings q
  have hleft := hoffset true 1 30 (by decide) (by decide)
  have hright := (hblanks [' '] ['\n'] (List.forall_mem_singleton.mpr (by decide))
    (List.forall_mem_singleton.mpr (by decide)) q.text).trans (hplain.trans hzone)
  rw [hp, hinstant] at hleft
  rw [hq, hinstant'] at hright
  exact ⟨hleft, hcompare _ _ _ hleft hright⟩

end RecordQuery.Date
