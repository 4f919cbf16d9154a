import RecordQuery.Json.Number
import RecordQuery.Proofs.Number.Integer
import RecordQuery.Proofs.Options.Frame
import RecordQuery.Proofs.Options.Object

/-!
# Counts from the numbers of an object

* `Binary64.value`, `Json.Number.value`: what a number is exactly. `Binary64.toInt?_eq_some_iff`: the
  integer that is taken for a number is this value.
* `Json.Number.IsProper`: the numbers that JSON has. `Json.Number.isProper_of_read?`: reading gives no
  others.
* `Options.integerOf?_eq_some_iff`: the integer that is taken for a JSON number is its value, if this
  lies within bounds.
* `Options.ofJson?_eq_of_mem`: where all other fields are accepted, one field decides whether an object
  is.
* `Options.ofJson?_count_exact`: so a number that an object sets a count to is set as it is or refused.
-/

namespace RecordQuery

/-! ## Exact values -/

namespace Binary64

/-- The value of a finite number; zero for the others. -/
def value : Binary64 → ℚ
  | .finite negative m e _ => if negative then -(m * 2 ^ e) else m * 2 ^ e
  | _ => 0

/-- The value in units of the least distance between two numbers. -/
theorem cast_scaled {negative : Bool} {m : Nat} {e : Int}
    (hc : Number.Format.double.IsCanonical m e) :
    (scaled negative m e : ℚ) = (finite negative m e hc).value * 2 ^ 1074 := by
  have hle : -1074 ≤ e := hc.2.1
  have hpow : (2 : ℚ) ^ (e + 1074).toNat = 2 ^ e * 2 ^ 1074 := by
    rw [← zpow_natCast, ← zpow_natCast, ← zpow_add₀ (by norm_num)]
    congr 1
    omega
  cases negative <;> simp [scaled, value, hpow, mul_assoc]

theorem toInt?_eq_some_iff {x : Binary64} (h : x.isFinite = true) {v : Int} :
    x.toInt? = some v ↔ x.value = v := by
  cases x with
  | nan | infinite => cases h
  | finite negative m e hc =>
    have hunit : (2 : ℚ) ^ 1074 ≠ 0 := by positivity
    rw [Number.toInt?_finite_iff, ← Int.cast_inj (α := ℚ), cast_scaled hc, Int.cast_mul, Int.cast_pow,
      Int.cast_ofNat, mul_left_inj' hunit]

end Binary64

namespace Json.Number

/-- The value of a number. -/
def value : Json.Number → ℚ
  | .integer n => n
  | .float x => x.value

/-- An integer of 64 bits, with a sign or without, or a finite number of double precision. -/
def IsProper : Json.Number → Prop
  | .integer n => -2 ^ 63 ≤ n ∧ n < 2 ^ 64
  | .float x => x.isFinite = true

theorem isProper_of_integerOf? {negative : Bool} {m : Nat} {n : Json.Number}
    (h : integerOf? negative m = some n) : n.IsProper := by
  unfold integerOf? at h
  split at h <;> split at h <;> cases h <;> simp only [IsProper] <;> omega

theorem isProper_of_floatOf? {negative : Bool} {whole fraction : List Char} {exponent : Int}
    {n : Json.Number} (h : floatOf? negative whole fraction exponent = some n) : n.IsProper := by
  simp only [floatOf?] at h
  split at h <;> cases h
  assumption

theorem isProper_of_read? {text : List Char} {n : Json.Number} (h : read? text = some n) :
    n.IsProper := by
  simp only [read?, Option.ite_none_left_eq_some] at h
  generalize (if text.head? = some '-' then text.drop 1 else text) = body at h
  obtain ⟨-, h⟩ := h
  split at h
  · rw [Option.orElse_eq_orElse, Option.orElse_eq_or, Option.or_eq_some_iff] at h
    rcases h with h | ⟨-, h⟩
    · exact isProper_of_integerOf? h
    · exact isProper_of_floatOf? h
  · obtain ⟨⟨fraction, tail⟩, -, h⟩ := Option.bind_eq_some_iff.mp h
    obtain ⟨exponent, -, h⟩ := Option.bind_eq_some_iff.mp h
    exact isProper_of_floatOf? h

/-- The least integer that a number is taken for. What is not written as an integer has to lie above
`-2^63`. -/
def leastInteger : Json.Number → Int
  | .integer _ => -2 ^ 63
  | .float _ => -2 ^ 63 + 1

/-- The value of the number is this integer, and it lies within the bounds for integers. -/
structure HasInteger (n : Json.Number) (v : Int) : Prop where
  value_eq : n.value = v
  least_le : n.leastInteger ≤ v
  lt : v < 2 ^ 63

theorem hasInteger_natCast_iff {n : Json.Number} {v : Nat} :
    n.HasInteger v ↔ v < 2 ^ 63 ∧ n.value = v := by
  have hle : n.leastInteger ≤ v := by
    cases n <;> simp only [leastInteger] <;> omega
  constructor
  · intro h
    exact ⟨by have := h.lt; omega, by simpa using h.value_eq⟩
  · rintro ⟨hlt, hvalue⟩
    exact ⟨by simpa using hvalue, hle, by omega⟩

end Json.Number

namespace Options

/-- The integer that is taken for a JSON number is its value, if this is an integer within bounds. -/
theorem integerOf?_eq_some_iff {n : Json.Number} (h : n.IsProper) {v : Int} :
    integerOf? (.number n) = some v ↔ n.HasInteger v := by
  cases n with
  | integer m =>
    have hvalue : (Json.Number.integer m).value = v ↔ m = v := Int.cast_inj
    constructor
    · intro hsome
      simp only [integerOf?] at hsome
      split at hsome <;> cases hsome
      exact ⟨hvalue.mpr rfl, h.1, ‹_›⟩
    · intro hinteger
      obtain rfl := hvalue.mp hinteger.value_eq
      exact if_pos hinteger.lt
  | float x =>
    rw [integerOf?, Option.filter_eq_some_iff, Binary64.toInt?_eq_some_iff h, decide_eq_true_eq]
    constructor
    · rintro ⟨hvalue, hlt⟩
      exact ⟨hvalue, by simp only [Json.Number.leastInteger]; omega, by omega⟩
    · rintro ⟨hvalue, hle, hlt⟩
      simp only [Json.Number.leastInteger] at hle
      exact ⟨hvalue, by omega⟩

/-! ## One number -/

/-- Why a number is refused as a count: it is below zero, or it is not taken for an integer. -/
theorem fieldRefusal?_count (k : CountKey) (n : Json.Number) :
    fieldRefusal? ((Directive.count k).name, .number n) =
      match integerOf? (.number n) with
      | some v => if v < 0 then some (.negativeCount (Directive.count k).name v) else none
      | none => some (.wrongShape (Directive.count k).name .count) := by
  rw [fieldRefusal?, setterOf?_directive]
  rfl

theorem eq_name_of_setterOf? {key : String} {k : CountKey} (h : setterOf? key = some (.count k)) :
    key = (Directive.count k).name := by
  unfold setterOf? at h
  split at h
  · cases h
  · split at h
    · cases h
    · exact (Directive.name_of_ofName? h).symm

/-! ## Objects -/

section Object

variable {fields : List (String × Json)} (hkeys : (Keyed.keys fields).Nodup)
include hkeys

/-- Where all other fields of an object are accepted, one field decides whether the object is. -/
theorem ofJson?_eq_of_mem {field : String × Json} (hmem : field ∈ fields)
    (hothers : ∀ f ∈ fields, f.1 ≠ field.1 → fieldRefusal? f = none) :
    ofJson? (.object fields) = match fieldRefusal? field with
      | some e => .error e
      | none => .ok (ofJson (.object fields)) := by
  have hfirst : fields.findSome? fieldRefusal? = fieldRefusal? field := by
    obtain ⟨before, after, rfl, hne⟩ := exists_append_of_mem hkeys hmem
    have hbefore : before.findSome? fieldRefusal? = none :=
      List.findSome?_eq_none_iff.mpr fun f hf =>
        hothers f (List.mem_append_left _ hf) (hne f (List.mem_append_left _ hf))
    have hafter : after.findSome? fieldRefusal? = none :=
      List.findSome?_eq_none_iff.mpr fun f hf =>
        hothers f (List.mem_append_right _ (List.mem_cons_of_mem _ hf))
          (hne f (List.mem_append_right _ hf))
    rw [List.findSome?_append, hbefore, Option.none_or, List.findSome?_cons, hafter]
    cases fieldRefusal? field <;> rfl
  have hread := ofJson?_eq fields
  rw [hfirst] at hread
  exact hread

theorem count?_ofJson {k : CountKey} {n : Json.Number}
    (hmem : ((Directive.count k).name, .number n) ∈ fields) {v : Nat}
    (h : integerOf? (.number n) = some (v : Int)) :
    (ofJson (.object fields)).count? k = some v := by
  obtain ⟨acc, -, hget⟩ := exists_foldl_get? (k := .directive (.count k)) setField hkeys hmem
    (fun f _ hne acc => get?_setField_of_ne fun d hd heq => by
      cases heq
      exact hne (eq_name_of_setterOf? hd)) empty
  have hcount : (ofJson (.object fields)).count? k = _ := count?_congr hget
  rw [hcount, setField_count acc k h, count?_put]

/-- An object that sets a count to a number, and whose other fields are accepted, is accepted if and
only if the value of the number is an integer from zero to below `2^63`, and then this is the count.
An integer below zero and within bounds is refused as such, and every other number as no integer from
zero on. -/
theorem ofJson?_count_exact {k : CountKey} {n : Json.Number} (hn : n.IsProper)
    (hmem : ((Directive.count k).name, .number n) ∈ fields)
    (hothers : ∀ f ∈ fields, f.1 ≠ (Directive.count k).name → fieldRefusal? f = none) :
    ((∃ o, ofJson? (.object fields) = .ok o) ↔ ∃ v : Nat, v < 2 ^ 63 ∧ n.value = v) ∧
      (∀ o, ofJson? (.object fields) = .ok o → ∃ v : Nat, n.value = v ∧ o.count? k = some v) ∧
      ∀ e, ofJson? (.object fields) = .error e ↔
        (∃ v, n.HasInteger v ∧ v < 0 ∧ e = .negativeCount (Directive.count k).name v) ∨
          (¬∃ v, n.HasInteger v) ∧ e = .wrongShape (Directive.count k).name .count := by
  have hobject := ofJson?_eq_of_mem hkeys hmem hothers
  have hinteger : ∀ v, n.HasInteger v ↔ integerOf? (.number n) = some v := fun v =>
    (integerOf?_eq_some_iff hn).symm
  rw [fieldRefusal?_count] at hobject
  simp only [← Json.Number.hasInteger_natCast_iff, hinteger]
  cases hread : integerOf? (.number n) with
  | none =>
    simp only [hread] at hobject
    simp [hobject, eq_comm]
  | some v =>
    by_cases hneg : v < 0
    · simp only [hread, hneg, if_true] at hobject
      have hnot : ¬∃ w : Nat, v = w := by
        rintro ⟨w, rfl⟩
        omega
      simp [hobject, hneg, hnot, eq_comm]
    · obtain ⟨w, rfl⟩ := Int.eq_ofNat_of_zero_le (not_lt.mp hneg)
      have hvalue : n.value = w := (Json.Number.hasInteger_natCast_iff.mp ((hinteger w).mpr hread)).2
      have hcount := count?_ofJson hkeys hmem hread
      simp only [hread, hneg, if_false] at hobject
      simp [hobject, hvalue, hcount, hneg]

end Object

/-- The greatest number of double precision below `2^63` is a count, between fields that are accepted.
The integer `-2^63` is refused as below zero, and the number of double precision as out of reach. -/
theorem ofJson?_count_exact_bounds :
    let x : Binary64 := .finite false (2 ^ 53 - 1) 10 (by decide)
    let y : Binary64 := .finite true (2 ^ 52) 11 (by decide)
    let fields (n : Json.Number) : List (String × Json) :=
      [("$orderBy", .string "n"), ("$skip", .number n), ("note", .bool true)]
    (Json.Number.float x).IsProper ∧ (Json.Number.integer (-2 ^ 63)).IsProper ∧
      (Json.Number.float y).IsProper ∧
      (∀ n, (Keyed.keys (fields n)).Nodup ∧
        ∀ f ∈ fields n, f.1 ≠ (Directive.count .skip).name → fieldRefusal? f = none) ∧
      (∃ o, ofJson? (.object (fields (.float x))) = .ok o ∧ o.skip? = some (2 ^ 63 - 1024)) ∧
      ofJson? (.object (fields (.integer (-2 ^ 63)))) = .error (.negativeCount "$skip" (-2 ^ 63)) ∧
      ofJson? (.object (fields (.float y))) = .error (.wrongShape "$skip" .count) := by
  intro x y fields
  have hkeys : ∀ n, (Keyed.keys (fields n)).Nodup := fun n => by
    show ["$orderBy", "$skip", "note"].Nodup
    decide
  have hothers : ∀ n, ∀ f ∈ fields n, f.1 ≠ (Directive.count .skip).name → fieldRefusal? f = none := by
    intro n f hf hne
    rcases List.mem_cons.mp hf with rfl | hf
    · rfl
    · rcases List.mem_cons.mp hf with rfl | hf
      · exact absurd rfl hne
      · rw [List.mem_singleton.mp hf]
        rfl
  have hlowest : (Json.Number.integer (-2 ^ 63)).IsProper := ⟨by decide, by decide⟩
  have hexact := fun (n : Json.Number) (hn : n.IsProper) =>
    ofJson?_count_exact (k := .skip) (hkeys n) hn (by simp [fields, Directive.name]) (hothers n)
  refine ⟨rfl, hlowest, rfl, fun n => ⟨hkeys n, hothers n⟩, ?_, ?_, ?_⟩
  · have hx : (Json.Number.float x).value = ((2 ^ 63 - 1024 : Nat) : ℚ) := by
      norm_num [Json.Number.value, Binary64.value, x]
    obtain ⟨haccepted, hcount, -⟩ := hexact (.float x) rfl
    obtain ⟨o, ho⟩ := haccepted.mpr ⟨_, by omega, hx⟩
    obtain ⟨v, hv, hskip⟩ := hcount o ho
    rw [hx, Nat.cast_inj] at hv
    exact ⟨o, ho, hv ▸ hskip⟩
  · obtain ⟨-, -, hrefused⟩ := hexact (.integer (-2 ^ 63)) hlowest
    exact (hrefused _).mpr (.inl ⟨-2 ^ 63, ⟨rfl, by decide, by decide⟩, by decide, rfl⟩)
  · obtain ⟨-, -, hrefused⟩ := hexact (.float y) rfl
    refine (hrefused _).mpr (.inr ⟨?_, rfl⟩)
    rintro ⟨v, hvalue, hle, -⟩
    have hy : (Json.Number.float y).value = ((-2 ^ 63 : Int) : ℚ) := by
      norm_num [Json.Number.value, Binary64.value, y]
    rw [hy, Int.cast_inj] at hvalue
    rw [← hvalue] at hle
    revert hle
    decide

end Options

end RecordQuery
