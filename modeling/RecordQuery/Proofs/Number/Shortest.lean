import RecordQuery.Proofs.Number.Interval
import RecordQuery.Proofs.Number.ReadBack

/-!
# The shortest decimal

* `exists_candidate?`: a grid of powers of ten has a candidate if any of its points rounds to the
  number, and the finest grid has one.
* `exponent_le_shortest`: no decimal on a coarser grid than that of the shortest one rounds to the
  number.
* `shortest_lt`: so none of fewer digits does.
-/

namespace RecordQuery.Number

variable {m : Nat} {e : Int}

theorem RoundsTo.pos {x : ℚ} (hm : m ≠ 0) (h : RoundsTo x m e) : 0 < x := by
  have hm' : (1 : ℚ) ≤ m := by exact_mod_cast Nat.pos_of_ne_zero hm
  have hpow : (0 : ℚ) < 2 ^ e := by positivity
  have hscaled : 0 < x / 2 ^ e := by linarith [h.near.low]
  exact (div_pos_iff_of_pos_right hpow).mp hscaled

/-! ## The points of a grid -/

/-- The point of a grid below a number, as the quotient that finds the candidate. -/
private def below (m : Nat) (e j : Int) : Nat :=
  m * 2 ^ e.toNat * 10 ^ (-j).toNat / (10 ^ j.toNat * 2 ^ (-e).toNat)

/-- A number is not below this point, and below the next one. -/
private theorem below_bounds (m : Nat) (e j : Int) :
    (below m e j : ℚ) * 10 ^ j ≤ m * 2 ^ e ∧ (m : ℚ) * 2 ^ e < (below m e j + 1) * 10 ^ j := by
  have hquotient : ((m * 2 ^ e.toNat * 10 ^ (-j).toNat : Nat) : ℚ) /
      ((10 ^ j.toNat * 2 ^ (-e).toNat : Nat) : ℚ) = m * 2 ^ e / 10 ^ j := by
    push_cast
    rw [pow_toNat_eq (by norm_num) e, pow_toNat_eq (by norm_num) j]
    field_simp
  have hpow : (0 : ℚ) < 10 ^ j := by positivity
  have hden : 0 < 10 ^ j.toNat * 2 ^ (-e).toNat := by positivity
  rw [← le_div_iff₀ hpow, ← div_lt_iff₀ hpow, ← hquotient, below]
  generalize m * 2 ^ e.toNat * 10 ^ (-j).toNat = num at *
  generalize 10 ^ j.toNat * 2 ^ (-e).toNat = den at *
  refine ⟨Nat.cast_div_le, ?_⟩
  rw [div_lt_iff₀' (by exact_mod_cast hden)]
  exact_mod_cast Nat.lt_mul_div_succ num hden

/-- A grid has a candidate if any of its points rounds to the number. The number lies among those
that do, and so does one of the two points next to it. -/
theorem exists_candidate? (tie : Tie) (hm : m ≠ 0) {d : Nat} {j : Int}
    (h : RoundsTo (d * 10 ^ j) m e) : ∃ d', candidate? tie m e j = some d' := by
  have hself := roundsTo_self m e
  obtain ⟨hbelow, habove⟩ := below_bounds m e j
  have hnext : readsBack m e (below m e j) j = true ∨ readsBack m e (below m e j + 1) j = true := by
    rw [readsBack_iff hm, readsBack_iff hm]
    rcases Nat.lt_or_ge (below m e j) d with hlt | hge
    · right
      have hle : ((below m e j + 1 : Nat) : ℚ) ≤ d := by exact_mod_cast hlt
      exact hself.between h (by exact_mod_cast habove.le) (by gcongr)
    · left
      have hle : (d : ℚ) ≤ below m e j := by exact_mod_cast hge
      exact h.between hself (by gcongr) hbelow
  simp only [candidate?]
  rw [show m * 2 ^ e.toNat * 10 ^ (-j).toNat / (10 ^ j.toNat * 2 ^ (-e).toNat) = below m e j from rfl]
  split
  · split <;> exact ⟨_, rfl⟩
  · exact ⟨_, rfl⟩
  · exact ⟨_, rfl⟩
  · rename_i hfalse hfalse'
    rw [hfalse, hfalse'] at hnext
    rcases hnext with hnext | hnext <;> cases hnext

/-- Two steps of the finest grid are no more than the least distance between two numbers. -/
private theorem finest_step_le : 2 * (10 : ℚ) ^ (-324 : Int) ≤ 2 ^ (-1074 : Int) := by
  have hpow : 2 * 2 ^ 1074 ≤ 10 ^ 324 := by decide +kernel
  rw [zpow_neg, zpow_neg, ← div_eq_mul_inv, div_le_iff₀ (by positivity), ← div_eq_inv_mul,
    le_div_iff₀ (by positivity)]
  exact_mod_cast hpow

theorem exists_roundsTo_finest (m : Nat) (he : -1074 ≤ e) :
    ∃ d : Nat, RoundsTo (d * 10 ^ (-324 : Int)) m e := by
  obtain ⟨hbelow, habove⟩ := below_bounds m e (-324)
  have hpow : (0 : ℚ) < 2 ^ e := by positivity
  have hhalf : 2 * (10 : ℚ) ^ (-324 : Int) ≤ 2 ^ e :=
    finest_step_le.trans (zpow_le_zpow_right₀ (by norm_num) he)
  have hquarter : -1074 < e → 4 * (10 : ℚ) ^ (-324 : Int) ≤ 2 ^ e := by
    intro hlt
    calc 4 * (10 : ℚ) ^ (-324 : Int) = 2 * (10 : ℚ) ^ (-324 : Int) * 2 := by ring
      _ ≤ 2 ^ (-1074 : Int) * 2 := by gcongr; exact finest_step_le
      _ = 2 ^ (-1074 + 1 : Int) := (zpow_add_one₀ (by norm_num) _).symm
      _ ≤ 2 ^ e := zpow_le_zpow_right₀ (by norm_num) (by omega)
  refine ⟨below m e (-324), ?_⟩
  generalize (10 : ℚ) ^ (-324 : Int) = step at *
  simp only [RoundsTo, le_div_iff₀ hpow, lt_div_iff₀ hpow, div_le_iff₀ hpow, div_lt_iff₀ hpow]
  by_cases hnarrow : m = 2 ^ 52 ∧ -1074 < e
  · have := hquarter hnarrow.2
    rw [if_pos hnarrow]
    split <;> exact ⟨by linarith, by linarith⟩
  · rw [if_neg hnarrow]
    split <;> exact ⟨by linarith, by linarith⟩

/-! ## The first grid with a candidate -/

/-- The number of digits before the point of a number. -/
private def places (m : Nat) (e : Int) : Nat :=
  (Nat.toDigits 10 (m * 2 ^ e.toNat / 2 ^ (-e).toNat)).length

private theorem lt_pow_places (m : Nat) (e : Int) : (m : ℚ) * 2 ^ e < 10 ^ (places m e : Int) := by
  have hquotient : ((m * 2 ^ e.toNat : Nat) : ℚ) / ((2 ^ (-e).toNat : Nat) : ℚ) = m * 2 ^ e := by
    push_cast
    rw [pow_toNat_eq (by norm_num) e]
    field_simp
  have hden : 0 < 2 ^ (-e).toNat := by positivity
  have hlt : m * 2 ^ e.toNat / 2 ^ (-e).toNat < 10 ^ places m e := by
    refine (Nat.length_toDigits_le_iff (by decide) ?_).mp (Nat.le_refl _)
    exact List.length_pos_of_ne_nil Nat.toDigits_ne_nil
  rw [← hquotient, zpow_natCast, div_lt_iff₀ (by exact_mod_cast hden)]
  exact_mod_cast (Nat.div_lt_iff_lt_mul hden).mp hlt

theorem exponent_le_places (hm : m ≠ 0) {d : Nat} {j : Int} (h : RoundsTo (d * 10 ^ j) m e) :
    j ≤ places m e := by
  have hm' : (1 : ℚ) ≤ m := by exact_mod_cast Nat.pos_of_ne_zero hm
  have hpow : (0 : ℚ) < 2 ^ e := by positivity
  have hd : (1 : ℚ) ≤ d := by
    have hpos := h.pos hm
    have hne : d ≠ 0 := by
      rintro rfl
      simp at hpos
    exact_mod_cast Nat.pos_of_ne_zero hne
  have hnear : (d : ℚ) * 10 ^ j ≤ (m + 1 / 2) * 2 ^ e := (div_le_iff₀ hpow).mp h.near.high
  have hplaces := lt_pow_places m e
  have hlt : (10 : ℚ) ^ j < 10 ^ ((places m e : Int) + 1) := by
    calc (10 : ℚ) ^ j ≤ d * 10 ^ j := le_mul_of_one_le_left (by positivity) hd
      _ ≤ (m + 1 / 2) * 2 ^ e := hnear
      _ ≤ 10 * (m * 2 ^ e) := by nlinarith
      _ < 10 ^ ((places m e : Int) + 1) := by rw [zpow_add_one₀ (by norm_num)]; linarith
  have := (zpow_lt_zpow_iff_right₀ (by norm_num)).mp hlt
  omega

private theorem exists_first_of_findSome? {α : Type} {f : Nat → Option α} {n : Nat} {a : α}
    (h : (List.range n).findSome? f = some a) : ∃ i, f i = some a ∧ ∀ k < i, f k = none := by
  obtain ⟨before, i, after, hrange, hi, hbefore⟩ := List.findSome?_eq_some_iff.mp h
  refine ⟨i, hi, fun k hk => hbefore k ?_⟩
  have hsorted : (before ++ i :: after).Pairwise (· < ·) := hrange ▸ List.pairwise_lt_range
  have hin : i < n := List.mem_range.mp (by rw [hrange]; simp)
  have hmem : k ∈ before ++ i :: after := hrange ▸ List.mem_range.mpr (hk.trans hin)
  rcases List.mem_append.mp hmem with hmem | hmem
  · exact hmem
  · rcases List.mem_cons.mp hmem with rfl | hmem
    · omega
    · have := List.rel_of_pairwise_cons (List.pairwise_append.mp hsorted).2.1 hmem
      omega

/-- No decimal on a coarser grid than that of the shortest one rounds to the number. -/
theorem exponent_le_shortest (tie : Tie) (hm : m ≠ 0) (he : -1074 ≤ e) {d : Nat} {j : Int}
    (h : RoundsTo (d * 10 ^ j) m e) : j ≤ (shortest tie m e).exponent := by
  simp only [shortest]
  rw [show (Nat.toDigits 10 (m * 2 ^ e.toNat / 2 ^ (-e).toNat)).length = places m e from rfl]
  cases hfound : (List.range (places m e + 325)).findSome? fun (i : Nat) =>
    (candidate? tie m e ((places m e : Int) - i)).map fun d => (⟨d, places m e - i⟩ : Decimal) with
  | none =>
    -- The last grid that is searched is the finest one.
    obtain ⟨d', hd'⟩ := exists_roundsTo_finest m he
    obtain ⟨found, hcandidate⟩ := exists_candidate? tie hm hd'
    have hlast := List.findSome?_eq_none_iff.mp hfound (places m e + 324) (by simp)
    rw [show (places m e : Int) - (places m e + 324 : Nat) = -324 by omega, hcandidate] at hlast
    cases hlast
  | some found =>
    obtain ⟨i, hi, hbefore⟩ := exists_first_of_findSome? hfound
    obtain ⟨d', -, rfl⟩ := Option.map_eq_some_iff.mp hi
    show j ≤ (places m e : Int) - i
    by_contra hlt
    have hplaces := exponent_le_places hm h
    obtain ⟨k, rfl⟩ : ∃ k : Nat, j = places m e - k := ⟨(places m e - j).toNat, by omega⟩
    obtain ⟨d', hcandidate⟩ := exists_candidate? tie hm h
    have hnone := hbefore k (by omega)
    rw [hcandidate] at hnone
    cases hnone

/-- No decimal of fewer digits than the shortest one rounds to the number. Otherwise the first number
with more digits would lie between the two, on a coarser grid. -/
theorem shortest_lt (tie : Tie) (hm : m ≠ 0) (he : -1074 ≤ e) {d k : Nat} {j : Int} (hd : d < 10 ^ k)
    (h : RoundsTo (d * 10 ^ j) m e) : (shortest tie m e).digits < 10 ^ k := by
  by_contra hge
  have hge' : (10 : ℚ) ^ k ≤ (shortest tie m e).digits := by exact_mod_cast not_lt.mp hge
  have hd' : (d : ℚ) ≤ 10 ^ k := by exact_mod_cast hd.le
  have hcoarse : RoundsTo ((1 : Nat) * 10 ^ (k + (shortest tie m e).exponent)) m e := by
    rw [Nat.cast_one, one_mul, zpow_add₀ (by norm_num), zpow_natCast]
    refine h.between (shortest_roundsTo tie hm e) ?_ (by gcongr)
    calc (d : ℚ) * 10 ^ j ≤ 10 ^ k * 10 ^ j := by gcongr
      _ ≤ 10 ^ k * 10 ^ (shortest tie m e).exponent := by
        gcongr
        · norm_num
        · exact exponent_le_shortest tie hm he h
  have hk : k = 0 := by
    have := exponent_le_shortest tie hm he hcoarse
    omega
  have hzero : d = 0 := by
    rw [hk, pow_zero] at hd
    omega
  have hpos := h.pos hm
  simp [hzero] at hpos

end RecordQuery.Number
