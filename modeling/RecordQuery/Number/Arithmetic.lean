import RecordQuery.Number.Binary64

/-!
# Products and quotients of double precision numbers

* `Binary64.mul`, `Binary64.div`: the number nearest to the exact result, ties to even. Where there
  is no result, as for zero times an infinity, it is not a number.
-/

namespace RecordQuery.Binary64

-- Powers are those of core, whatever else is imported.
attribute [local instance (high)] instPowNat

/-- The number nearest to `± num / den * 2^e`. -/
def ofScaledRatio (negative : Bool) (num den : Nat) (e : Int) : Binary64 :=
  ofRatio negative (num * 2 ^ e.toNat) (den * 2 ^ (-e).toNat)

/-- An infinity taken as often as a number of this significand says. -/
def infiniteTimes (negative : Bool) (m : Nat) : Binary64 := if m = 0 then .nan else .infinite negative

/-- The product. -/
protected def mul : Binary64 → Binary64 → Binary64
  | .finite a m e _, .finite b n k _ => ofScaledRatio (a ^^ b) (m * n) 1 (e + k)
  | .infinite a, .finite b n _ _ => infiniteTimes (a ^^ b) n
  | .finite a m _ _, .infinite b => infiniteTimes (a ^^ b) m
  | .infinite a, .infinite b => .infinite (a ^^ b)
  | .nan, _ | _, .nan => .nan

instance : Mul Binary64 := ⟨Binary64.mul⟩

/-- The quotient. -/
protected def div : Binary64 → Binary64 → Binary64
  | .finite a m e _, .finite b n k _ =>
    if n = 0 then infiniteTimes (a ^^ b) m else ofScaledRatio (a ^^ b) m n (e - k)
  | .infinite a, .finite b _ _ _ => .infinite (a ^^ b)
  | .finite a _ _ _, .infinite b => .zero (a ^^ b)
  | .infinite _, .infinite _ => .nan
  | .nan, _ | _, .nan => .nan

instance : Div Binary64 := ⟨Binary64.div⟩

end RecordQuery.Binary64
