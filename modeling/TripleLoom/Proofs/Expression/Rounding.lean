import TripleLoom.Proofs.Value.Canonical

/-!
# TripleLoom.Proofs.Expression.Rounding — rounding to an integer

A number is rounded up to the least integer that is not below it, down to the greatest one that is not
above it, or to the greatest one that is not above the number and a half (`Rounding.integer`).  Integers
and decimals are rounded exactly, in their own kind, and a result is missing only where the kind does not
hold the integer; and so it is for the functions of expressions, `CEIL`, `FLOOR` and `ROUND`, whatever
literal of that value they are given (`Rounding.rounds_exactly`).
-/

namespace TripleLoom

/-- The ways of rounding a number to an integer. -/
inductive Rounding where
  | up
  | down
  | halfUp

namespace Rounding

/-- The integer that a number is rounded to. -/
def integer : Rounding → ℚ → Int
  | .up, x => ⌈x⌉
  | .down, x => ⌊x⌋
  | .halfUp, x => ⌊x + 1 / 2⌋

/-- The operation on numbers. -/
def round? : Rounding → Numeric → Option Numeric
  | .up => Numeric.ceil?
  | .down => Numeric.floor?
  | .halfUp => Numeric.round?

/-- The function of expressions. -/
def builtin : Rounding → Builtin
  | .up => .ceil
  | .down => .floor
  | .halfUp => .round

theorem integer_intCast (r : Rounding) (n : Int) : r.integer n = n := by
  cases r with
  | up => exact Int.ceil_intCast n
  | down => exact Int.floor_intCast n
  | halfUp =>
    rw [integer, Int.floor_intCast_add]
    norm_num

end Rounding

/-! ### Decimals -/

namespace Decimal

variable {a c : Decimal}

theorem unit_eq : unit = 1000000000000000000 := by decide

theorem ofInt?_eq_some_iff {n : Int} : ofInt? n = some c ↔ c.value = n := by
  rw [ofInt?, ofCoefficient?_eq_some_iff, value_eq_iff]
  exact_mod_cast Iff.rfl

theorem ceil_value (a : Decimal) : ⌈a.value⌉ = -(-a.coefficient.val / unit) :=
  Rat.ceil_intCast_div_natCast a.coefficient.val (pow10 places)

theorem floor_value (a : Decimal) : ⌊a.value⌋ = a.coefficient.val / unit :=
  Rat.floor_intCast_div_natCast a.coefficient.val (pow10 places)

theorem floor_value_add_half (a : Decimal) :
    ⌊a.value + 1 / 2⌋ = (2 * a.coefficient.val + unit) / (2 * unit) := by
  have hhalf : a.value + 1 / 2 = (2 * a.coefficient.val + unit : Int) / (2 * pow10 places : Nat) := by
    rw [value, div_add_div _ _ unit_ne_zero two_ne_zero]
    push_cast
    rw [show (unit : ℚ) = pow10 places from rfl]
    ring
  rw [hhalf]
  exact Rat.floor_intCast_div_natCast _ _

/-- Division toward zero is one above the integer below where that is missed. -/
theorem tdiv_unit (n : Int) : n.tdiv unit = n / unit + if 0 ≤ n ∨ unit ∣ n then 0 else 1 := by
  rw [Int.tdiv_eq_ediv, Int.sign_eq_one_of_pos unit_pos]

/-- Division toward zero misses the integer above a positive number that is no integer itself. -/
theorem ceil?_eq_some_iff : a.ceil? = some c ↔ c.value = ⌈a.value⌉ := by
  have hinteger (n : Int) :
      (if 0 < n ∧ n.tmod unit ≠ 0 then n.tdiv unit + 1 else n.tdiv unit) = -(-n / unit) := by
    simp only [ne_eq, ← Int.dvd_iff_tmod_eq_zero, tdiv_unit]
    rw [unit_eq]
    split <;> split <;> omega
  rw [ceil?, ofInt?_eq_some_iff, ceil_value, hinteger]

/-- Division toward zero misses the integer below a negative number that is no integer itself. -/
theorem floor?_eq_some_iff : a.floor? = some c ↔ c.value = ⌊a.value⌋ := by
  have hinteger (n : Int) :
      (if 0 ≤ n ∨ n.tmod unit = 0 then n.tdiv unit else n.tdiv unit - 1) = n / unit := by
    simp only [← Int.dvd_iff_tmod_eq_zero, tdiv_unit]
    rw [unit_eq]
    split <;> omega
  rw [floor?, ofInt?_eq_some_iff, floor_value, hinteger]

theorem round?_eq_some_iff : a.round? = some c ↔ c.value = ⌊a.value + 1 / 2⌋ := by
  rw [round?, ofInt?_eq_some_iff, floor_value_add_half]

end Decimal

/-! ### Functions of expressions -/

/-- A function of a number gives the canonical literal of its result. -/
theorem Eval.run_rounding {m : Eval Term} {t : Term} {n : Numeric} {before after : Scopes}
    (f : Numeric → Option Numeric) (hm : m.run before = (some t, after))
    (ht : Value.ofTerm t = .numeric n) :
    (rounding m f).run before = ((f n).map fun m => .literal m.toLiteral, after) := by
  have hnumeric : (numeric m).run before = (some n, after) := by
    rw [numeric, run_bind_of_run (run_value_of_run hm), ht]
    rfl
  rw [rounding, run_bind_of_run hnumeric]
  cases f n <;> rfl

namespace Rounding

variable {n : Numeric} {k : ExactKind} {x : ℚ}

theorem eval_call (r : Rounding) {c : EvalContext} {s : Solution} {e : Expression} {t : Term}
    {before after : Scopes} (he : (e.eval c s).run before = (some t, after))
    (ht : Value.ofTerm t = .numeric n) :
    ((Expression.call (.builtin r.builtin) [e]).eval c s).run before =
      ((r.round? n).map fun m => .literal m.toLiteral, after) := by
  cases r <;> exact Eval.run_rounding _ he ht

/-- A number is rounded to the integer if the kind holds it. -/
theorem round?_eq_some_iff (r : Rounding) (hn : n.HasValue k x) {m : Numeric} :
    r.round? n = some m ↔ m.HasValue k (r.integer x) := by
  cases hn with
  | integer i =>
    have hsame : r.round? (.integer i) = some (.integer i) := by cases r <;> rfl
    rw [hsame, r.integer_intCast, Option.some.injEq]
    exact ⟨fun h => h ▸ .integer i, fun h => (Numeric.HasValue.integer i).unique h⟩
  | decimal d =>
    cases r with
    | up => exact Numeric.map_decimal_eq_some_iff fun _ => Decimal.ceil?_eq_some_iff
    | down => exact Numeric.map_decimal_eq_some_iff fun _ => Decimal.floor?_eq_some_iff
    | halfUp => exact Numeric.map_decimal_eq_some_iff fun _ => Decimal.round?_eq_some_iff

/-- **Rounding is exact.**  Take a number that is an integer or a decimal, and one of the three ways of
rounding.  The result is a number of the same kind, and it is the least integer that is not below the
number, the greatest that is not above it, or the greatest that is not above the number and a half; it is
missing only where the kind does not hold that integer.  The functions `CEIL`, `FLOOR` and `ROUND` of an
expression that gives a literal of that value give the canonical literal of the same result, and fail only
where it is missing. -/
theorem rounds_exactly (r : Rounding) (hn : n.HasValue k x) :
    (∀ m, r.round? n = some m ↔ m.HasValue k (r.integer x)) ∧
    (r.round? n = none ↔ ¬k.Holds (r.integer x)) ∧
    ∀ (c : EvalContext) (s : Solution) (e : Expression) (l : Literal) (before after : Scopes),
      l.Denotes k x → (e.eval c s).run before = (some (.literal l), after) →
      (∀ t, ((Expression.call (.builtin r.builtin) [e]).eval c s).run before = (some t, after) ↔
        ∃ m : Numeric, m.HasValue k (r.integer x) ∧ m.toLiteral.Denotes k (r.integer x) ∧
          t = .literal m.toLiteral) ∧
      (((Expression.call (.builtin r.builtin) [e]).eval c s).run before = (none, after) ↔
        ¬k.Holds (r.integer x)) := by
  have hnone := Numeric.eq_none_iff_of_some_iff fun _ => round?_eq_some_iff r hn
  refine ⟨fun _ => round?_eq_some_iff r hn, hnone, fun c s e l before after hl he => ?_⟩
  obtain ⟨n', hread, hn'⟩ := Value.ofTerm_of_denotes hl (Numeric.exists_hasValue_iff.mp ⟨n, hn⟩)
  rw [hn'.unique hn] at hread
  rw [eval_call r he hread]
  refine ⟨fun t => ?_, ?_⟩
  · rw [Prod.mk.injEq, and_iff_left rfl, Option.map_eq_some_iff]
    refine exists_congr fun m => ?_
    rw [round?_eq_some_iff r hn, eq_comm (b := t)]
    exact and_congr_right fun hm => (and_iff_right hm.denotes_toLiteral).symm
  · rw [Prod.mk.injEq, and_iff_left rfl, Option.map_eq_none_iff, hnone]

/-- A decimal just below a tie of two integers. -/
def belowTie : Literal := .typed "-02.5000000000000000010" (Iri.xsd "decimal")

/-- Only the last of its eighteen places takes the decimal below the tie, and `ROUND` goes down. -/
theorem belowTie_rounds_exactly :
    (Numeric.ofUnits (-2500000000000000001) (by decide)).round? =
      some (Numeric.ofUnits (-3000000000000000000) (by decide)) ∧
    ((Expression.call (.builtin .round) [.literal belowTie]).eval ⟨.empty, none, 0⟩ .empty).run .empty =
      (some (.literal (.typed "-3" (Iri.xsd "decimal"))), .empty) := by
  have hunit : (Decimal.unit : ℚ) = 1000000000000000000 := by exact_mod_cast Decimal.unit_eq
  have hn : (Numeric.ofUnits (-2500000000000000001) (by decide)).HasValue .decimal
      (-2500000000000000001 / Decimal.unit) :=
    Numeric.hasValue_ofUnits _ (by rw [div_mul_cancel₀ _ Decimal.unit_ne_zero]; norm_num)
  have hinteger : halfUp.integer (-2500000000000000001 / Decimal.unit) = -3 := by
    rw [integer, Int.floor_eq_iff, hunit]
    norm_num
  have hthree : (Numeric.ofUnits (-3000000000000000000) (by decide)).HasValue .decimal (-3 : Int) :=
    Numeric.hasValue_ofUnits _ (by rw [hunit]; norm_num)
  obtain ⟨hround, -, hcall⟩ := rounds_exactly .halfUp hn
  rw [hinteger] at hround hcall
  have hread : Decimal.read? "-02.5000000000000000010" =
      some ⟨⟨-2500000000000000001, by decide, by decide⟩⟩ := by
    decide
  obtain ⟨hresult, -⟩ := hcall ⟨.empty, none, 0⟩ .empty (.literal belowTie) belowTie .empty .empty
    (.decimal (Decimal.read?_eq_some_iff.mp hread)) rfl
  exact ⟨(hround _).mpr hthree, (hresult _).mpr ⟨_, hthree, hthree.denotes_toLiteral, by decide⟩⟩

end Rounding

end TripleLoom
