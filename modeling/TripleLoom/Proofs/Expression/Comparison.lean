import Mathlib.Data.Int.ConditionallyCompleteOrder
import Mathlib.Order.Compare
import TripleLoom.Proofs.Expression.Pure
import TripleLoom.Proofs.Numeric.Numerals

/-!
# TripleLoom.Proofs.Expression.Comparison — comparing terms by their values

Terms are compared as the values that they are read as.  Apart from floats and doubles, where "not a
number" and rounding get in the way, the values fall into lines: the numbers, the truth values, the
simple strings and the strings of each language, each in its linear order, and one line for every other
value alone (`Value.Compared`).  Two values have an order exactly if they are on one line.  So the
comparison of terms is coherent (`Term.comparison_coherent`): `=` is an equivalence that the same terms
are in, `<` is a strict order compatible with it, and literals of integers and decimals are in the order
of the rational numbers that they spell.
-/

namespace TripleLoom

/-! ### Numbers -/

namespace Numeric

variable {m n : Numeric} {k l : ExactKind} {x y : ℚ}

/-- A number has one kind and one value. -/
theorem HasValue.value_unique (h : m.HasValue k x) (h' : m.HasValue l y) : x = y := by
  cases h <;> cases h' <;> rfl

/-- An integer or a decimal of the same kind that is equal as such is the same. -/
theorem eq_of_same (hm : m.HasValue k x) (h : m.same n) : m = n := by
  cases hm with
  | integer i =>
    cases n with
    | integer j => exact congrArg Numeric.integer (beq_iff_eq.mp h)
    | decimal | float | double => cases h
  | decimal c =>
    cases n with
    | decimal d => exact congrArg Numeric.decimal (beq_iff_eq.mp h)
    | integer | float | double => cases h

/-- A strictly monotone reading of integers keeps their order. -/
theorem compare_of_strictMono {f : Int → ℚ} (hf : StrictMono f) (i j : Int) :
    Ord.compare i j = Ord.compare (f i) (f j) := by
  rw [← cmp_eq_compare, ← cmp_eq_compare, hf.cmp_map_eq]

/-- Integers and decimals are in the order of their values. -/
theorem compare_eq (hm : m.HasValue k x) (hn : n.HasValue l y) : m.compare n = some (Ord.compare x y) := by
  have hpair := hasValues_promote hm hn
  rw [compare]
  generalize promote m n = p, k.later l = kind at hpair
  cases hpair with
  | integer i j => exact congrArg some (compare_of_strictMono Int.cast_strictMono i.val j.val)
  | decimal c d =>
    have hunit : (0 : ℚ) < Decimal.unit := by exact_mod_cast Decimal.unit_pos
    exact congrArg some (compare_of_strictMono
      (Int.cast_strictMono.div_const hunit) c.coefficient.val d.coefficient.val)

end Numeric

/-! ### Values -/

namespace Value

/-- Whether a value is no float and no double. -/
def IsExact : Value → Prop
  | .numeric n => ∃ k x, n.HasValue k x
  | _ => True

/-- The order of two values that are on one line. -/
inductive Compared : Value → Value → Ordering → Prop where
  | iri (i : Iri) : Compared (.iri i) (.iri i) .eq
  | blank (b : BlankNode) : Compared (.blank b) (.blank b) .eq
  | boolean (v w : Bool) {o : Ordering} (ho : Ord.compare v w = o) :
      Compared (.boolean v) (.boolean w) o
  | numeric {m n : Numeric} {k l : ExactKind} {x y : ℚ} {o : Ordering} (hm : m.HasValue k x)
      (hn : n.HasValue l y) (ho : Ord.compare x y = o) : Compared (.numeric m) (.numeric n) o
  | simple (v w : String) {o : Ordering} (ho : Ord.compare v w = o) :
      Compared (.simple v) (.simple w) o
  | tagged (v w language : String) {o : Ordering} (ho : Ord.compare v w = o) :
      Compared (.tagged v language) (.tagged w language) o
  | other (l : Literal) : Compared (.other l) (.other l) .eq

variable {a b c : Value} {o p : Ordering}

/-- Two values have an order exactly if they are on one line, and then that of the line. -/
theorem compare_eq_some_iff (ha : a.IsExact) (hb : b.IsExact) :
    a.compare b = some o ↔ Compared a b o := by
  constructor
  · intro h
    unfold compare at h
    split at h
    · obtain ⟨k, x, hx⟩ := ha
      obtain ⟨l, y, hy⟩ := hb
      rw [Numeric.compare_eq hx hy, Option.some.injEq] at h
      exact .numeric hx hy h
    · exact .boolean _ _ (Option.some.inj h)
    · exact .simple _ _ (Option.some.inj h)
    · rw [Option.ite_none_right_eq_some] at h
      obtain ⟨rfl, ho⟩ := h
      exact .tagged _ _ _ (Option.some.inj ho)
    · rw [Option.ite_none_right_eq_some] at h
      obtain ⟨rfl, ⟨⟩⟩ := h
      exact .iri _
    · rw [Option.ite_none_right_eq_some] at h
      obtain ⟨rfl, ⟨⟩⟩ := h
      exact .blank _
    · rw [Option.ite_none_right_eq_some] at h
      obtain ⟨rfl, ⟨⟩⟩ := h
      exact .other _
    · cases h
  · intro h
    cases h with
    | numeric hm hn ho => exact (Numeric.compare_eq hm hn).trans (congrArg some ho)
    | boolean _ _ ho => exact congrArg some ho
    | simple _ _ ho => exact congrArg some ho
    | tagged _ _ _ ho => exact (if_pos rfl).trans (congrArg some ho)
    | iri | blank | other => exact if_pos rfl

/-- The order of two values is the reverse of that of the two the other way round. -/
theorem Compared.swap (h : Compared a b o) : Compared b a o.swap := by
  cases h with
  | iri i => exact .iri i
  | blank b => exact .blank b
  | boolean v w ho => exact .boolean w v (ho ▸ Std.OrientedOrd.eq_swap)
  | numeric hm hn ho => exact .numeric hn hm (ho ▸ Std.OrientedOrd.eq_swap)
  | simple v w ho => exact .simple w v (ho ▸ Std.OrientedOrd.eq_swap)
  | tagged v w l ho => exact .tagged w v l (ho ▸ Std.OrientedOrd.eq_swap)
  | other l => exact .other l

/-- Of three elements of an order, the first is to the third as the second is, if it is equal to the
second or to the second as that is to the third. -/
theorem compare_trans {α : Type} [Ord α] [Std.TransOrd α] {x y z : α} (h : Ord.compare x y = o)
    (h' : Ord.compare y z = p) (hop : o = .eq ∨ o = p) : Ord.compare x z = p := by
  obtain rfl | rfl := hop
  · rw [Std.TransCmp.congr_left h, h']
  · cases o with
    | lt => exact Std.TransCmp.lt_trans h h'
    | eq => exact Std.TransCmp.eq_trans h h'
    | gt => exact Std.TransCmp.gt_trans h h'

/-- The same of three values on one line. -/
theorem Compared.trans (h : Compared a b o) (h' : Compared b c p) (hop : o = .eq ∨ o = p) :
    Compared a c p := by
  cases h with
  | iri | blank | other => exact h'
  | boolean v w ho =>
    cases h' with
    | boolean _ z hp => exact .boolean v z (compare_trans ho hp hop)
  | numeric hm hn ho =>
    cases h' with
    | numeric hn' hz hp => exact .numeric hm hz (compare_trans ho (hn.value_unique hn' ▸ hp) hop)
  | simple v w ho =>
    cases h' with
    | simple _ z hp => exact .simple v z (compare_trans ho hp hop)
  | tagged v w l ho =>
    cases h' with
    | tagged _ z _ hp => exact .tagged v z l (compare_trans ho hp hop)

/-- The first of three values is to the third as to the second, if these two are equal. -/
theorem Compared.trans_eq (h : Compared a b o) (h' : Compared b c .eq) : Compared a c o := by
  have hswapped := (h'.swap.trans h.swap (.inl rfl)).swap
  rwa [Ordering.swap_swap] at hswapped

/-- The order of two values does not depend on the way it is found. -/
theorem Compared.unique (ha : a.IsExact) (hb : b.IsExact) (h : Compared a b o) (h' : Compared a b p) :
    o = p :=
  Option.some.inj (((compare_eq_some_iff ha hb).mpr h).symm.trans ((compare_eq_some_iff ha hb).mpr h'))

theorem compare_eq_map_swap (ha : a.IsExact) (hb : b.IsExact) :
    a.compare b = (b.compare a).map Ordering.swap := by
  refine Option.ext fun o => ?_
  rw [Option.map_eq_some_iff, compare_eq_some_iff ha hb]
  constructor
  · exact fun h => ⟨o.swap, (compare_eq_some_iff hb ha).mpr h.swap, Ordering.swap_swap⟩
  · rintro ⟨p, hp, rfl⟩
    exact ((compare_eq_some_iff hb ha).mp hp).swap

/-- A value that is no float and no double is equal to itself. -/
theorem Compared.refl (ha : a.IsExact) : Compared a a .eq := by
  cases a with
  | iri i => exact .iri i
  | blank b => exact .blank b
  | boolean v => exact .boolean v v Std.ReflOrd.compare_self
  | numeric n =>
    obtain ⟨k, x, hx⟩ := ha
    exact .numeric hx hx Std.ReflOrd.compare_self
  | simple v => exact .simple v v Std.ReflOrd.compare_self
  | tagged v l => exact .tagged v v l Std.ReflOrd.compare_self
  | other l => exact .other l

/-- Values of one shape that are equal in it are the same. -/
theorem eq_of_same (ha : a.IsExact) (h : a.same b) : a = b := by
  unfold same at h
  split at h
  · rw [beq_iff_eq.mp h]
  · rw [beq_iff_eq.mp h]
  · rw [beq_iff_eq.mp h]
  · obtain ⟨k, x, hx⟩ := ha
    rw [Numeric.eq_of_same hx h]
  · rw [beq_iff_eq.mp h]
  · rw [Bool.and_eq_true, beq_iff_eq, beq_iff_eq] at h
    rw [h.1, h.2]
  · rw [beq_iff_eq.mp h]
  · cases h

/-- Two values are equal exactly if they are at one point of one line. -/
theorem equal_iff (ha : a.IsExact) (hb : b.IsExact) : a.equal b ↔ Compared a b .eq := by
  rw [← compare_eq_some_iff ha hb, equal]
  split
  · next order horder => rw [horder, beq_iff_eq, Option.some.injEq]
  · next hnone =>
    rw [hnone]
    refine iff_of_false (fun hsame => ?_) nofun
    rw [eq_of_same ha hsame, (compare_eq_some_iff hb hb).mpr (.refl hb)] at hnone
    cases hnone

end Value

/-! ### Terms -/

/-- Whether a term is a literal of one of the two kinds of floating-point numbers. -/
def Term.IsFloating : Term → Prop
  | .literal l => l.datatype = Iri.xsd "float" ∨ l.datatype = Iri.xsd "double"
  | _ => False

/-- A literal of an integer or decimal datatype and what its numeral spells. -/
inductive Literal.Denotes : Literal → ExactKind → ℚ → Prop where
  | integer {v : String} {d : Iri} {x : ℚ} (hd : Numeric.isIntegerDatatype d)
      (h : ExactKind.integer.Spells v.toList x) : Denotes (.typed v d) .integer x
  | decimal {v : String} {x : ℚ} (h : ExactKind.decimal.Spells v.toList x) :
      Denotes (.typed v (Iri.xsd "decimal")) .decimal x

/-- A literal is read as an integer or a decimal if its datatype is not that of a float or double. -/
theorem Numeric.exists_hasValue_of_ofLiteral? {l : Literal} {n : Numeric}
    (hl : ¬(Term.literal l).IsFloating) (h : ofLiteral? l = some (some n)) : ∃ k x, n.HasValue k x := by
  rw [ofLiteral?, read?] at h
  split at h
  · obtain ⟨i, -, rfl⟩ := Option.map_eq_some_iff.mp (Option.some.inj h)
    exact ⟨_, _, .integer i⟩
  split at h
  · obtain ⟨d, -, rfl⟩ := Option.map_eq_some_iff.mp (Option.some.inj h)
    exact ⟨_, _, .decimal d⟩
  split at h
  · next hfloat => exact absurd (.inl hfloat) hl
  split at h
  · next hdouble => exact absurd (.inr hdouble) hl
  · cases h

/-- Only literals of the numeric datatypes are read as numbers, valid or not. -/
theorem Numeric.isNumericDatatype_of_read? {d : Iri} {v : String} {n : Option Numeric}
    (h : read? d v = some n) : isNumericDatatype d := by
  rw [isNumericDatatype, Bool.or_eq_true, List.any_eq_true]
  unfold read? at h
  split at h
  · next hinteger => exact .inl hinteger
  split at h
  · next hd => exact .inr ⟨"decimal", by decide, beq_iff_eq.mpr hd.symm⟩
  split at h
  · next hd => exact .inr ⟨"float", by decide, beq_iff_eq.mpr hd.symm⟩
  split at h
  · next hd => exact .inr ⟨"double", by decide, beq_iff_eq.mpr hd.symm⟩
  · cases h

namespace Value

theorem isExact_ofTerm {t : Term} (h : ¬t.IsFloating) : (ofTerm t).IsExact := by
  cases t with
  | iri | blank => trivial
  | literal l =>
    rw [ofTerm]
    unfold ofLiteral
    split
    · trivial
    split
    · trivial
    split
    · split <;> trivial
    split
    · next hnumeric => exact Numeric.exists_hasValue_of_ofLiteral? h hnumeric
    · trivial

theorem ofLiteral_of_numeric {v : String} {d : Iri} {n : Numeric} (h : Numeric.read? d v = some (some n)) :
    ofLiteral (.typed v d) = .numeric n := by
  have hnumeric : Numeric.isNumericDatatype d := Numeric.isNumericDatatype_of_read? h
  have hstring : d ≠ Iri.xsd "string" := fun hd => absurd (hd ▸ hnumeric) (by decide)
  have hboolean : d ≠ Iri.xsd "boolean" := fun hd => absurd (hd ▸ hnumeric) (by decide)
  have hread : Numeric.ofLiteral? (.typed v d) = some (some n) := h
  rw [ofLiteral, Literal.datatype, if_neg hstring, if_neg hboolean, hread]
  intro value language heq
  cases heq

/-- A literal whose number is in the range is read as that number. -/
theorem ofTerm_of_denotes {l : Literal} {k : ExactKind} {x : ℚ} (h : l.Denotes k x) (hk : k.Holds x) :
    ∃ n, ofTerm (.literal l) = .numeric n ∧ n.HasValue k x := by
  obtain ⟨n, hn⟩ := Numeric.exists_hasValue_iff.mpr hk
  refine ⟨n, ?_, hn⟩
  cases h with
  | @integer v d _ hd hspells =>
    obtain ⟨i, rfl, rfl⟩ := Numeric.hasValue_integer_iff.mp hn
    refine ofLiteral_of_numeric ?_
    rw [Numeric.read?, if_pos hd, Integer.read?_eq_some_iff.mpr hspells, Option.map_some]
  | @decimal v _ hspells =>
    obtain ⟨d, rfl, rfl⟩ := Numeric.hasValue_decimal_iff.mp hn
    rw [ofTerm]
    refine ofLiteral_of_numeric ?_
    rw [Numeric.read?, if_neg (by decide), if_pos rfl, Decimal.read?_eq_some_iff.mpr hspells,
      Option.map_some]

end Value

/-! ### Operators -/

namespace Eval

variable {α β : Type} {m : Eval α} {a : α} {before after : Scopes}

theorem run_bind_of_run (h : m.run before = (some a, after)) (f : α → Eval β) :
    (m >>= f).run before = (f a).run after := by
  rw [run_bind, h]

theorem run_value_of_run {m : Eval Term} {a : Term} (h : m.run before = (some a, after)) :
    (value m).run before = (some (.ofTerm a), after) :=
  run_bind_of_run h _

end Eval

namespace BinaryOperator

/-- What an operator gives for two terms. -/
def between? (o : BinaryOperator) (a b : Term) : Option Term := (o.apply (pure a) (pure b)).result?

/-- Whether an operator gives "true" for two terms. -/
def Holds (o : BinaryOperator) (a b : Term) : Prop := o.between? a b = some (.ofBool true)

variable {a b c : Term} {o : Ordering}

theorem ofBool_eq_true_iff {v : Bool} : Term.ofBool v = Term.ofBool true ↔ v := by
  cases v <;> decide

theorem holds_sameTerm_iff : sameTerm.Holds a b ↔ a = b := by
  rw [Holds, show sameTerm.between? a b = some (.ofBool (a = b)) from rfl, Option.some.injEq,
    ofBool_eq_true_iff, decide_eq_true_eq]

/-- A comparison of ordered values fails exactly if the values have no order. -/
theorem result?_comparison (accepts : Ordering → Bool) :
    (Eval.comparison (pure a) (pure b) accepts).result? =
      ((Value.ofTerm a).compare (.ofTerm b)).map fun o => .ofBool (accepts o) := by
  show (Eval.ofOption ((Value.ofTerm a).compare (.ofTerm b)) >>= fun o =>
    pure (Term.ofBool (accepts o))).result? = _
  cases (Value.ofTerm a).compare (.ofTerm b) <;> rfl

/-- Whether an operator compares its operands. -/
def Compares (op : BinaryOperator) : Prop :=
  op ∈ [equal, sameTerm, greater, greaterOrEqual, less, lessOrEqual]

/-- Whatever computes the two operands, a comparison gives what it gives for their terms. -/
theorem run_apply_of_compares {op : BinaryOperator} (hop : op.Compares) {m n : Eval Term}
    {before between after : Scopes} (hm : m.run before = (some a, between))
    (hn : n.run between = (some b, after)) :
    (op.apply m n).run before = (op.between? a b, after) := by
  have hcomparison (accepts : Ordering → Bool) :
      (Eval.comparison m n accepts).run before =
        ((Eval.comparison (pure a) (pure b) accepts).result?, after) := by
    rw [result?_comparison, Eval.comparison, Eval.run_bind_of_run (Eval.run_value_of_run hm),
      Eval.run_bind_of_run (Eval.run_value_of_run hn)]
    cases (Value.ofTerm a).compare (.ofTerm b) <;> rfl
  cases op with
  | equal =>
    rw [apply, Eval.run_bind_of_run (Eval.run_value_of_run hm),
      Eval.run_bind_of_run (Eval.run_value_of_run hn)]
    rfl
  | sameTerm =>
    rw [apply, Eval.run_bind_of_run hm, Eval.run_bind_of_run hn]
    rfl
  | greater | greaterOrEqual | less | lessOrEqual => exact hcomparison _
  | or | and | add | subtract | multiply | divide => simp [Compares] at hop

/-- A comparison of ordered values holds exactly if the values have an order that it accepts. -/
theorem holds_comparison_iff {op : BinaryOperator} {accepts : Ordering → Bool}
    (hop : ∀ m n, op.apply m n = Eval.comparison m n accepts) (ha : ¬a.IsFloating)
    (hb : ¬b.IsFloating) :
    op.Holds a b ↔ ∃ o, Value.Compared (.ofTerm a) (.ofTerm b) o ∧ accepts o := by
  rw [Holds, between?, hop, result?_comparison, Option.map_eq_some_iff]
  refine exists_congr fun o => ?_
  rw [Value.compare_eq_some_iff (Value.isExact_ofTerm ha) (Value.isExact_ofTerm hb), ofBool_eq_true_iff]

theorem holds_equal_iff (ha : ¬a.IsFloating) (hb : ¬b.IsFloating) :
    equal.Holds a b ↔ Value.Compared (.ofTerm a) (.ofTerm b) .eq := by
  rw [← Value.equal_iff (Value.isExact_ofTerm ha) (Value.isExact_ofTerm hb), ← ofBool_eq_true_iff,
    ← Option.some.injEq]
  rfl

theorem holds_less_iff (ha : ¬a.IsFloating) (hb : ¬b.IsFloating) :
    less.Holds a b ↔ Value.Compared (.ofTerm a) (.ofTerm b) .lt := by
  rw [holds_comparison_iff (fun _ _ => rfl) ha hb]
  simp [Ordering.isLT_iff_eq_lt]

theorem holds_greater_iff (ha : ¬a.IsFloating) (hb : ¬b.IsFloating) :
    greater.Holds a b ↔ Value.Compared (.ofTerm a) (.ofTerm b) .gt := by
  rw [holds_comparison_iff (fun _ _ => rfl) ha hb]
  simp [Ordering.isGT_iff_eq_gt]

theorem holds_lessOrEqual_iff (ha : ¬a.IsFloating) (hb : ¬b.IsFloating) :
    lessOrEqual.Holds a b ↔ less.Holds a b ∨ equal.Holds a b := by
  rw [holds_comparison_iff (fun _ _ => rfl) ha hb, holds_less_iff ha hb, holds_equal_iff ha hb]
  simp [Ordering.isLE_iff_eq_lt_or_eq_eq, and_or_left, exists_or]

theorem holds_greaterOrEqual_iff (ha : ¬a.IsFloating) (hb : ¬b.IsFloating) :
    greaterOrEqual.Holds a b ↔ greater.Holds a b ∨ equal.Holds a b := by
  rw [holds_comparison_iff (fun _ _ => rfl) ha hb, holds_greater_iff ha hb, holds_equal_iff ha hb]
  simp [Ordering.isGE_iff_eq_gt_or_eq_eq, and_or_left, exists_or]

/-- Where two terms have an order, exactly one of the three operators holds. -/
theorem existsUnique_holds (ha : ¬a.IsFloating) (hb : ¬b.IsFloating) (h : (less.between? a b).isSome) :
    ∃! op, (op = less ∨ op = equal ∨ op = greater) ∧ op.Holds a b := by
  have hea := Value.isExact_ofTerm ha
  have heb := Value.isExact_ofTerm hb
  rw [between?, apply, result?_comparison, Option.isSome_map, Option.isSome_iff_exists] at h
  obtain ⟨o, ho⟩ := h
  rw [Value.compare_eq_some_iff hea heb] at ho
  have horder (p : Ordering) : Value.Compared (.ofTerm a) (.ofTerm b) p ↔ p = o :=
    ⟨fun hp => hp.unique hea heb ho, fun hp => hp ▸ ho⟩
  have hless := (holds_less_iff ha hb).trans (horder _)
  have hequal := (holds_equal_iff ha hb).trans (horder _)
  have hgreater := (holds_greater_iff ha hb).trans (horder _)
  cases o with
  | lt =>
    refine ⟨less, ⟨.inl rfl, hless.mpr rfl⟩, ?_⟩
    rintro op ⟨rfl | rfl | rfl, h⟩
    · rfl
    · cases hequal.mp h
    · cases hgreater.mp h
  | eq =>
    refine ⟨equal, ⟨.inr (.inl rfl), hequal.mpr rfl⟩, ?_⟩
    rintro op ⟨rfl | rfl | rfl, h⟩
    · cases hless.mp h
    · rfl
    · cases hgreater.mp h
  | gt =>
    refine ⟨greater, ⟨.inr (.inr rfl), hgreater.mpr rfl⟩, ?_⟩
    rintro op ⟨rfl | rfl | rfl, h⟩
    · cases hless.mp h
    · cases hequal.mp h
    · rfl

end BinaryOperator

namespace Term

variable {a b c : Term}

open BinaryOperator in
/-- **The comparison of terms is coherent.**  Take terms that are no literals of floats and doubles.  The
order of two is the reverse of that of the two the other way round.  For the evaluator, `=` is an
equivalence, and it holds of terms that are the same.  `<` is a strict order and does not tell equal terms
apart; where it gives a value, exactly one of `<`, `=` and `>` holds; `<=` is the disjunction of `<` and
`=`, and `>=` that of `>` and `=`.  And literals of integer and decimal datatypes whose numbers are in the
range are in the order of the rational numbers that they spell. -/
theorem comparison_coherent (ha : ¬a.IsFloating) (hb : ¬b.IsFloating) (hc : ¬c.IsFloating) :
    (Value.ofTerm a).compare (.ofTerm b) =
      ((Value.ofTerm b).compare (.ofTerm a)).map Ordering.swap ∧
    (equal.Holds a a ∧ (equal.Holds a b → equal.Holds b a) ∧
      (equal.Holds a b → equal.Holds b c → equal.Holds a c) ∧
      (sameTerm.Holds a b → equal.Holds a b)) ∧
    (¬less.Holds a a ∧ (less.Holds a b → less.Holds b c → less.Holds a c) ∧
      (equal.Holds a b → less.Holds b c → less.Holds a c) ∧
      (less.Holds a b → equal.Holds b c → less.Holds a c) ∧
      ((less.between? a b).isSome →
        ∃! op, (op = less ∨ op = equal ∨ op = greater) ∧ op.Holds a b) ∧
      (lessOrEqual.Holds a b ↔ less.Holds a b ∨ equal.Holds a b) ∧
      (greaterOrEqual.Holds a b ↔ greater.Holds a b ∨ equal.Holds a b)) ∧
    ∀ l m k k' x y, a = .literal l → b = .literal m → l.Denotes k x → m.Denotes k' y →
      k.Holds x → k'.Holds y →
      (Value.ofTerm a).compare (.ofTerm b) = some (Ord.compare x y) := by
  have hea := Value.isExact_ofTerm ha
  have heb := Value.isExact_ofTerm hb
  rw [holds_sameTerm_iff, holds_equal_iff ha ha, holds_equal_iff ha hb, holds_equal_iff hb ha,
    holds_equal_iff hb hc, holds_equal_iff ha hc, holds_less_iff ha ha, holds_less_iff ha hb,
    holds_less_iff hb hc, holds_less_iff ha hc]
  refine ⟨Value.compare_eq_map_swap hea heb,
    ⟨.refl hea, fun h => h.swap, fun h h' => h.trans h' (.inl rfl), fun h => h ▸ .refl hea⟩,
    ⟨fun h => absurd (h.unique hea hea (.refl hea)) (by decide), fun h h' => h.trans h' (.inr rfl),
      fun h h' => h.trans h' (.inl rfl), fun h h' => h.trans_eq h', existsUnique_holds ha hb, ?_, ?_⟩, ?_⟩
  · rw [holds_lessOrEqual_iff ha hb, holds_less_iff ha hb, holds_equal_iff ha hb]
  · rw [holds_greaterOrEqual_iff ha hb, holds_equal_iff ha hb]
  · rintro l m k k' x y rfl rfl hl hm hx hy
    obtain ⟨i, hi, hix⟩ := Value.ofTerm_of_denotes hl hx
    obtain ⟨j, hj, hjy⟩ := Value.ofTerm_of_denotes hm hy
    rw [hi, hj]
    exact Numeric.compare_eq hix hjy

/-- The greatest `xsd:long`. -/
def greatestLong : Literal := .typed "9223372036854775807" (Iri.xsd "long")

/-- A decimal half a unit above it. -/
def aboveLong : Literal := .typed "+09223372036854775807.50" (Iri.xsd "decimal")

/-- The greatest integer is below the decimal, which no integer is, and only `<` holds of the two. -/
theorem greatestLong_comparison_coherent :
    (Value.ofTerm (.literal greatestLong)).compare (.ofTerm (.literal aboveLong)) = some .lt ∧
    ∃! op, (op = BinaryOperator.less ∨ op = .equal ∨ op = .greater) ∧
      op.Holds (.literal greatestLong) (.literal aboveLong) := by
  have hlong : ¬(Term.literal greatestLong).IsFloating := by
    rintro (h | h) <;> exact absurd h (by decide)
  have habove : ¬(Term.literal aboveLong).IsFloating := by
    rintro (h | h) <;> exact absurd h (by decide)
  let n : Integer := ⟨9223372036854775807, by decide, by decide⟩
  let d : Decimal := ⟨⟨9223372036854775807500000000000000000, by decide, by decide⟩⟩
  have hn : greatestLong.Denotes .integer n.val :=
    .integer (by decide) (Integer.read?_eq_some_iff.mp (by decide))
  have hd : aboveLong.Denotes .decimal d.value := .decimal (Decimal.read?_eq_some_iff.mp (by decide))
  have hbelow : (n.val : ℚ) < d.value := by
    norm_num [n, d, Decimal.value, show Decimal.unit = 1000000000000000000 by decide]
  obtain ⟨-, -, ⟨-, -, -, -, hunique, -, -⟩, horder⟩ := comparison_coherent hlong habove hlong
  refine ⟨?_, hunique (by decide)⟩
  rw [horder _ _ _ _ _ _ rfl rfl hn hd (Numeric.exists_hasValue_iff.mp ⟨_, .integer n⟩)
    (Numeric.exists_hasValue_iff.mp ⟨_, .decimal d⟩), compare_lt_iff_lt.mpr hbelow]

end Term

end TripleLoom
