import TripleLoom.Algebra.Basic

/-!
# TripleLoom.Algebra.Equality — equality of expressions is decidable

A Boolean test for each sort of the algebra, and that it holds exactly of equal ones.
-/

namespace TripleLoom

mutual

/-- Whether two expressions are equal. -/
def Expression.test : Expression → Expression → Bool
  | .iri a, .iri b => a == b
  | .literal a, .literal b => a == b
  | .var a, .var b => a == b
  | .binary o a b, .binary p c d => o == p && a.test c && b.test d
  | .unary o a, .unary p b => o == p && a.test b
  | .isIn a as, .isIn b bs => a.test b && Expression.testAll as bs
  | .bound a, .bound b => a == b
  | .conditional a b c, .conditional d e f => a.test d && b.test e && c.test f
  | .coalesce as, .coalesce bs => Expression.testAll as bs
  | .exists a, .exists b => a.test b
  | .call f as, .call g bs => f == g && Expression.testAll as bs
  | _, _ => false

/-- Whether two lists of expressions are equal. -/
def Expression.testAll : List Expression → List Expression → Bool
  | [], [] => true
  | a :: as, b :: bs => a.test b && Expression.testAll as bs
  | _, _ => false

/-- Whether two optional expressions are equal. -/
def Expression.testOption : Option Expression → Option Expression → Bool
  | none, none => true
  | some a, some b => a.test b
  | _, _ => false

/-- Whether two graph patterns are equal. -/
def GraphPattern.test : GraphPattern → GraphPattern → Bool
  | .bgp a, .bgp b => a == b
  | .path s p o, .path s' p' o' => s == s' && p == p' && o == o'
  | .join a b, .join c d => a.test c && b.test d
  | .leftJoin a b e, .leftJoin c d f => a.test c && b.test d && Expression.testOption e f
  | .filter e a, .filter f b => e.test f && a.test b
  | .union a b, .union c d => a.test c && b.test d
  | .graph n a, .graph m b => n == m && a.test b
  | .extend a v e, .extend b w f => a.test b && v == w && e.test f
  | .minus a b, .minus c d => a.test c && b.test d
  | .values a, .values b => a == b
  | .orderBy a os, .orderBy b ps => a.test b && OrderCondition.testAll os ps
  | .project a vs, .project b ws => a.test b && vs == ws
  | .distinct a, .distinct b => a.test b
  | .reduced a, .reduced b => a.test b
  | .slice a s l, .slice b t m => a.test b && s == t && l == m
  | .group a vs as, .group b ws bs => a.test b && vs == ws && Aggregate.testAll as bs
  | .service n a s, .service m b t => n == m && a.test b && s == t
  | _, _ => false

/-- Whether two order conditions are equal. -/
def OrderCondition.test : OrderCondition → OrderCondition → Bool
  | .ascending a, .ascending b => a.test b
  | .descending a, .descending b => a.test b
  | _, _ => false

/-- Whether two lists of order conditions are equal. -/
def OrderCondition.testAll : List OrderCondition → List OrderCondition → Bool
  | [], [] => true
  | a :: as, b :: bs => a.test b && OrderCondition.testAll as bs
  | _, _ => false

/-- Whether two aggregates are equal. -/
def Aggregate.test : Aggregate → Aggregate → Bool
  | .countSolutions d, .countSolutions e => d == e
  | .of f a d, .of g b e => f == g && a.test b && d == e
  | _, _ => false

/-- Whether two lists of named aggregates are equal. -/
def Aggregate.testAll : List (Variable × Aggregate) → List (Variable × Aggregate) → Bool
  | [], [] => true
  | (v, a) :: as, (w, b) :: bs => v == w && a.test b && Aggregate.testAll as bs
  | _, _ => false

end

mutual

theorem Expression.test_iff : ∀ a b : Expression, a.test b = true ↔ a = b
  | .iri a, b => by cases b <;> simp [Expression.test]
  | .literal a, b => by cases b <;> simp [Expression.test]
  | .var a, b => by cases b <;> simp [Expression.test]
  | .binary o a b, c => by
    cases c <;> simp [Expression.test, Expression.test_iff a, Expression.test_iff b, and_assoc]
  | .unary o a, b => by cases b <;> simp [Expression.test, Expression.test_iff a]
  | .isIn a as, b => by
    cases b <;> simp [Expression.test, Expression.test_iff a, Expression.testAll_iff as]
  | .bound a, b => by cases b <;> simp [Expression.test]
  | .conditional a b c, d => by
    cases d <;> simp [Expression.test, Expression.test_iff a, Expression.test_iff b,
      Expression.test_iff c, and_assoc]
  | .coalesce as, b => by cases b <;> simp [Expression.test, Expression.testAll_iff as]
  | .exists p, b => by cases b <;> simp [Expression.test, GraphPattern.test_iff p]
  | .call f as, b => by cases b <;> simp [Expression.test, Expression.testAll_iff as]

theorem Expression.testAll_iff : ∀ as bs : List Expression,
    Expression.testAll as bs = true ↔ as = bs
  | [], bs => by cases bs <;> simp [Expression.testAll]
  | a :: as, bs => by
    cases bs <;> simp [Expression.testAll, Expression.test_iff a, Expression.testAll_iff as]

theorem Expression.testOption_iff : ∀ a b : Option Expression,
    Expression.testOption a b = true ↔ a = b
  | none, b => by cases b <;> simp [Expression.testOption]
  | some a, b => by cases b <;> simp [Expression.testOption, Expression.test_iff a]

theorem GraphPattern.test_iff : ∀ a b : GraphPattern, a.test b = true ↔ a = b
  | .bgp a, b => by cases b <;> simp [GraphPattern.test]
  | .path s p o, b => by cases b <;> simp [GraphPattern.test, and_assoc]
  | .join a b, c => by
    cases c <;> simp [GraphPattern.test, GraphPattern.test_iff a, GraphPattern.test_iff b]
  | .leftJoin a b e, c => by
    cases c <;> simp [GraphPattern.test, GraphPattern.test_iff a, GraphPattern.test_iff b,
      Expression.testOption_iff e, and_assoc]
  | .filter e a, b => by
    cases b <;> simp [GraphPattern.test, GraphPattern.test_iff a, Expression.test_iff e]
  | .union a b, c => by
    cases c <;> simp [GraphPattern.test, GraphPattern.test_iff a, GraphPattern.test_iff b]
  | .graph n a, b => by cases b <;> simp [GraphPattern.test, GraphPattern.test_iff a]
  | .extend a v e, b => by
    cases b <;> simp [GraphPattern.test, GraphPattern.test_iff a, Expression.test_iff e,
      and_assoc]
  | .minus a b, c => by
    cases c <;> simp [GraphPattern.test, GraphPattern.test_iff a, GraphPattern.test_iff b]
  | .values a, b => by cases b <;> simp [GraphPattern.test]
  | .orderBy a os, b => by
    cases b <;> simp [GraphPattern.test, GraphPattern.test_iff a, OrderCondition.testAll_iff os]
  | .project a vs, b => by cases b <;> simp [GraphPattern.test, GraphPattern.test_iff a]
  | .distinct a, b => by cases b <;> simp [GraphPattern.test, GraphPattern.test_iff a]
  | .reduced a, b => by cases b <;> simp [GraphPattern.test, GraphPattern.test_iff a]
  | .slice a s l, b => by
    cases b <;> simp [GraphPattern.test, GraphPattern.test_iff a, and_assoc]
  | .group a vs as, b => by
    cases b <;> simp [GraphPattern.test, GraphPattern.test_iff a, Aggregate.testAll_iff as,
      and_assoc]
  | .service n a s, b => by
    cases b <;> simp [GraphPattern.test, GraphPattern.test_iff a, and_assoc]

theorem OrderCondition.test_iff : ∀ a b : OrderCondition, a.test b = true ↔ a = b
  | .ascending a, b => by cases b <;> simp [OrderCondition.test, Expression.test_iff a]
  | .descending a, b => by cases b <;> simp [OrderCondition.test, Expression.test_iff a]

theorem OrderCondition.testAll_iff : ∀ as bs : List OrderCondition,
    OrderCondition.testAll as bs = true ↔ as = bs
  | [], bs => by cases bs <;> simp [OrderCondition.testAll]
  | a :: as, bs => by
    cases bs <;> simp [OrderCondition.testAll, OrderCondition.test_iff a,
      OrderCondition.testAll_iff as]

theorem Aggregate.test_iff : ∀ a b : Aggregate, a.test b = true ↔ a = b
  | .countSolutions d, b => by cases b <;> simp [Aggregate.test]
  | .of f a d, b => by cases b <;> simp [Aggregate.test, Expression.test_iff a, and_assoc]

theorem Aggregate.testAll_iff : ∀ as bs : List (Variable × Aggregate),
    Aggregate.testAll as bs = true ↔ as = bs
  | [], bs => by cases bs <;> simp [Aggregate.testAll]
  | (v, a) :: as, bs => by
    cases bs with
    | nil => simp [Aggregate.testAll]
    | cons b bs =>
      obtain ⟨w, b⟩ := b
      simp [Aggregate.testAll, Aggregate.test_iff a, Aggregate.testAll_iff as]

end

instance : DecidableEq Expression := fun a b => decidable_of_iff _ (a.test_iff b)

instance : DecidableEq GraphPattern := fun a b => decidable_of_iff _ (a.test_iff b)

instance : DecidableEq OrderCondition := fun a b => decidable_of_iff _ (a.test_iff b)

instance : DecidableEq Aggregate := fun a b => decidable_of_iff _ (a.test_iff b)

end TripleLoom
