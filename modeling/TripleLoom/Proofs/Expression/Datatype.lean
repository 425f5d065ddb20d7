import TripleLoom.Proofs.Value.Reading

/-!
# TripleLoom.Proofs.Expression.Datatype — the datatype that an expression tells

`DATATYPE` does not look at a literal but at the value that it is read as, and a value has forgotten
which of the datatypes derived from `xsd:integer` its literal had.  So the datatype is that of the literal
but for these: where such a literal is read as an integer it is `xsd:integer` (`Literal.IsWidened`), and the
literal is not made again of its text and its datatype (`Literal.own_datatype_iff_not_widened`).
-/

namespace TripleLoom

/-- The literals of the datatypes derived from `xsd:integer` whose lexical form is that of an integer in the
64-bit range, be it in the range of the datatype or not. -/
inductive Literal.IsWidened : Literal → Prop where
  | typed {v name : String} {d : Iri} {n : Integer} (hd : d = .xsd name) (hname : name ∈ Numeric.integerNames)
      (hne : name ≠ "integer") (h : ExactKind.integer.Spells v.toList n.val) : IsWidened (.typed v d)

/-! ### Values -/

namespace Numeric

variable {v : String} {d : Iri} {n : Numeric}

/-- A number that was read has the datatype of its lexical form, or that is one derived from
`xsd:integer`. -/
theorem datatype_of_read? (h : read? d v = some (some n)) :
    n.datatype = d ∨ (Literal.typed v d).IsWidened ∧ n.datatype = .xsd "integer" := by
  unfold read? at h
  split at h
  · next hd =>
    obtain ⟨i, hread, rfl⟩ := Option.map_eq_some_iff.mp (Option.some.inj h)
    rw [isIntegerDatatype, List.any_eq_true] at hd
    obtain ⟨name, hname, heq⟩ := hd
    have hd : d = .xsd name := (beq_iff_eq.mp heq).symm
    by_cases hne : name = "integer"
    · exact .inl (hne ▸ hd).symm
    · exact .inr ⟨.typed hd hname hne (Integer.read?_eq_some_iff.mp hread), rfl⟩
  split at h
  · next hd =>
    obtain ⟨_, -, rfl⟩ := Option.map_eq_some_iff.mp (Option.some.inj h)
    exact .inl hd.symm
  split at h
  · next hd =>
    obtain ⟨_, -, rfl⟩ := Option.map_eq_some_iff.mp (Option.some.inj h)
    exact .inl hd.symm
  split at h
  · next hd =>
    obtain ⟨_, -, rfl⟩ := Option.map_eq_some_iff.mp (Option.some.inj h)
    exact .inl hd.symm
  · cases h

end Numeric

namespace Literal

variable {l : Literal}

/-- A widened literal is read as an integer. -/
theorem IsWidened.datatype? (h : l.IsWidened) : (Value.ofLiteral l).datatype? = some (.xsd "integer") := by
  obtain ⟨rfl, hname, -, hspells⟩ := h
  have hread := Integer.read?_eq_some_iff.mpr hspells
  rw [Value.ofLiteral_of_numeric (n := .integer _)]
  · rfl
  · rw [Numeric.read?, if_pos (Numeric.isIntegerDatatype_xsd_iff.mpr hname), hread, Option.map_some]

/-- Its datatype is another one. -/
theorem IsWidened.datatype_ne (h : l.IsWidened) : l.datatype ≠ .xsd "integer" := by
  obtain ⟨rfl, -, hne, -⟩ := h
  exact fun heq => hne (Iri.xsd_injective heq)

/-- The value of any other literal has its datatype. -/
theorem datatype?_of_not_isWidened (h : ¬l.IsWidened) : (Value.ofLiteral l).datatype? = some l.datatype := by
  cases l with
  | simple | tagged => rfl
  | typed v d =>
    rw [Value.ofLiteral_typed]
    split
    · next hd => exact congrArg some hd.symm
    split
    · next hd =>
      split
      · exact congrArg some hd.symm
      · rfl
    split
    · next n hread =>
      obtain hown | ⟨hwidened, -⟩ := Numeric.datatype_of_read? hread
      · exact congrArg some hown
      · exact absurd hwidened h
    · rfl

/-- A value has the datatype of its literal exactly if that is not widened. -/
theorem datatype?_eq_some_iff : (Value.ofLiteral l).datatype? = some l.datatype ↔ ¬l.IsWidened := by
  refine ⟨fun hown hwidened => hwidened.datatype_ne ?_, datatype?_of_not_isWidened⟩
  exact Option.some.inj (hown.symm.trans hwidened.datatype?)

end Literal

/-! ### Expressions -/

namespace Expression

/-- The datatype of what an expression gives. -/
def datatypeOf (e : Expression) : Expression := call (.builtin .datatype) [e]

/-- The literal made of the text of one literal and the datatype of another. -/
def remade (text typed : Expression) : Expression :=
  call (.builtin .strDt) [call (.builtin .str) [text], typed.datatypeOf]

variable {c : EvalContext} {s : Solution} {e e' : Expression} {l : Literal} {before between after : Scopes}

theorem run_datatypeOf (he : (e.eval c s).run before = (some (.literal l), after)) :
    (e.datatypeOf.eval c s).run before = ((Value.ofLiteral l).datatype?.map .iri, after) := by
  refine (Eval.run_bind_of_run (Eval.run_value_of_run he) _).trans ?_
  rw [Value.ofTerm]
  cases (Value.ofLiteral l).datatype? <;> rfl

theorem run_remade (he : (e.eval c s).run before = (some (.literal l), between)) {d : Iri}
    (hd : (e'.datatypeOf.eval c s).run between = (some (.iri d), after)) :
    ((remade e e').eval c s).run before = (some (.literal (.withDatatype l.value d)), after) := by
  have htext : ((call (.builtin .str) [e]).eval c s).run before = (some (.ofText l.value), between) :=
    Eval.run_bind_of_run he _
  have hstring : (Eval.string ((call (.builtin .str) [e]).eval c s)).run before =
      (some ⟨l.value.toList, none⟩, between) :=
    Eval.run_bind_of_run (Eval.run_value_of_run htext) _
  refine (Eval.run_bind_of_run hstring _).trans ((Eval.run_bind_of_run hd _).trans ?_)
  rw [String.ofList_toList]
  rfl

end Expression

/-- **Which literals keep their datatype.**  Of an expression that gives a literal `DATATYPE` is the datatype
of the literal exactly if that is not widened, and `xsd:integer` if it is.  And a literal without a language
is made again by `STRDT` of its text and its `DATATYPE` exactly if it is not widened, while otherwise the
literal of `xsd:integer` with that text comes out. -/
theorem Literal.own_datatype_iff_not_widened {c : EvalContext} {s : Solution} {e : Expression} {l : Literal}
    {before after : Scopes} (he : (e.eval c s).run before = (some (.literal l), after)) :
    ((e.datatypeOf.eval c s).run before = (some (.iri l.datatype), after) ↔ ¬l.IsWidened) ∧
    (l.IsWidened → (e.datatypeOf.eval c s).run before = (some (.iri (.xsd "integer")), after)) ∧
    ∀ {v : String} {d : Iri} {e' : Expression} {later : Scopes}, l = .withDatatype v d →
      (e'.eval c s).run after = (some (.literal l), later) →
      (((e.remade e').eval c s).run before = (some (.literal l), later) ↔ ¬l.IsWidened) ∧
      (l.IsWidened →
        ((e.remade e').eval c s).run before = (some (.literal (.typed v (.xsd "integer"))), later)) := by
  have hdatatype := Expression.run_datatypeOf he
  refine ⟨?_, fun hwidened => ?_, ?_⟩
  · rw [hdatatype, ← datatype?_eq_some_iff, Prod.mk.injEq, and_iff_left rfl, Option.map_eq_some_iff]
    simp only [Term.iri.injEq, exists_eq_right]
  · rw [hdatatype, hwidened.datatype?, Option.map_some]
  · rintro v d e' later rfl he'
    have hagain := Expression.run_datatypeOf he'
    have hwide (hwidened : (withDatatype v d).IsWidened) :
        ((e.remade e').eval c s).run before = (some (.literal (.typed v (.xsd "integer"))), later) := by
      rw [hwidened.datatype?, Option.map_some] at hagain
      rw [Expression.run_remade he hagain, value_withDatatype]
      rfl
    refine ⟨⟨fun hsame hwidened => ?_, fun hown => ?_⟩, hwide⟩
    · rw [hwide hwidened, Prod.mk.injEq, Option.some.injEq, Term.literal.injEq] at hsame
      exact hwidened.datatype_ne (hsame.1 ▸ rfl)
    · rw [datatype?_of_not_isWidened hown, datatype_withDatatype, Option.map_some] at hagain
      rw [Expression.run_remade he hagain, value_withDatatype]

/-- A literal of a derived datatype with an invalid lexical form. -/
def Literal.wordyByte : Literal := .typed "abc" (.xsd "byte")

/-- An invalid byte is not widened: it keeps its datatype and is made again. -/
theorem Literal.wordyByte_own_datatype :
    ¬wordyByte.IsWidened ∧
      ((Expression.literal wordyByte).datatypeOf.eval ⟨.empty, none, 0⟩ .empty).run .empty =
        (some (.iri (.xsd "byte")), .empty) ∧
      (((Expression.literal wordyByte).remade (.literal wordyByte)).eval ⟨.empty, none, 0⟩ .empty).run .empty =
        (some (.literal wordyByte), .empty) := by
  have hnone : Integer.read? "abc" = none := by decide
  have hnot : ¬wordyByte.IsWidened := by
    rintro ⟨-, -, -, hspells⟩
    exact absurd (hnone.symm.trans (Integer.read?_eq_some_iff.mpr hspells)) nofun
  have heval : ((Expression.literal wordyByte).eval ⟨.empty, none, 0⟩ .empty).run .empty =
      (some (.literal wordyByte), .empty) := rfl
  obtain ⟨hown, -, hagain⟩ := own_datatype_iff_not_widened heval
  exact ⟨hnot, hown.mpr hnot, (hagain (v := "abc") (d := .xsd "byte") rfl rfl).1.mpr hnot⟩

/-- The datatype of the valid byte "5" is told to be `xsd:integer`, and made again it is the integer "5". -/
theorem Literal.byte_tells_integer :
    ((Expression.literal (.typed "5" (.xsd "byte"))).datatypeOf.eval ⟨.empty, none, 0⟩ .empty).run .empty =
        (some (.iri (.xsd "integer")), .empty) ∧
      (((Expression.literal (.typed "5" (.xsd "byte"))).remade (.literal (.typed "5" (.xsd "byte")))).eval
        ⟨.empty, none, 0⟩ .empty).run .empty = (some (.literal (.typed "5" (.xsd "integer"))), .empty) ∧
      Iri.xsd "integer" ≠ (Literal.typed "5" (.xsd "byte")).datatype ∧
      Literal.typed "5" (.xsd "integer") ≠ .typed "5" (.xsd "byte") :=
  ⟨rfl, rfl, by decide, by decide⟩

end TripleLoom
