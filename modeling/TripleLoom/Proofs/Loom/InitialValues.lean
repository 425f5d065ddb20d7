import TripleLoom.Loom
import TripleLoom.Proofs.Run.Coverage

/-!
# TripleLoom.Proofs.Loom.InitialValues — initial solutions and the signature of a plan

A plan with a signature is meant to be run for solutions that bind its parameters alone.  A loom
compares the signature with the variables that the initial sequence declares: it refuses to run for a
sequence that declares another variable, whatever its solutions bind, and runs for every other one
(`execute_eq_error_iff`, `execute_eq_ok_iff`).  Declared variables and bindings are two things, so
this is the check that was meant for the sequences that cover their solutions, and lets through
exactly those that declare parameters only and have a solution that binds another variable
(`Loom.refuses_declared`).
-/

namespace TripleLoom

namespace Sequence

variable {s : Sequence} {parameters : List Variable}

/-- A sequence that neither declares a variable that is not a parameter nor has a solution that
binds one. -/
def IsWithin (s : Sequence) (parameters : List Variable) : Prop :=
  s.vars ⊆ parameters ∧ ∀ u ∈ s.solutions, u.IsUnder parameters

theorem not_subset_iff {vars : List Variable} :
    ¬ vars ⊆ parameters ↔ ∃ v ∈ vars, v ∉ parameters := by
  simp [List.subset_def]

/-- If the declared variables cover the solutions, they alone decide. -/
theorem IsCovered.isWithin_iff (h : s.IsCovered) : s.IsWithin parameters ↔ s.vars ⊆ parameters :=
  ⟨fun hw => hw.1, fun hv => ⟨hv, fun u hu => (h u hu).mono hv⟩⟩

/-- A sequence is not within the parameters if it declares another variable, or else if one of its
solutions binds one. -/
theorem not_isWithin_iff : ¬ s.IsWithin parameters ↔
    (∃ v ∈ s.vars, v ∉ parameters) ∨
      s.vars ⊆ parameters ∧
        ∃ u ∈ s.solutions, ∃ v term, u.get? v = some term ∧ v ∉ s.vars ∧ v ∉ parameters := by
  constructor
  · intro h
    by_cases hv : s.vars ⊆ parameters
    · have hu : ∃ u ∈ s.solutions, ¬ u.IsUnder parameters := by
        by_contra hall
        push Not at hall
        exact h ⟨hv, hall⟩
      obtain ⟨u, hmem, hu⟩ := hu
      simp only [Solution.IsUnder, not_forall] at hu
      obtain ⟨v, term, hget, hnot⟩ := hu
      exact .inr ⟨hv, u, hmem, v, term, hget, fun hdeclared => hnot (hv hdeclared), hnot⟩
    · exact .inl (not_subset_iff.mp hv)
  · rintro (⟨v, hv, hnot⟩ | ⟨-, u, hu, v, term, hget, -, hnot⟩) hw
    · exact hnot (hw.1 hv)
    · exact hnot (hw.2 u hu v term hget)

end Sequence

namespace Loom

variable {l : Loom} {fuel : Nat} {m : Manner} {plan : Plan} {initial : Sequence}
variable {parameters : List Variable}

theorem strayVariables_of_signature (h : plan.signature = some parameters) :
    strayVariables plan initial = initial.vars.filter (· ∉ parameters) := by
  rw [strayVariables, h]

theorem strayVariables_eq_nil_iff (h : plan.signature = some parameters) :
    strayVariables plan initial = [] ↔ initial.vars ⊆ parameters := by
  rw [strayVariables_of_signature h, List.filter_eq_nil_iff]
  exact forall₂_congr fun v _ => by rw [decide_eq_true_iff, not_not]

/-- A run is refused because of stray variables, all of which are named. -/
theorem execute_eq_error_iff {e : LoomError} : l.execute fuel m plan initial = .error e ↔
    strayVariables plan initial ≠ [] ∧ e = .invalidInitialValues (strayVariables plan initial) := by
  rw [execute]
  cases strayVariables plan initial with
  | nil => simp
  | cons v rest => simp [eq_comm]

/-- A run that is not refused takes place. -/
theorem execute_eq_ok_iff {result : Option (Report × Loom)} :
    l.execute fuel m plan initial = .ok result ↔
      strayVariables plan initial = [] ∧ result = l.runPlan fuel m plan initial := by
  rw [execute]
  cases strayVariables plan initial with
  | nil => simp [eq_comm]
  | cons v rest => simp

/-- **A loom refuses stray declarations, and lets stray bindings through.**  However a plan with a
signature is run, in whatever state of the loom and for whatever initial sequence: the run is refused
exactly if the sequence declares a variable that the signature does not name, and the error names all
of these; otherwise it takes place and begins with the initial solutions as they are.  So nothing
that is within the signature is refused, the sequences that are not within it and are run all the
same are those that declare parameters only and have a solution that binds another, undeclared
variable, and there is none of them among the sequences that cover their solutions. -/
theorem refuses_declared (h : plan.signature = some parameters) :
    (∀ e, l.execute fuel m plan initial = .error e ↔
      (∃ v ∈ initial.vars, v ∉ parameters) ∧
        e = .invalidInitialValues (initial.vars.filter (· ∉ parameters))) ∧
    (∀ result, l.execute fuel m plan initial = .ok result ↔
      initial.vars ⊆ parameters ∧ result = l.runPlan fuel m plan initial) ∧
    (l.begin plan initial).task.sequences = [initial] ∧
    (initial.IsWithin parameters →
      l.execute fuel m plan initial = .ok (l.runPlan fuel m plan initial)) ∧
    ((¬ initial.IsWithin parameters ∧
        l.execute fuel m plan initial = .ok (l.runPlan fuel m plan initial)) ↔
      initial.vars ⊆ parameters ∧
        ∃ u ∈ initial.solutions, ∃ v term,
          u.get? v = some term ∧ v ∉ initial.vars ∧ v ∉ parameters) ∧
    (initial.IsCovered → ((∃ e, l.execute fuel m plan initial = .error e) ↔
      ¬ initial.IsWithin parameters)) := by
  have hnil : strayVariables plan initial = [] ↔ initial.vars ⊆ parameters :=
    strayVariables_eq_nil_iff h
  have herror : ∀ e, l.execute fuel m plan initial = .error e ↔
      (∃ v ∈ initial.vars, v ∉ parameters) ∧
        e = .invalidInitialValues (initial.vars.filter (· ∉ parameters)) := fun e => by
    rw [execute_eq_error_iff, Ne, hnil, Sequence.not_subset_iff, strayVariables_of_signature h]
  have hok : ∀ result, l.execute fuel m plan initial = .ok result ↔
      initial.vars ⊆ parameters ∧ result = l.runPlan fuel m plan initial := fun result => by
    rw [execute_eq_ok_iff, hnil]
  refine ⟨herror, hok, rfl, fun hw => (hok _).mpr ⟨hw.1, rfl⟩, ?_, fun hcovered => ?_⟩
  · rw [hok, Sequence.not_isWithin_iff]
    constructor
    · rintro ⟨⟨v, hv, hnot⟩ | hstray, hsub, -⟩
      · exact absurd (hsub hv) hnot
      · exact hstray
    · exact fun hstray => ⟨.inr hstray, hstray.1, rfl⟩
  · rw [hcovered.isWithin_iff, Sequence.not_subset_iff]
    exact ⟨fun ⟨e, he⟩ => ((herror e).mp he).1, fun hv => ⟨_, (herror _).mpr ⟨hv, rfl⟩⟩⟩

/-! ### A binding that is not declared -/

/-- A loom without services. -/
def bareLoom : Loom := .ofSetting Run.bareSetting

/-- A named plan with one parameter that writes the value of another variable. -/
def strayPlan : Plan :=
  ⟨some ⟨"urn:q"⟩, some [⟨"n"⟩], none, [], [], none, [],
    .generate [.triples ⟨[⟨.iri ⟨"urn:s"⟩, .iri ⟨"urn:p"⟩, .var ⟨"other"⟩⟩], []⟩]⟩

/-- A sequence that declares no variable and has a solution that binds one. -/
def undeclared : Sequence :=
  .ofLists [] [.ofBindings [(⟨"other"⟩, .literal (.simple "x"))]]

theorem undeclared_not_refused :
    ¬ undeclared.IsWithin [⟨"n"⟩] ∧ ∀ e, bareLoom.execute 9 default strayPlan undeclared ≠ .error e := by
  obtain ⟨-, -, -, -, hmissed, -⟩ :=
    @refuses_declared bareLoom 9 default strayPlan undeclared [⟨"n"⟩] rfl
  have hstray := hmissed.mpr ⟨by decide, _, List.mem_singleton_self _, ⟨"other"⟩, _, rfl, by decide,
    by decide⟩
  exact ⟨hstray.1, fun e he => by rw [hstray.2] at he; cases he⟩

/-- Whether a triple is written for a term as its object. -/
def writesObject (term : Term) : SinkCall → Bool
  | .triple t => t.object == term
  | _ => false

/-- The value of a variable that is not in the signature is accepted and written. -/
theorem stray_value_written :
    strayPlan.signature = some [⟨"n"⟩] ∧
    (∃ u ∈ undeclared.solutions, ∃ v term, u.get? v = some term ∧ v ∉ [(⟨"n"⟩ : Variable)]) ∧
    ∃ report after, bareLoom.execute 9 default strayPlan undeclared = .ok (some (report, after)) ∧
      report.outcome = none ∧
      ∃ call ∈ report.calls, writesObject (.literal (.simple "x")) call = true := by
  have hrun : (bareLoom.runPlan 9 default strayPlan undeclared).any (fun p =>
      p.1.outcome == none &&
        p.1.calls.any (writesObject (.literal (.simple "x")))) = true := by
    decide +kernel
  obtain ⟨⟨report, after⟩, hr, htests⟩ := (Option.any_eq_true _ _).mp hrun
  obtain ⟨hover, hwritten⟩ := Bool.and_eq_true_iff.mp htests
  refine ⟨rfl, ⟨_, List.mem_singleton_self _, ⟨"other"⟩, _, rfl, by decide⟩, report, after, ?_,
    eq_of_beq hover, List.any_eq_true.mp hwritten⟩
  rw [execute_eq_ok_iff]
  exact ⟨rfl, hr.symm⟩

end Loom

end TripleLoom
