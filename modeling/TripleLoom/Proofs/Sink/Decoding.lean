import TripleLoom.Proofs.Sink.Writing
import TripleLoom.Proofs.Term.Validity

/-!
# TripleLoom.Proofs.Sink.Decoding — what is written is read back

The text that is written for some solutions is a table, with line feeds behind its rows and tabs between its
fields.  No valid term is written with either, so the text falls into its rows and a row into its fields, and a
field tells its term (`Writer.solutions_read_back`).  Spaces part the terms of a triple's line.  The first two
are written without, and what is left then belongs to the third.
-/

namespace TripleLoom

open Text

/-! ### Fields and rows -/

namespace Solution

variable {s s' : Solution} {vars : List Variable} {v : Variable}

theorem field_eq_empty_iff : s.field v = "" ↔ s.get? v = none := by
  unfold field
  cases s.get? v with
  | none => simp
  | some t => simp [t.display_ne_empty]

theorem field_eq_iff : s.field v = s'.field v ↔ s.get? v = s'.get? v := by
  unfold field
  cases s.get? v with
  | none =>
    cases s'.get? v with
    | none => simp
    | some u => simp [u.display_ne_empty.symm]
  | some t =>
    cases s'.get? v with
    | none => simp [t.display_ne_empty]
    | some u => simp [Term.display_inj]

/-- Whether the terms bound to some variables are valid. -/
def isValidOn (s : Solution) (vars : List Variable) : Bool := vars.all fun v => (s.get? v).all Term.isValid

/-- No control character below the space is left in the fields of valid terms. -/
theorem le_of_mem_field (h : s.isValidOn vars) (hv : v ∈ vars) {c : Char} (hc : c ∈ (s.field v).toList) :
    32 ≤ c.toNat := by
  have hvalid := List.all_eq_true.mp h v hv
  unfold field at hc
  cases hget : s.get? v with
  | none => simp [hget] at hc
  | some t =>
    rw [hget] at hc hvalid
    exact Term.le_of_mem_display hvalid hc

theorem tab_notMem_field (h : s.isValidOn vars) (hv : v ∈ vars) : '\t' ∉ (s.field v).toList :=
  fun hc => absurd (le_of_mem_field h hv hc) (by decide)

theorem toList_row (s : Solution) (vars : List Variable) :
    (s.row vars).toList = ['\t'].intercalate (vars.map fun v => (s.field v).toList) := by
  rw [row, String.toList_intercalate, List.map_map]
  rfl

theorem lineFeed_notMem_row (h : s.isValidOn vars) : '\n' ∉ (s.row vars).toList := by
  intro hc
  rw [toList_row] at hc
  rcases mem_of_mem_intercalate hc with hc | ⟨part, hpart, hc⟩
  · exact absurd hc (by decide)
  · obtain ⟨v, hv, rfl⟩ := List.mem_map.mp hpart
    exact absurd (le_of_mem_field h hv hc) (by decide)

/-- At its tabs a row falls into its fields. -/
theorem splitOn_row (h : s.isValidOn vars) (hne : vars ≠ []) :
    (s.row vars).toList.splitOn '\t' = vars.map fun v => (s.field v).toList := by
  rw [toList_row]
  refine List.splitOn_intercalate '\t' (fun part hpart => ?_) (by simpa using hne)
  obtain ⟨v, hv, rfl⟩ := List.mem_map.mp hpart
  exact tab_notMem_field h hv

/-- Solutions have the same row exactly if they agree on its variables. -/
theorem row_eq_iff (h : s.isValidOn vars) (h' : s'.isValidOn vars) :
    s.row vars = s'.row vars ↔ ∀ v ∈ vars, s.get? v = s'.get? v := by
  constructor
  · intro hrow v hv
    have hfields := splitOn_row h (List.ne_nil_of_mem hv)
    rw [hrow, splitOn_row h' (List.ne_nil_of_mem hv)] at hfields
    exact (field_eq_iff.mp (String.toList_inj.mp (List.map_inj_left.mp hfields v hv))).symm
  · intro hagree
    exact congrArg ("\t".intercalate ·) (List.map_congr_left fun v hv => field_eq_iff.mpr (hagree v hv))

/-- At its line feeds a text of lines falls into their rows, and what is behind the last is empty. -/
theorem splitOn_lines {solutions : List Solution} (h : ∀ s ∈ solutions, s.isValidOn vars) :
    (String.join (solutions.map fun s => s.line vars)).toList.splitOn '\n' =
      (solutions.map fun s => (s.row vars).toList) ++ [[]] := by
  induction solutions with
  | nil => rfl
  | cons s rest ih =>
    rw [List.forall_mem_cons] at h
    rw [List.map_cons, String.join_cons, line, String.toList_append, String.toList_append, List.append_assoc]
    show ((s.row vars).toList ++ '\n' :: (String.join (rest.map fun s => s.line vars)).toList).splitOn '\n' = _
    rw [List.splitOn_append_cons_self_of_not_mem (lineFeed_notMem_row h.1), ih h.2]
    rfl

/-- Lists of solutions with the same rows agree on the variables of the rows, each with each. -/
theorem values_eq_of_rows_eq {solutions others : List Solution} (h : ∀ s ∈ solutions, s.isValidOn vars)
    (hothers : ∀ s ∈ others, s.isValidOn vars)
    (hrows : (others.map fun s => (s.row vars).toList) = solutions.map fun s => (s.row vars).toList) :
    (others.map fun s => vars.map s.get?) = solutions.map fun s => vars.map s.get? := by
  induction others generalizing solutions with
  | nil =>
    rw [List.map_nil, eq_comm, List.map_eq_nil_iff] at hrows
    rw [hrows]
  | cons s' others ih =>
    cases solutions with
    | nil => cases hrows
    | cons s solutions =>
      rw [List.forall_mem_cons] at h hothers
      obtain ⟨hrow, hrest⟩ := List.cons.inj hrows
      have hagree := (row_eq_iff hothers.1 h.1).mp (String.toList_inj.mp hrow)
      rw [List.map_cons, List.map_cons, List.map_congr_left hagree, ih h.2 hothers.2 hrest]

/-- What is read back from a text that is written for some solutions. -/
structure IsReadBack (vars : List Variable) (solutions : List Solution) (text : String) : Prop where
  /-- At its line feeds the text falls into the rows of the solutions, one each, and nothing behind the last. -/
  rows : text.toList.splitOn '\n' = (solutions.map fun s => (s.row vars).toList) ++ [[]]
  /-- At its tabs a row falls into the fields of the variables, one each. -/
  fields : vars ≠ [] → ∀ s ∈ solutions, (s.row vars).toList.splitOn '\t' = vars.map fun v => (s.field v).toList
  /-- A field is empty exactly if its variable is unbound. -/
  unbound : ∀ s ∈ solutions, ∀ v ∈ vars, s.field v = "" ↔ s.get? v = none
  /-- Two solutions have the same line exactly if they agree on all the variables. -/
  agree : ∀ s ∈ solutions, ∀ s' ∈ solutions, s.line vars = s'.line vars ↔ ∀ v ∈ vars, s.get? v = s'.get? v
  /-- Whatever solutions the text is written for, they have the same terms for the variables, row by row. -/
  unique : ∀ others : List Solution, (∀ s ∈ others, s.isValidOn vars) →
    String.join (others.map fun s => s.line vars) = text →
      (others.map fun s => vars.map s.get?) = solutions.map fun s => vars.map s.get?

theorem isReadBack_lines {solutions : List Solution} (h : ∀ s ∈ solutions, s.isValidOn vars) :
    IsReadBack vars solutions (String.join (solutions.map fun s => s.line vars)) where
  rows := splitOn_lines h
  fields := fun hne s hs => splitOn_row (h s hs) hne
  unbound := fun _ _ _ _ => field_eq_empty_iff
  agree := by
    intro s hs s' hs'
    rw [line, line, String.append_left_inj, row_eq_iff (h s hs) (h s' hs')]
  unique := by
    intro others hothers htext
    have hrows := splitOn_lines hothers
    rw [htext, splitOn_lines h] at hrows
    exact values_eq_of_rows_eq h hothers (List.append_cancel_right hrows).symm

end Solution

/-! ### Triples -/

/-- What stands before a space is known with what is behind it, if there is no other space in it. -/
theorem Text.append_space_inj {s t x y : List Char} (hs : ' ' ∉ s) (ht : ' ' ∉ t)
    (h : s ++ ' ' :: x = t ++ ' ' :: y) : s = t ∧ x = y := by
  have hsplit := congrArg (List.splitOn ' ') h
  rw [List.splitOn_append_cons_self_of_not_mem hs, List.splitOn_append_cons_self_of_not_mem ht] at hsplit
  obtain rfl := (List.cons.inj hsplit).1
  exact ⟨rfl, List.tail_eq_of_cons_eq (List.append_cancel_left h)⟩

theorem Text.Visible.space_notMem {s : List Char} (h : Visible s) : ' ' ∉ s := by
  intro hc
  exact absurd (h ' ' hc) (by decide)

theorem Resource.toTerm_inj {r r' : Resource} (h : r.toTerm = r'.toTerm) : r = r' := by
  have hread := congrArg Term.toResource? h
  simpa using hread

/-- Valid triples with the same line are the same. -/
theorem Triple.line_inj {t u : Triple} (ht : t.isValid) (hu : u.isValid) : t.line = u.line ↔ t = u := by
  refine ⟨fun h => ?_, congrArg line⟩
  simp only [isValid, Bool.and_eq_true] at ht hu
  have hlists := congrArg String.toList h
  simp only [line, String.toList_append, List.append_assoc] at hlists
  obtain ⟨hsubject, hbehind⟩ := append_space_inj (Resource.visible_display ht.1.1).space_notMem
    (Resource.visible_display hu.1.1).space_notMem hlists
  obtain ⟨hpredicate, hobject⟩ := append_space_inj (Iri.visible_display ht.1.2).space_notMem
    (Iri.visible_display hu.1.2).space_notMem hbehind
  cases t
  cases u
  rw [mk.injEq]
  exact ⟨Resource.toTerm_inj (Term.display_inj.mp (String.toList_inj.mp hsubject)),
    Iri.display_inj.mp (String.toList_inj.mp hpredicate),
    Term.display_inj.mp (String.toList_inj.mp (List.append_cancel_right hobject))⟩

/-- **What is written is read back.**  Take any variables and any solutions whose terms for the variables are
valid, with any texts in their literals.  The text that is written for them in a writer with room for it falls
into their lines and the lines into their fields; a field is empty exactly if its variable is unbound, and
solutions have the same line exactly if they agree on all the variables.  And valid triples have the same line
only if they are the same. -/
theorem Writer.solutions_read_back (vars : List Variable) (solutions : List Solution)
    (h : ∀ s ∈ solutions, s.isValidOn vars) :
    (∃ text, Solution.IsReadBack vars solutions text ∧ ∀ limit, HasRoom limit text →
      ((ofLimit limit).receiveAll (solutions.map (.solution vars))).outcome = .ok text) ∧
    ∀ t u : Triple, t.isValid → u.isValid → (t.line = u.line ↔ t = u) := by
  refine ⟨⟨_, Solution.isReadBack_lines h, fun limit hroom => ?_⟩, ?_⟩
  · have hwritten : (solutions.map (.solution vars)).map SinkCall.written = solutions.map fun s => s.line vars :=
      List.map_map
    have hstops := stops_of_map_join limit (SinkCall.map_join_pieces (solutions.map (.solution vars)))
    rw [hwritten] at hstops
    exact hstops.whole hroom
  · intro t u ht hu
    exact Triple.line_inj ht hu

/-- Solutions with the characters that part a table in their literals.  The second and the third leave a variable
unbound. -/
def Solution.parted : List Solution :=
  [.ofBindings [(⟨"x"⟩, .ofText "a\tb\n\"\\\x01"), (⟨"y"⟩, .iri ⟨"urn:a%20b"⟩)],
    .ofBindings [(⟨"x"⟩, .literal (.tagged "\n" "i-klingon"))],
    .ofBindings [(⟨"y"⟩, .literal (.typed "\r" ⟨"http://a.example:80/c?d#e"⟩))]]

/-- The text that is written for them. -/
def Solution.partedText : String :=
  "\"a\\tb\\n\\\"\\\\\\u0001\"\t<urn:a%20b>\n\"\\n\"@i-klingon\t\n\t\"\\r\"^^<http://a.example:80/c?d#e>\n"

/-- A triple with a text for its object. -/
def Triple.spaced (object : String) : Triple := ⟨.blank ⟨"b.1"⟩, ⟨"urn:p"⟩, .ofText object⟩

theorem Writer.parted_read_back : (∀ s ∈ Solution.parted, s.isValidOn [⟨"x"⟩, ⟨"y"⟩]) ∧
    Solution.IsReadBack [⟨"x"⟩, ⟨"y"⟩] Solution.parted Solution.partedText ∧
    (Triple.spaced "a b").isValid ∧ (Triple.spaced "ab").isValid ∧
    (Triple.spaced "a b").line ≠ (Triple.spaced "ab").line := by
  have hvalid : ∀ s ∈ Solution.parted, s.isValidOn [⟨"x"⟩, ⟨"y"⟩] := by decide +kernel
  have hspaced : (Triple.spaced "a b").isValid := by decide +kernel
  have hclosed : (Triple.spaced "ab").isValid := by decide +kernel
  have hdifferent : Triple.spaced "a b" ≠ Triple.spaced "ab" := by decide +kernel
  obtain ⟨⟨text, hread, hwritten⟩, htriples⟩ := solutions_read_back [⟨"x"⟩, ⟨"y"⟩] Solution.parted hvalid
  have houtcome : ((ofLimit none).receiveAll (Solution.parted.map (.solution [⟨"x"⟩, ⟨"y"⟩]))).outcome =
      .ok Solution.partedText := by decide +kernel
  obtain rfl : text = Solution.partedText := Except.ok.inj ((hwritten none nofun).symm.trans houtcome)
  exact ⟨hvalid, hread, hspaced, hclosed, mt (htriples _ _ hspaced hclosed).mp hdifferent⟩

end TripleLoom
