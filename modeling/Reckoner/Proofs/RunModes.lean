import Reckoner.Proofs.Assignments
import Reckoner.Proofs.Batches

/-!
# One expression and one row

A run with bindings evaluates its expression as a batch evaluates it for a row of the same values. What the batch counts
as a failure of the row gives the run the code one, but for an operand of the wrong kind, which ends the run with the
failure itself (`Arguments.run_of_countsFailure`). But a row is not always of the values of its columns: beside a float
an integer is a float in it (`Table.rows_of_isSingle`), and so the batch may count a failure where the run has a value.
-/

namespace Reckoner

/-! ### A batch of one row -/

namespace Batch
variable {c : Calculator} {expression name : String} {t : Table} {row : Row} {f : Failure}

/-- A batch of one row takes it for a failed one: its result is the NaN, and the failure is logged and counted. -/
def CountsFailure (c : Calculator) (expression : String) (t : Table) (name : String) (f : Failure) : Prop :=
  ∃ label, ∃ hheight : [Value.gap].length = t.height, evaluate c expression t name =
    ⟨[⟨.error, headline expression label, some f⟩, summary 1 1], .ok (t.put ⟨columnName c name, [.gap]⟩ hheight)⟩

theorem height_of_rows (h : t.rows = [row]) : t.height = 1 := by
  rw [← t.length_rows, h]
  rfl

theorem exists_label (h : t.rows = [row]) : ∃ label, t.rowNames.zip t.rows = [(label, row)] := by
  obtain ⟨label, hlabel⟩ := List.length_eq_one_iff.mp (t.length_rowNames.trans (height_of_rows h))
  exact ⟨label, by rw [hlabel, h]; rfl⟩

theorem outcomes_of_rows (h : t.rows = [row]) : outcomes c expression t = [(c.evaluate expression row).outcome] := by
  rw [outcomes, h]
  rfl

theorem countsFailure_of_error (h : t.rows = [row]) (hrow : (c.evaluate expression row).outcome = .error f)
    (hf : f.isOfRow = true) : CountsFailure c expression t name f := by
  obtain ⟨label, hlabel⟩ := exists_label h
  have hisolated : AreIsolated c expression t.rows := by
    rw [h]
    refine List.forall_mem_singleton.mpr fun g hg => ?_
    rw [← Except.error.inj (hrow.symm.trans hg)]
    exact hf
  have hs : Column.settle ((outcomes c expression t).map cell) = .ok [.gap] := by
    rw [outcomes_of_rows h, hrow]
    rfl
  rcases evaluate_isolated name hisolated with ⟨g, hg, -⟩ | ⟨cells, hheight, hcells, hrun⟩
  · cases hs.symm.trans hg
  · obtain rfl := Except.ok.inj (hs.symm.trans hcells)
    refine ⟨label, hheight, hrun.trans ?_⟩
    rw [outcomes_of_rows h, hlabel, height_of_rows h, hrow, entries, List.filterMap_cons, hrow]
    rfl

theorem evaluate_of_broken (h : t.rows = [row]) (hrow : (c.evaluate expression row).outcome = .error f)
    (hf : f.isOfRow = false) : evaluate c expression t name = ⟨[], .error f⟩ := by
  obtain ⟨label, hlabel⟩ := exists_label h
  have hbroken := @evaluateRows_broken c expression [] [] (label, row) f (by simp [AreIsolated]) hrow hf
  exact evaluate_of_error name (hlabel ▸ hbroken)

theorem not_countsFailure_of_ok {v : Value} (h : t.rows = [row]) (hrow : (c.evaluate expression row).outcome = .ok v) :
    ¬ CountsFailure c expression t name f := by
  rintro ⟨label, hheight, hrun⟩
  have hisolated : AreIsolated c expression t.rows := by
    rw [h]
    refine List.forall_mem_singleton.mpr fun g hg => ?_
    cases hrow.symm.trans hg
  have hentries := length_entries c expression (t.rowNames.zip t.rows)
  rw [outcomes_named, outcomes_of_rows h, hrow] at hentries
  rcases evaluate_isolated name hisolated with ⟨g, -, hrun'⟩ | ⟨cells, hheight', -, hrun'⟩
  · cases congrArg Logged.outcome (hrun'.symm.trans hrun)
  -- The log would only have the entry that sums up.
  · have hlog := congrArg (List.length ∘ Logged.log) (hrun'.symm.trans hrun)
    simp [hentries, Except.isOk, Except.toBool] at hlog

theorem countsFailure_iff (h : t.rows = [row]) :
    CountsFailure c expression t name f ↔ (c.evaluate expression row).outcome = .error f ∧ f.isOfRow = true := by
  refine ⟨fun hcounts => ?_, fun ⟨hrow, hf⟩ => countsFailure_of_error h hrow hf⟩
  cases hrow : (c.evaluate expression row).outcome with
  | ok v => exact absurd hcounts (not_countsFailure_of_ok h hrow)
  | error g =>
    obtain ⟨label, hheight, hrun⟩ := hcounts
    cases hg : g.isOfRow with
    | false =>
      rw [evaluate_of_broken h hrow hg] at hrun
      cases congrArg Logged.outcome hrun
    | true =>
      obtain ⟨label', hheight', hrun'⟩ := @countsFailure_of_error c expression name t row g h hrow hg
      -- The entry of the row holds its failure.
      have hlog := congrArg (fun x => x.log.head?.bind (·.cause)) (hrun'.symm.trans hrun)
      obtain rfl : g = f := Option.some.inj hlog
      exact ⟨rfl, hg⟩

end Batch

/-! ### What `store` receives -/

namespace Bindings
variable {b : Bindings}

theorem get?_eq_none {name : String} (hnamed : b.IsNamed) (h : ∀ e ∈ b, e.1.display ≠ name) :
    b.get? (.text name) = none := by
  refine Option.map_eq_none_iff.mpr (List.find?_eq_none.mpr fun e he hsame => ?_)
  obtain ⟨s, hs⟩ := hnamed e he
  refine h e he ?_
  rw [hs] at hsame ⊢
  obtain rfl : s = name := by simpa [Value.same] using hsame
  rfl

/-- Only variables of the names of its parameters are not received as they are given. -/
theorem received_eq (hnamed : b.IsNamed) (h : ∀ e ∈ b, e.1.display ∉ ["self", "name", "value"]) : b.received = b := by
  have habsent : b.get? (.text "name") = none := get?_eq_none hnamed fun e he hname => h e he (by simp [hname])
  unfold received
  rw [habsent]
  refine List.filter_eq_self.mpr fun e he => ?_
  have hparameter := h e he
  simp only [List.mem_cons, not_or] at hparameter
  simp [hparameter]

end Bindings

/-! ### Tables of one row -/

namespace Table
variable {t : Table} {b : Row}

/-- The columns have one cell each, and these are the given values under the given names. -/
structure IsSingle (t : Table) (b : Row) : Prop where
  height : t.height = 1
  columns : (t.columns.map fun c => ((.text c.name : Value), c.cells)) = b.map fun e => (e.1, [e.2])

theorem across_singletons {α : Type} (xs : List α) : across 1 (xs.map fun x => [x]) = [xs] := by
  induction xs with
  | nil => rfl
  | cons x xs ih => rw [List.map_cons, across, ih]; rfl

/-- The row is of the values, but the common kind of their columns may be another one than theirs. -/
theorem rows_of_isSingle (h : t.IsSingle b) : t.rows = [blend (common (b.map fun e => Column.kindOf [e.2])) b] := by
  have hkinds := congrArg (List.map fun p => Column.kindOf p.2) h.columns
  have hcells := congrArg (List.map fun p => p.2.map fun v => (p.1, v)) h.columns
  simp only [List.map_map, Function.comp_def, List.map_cons, List.map_nil] at hkinds hcells
  rw [rows, hkinds, hcells, h.height, across_singletons, List.map_singleton]

theorem isReal_of_common {kinds : List CellKind} (h : common kinds = .reals) : ∀ k ∈ kinds, k.isReal = true := by
  unfold common at h
  split at h
  · cases h
  split at h
  · cases h
  split at h
  · rename_i hall
    exact List.all_eq_true.mp hall
  · split at h <;> cases h

theorem complexes_mem_of_common {kinds : List CellKind} (h : common kinds = .complexes) : .complexes ∈ kinds := by
  unfold common at h
  split at h
  · cases h
  split at h
  · cases h
  split at h
  · cases h
  rename_i hreal
  split at h
  · rename_i hall
    obtain ⟨k, hk, hnot⟩ : ∃ k ∈ kinds, k.isReal = false := by simpa using hreal
    have hcomplex : k = .complexes := by simpa [hnot] using List.all_eq_true.mp hall k hk
    exact hcomplex ▸ hk
  · cases h

theorem isUpTo_of_kindOf {v : Value} (h : (Column.kindOf [v]).isReal = true) : Column.isUpTo .reals v = true := by
  cases v with
  | int n => rfl
  | real x => rfl
  | _ => cases h

theorem exists_complex_of_kindOf {v : Value} (h : Column.kindOf [v] = .complexes) : ∃ z, v = .complex z := by
  cases v with
  | complex z => exact ⟨z, rfl⟩
  | int n =>
    have hword : [Value.int n].all (Column.isUpTo .integers) = true := rfl
    rw [Column.kindOf, if_pos hword] at h
    repeat' split at h
    all_goals cases h
  | _ => cases h

theorem map_filled (h : ∀ e ∈ b, e.2 ≠ .null) : (b.map fun e => (e.1, e.2.filled)) = b := by
  refine (List.map_congr_left fun e he => ?_).trans (List.map_id _)
  obtain ⟨name, v⟩ := e
  cases v with
  | null => exact absurd rfl (h _ he)
  | _ => rfl

/-- Values that are neither absent nor complex stay as they are in their row, unless all are integers and floats. -/
theorem blend_common (h : ∀ e ∈ b, e.2 ≠ .null ∧ ∀ z, e.2 ≠ .complex z) :
    blend (common (b.map fun e => Column.kindOf [e.2])) b = b ∨
      (∀ e ∈ b, Column.isUpTo .reals e.2 = true) ∧
        blend (common (b.map fun e => Column.kindOf [e.2])) b = b.map fun e => (e.1, e.2.toReal) := by
  have hfilled := map_filled fun e he => (h e he).1
  cases hkind : common (b.map fun e => Column.kindOf [e.2]) with
  | reals =>
    exact Or.inr ⟨fun e he => isUpTo_of_kindOf (isReal_of_common hkind _ (List.mem_map_of_mem he)), rfl⟩
  | complexes =>
    obtain ⟨e, he, hcomplex⟩ := List.mem_map.mp (complexes_mem_of_common hkind)
    obtain ⟨z, hz⟩ := exists_complex_of_kindOf hcomplex
    exact absurd hz ((h e he).2 z)
  | _ =>
    refine Or.inl ?_
    unfold blend
    dsimp only
    split
    · exact hfilled
    · rfl

end Table

/-! ### The two runs -/

/-- The value is the text. -/
def Value.isText (s : String) : Value → Bool
  | .text t => t == s
  | _ => false

theorem Value.eq_text {v : Value} {s : String} (h : v.isText s = true) : v = .text s := by
  unfold isText at h
  split at h
  · rw [eq_of_beq h]
  · cases h

namespace Arguments
open Assignment
variable {settings : Settings} {a : Arguments} {b : Bindings} {t : Table}

theorem run_of_clear {level : Severity} (hcase : settings.caseSensitive = false) (hdata : a.dataPath = "")
    (hgiven : Bindings.ofTexts a.bindings = .ok b) (hnames : ∀ e ∈ b, e.1.display ∉ ["self", "name", "value"])
    (hlevel : a.threshold = .ok level) (contents : Option String) : a.run settings contents =
      (conclude a.expression ((Calculator.make settings {} (some a.limit) none).evaluate a.expression b).outcome).above
        level := by
  obtain ⟨bs, rfl⟩ := exists_table hgiven
  -- `store` has a first parameter of its own, which no variable can be given by name.
  have hself : "self" ∉ bs.map (·.name) := fun hmem => by
    have hget := (isSome_get?_table bs "self").mpr hmem
    rw [Bindings.get?_eq_none (isNamed_table bs) fun e he hname => hnames e he (by simp [hname])] at hget
    cases hget
  rw [run_of_threshold hlevel, work_table hcase hdata hgiven, if_neg hself, Bindings.received_eq (isNamed_table bs) hnames]

/-- What is read from texts is neither absent nor complex. -/
theorem read_of_ofTexts (hgiven : Bindings.ofTexts a.bindings = .ok b) :
    ∀ e ∈ b, e.2 ≠ .null ∧ ∀ z, e.2 ≠ .complex z := by
  obtain ⟨bs, rfl⟩ := exists_table hgiven
  refine fun e he => (forall_table (P := fun _ => True) (Q := fun v => v ≠ .null ∧ ∀ z, v ≠ .complex z)
    (fun b _ => ⟨trivial, ?_⟩) e he).2
  rcases Value.ofText_cases (String.ofList (Text.trim b.text.toList)) with ⟨t, h⟩ | ⟨n, h, -⟩ | ⟨x, h⟩ | h
  all_goals
    rw [Assignment.value, h]
    simp

/-- How a run ends that reports the failure of its expression. -/
def reported (expression : String) (f : Failure) : Logged Completion := do
  Logged.error ("Failed to evaluate '" ++ expression ++ "': ") f
  pure { exit := 1 }

theorem conclude_reported {expression : String} {f : Failure} (hf : f.isOfRow = true) (hkind : f.kind ≠ .type) :
    conclude expression (.error f) = reported expression f := by
  have hcaught : (f.isExpression || f.isArithmetic) = true := by
    rw [Failure.isOfRow, beq_eq_false_iff_ne.mpr hkind, Bool.or_false] at hf
    exact hf
  rw [conclude, hcaught]
  rfl

theorem conclude_fail {expression : String} {f : Failure} (hf : f.kind = .type ∨ f.kind = .value) :
    conclude expression (.error f) = .fail f := by
  have huncaught : (f.isExpression || f.isArithmetic) = false := by
    rw [Failure.isExpression, Failure.isArithmetic]
    rcases hf with hf | hf <;> rw [hf] <;> rfl
  rw [conclude, huncaught]
  rfl

/-- Only an expression that fails gives the code one. -/
theorem error_of_exit_one {expression : String} {o : Outcome Value} {r : Completion}
    (h : (conclude expression o).outcome = .ok r) (hexit : r.exit = 1) :
    ∃ f, o = .error f ∧ f.isOfRow = true ∧ f.kind ≠ .type := by
  unfold conclude at h
  split at h
  · split at h
    · cases h
      cases hexit
    · cases h
  · rename_i f
    split at h
    · rename_i hcaught
      refine ⟨f, rfl, by rw [Failure.isOfRow, hcaught, Bool.true_or], fun hkind => ?_⟩
      rw [Failure.isExpression, Failure.isArithmetic, hkind] at hcaught
      cases hcaught
    · cases h

/-- A run and a batch of one row take the same failures of an expression for failures of the row. -/
structure FailsAlike (run : Logged Completion) (level : Severity) (c : Calculator) (expression : String) (t : Table)
    (name : String) (row : Row) : Prop where
  /-- What the batch counts is reported by the run, -/
  reports : ∀ f, Batch.CountsFailure c expression t name f → f.kind ≠ .type →
    run = (reported expression f).above level
  /-- but an operand of the wrong kind ends it. -/
  ends : ∀ f, Batch.CountsFailure c expression t name f → f.kind = .type → run = .fail f
  /-- The run reports nothing else. -/
  counted : ∀ r, run.outcome = .ok r → r.exit = 1 → ∃ f, f.kind ≠ .type ∧ Batch.CountsFailure c expression t name f
  /-- What the batch does not count has no value and ends both of them. -/
  broken : ∀ f, (c.evaluate expression row).outcome = .error f → f.isOfRow = false →
    f.kind = .value ∧ run = .fail f ∧ Batch.evaluate c expression t name = ⟨[], .error f⟩

theorem failsAlike_conclude {c : Calculator} {expression name : String} {row : Row} {level : Severity}
    (hfunctions : c.table.functions.functions = []) (hstandard : c.table = {} ∧ c.rounds = none) (hrow : t.rows = [row]) :
    FailsAlike ((conclude expression (c.evaluate expression row).outcome).above level) level c expression t name row where
  reports f hcounts hkind := by
    obtain ⟨hf, hcounted⟩ := (Batch.countsFailure_iff hrow).mp hcounts
    rw [hf, conclude_reported hcounted hkind]
  ends f hcounts hkind := by
    obtain ⟨hf, -⟩ := (Batch.countsFailure_iff hrow).mp hcounts
    rw [hf, conclude_fail (Or.inl hkind)]
    rfl
  counted r hr hexit := by
    obtain ⟨f, hf, hcounted, hkind⟩ := error_of_exit_one hr hexit
    exact ⟨f, hkind, (Batch.countsFailure_iff hrow).mpr ⟨hf, hcounted⟩⟩
  broken f hf hbroken := by
    have hvalue : f.kind = .value := by
      rcases Calculator.evaluate_error hfunctions hf with (hcounted | hvalue) | ⟨-, hother⟩
      · rw [hbroken] at hcounted
        cases hcounted
      · exact hvalue
      · exact absurd hstandard hother
    refine ⟨hvalue, ?_, Batch.evaluate_of_broken hrow hf hbroken⟩
    rw [hf, conclude_fail (Or.inr hvalue)]
    rfl

/-- What a run with bindings does, and a batch over columns of one cell each with the same values. The run concludes with
the values, the batch counts a failure of its row. If the row is of these values, both fail alike: the run reports the
failure and ends with the code one, but an operand of the wrong kind ends the run by itself, although the batch counts it
as well. The row is of other values if integers in it are floats beside a float, or beside integers of another kind of
words; then the two need not fail alike. -/
theorem run_of_countsFailure (hcase : settings.caseSensitive = false) (hdata : a.dataPath = "")
    (hgiven : Bindings.ofTexts a.bindings = .ok b) (hnames : ∀ e ∈ b, e.1.display ∉ ["self", "name", "value"])
    (hsingle : t.IsSingle b) (contents : Option String) (name : String) :
    let fresh := Calculator.make settings {} (some a.limit) none
    ∃ row, t.rows = [row] ∧
      (row = b ∨ (∀ e ∈ b, Column.isUpTo .reals e.2 = true) ∧ row = b.map fun e => (e.1, e.2.toReal)) ∧
      (∀ f, Batch.CountsFailure fresh a.expression t name f ↔
        (fresh.evaluate a.expression row).outcome = .error f ∧ f.isOfRow = true) ∧
      (∀ f, a.threshold = .error f → a.run settings contents = .fail f) ∧
      ∀ level, a.threshold = .ok level →
        a.run settings contents = (conclude a.expression (fresh.evaluate a.expression b).outcome).above level ∧
        (row = b → FailsAlike (a.run settings contents) level fresh a.expression t name b) := by
  intro fresh
  have hrow := Table.rows_of_isSingle hsingle
  refine ⟨_, hrow, Table.blend_common (read_of_ofTexts hgiven), fun f => Batch.countsFailure_iff hrow,
    fun f hf => run_of_threshold_error hf, fun level hlevel => ?_⟩
  have hrun : a.run settings contents =
      (conclude a.expression (fresh.evaluate a.expression b).outcome).above level :=
    run_of_clear hcase hdata hgiven hnames hlevel contents
  refine ⟨hrun, fun hsame => ?_⟩
  rw [hsame] at hrow
  rw [hrun]
  exact failsAlike_conclude rfl ⟨rfl, rfl⟩ hrow

theorem ofTexts_text : Bindings.ofTexts ["x=abc"] = .ok [(.text "x", .text "abc")] := by
  have hvalue : value ⟨"x", "abc"⟩ = .text "abc" := Value.eq_text (by decide +kernel)
  have hgiven := @ofTexts_arguments [⟨"x", "abc"⟩] (List.forall_mem_singleton.mpr ⟨by decide, by decide⟩)
  rw [← hvalue]
  exact hgiven

/-- The sum of a text and a number is a failure in both ways of running. -/
theorem run_of_countsFailure_text :
    let a : Arguments := { expression := "x + 1", bindings := ["x=abc"], resultColumn := "result", limit := 64, logLevel := "INFO" }
    let t : Table := { height := 1, columns := [⟨"x", [.text "abc"]⟩], uniform := by decide }
    ∃ f, Batch.CountsFailure {} "x + 1" t "result" f ∧ a.run {} none = reported "x + 1" f := by
  intro a t
  obtain ⟨f, hf, hfails⟩ := Outcome.exists_of_fails (p := fun f => f.isOfRow && f.kind != .type)
    (o := (({} : Calculator).evaluate "x + 1" [(.text "x", .text "abc")]).outcome) (by decide +kernel)
  obtain ⟨hcounted, hkind⟩ := Bool.and_eq_true_iff.mp hfails
  have hlevel : a.threshold = .ok .info := threshold_of_ofName? (by decide +kernel)
  obtain ⟨row, hrows, -, hcounts, -, hrun⟩ :=
    @run_of_countsFailure {} a _ t rfl rfl ofTexts_text (by decide) ⟨rfl, rfl⟩ none "result"
  obtain rfl : row = [(.text "x", .text "abc")] := (List.singleton_inj.mp (hrows.symm.trans rfl))
  have hcounts : Batch.CountsFailure {} "x + 1" t "result" f := (hcounts f).mpr ⟨hf, hcounted⟩
  exact ⟨f, hcounts, ((hrun .info hlevel).2 rfl).reports f hcounts (bne_iff_ne.mp hkind)⟩

/-- A text that is rounded up is counted as a failure of its row, but it ends the run. And the difference of two integers
    is zero in a row, where a third value makes them floats, but not in the run, which has a value. -/
theorem run_ne_reported_text :
    (let a : Arguments := { expression := "roundup(x)", bindings := ["x=abc"], resultColumn := "result", limit := 64, logLevel := "INFO" }
      let t : Table := { height := 1, columns := [⟨"x", [.text "abc"]⟩], uniform := by decide }
      ∃ f, f.kind = .type ∧ Batch.CountsFailure {} "roundup(x)" t "result" f ∧ (a.run {} none).outcome = .error f) ∧
    (let a : Arguments := { expression := "1 / (a - b)", bindings := ["a=9007199254740993", "b=9007199254740992", "c=0.5"], resultColumn := "result", limit := 64, logLevel := "INFO" }
      let t : Table := { height := 1, columns := [⟨"a", [.int 9007199254740993]⟩, ⟨"b", [.int 9007199254740992]⟩, ⟨"c", [.real 0.5]⟩], uniform := by decide }
      ∃ f, f.kind = .zeroDivision ∧ Batch.CountsFailure {} "1 / (a - b)" t "result" f ∧
        (a.run {} none).outcome.toOption.map (·.exit) = some 0) := by
  refine ⟨?_, ?_⟩
  · intro a t
    obtain ⟨f, hf, hkind⟩ := Outcome.exists_of_fails (p := (·.kind == .type))
      (o := (({} : Calculator).evaluate "roundup(x)" [(.text "x", .text "abc")]).outcome) (by decide +kernel)
    have htype : f.kind = .type := beq_iff_eq.mp hkind
    have hlevel : a.threshold = .ok .info := threshold_of_ofName? (by decide +kernel)
    refine ⟨f, htype, (Batch.countsFailure_iff rfl).mpr ⟨hf, ?_⟩, ?_⟩
    · rw [Failure.isOfRow, htype, beq_self_eq_true, Bool.or_true]
    · have hconclude : conclude a.expression (.error f) = .fail f := conclude_fail (Or.inl htype)
      rw [run_of_clear rfl rfl ofTexts_text (by decide) hlevel, Logged.outcome_above]
      exact (congrArg (Logged.outcome ∘ conclude a.expression) hf).trans (congrArg Logged.outcome hconclude)
  · let b : Row := [(.text "a", .int 9007199254740993), (.text "b", .int 9007199254740992), (.text "c", .real 0.5)]
    obtain ⟨f, hf, hkind⟩ := Outcome.exists_of_fails (p := (·.kind == .zeroDivision))
      (o := (({} : Calculator).evaluate "1 / (a - b)"
        (Table.blend (Table.common (b.map fun e => Column.kindOf [e.2])) b)).outcome) (by decide +kernel)
    have hzero : f.kind = .zeroDivision := beq_iff_eq.mp hkind
    refine ⟨f, hzero, (Batch.countsFailure_iff (Table.rows_of_isSingle (b := b) ⟨rfl, rfl⟩)).mpr ⟨hf, ?_⟩, ?_⟩
    · simp [Failure.isOfRow, Failure.isArithmetic, hzero]
    · decide +kernel

end Arguments
end Reckoner
