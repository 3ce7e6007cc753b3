import Reckoner.Proofs.ArgumentLists

/-!
# Calls of functions of any number of arguments

A function can take everything up to the closing bracket. Its rule stands above all standard rules, and nothing between
the brackets keeps it from matching, so that the call is carried out before any of its arguments is reduced. What the
body receives are numbers and the names of operators in turn. They are the values of the arguments only if each
argument is a single number (`Engine.reduce_call_variadic`).
-/

namespace Reckoner

/-! ### Everything up to the closing bracket -/

theorem Matcher.accepts_untilClosing {t : Token} : untilClosing.accepts t = true ↔ t ≠ Token.closing := by
  have hinvert : untilClosing.accepts t = !closing.accepts t := by
    show (closing.hits t != true) = !(closing.hits t != false)
    cases closing.hits t <;> rfl
  rw [hinvert, Bool.not_eq_true', ← Bool.not_eq_true, accepts_closing]

theorem Pattern.determined_untilClosing (name : String) : (Pattern.call name [.untilClosing]).Determined := by
  refine Pattern.determined_of_call ⟨Or.inr ⟨rfl, _, _, rfl, Nat.zero_lt_one, fun t ht => ?_⟩, Or.inl rfl, trivial⟩
  rw [Matcher.accepts_closing.mp ht]
  rfl

theorem Pattern.parses_untilClosing {ts : Stream} (hne : ts ≠ []) (hts : ts.IsUnbracketed) : Parses [.untilClosing] ts := by
  have haccepted : ∀ t ∈ ts, Matcher.untilClosing.accepts t = true := fun t ht => by
    refine Matcher.accepts_untilClosing.mpr ?_
    rintro rfl
    exact hts _ ht rfl
  have hadmitted : Matcher.untilClosing.admits ts.length = true :=
    Bool.and_eq_true_iff.mpr ⟨decide_eq_true (List.length_pos_iff.mpr hne), rfl⟩
  have := Pattern.Parses.cons haccepted hadmitted .nil
  rwa [List.append_nil] at this

/-! ### What the body receives -/

section Received
variable {args : List (Value × Links)}

/-- Each argument gives one token at least, and one exactly if it is a single number. -/
theorem Stream.length_lines (args : List (Value × Links)) :
    args.length ≤ (args.flatMap fun a => line a.1 a.2).length ∧
      ((args.flatMap fun a => line a.1 a.2).length = args.length → ∀ a ∈ args, a.2 = []) := by
  induction args with
  | nil => simp
  | cons a args ih =>
    obtain ⟨hle, hsingle⟩ := ih
    rw [List.flatMap_cons, List.length_append, length_line, List.length_cons]
    refine ⟨by omega, fun heq => List.forall_mem_cons.mpr ⟨?_, hsingle (by omega)⟩⟩
    exact List.length_eq_zero_iff.mp (by omega)

end Received

namespace Engine
variable {e : Engine} {depth : Int} {args : List (Value × Links)} {vs : List Value}

/-- The body of a function that takes everything up to the closing bracket receives all tokens of the arguments but the
    commas. So it receives the values of the arguments if and only if each argument is a single number. -/
theorem reduce_call_variadic {before after : List UserFunction} {name : String} {returns : Category} {body : Body}
    (hadd : (before ++ UserFunction.make name returns [.matcher "non_close_plus"] body :: after).foldlM RuleTable.add {} =
      .ok e.table) (hafter : ∀ g ∈ after, g.name ≠ Text.lower name) (hrounds : e.rounds = none) (hd : depth ≤ e.limit)
    (hargs : args ≠ []) (halone : List.Forall₂ (fun a v => (e.reduce depth (Stream.line a.1 a.2)).outcome = .ok (.number v)) args vs) :
    let received := (args.flatMap fun a => Stream.line a.1 a.2).map (·.value)
    ((e.reduce depth (Stream.call (Text.lower name) args)).outcome = (body.run received).bind fun w =>
        if received.all (·.isWritable) && w.isWritable then .ok ⟨returns, w⟩ else .error .longInteger) ∧
      (received = vs ↔ ∀ a ∈ args, a.2 = []) := by
  intro received
  have ht : e.table.IsStandard := RuleTable.isStandard_default.foldlM hadd
  obtain ⟨p, hp, hcalls⟩ := RuleTable.calls_of_foldlM hafter hadd
  obtain rfl : Pattern.call (Text.lower name) [.untilClosing] = p := Except.ok.inj hp
  have hne : Stream.arguments args ≠ [] := by
    match args, hargs with
    | [a], _ => simp [Stream.arguments_singleton, Stream.line]
    | a :: b :: args, _ => simp [Stream.arguments_cons_cons, Stream.line]
  constructor
  -- No argument has a closing bracket, so that the rule takes the call as it stands.
  · have hwritable : received.all (·.isWritable) = Stream.isWritable (args.flatMap fun a => Stream.line a.1 a.2) := List.all_map
    have hcall := reduce_call_arguments ht hrounds hd hcalls (Text.lower_lower name) (Pattern.determined_untilClosing _)
      (Pattern.parses_untilClosing hne (Stream.unbracketed_arguments args))
    rw [hwritable]
    exact hcall
  -- As many tokens as values leave no room for operators.
  · constructor
    · intro heq
      refine (Stream.length_lines args).2 ?_
      rw [halone.length_eq, ← heq, List.length_map]
    · intro hsingle
      simp only [reduce_line_number ht hrounds hd] at halone
      show (args.flatMap fun a => Stream.line a.1 a.2).map (·.value) = vs
      rw [Links.eq_of_values halone hsingle, Stream.lines_numbers, List.map_map]
      exact List.map_id vs

/-- In the call with a sum four tokens are counted for two arguments, and in the one without operators two. -/
theorem reduce_call_variadic_count :
    ∃ (f : UserFunction) (table : RuleTable), RuleTable.add {} f = .ok table ∧
      (Engine.reduce { table := table } 0 (Stream.call "count" [(.int 1, [(.add, .int 2)]), (.int 4, [])])).outcome =
        .ok (.number (.int 4)) ∧
      (Engine.reduce { table := table } 0 (Stream.call "count" [(.int 1, []), (.int 4, [])])).outcome =
        .ok (.number (.int 2)) := by
  let f := UserFunction.make "count" .numeric [.matcher "non_close_plus"] ⟨"count", fun vs => .ok (.int vs.length)⟩
  let e : Engine := { table := ⟨⟨[f]⟩, [⟨.call "count" [.untilClosing], .call "count"⟩], Rule.standard⟩ }
  have hadd : ([] ++ f :: []).foldlM RuleTable.add {} = .ok e.table := rfl
  have hafter : ∀ g ∈ ([] : List UserFunction), g.name ≠ Text.lower "count" := by simp
  have hd : (0 : Int) ≤ e.limit := by decide
  have hsum : (e.reduce 0 (Stream.line (.int 1) [(.add, .int 2)])).outcome = .ok (.number (.int 3)) :=
    Outcome.eq_ok_int (by decide +kernel)
  have hone : (e.reduce 0 (Stream.line (.int 1) [])).outcome = .ok (.number (.int 1)) := Outcome.eq_ok_int (by decide +kernel)
  have hfour : (e.reduce 0 (Stream.line (.int 4) [])).outcome = .ok (.number (.int 4)) := Outcome.eq_ok_int (by decide +kernel)
  have hoperators : List.Forall₂ (fun a v => (e.reduce 0 (Stream.line a.1 a.2)).outcome = .ok (.number v))
      [(.int 1, [(.add, .int 2)]), (.int 4, [])] [.int 3, .int 4] := .cons hsum (.cons hfour .nil)
  have hnumbers : List.Forall₂ (fun a v => (e.reduce 0 (Stream.line a.1 a.2)).outcome = .ok (.number v))
      [(.int 1, []), (.int 4, [])] [.int 1, .int 4] := .cons hone (.cons hfour .nil)
  have hlower : Text.lower "count" = "count" := by decide +kernel
  have hcall₁ := (reduce_call_variadic hadd hafter rfl hd (by simp) hoperators).1
  have hcall₂ := (reduce_call_variadic hadd hafter rfl hd (by simp) hnumbers).1
  rw [hlower] at hcall₁ hcall₂
  exact ⟨f, e.table, rfl, hcall₁.trans (Outcome.eq_ok_int (by decide +kernel)),
    hcall₂.trans (Outcome.eq_ok_int (by decide +kernel))⟩

/-- A sum has a value, but the body receives its three tokens and not this value. -/
theorem reduce_call_variadic_ne_values :
    ∃ (f : UserFunction) (table : RuleTable), RuleTable.add {} f = .ok table ∧ f.signature = [.matcher "non_close_plus"] ∧
      f.name ∉ builtinFunctions ∧
      (Engine.reduce { table := table } 0 (Stream.line (.int 1) [(.add, .int 2)])).outcome = .ok (.number (.int 3)) ∧
      f.body.run [.int 3] = .ok (.int 1) ∧
      (Engine.reduce { table := table } 0 (Stream.call f.name [(.int 1, [(.add, .int 2)])])).outcome = .ok (.number (.int 3)) := by
  let f := UserFunction.make "count" .numeric [.matcher "non_close_plus"] ⟨"count", fun vs => .ok (.int vs.length)⟩
  let e : Engine := { table := ⟨⟨[f]⟩, [⟨.call "count" [.untilClosing], .call "count"⟩], Rule.standard⟩ }
  exact ⟨f, e.table, rfl, rfl, by decide +kernel, Outcome.eq_ok_int (by decide +kernel), rfl, Outcome.eq_ok_int (by decide +kernel)⟩

end Engine
end Reckoner
