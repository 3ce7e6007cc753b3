import Reckoner.Proofs.Rows
import Reckoner.Proofs.UserCalls

/-!
# Calls with several arguments

The arguments of a call are lines with commas between them. What the body of a function is given are the values of all
tokens between the brackets but the commas (`UserFunction.argumentsOf_call`), whatever rules have been at work there.
-/

namespace Reckoner

namespace Stream

/-- Lines with commas between them. -/
def arguments (args : List (Value × Links)) : Stream := List.intercalate [.comma] (args.map fun a => line a.1 a.2)

/-- The call of a function with lines as its arguments. -/
def call (name : String) (args : List (Value × Links)) : Stream := [.named name] ++ (arguments args).wrap

variable {a b : Value × Links} {args : List (Value × Links)} {lead tail : Stream} {t : Token}

theorem arguments_singleton (a : Value × Links) : arguments [a] = line a.1 a.2 := List.intercalate_singleton

theorem arguments_cons_cons (a b : Value × Links) (args : List (Value × Links)) :
    arguments (a :: b :: args) = line a.1 a.2 ++ .comma :: arguments (b :: args) := by
  simp [arguments, List.intercalate_cons_cons]

theorem mem_arguments : ∀ {args : List (Value × Links)}, t ∈ arguments args → t = .comma ∨ ∃ a ∈ args, t ∈ line a.1 a.2
  | [], ht => by cases ht
  | [a], ht => Or.inr ⟨a, by simp, arguments_singleton a ▸ ht⟩
  | a :: b :: args, ht => by
    rw [arguments_cons_cons] at ht
    rcases List.mem_append.mp ht with ht | ht
    · exact Or.inr ⟨a, by simp, ht⟩
    rcases List.mem_cons.mp ht with rfl | ht
    · exact Or.inl rfl
    · rcases mem_arguments ht with rfl | ⟨c, hc, ht⟩
      · exact Or.inl rfl
      · exact Or.inr ⟨c, List.mem_cons_of_mem _ hc, ht⟩

theorem category_arguments (ht : t ∈ arguments args) : t.category ≠ .function ∧ t.category ≠ .grouping := by
  rcases mem_arguments ht with rfl | ⟨a, -, ht⟩
  · simp [Token.comma]
  · rcases category_line ht with hc | hc <;> simp [hc]

theorem unbracketed_arguments (args : List (Value × Links)) : (arguments args).IsUnbracketed :=
  fun _ ht => (category_arguments ht).2

theorem comma_mem_arguments (h : 2 ≤ args.length) : Token.comma ∈ arguments args := by
  match args, h with
  | a :: b :: args, _ => simp [arguments_cons_cons]

theorem name_of_mem_call {name name' : String} (h : Token.named name' ∈ call name args) : name' = name :=
  Reckoner.name_of_mem_call (fun _ ht => (category_arguments ht).1) h

theorem filter_arguments : ∀ args : List (Value × Links),
    (arguments args).filter (fun t => !t.isDelimiter) = args.flatMap fun a => line a.1 a.2
  | [] => rfl
  | [a] => by
    rw [arguments_singleton, List.flatMap_singleton, List.filter_eq_self]
    exact fun t ht => by rw [flat_line a.1 a.2 t ht]; rfl
  | a :: b :: args => by
    have hline : (line a.1 a.2).filter (fun t => !t.isDelimiter) = line a.1 a.2 :=
      List.filter_eq_self.mpr fun t ht => by rw [flat_line a.1 a.2 t ht]; rfl
    rw [arguments_cons_cons, List.filter_append, hline, List.filter_cons_of_neg (by decide), filter_arguments (b :: args)]
    simp only [List.flatMap_cons]

theorem isWritable_arguments : ∀ args : List (Value × Links),
    (arguments args).isWritable = isWritable (args.flatMap fun a => line a.1 a.2)
  | [] => rfl
  | [a] => by rw [arguments_singleton, List.flatMap_singleton]
  | a :: b :: args => by
    have hcomma : Token.comma.value.isWritable = true := rfl
    have hrest := isWritable_arguments (b :: args)
    rw [isWritable, isWritable] at hrest
    rw [arguments_cons_cons, List.flatMap_cons, isWritable, isWritable, List.all_append, List.all_append, List.all_cons, hrest,
      hcomma, Bool.true_and]

/-- A call is a row of its arguments. -/
theorem rows_arguments : ∀ {args : List (Value × Links)} {lead : Stream}, args ≠ [] →
    rows (lead :: List.replicate (args.length - 1) [.comma]) args tail = lead ++ (arguments args ++ tail)
  | [a], lead, _ => by simp [rows, arguments_singleton]
  | a :: b :: args, lead, _ => by
    have hrest : rows ([.comma] :: List.replicate args.length [.comma]) (b :: args) tail = [.comma] ++ (arguments (b :: args) ++ tail) :=
      rows_arguments (List.cons_ne_nil b args)
    simp only [List.length_cons, Nat.add_sub_cancel, List.replicate_succ]
    rw [rows, hrest, arguments_cons_cons]
    simp

theorem lines_numbers (vs : List Value) :
    (vs.map fun v => ((v, []) : Value × Links)).flatMap (fun a => line a.1 a.2) = vs.map .number := by
  induction vs with
  | nil => rfl
  | cons v vs ih => exact congrArg (Token.number v :: ·) ih

end Stream

theorem Links.eq_of_values {op : Sign → Value → Value → Outcome Value} {args : List (Value × Links)} {vs : List Value}
    (h : List.Forall₂ (fun a v => value op a.1 a.2 = .ok v) args vs) (hsingle : ∀ a ∈ args, a.2 = []) :
    args = vs.map fun v => (v, []) := by
  induction h with
  | nil => rfl
  | @cons a v args vs ha _ ih =>
    obtain ⟨hnil, hrest⟩ := List.forall_mem_cons.mp hsingle
    obtain ⟨w, links⟩ := a
    obtain rfl : links = [] := hnil
    obtain rfl : w = v := Except.ok.inj ha
    rw [List.map_cons, ← ih hrest]

/-- A function receives the values of all tokens of its arguments. -/
theorem UserFunction.argumentsOf_call (name : String) (args : List (Value × Links)) :
    argumentsOf (Stream.call name args) = args.flatMap fun a => Stream.line a.1 a.2 := by
  have hcall : Stream.call name args = Token.named name :: Token.opening :: Stream.arguments args ++ [Token.closing] := rfl
  rw [argumentsOf, hcall, List.dropLast_concat, List.drop_succ_cons, List.drop_succ_cons, List.drop_zero, Stream.filter_arguments]

namespace Engine
variable {e : Engine} {depth : Int} {f : UserFunction} {p : Pattern} {args : List (Value × Links)}

theorem reduce_line_number (ht : e.table.IsStandard) (hrounds : e.rounds = none) (hd : depth ≤ e.limit) {v u : Value}
    {links : Links} : (e.reduce depth (Stream.line v links)).outcome = .ok (.number u) ↔
      Links.value Sign.contracted v links = .ok u := by
  rw [reduce_line ht hrounds hd]
  cases Links.value Sign.contracted v links <;> simp [Except.map, Token.number]

/-- A call that the rule of the function takes is what the body makes of the values of all tokens in the arguments. -/
theorem reduce_call_arguments (ht : e.table.IsStandard) (hrounds : e.rounds = none) (hd : depth ≤ e.limit)
    (hcalls : e.table.Calls f (.call f.name p)) (hlower : Text.lower f.name = f.name)
    (hp : (Pattern.call f.name p).Determined) (hparse : p.Parses (Stream.arguments args)) :
    (e.reduce depth (Stream.call f.name args)).outcome =
      (f.body.run ((args.flatMap fun a => Stream.line a.1 a.2).map (·.value))).bind fun w =>
        if Stream.isWritable (args.flatMap fun a => Stream.line a.1 a.2) && w.isWritable then .ok ⟨f.returns, w⟩
        else .error .longInteger := by
  have hwritable : (Stream.call f.name args).isWritable = Stream.isWritable (args.flatMap fun a => Stream.line a.1 a.2) := by
    rw [Stream.call, isWritable_call, Stream.isWritable_arguments]
  rw [reduce_call_taken ht hrounds hd hcalls hlower (fun _ => Stream.name_of_mem_call) hp (by simp [Pattern.call])
    (Pattern.parses_call.mpr ⟨_, rfl, hparse⟩) (by simp [Stream.call, Stream.wrap]), UserFunction.argumentsOf_call, hwritable]

end Engine
end Reckoner
