import Reckoner.Proofs.Levels
import Reckoner.Proofs.Brackets

/-!
# Lines on their own

Under the standard rules a line with or without a minus in front of it is reduced to its value, at every depth.
The minus is applied to the first number before all operators, and each operation refuses integers too long to
be written (`Stream.reduce_signed`).
-/

namespace Reckoner

/-! ### Streams without brackets -/

theorem Pattern.find?_brackets {ts : Stream} (h : Token.opening ∉ ts) : ∀ r ∈ Rule.brackets, r.pattern.find? ts = none := by
  intro r hr
  refine Pattern.find?_eq_none_of fun pre span post hts hp _ => ?_
  obtain ⟨step, head, body, -, rfl, -⟩ := Site.of_parses hr hp
  exact h (by simp [hts, Stream.wrap])

/-- What a rule on calls takes holds a bracket and the name of the function. -/
theorem Pattern.find?_call {name : String} {arguments : Pattern} {ts : Stream}
    (h : Token.opening ∉ ts ∨ Token.named name ∉ ts) : (Pattern.call name arguments).find? ts = none := by
  refine Pattern.find?_eq_none_of fun pre span post hts hp _ => ?_
  obtain ⟨body, rfl, -⟩ := Pattern.parses_call.mp hp
  rcases h with h | h
  · exact h (by simp [hts, Stream.wrap])
  · exact h (by simp [hts])

/-- Brackets with a comma inside, behind the name of a function, are left alone if no rule takes what is inside. -/
theorem Pattern.find?_brackets_call {name : String} {front body back : Stream} (hfront : front.IsFlat)
    (hbody : body.IsUnbracketed) (hback : back.IsFlat) (hcomma : Token.comma ∈ body)
    (hsite : ∀ step, ¬ Site step [.named name] body) :
    ∀ r ∈ Rule.brackets, r.pattern.find? (front ++ (([.named name] ++ body.wrap) ++ back)) = none := by
  intro r hr
  refine Pattern.find?_eq_none_of fun pre span post hts hp _ => ?_
  obtain ⟨step, head, body', -, rfl, hsite', -⟩ := Site.of_parses hr hp
  have hname : Stream.IsFlat (front ++ [.named name]) := by
    intro t ht
    rcases List.mem_append.mp ht with ht | ht
    · exact hfront t ht
    · rw [List.mem_singleton.mp ht]
      rfl
  have hsplit : (front ++ [.named name]) ++ (body.wrap ++ back) = (pre ++ head) ++ (body'.wrap ++ post) := by
    simpa using hts
  obtain ⟨hpre, rfl, -⟩ := Stream.wrap_unique hname hbody hback hsplit
  rcases hsite'.head_cases with ⟨-, hflat⟩ | ⟨t, rfl, -, -⟩
  · exact hflat.not_mem rfl hcomma
  · rw [(List.append_inj' hpre.symm rfl).2] at hsite'
    exact hsite step hsite'

/-- Nothing interferes with a line on its own. -/
theorem Level.due_nil {t : RuleTable} (h : t.IsStandard) (L : Level) : L.Due t [] [] where
  frame := {
    head := by simp
    front := .nil
    back := .nil
    calls := by
      intro line hline _ r hr
      have hopening := hline.not_mem (t := .opening) rfl
      rw [List.nil_append, List.append_nil]
      rcases List.mem_append.mp hr with hr | hr
      · obtain ⟨name, arguments, rfl⟩ := h.calls r hr
        exact Pattern.find?_call (Or.inl hopening)
      · exact Pattern.find?_brackets hopening r hr }
  front := fun M _ => M.settled_nil
  back := fun M _ u => Level.find?_short (by simp)

/-! ### A minus in front -/

/-- A value with the sign changed if it is to be negated, as a contraction carries it out. -/
def Value.negateContracted (v : Value) : Outcome Value :=
  (v.mul (.int (-1))).bind fun u => if v.isWritable && u.isWritable then .ok u else .error .longInteger

namespace Stream

def signed (negated : Bool) (v : Value) (links : Links) : Stream :=
  if negated then Sign.subtract.token :: line v links else line v links

theorem flat_signed (negated : Bool) (v : Value) (links : Links) : (signed negated v links).IsFlat := by
  cases negated with
  | false => exact flat_line v links
  | true =>
    intro t ht
    rcases List.mem_cons.mp ht with rfl | ht
    · rfl
    · exact flat_line v links t ht

end Stream

/-- The value of a line with or without a minus in front, as contractions carry it out. -/
def Links.contracted (negated : Bool) (v : Value) (links : Links) : Outcome Value :=
  (if negated then v.negateContracted else .ok v).bind fun u => Links.value Sign.contracted u links

namespace Engine
variable {e : Engine} {depth : Int}

theorem fire_negation (nested : Stream → Traced Token) (v : Value) :
    e.fire nested (.step .negate) [Sign.subtract.token, .number v] = v.negateContracted.map fun u => [.number u] := by
  have htoken : Sign.subtract.token.value.isWritable = true := rfl
  have hout : (Replacement.ofAction e.settings nested e.table (.step .negate) [Sign.subtract.token, .number v]).outcome =
      (v.mul (.int (-1))).map fun u => [.number u] := rfl
  rw [fire, hout, Value.negateContracted]
  cases v.mul (.int (-1)) with
  | error f => rfl
  | ok u =>
    have hspan : (Stream.isWritable [Sign.subtract.token, .number v] && Stream.isWritable [.number u]) =
        (v.isWritable && u.isWritable) := by
      simp [Stream.isWritable, htoken, Token.number]
    show (if (Stream.isWritable [Sign.subtract.token, .number v] && Stream.isWritable [.number u]) = true then _ else _) = _
    rw [hspan]
    show _ = Except.map _ (if _ then _ else _)
    split <;> rfl

/-- A line is reduced to its value. -/
theorem reduce_line (ht : e.table.IsStandard) (hrounds : e.rounds = none) (hd : depth ≤ e.limit) (v : Value)
    (links : Links) : (e.reduce depth (Stream.line v links)).outcome = (Links.value Sign.contracted v links).map .number := by
  have hvalue := @reduce_value e depth [] [] v links ht hrounds hd fun L => L.due_nil ht
  rw [List.nil_append, List.append_nil] at hvalue
  rw [hvalue]
  cases Links.value Sign.contracted v links with
  | error f => rfl
  | ok u => exact reduce_single ht hrounds hd (.number u)

variable (he : e.IsPlain) (hd : depth ≤ e.limit)
include he hd

/-- A minus in front of the stream is applied to the number behind it, whatever follows but brackets. -/
theorem reduce_minus {ts : Stream} (hopening : Token.opening ∉ ts) (v : Value) :
    (e.reduce depth (Sign.subtract.token :: .number v :: ts)).outcome =
      v.negateContracted.bind fun u => (e.reduce depth (.number u :: ts)).outcome := by
  have hparse : Pattern.Parses .leadingNegation [Sign.subtract.token, .number v] := by
    rw [Pattern.leadingNegation, Pattern.parses_single rfl rfl]
    refine ⟨_, _, rfl, ?_, (Pattern.parses_single rfl rfl).mpr ⟨_, _, rfl, ?_, .nil⟩⟩
    · exact Matcher.accepts_of.mpr ⟨rfl, Or.inr ⟨_, List.mem_singleton_self _, rfl⟩⟩
    · exact Matcher.accepts_category.mpr rfl
  have hdetermined : Pattern.Determined .leadingNegation := ⟨Or.inl rfl, Or.inl rfl, trivial⟩
  have hfound : Pattern.FoundAt .leadingNegation [] [Sign.subtract.token, .number v] ts :=
    Pattern.foundAt_nil hdetermined hparse ts
  have hbrackets : Token.opening ∉ Sign.subtract.token :: .number v :: ts := by
    simpa [Token.opening, Sign.token, Token.number] using hopening
  -- The rule stands at the top of those that take no brackets.
  have hall : e.table.all = Rule.brackets ++ ⟨.leadingNegation, .step .negate⟩ :: Rule.flat.drop 1 := he.all
  refine (@reduce_foundAt e depth [] [Sign.subtract.token, .number v] ts ⟨.leadingNegation, .step .negate⟩
    he.isStandard he.rounds hd _ _ hall (by simp) (Pattern.find?_brackets hbrackets) (by simp [Pattern.leadingNegation])
    hfound).trans ?_
  rw [fire_negation]
  cases v.negateContracted <;> rfl

theorem reduce_signed (negated : Bool) (v : Value) (links : Links) :
    (e.reduce depth (Stream.signed negated v links)).outcome = (Links.contracted negated v links).map .number := by
  cases negated with
  | false => exact reduce_line he.isStandard he.rounds hd v links
  | true =>
    have hopening : Token.opening ∉ links.tokens := fun h =>
      (Stream.flat_line v links).not_mem rfl (List.mem_cons_of_mem _ h)
    show (e.reduce depth (Sign.subtract.token :: .number v :: links.tokens)).outcome =
      (v.negateContracted.bind fun u => Links.value Sign.contracted u links).map .number
    rw [reduce_minus he hd hopening]
    cases v.negateContracted with
    | error f => rfl
    | ok u => exact reduce_line he.isStandard he.rounds hd u links

end Engine
end Reckoner
