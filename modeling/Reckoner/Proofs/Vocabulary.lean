import Reckoner.Calculator.Basic
import Reckoner.Function.Standard
import Reckoner.Proofs.Registration
import Reckoner.Proofs.Scanning

/-!
# The vocabulary of expressions

The operators, comparators and connectives in a stream that is read from a text name operations (`Token.IsKnown`), and so
do those in every stream that its reduction passes through; the rule of a function finds its function
(`RuleTable.Serves`). So a text never fails for an operator or a function that is not known
(`Calculator.evaluate_ne_unknown`).
-/

namespace Reckoner

/-- The failure says that there is no operation or no function of a name. -/
def Failure.isUnknown : Failure → Bool
  | .unknownOperator _ | .unknownFunction _ => true
  | _ => false

namespace Outcome
variable {α β : Type} {P : α → Prop} {Q : β → Prop} {o : Outcome α}

/-- What comes out has the property, or there is a failure, but not for an unknown name. -/
def Meets (P : α → Prop) : Outcome α → Prop
  | .ok a => P a
  | .error f => f.isUnknown = false

theorem meets_of (hok : ∀ a, o = .ok a → P a) (herror : ∀ f, o = .error f → f.isUnknown = false) : o.Meets P := by
  cases o with
  | ok a => exact hok a rfl
  | error f => exact herror f rfl

theorem Meets.bind {g : α → Outcome β} (h : o.Meets P) (hg : ∀ a, P a → (g a).Meets Q) :
    Meets Q (o.bind g) := by
  cases o with
  | ok a => exact hg a h
  | error f => exact h

theorem Meets.map {g : α → β} (h : o.Meets P) (hg : ∀ a, P a → Q (g a)) : Meets Q (o.map g) := by
  cases o with
  | ok a => exact hg a h
  | error f => exact h

theorem Meets.mapM {g : α → Outcome β} : ∀ {as : List α}, (∀ a ∈ as, (g a).Meets Q) → Meets (∀ b ∈ ·, Q b) (as.mapM g)
  | [], _ => by simp [Meets, pure, Except.pure]
  | a :: as, h => by
    obtain ⟨ha, has⟩ := List.forall_mem_cons.mp h
    rw [List.mapM_cons]
    refine ha.bind fun b hb => (Meets.mapM has).bind fun bs hbs => ?_
    exact List.forall_mem_cons.mpr ⟨hb, hbs⟩

end Outcome

open Outcome

theorem Failure.IsOrdinary.not_isUnknown {f : Failure} (h : f.IsOrdinary) : f.isUnknown = false := by
  cases f with
  | unknownOperator | unknownFunction => exact absurd rfl h.1
  | _ => rfl

/-! ### Known tokens -/

/-- A sign between operands is the name of an operation. -/
def Token.IsKnown (t : Token) : Prop :=
  t.category = .operator ∨ t.category = .comparator ∨ t.category = .combinator →
    ∃ op : Operation, t.value = .text op.name

/-- All signs between operands name operations. -/
def Stream.IsKnown (ts : Stream) : Prop := ∀ t ∈ ts, t.IsKnown

theorem Token.isKnown_of_operand {t : Token} (h : t.category = .numeric ∨ t.category = .string ∨ t.category = .logical) :
    t.IsKnown := by
  intro hsign
  rcases h with h | h | h <;> simp [h] at hsign

theorem Token.isKnown_conjunction : Token.conjunction.IsKnown := fun _ => ⟨.and, rfl⟩

theorem Stream.IsKnown.of_isInfix {s u : Stream} (h : s.IsKnown) (hu : u <:+: s) : u.IsKnown :=
  fun t ht => h t (hu.subset ht)

theorem Stream.isKnown_singleton {t : Token} (h : t.IsKnown) : Stream.IsKnown [t] :=
  List.forall_mem_singleton.mpr h

/-! ### One contraction -/

/-- A function as it is registered: its name is in lower case, it returns a number, a text or a truth value, and its body
    does not report an unknown name. -/
structure UserFunction.IsPlain (f : UserFunction) : Prop where
  lower : Text.lower f.name = f.name
  returns : f.returns = .numeric ∨ f.returns = .string ∨ f.returns = .logical
  body : ∀ vs g, f.body.run vs = .error g → g.isUnknown = false

variable {action : Action} {settings : Settings} {table : RuleTable} {nested : Stream → Traced Token} {span : Stream}

theorem UserFunction.IsPlain.ofCall {f : UserFunction} {name : String} (hf : f.IsPlain)
    (h : table.lookup? name = some f) : (Replacement.ofCall table name span).Meets Token.IsKnown := by
  unfold Replacement.ofCall
  rw [h]
  refine Meets.map (meets_of (P := fun _ => True) (fun _ _ => trivial) (hf.body _)) fun v _ => ?_
  exact Token.isKnown_of_operand hf.returns

/-- What stands for a span of known tokens is known, if that holds of what its parts reduce to. -/
theorem Reducible.meets (h : Reducible action span) (hs : span.IsKnown)
    (hcall : ∀ name, action = .call name → (Replacement.ofCall table name span).Meets Token.IsKnown)
    (hn : ∀ u : Stream, u.IsKnown → (nested u).outcome.Meets Token.IsKnown) :
    (Replacement.ofAction settings nested table action span).outcome.Meets Stream.IsKnown := by
  cases action with
  | call name => exact (hcall name rfl).map fun t => Stream.isKnown_singleton
  | step step =>
    refine meets_of (fun new hnew => ?_) fun f hf => ?_
    · cases h with
      | @site _ head body hsite =>
        obtain ⟨t, rfl, hvalue | ⟨a, u, b, v, c, hbody, -, -, hbranch⟩ | ⟨-, hnested⟩⟩ := hsite.result hnew
        · exact Stream.isKnown_singleton (Token.isKnown_of_operand (hvalue.imp_right Or.inr))
        · refine Stream.isKnown_singleton (hs t ?_)
          rcases hbranch with rfl | rfl <;> simp [hbody, Stream.wrap]
        · have hinside : body.IsKnown := hs.of_isInfix ⟨head ++ [.opening], [.closing], by simp [Stream.wrap]⟩
          have hmeets := hn body hinside
          rw [hnested] at hmeets
          exact Stream.isKnown_singleton hmeets
      | redex hredex =>
        rcases hredex.result hnew with ⟨t, rfl, ht⟩ | ⟨l, o, m, u, r, rfl, rfl, -⟩
        · exact Stream.isKnown_singleton (Token.isKnown_of_operand (ht.imp_right Or.inr))
        · simp only [Stream.IsKnown, List.forall_mem_cons] at hs ⊢
          exact ⟨hs.1, hs.2.1, hs.2.2.1, Token.isKnown_conjunction, hs.2.2⟩
    · cases Replacement.ofStep_error hf with
      | ordinary hord => exact hord.not_isUnknown
      | nested hu hout =>
        have hmeets := hn _ (hs.of_isInfix (Replacement.issued_isInfix h.two_le hu).1)
        rw [hout] at hmeets
        exact hmeets
      | @operator l o r hstep hspan hnamed =>
        -- The middle token of an operation is a sign, which names an operation.
        subst hstep
        have hsign : o.category = .operator ∨ o.category = .comparator ∨ o.category = .combinator := by
          cases h with
          | site hsite => cases hsite
          | redex hredex =>
            cases hredex with
            | operation _ ho _ =>
              cases hspan
              exact ho.imp_right Or.inl
            | texts _ ho _ =>
              cases hspan
              exact Or.inr (Or.inl ho)
            | combination _ ho _ =>
              cases hspan
              exact Or.inr (Or.inr ho)
        obtain ⟨op, hop⟩ := hs o (by simp [hspan]) hsign
        rw [hop, op.named_name] at hnamed
        cases hnamed

/-! ### Tables whose rules find their functions -/

/-- A standard table in which the rule of each function finds it, and all functions are plain. -/
structure RuleTable.Serves (t : RuleTable) : Prop extends t.IsStandard where
  served : ∀ r ∈ t.functionRules, ∃ f p, f.IsPlain ∧ t.Calls f p ∧ r = ⟨p, .call f.name⟩

namespace RuleTable.Serves

theorem default : Serves {} := ⟨isStandard_default, by simp⟩

theorem add {t u : RuleTable} {f : UserFunction} (h : t.Serves) (hf : f.IsPlain) (ha : t.add f = .ok u) : u.Serves := by
  refine ⟨h.toIsStandard.add ha, fun r hr => ?_⟩
  obtain ⟨q, hq, hcalls⟩ := calls_of_add ha
  obtain ⟨q', hq', hu⟩ := Outcome.bind_eq_ok ha
  rw [← Except.ok.inj hu] at hr
  rcases List.mem_cons.mp hr with rfl | hr
  · exact ⟨f, q, hf, hcalls, by rw [Except.ok.inj (hq.symm.trans hq')]⟩
  · obtain ⟨hmem, hother⟩ := List.mem_filter.mp hr
    obtain ⟨g, p, hg, hp, rfl⟩ := h.served r hmem
    exact ⟨g, p, hg, hp.add (fun hname => by simp [hname] at hother) ha, rfl⟩

/-- The rule of a call finds a plain function. -/
theorem ofCall (h : table.Serves) {r : Rule} (hr : r ∈ table.all) (span : Stream) {name : String}
    (haction : r.action = .call name) : (Replacement.ofCall table name span).Meets Token.IsKnown := by
  have hfunction : r ∈ table.functionRules := by
    rcases List.mem_append.mp hr with hr | hr
    · exact hr
    · obtain ⟨step, hstep⟩ := Rule.exists_step r (h.rules ▸ hr)
      cases haction.symm.trans hstep
  obtain ⟨f, p, hf, hcalls, rfl⟩ := h.served r hfunction
  rw [← Action.call.inj haction]
  exact hf.ofCall (hcalls.lookup? hf.lower)

end RuleTable.Serves

/-! ### Reductions -/

namespace Engine
variable {e : Engine}

theorem loop_meets (ht : e.table.Serves) (hn : ∀ u : Stream, u.IsKnown → (nested u).outcome.Meets Token.IsKnown)
    (depth : Int) (rounds : Nat) (s : Stream) (hs : s.IsKnown) :
    (e.loop nested depth rounds s).outcome.Meets Token.IsKnown := by
  refine loop_induction (motive := fun _ s x => s.IsKnown → x.outcome.Meets Token.IsKnown)
    ?nil ?single ?stuck ?stopped ?step rounds s hs
  case nil | stopped =>
    intros
    rfl
  case single => exact fun _ t ht => ht t (List.mem_singleton_self t)
  case stuck =>
    intro _ s _ _ _
    show (Engine.stuck s).isUnknown = false
    unfold Engine.stuck
    split <;> rfl
  case step =>
    intro rounds s r k span hlen hfirst ih hs
    obtain ⟨above, below, hall, -, -⟩ := Rule.firstMatch?_some hfirst
    obtain ⟨pre, post, hsplit, hk, hred⟩ := ht.taken hfirst
    have hspan : span.IsKnown := hs.of_isInfix ⟨pre, post, by rw [hsplit, List.append_assoc]⟩
    have hr : r ∈ e.table.all := by simp [hall]
    rw [loop_outcome hlen hfirst hsplit hk]
    refine Meets.bind (P := Stream.IsKnown) ?_ fun new hnew => ih _ ?_
    · refine (hred.meets hspan (fun _ => ht.ofCall hr span) hn).bind fun new hnew => ?_
      split
      · exact hnew
      · rfl
    · rw [hsplit] at hs
      simp only [Stream.IsKnown, List.forall_mem_append] at hs hnew ⊢
      exact ⟨hs.1, hnew, hs.2.2⟩

theorem reduceWithin_meets (ht : e.table.Serves) (rounds levels : Nat) : ∀ (depth : Int) (s : Stream), s.IsKnown →
    (e.reduceWithin rounds levels depth s).outcome.Meets Token.IsKnown := by
  induction levels with
  | zero => exact fun _ _ _ => rfl
  | succ levels ih =>
    intro depth s hs
    refine loop_meets ht (ih (depth + 1)) depth rounds _ ?_
    unfold entry
    split
    · exact Stream.isKnown_singleton (Token.isKnown_of_operand (Or.inl rfl))
    · exact hs

/-- A stream of known tokens never fails for an unknown name. -/
theorem evaluate_meets (ht : e.table.Serves) {s : Stream} (hs : s.IsKnown) :
    (e.evaluate s).outcome.Meets fun _ => True := by
  rw [evaluate, Traced.outcome_bind]
  exact (reduceWithin_meets ht _ _ _ _ hs).bind fun _ _ => trivial

end Engine

/-! ### Reading a text -/

namespace Scanner
open Text

/-- The letters that only their two cases are read as. -/
theorem lowerBetween_of_sameLetter {l c : Char} (hl : l ∈ ['a', 'n', 'd', 'o', 'r']) (h : sameLetter l c = true)
    (before after : List Char) : lowerBetween before c after = [l] := by
  obtain ⟨hsame, hkin, hsigma, hdotted⟩ : lowerChar l = l ∧ caseKin.find? (·.1 == l.toNat) = none ∧
      lowerChar 'Σ' ≠ l ∧ lowerChar 'İ' ≠ l := by
    simp only [List.mem_cons, List.not_mem_nil, or_false] at hl
    rcases hl with rfl | rfl | rfl | rfl | rfl <;> decide
  have hc : lowerChar c = l := by simpa [sameLetter, hsame, hkin] using h
  have hcs : c ≠ 'Σ' := fun hcs => hsigma (hcs ▸ hc)
  have hci : c ≠ 'İ' := fun hci => hdotted (hci ▸ hc)
  simp [lowerBetween, hcs, hci, hc]

theorem lowerAfter_of_startsWith {lexicon : Lexicon} : ∀ {word piece before : List Char}, word.length = piece.length →
    (∀ l ∈ word, l ∈ ['a', 'n', 'd', 'o', 'r']) → startsWith (letters lexicon) word piece = true →
    lowerAfter before piece = word
  | [], [], _, _, _, _ => rfl
  | l :: word, c :: piece, before, hlen, hword, h => by
    obtain ⟨hl, hword⟩ := List.forall_mem_cons.mp hword
    obtain ⟨hc, h⟩ := Bool.and_eq_true_iff.mp h
    rw [lowerAfter, lowerBetween_of_sameLetter hl (sameLetter_of_letters hc),
      lowerAfter_of_startsWith (Nat.succ.inj hlen) hword h]
    rfl

end Scanner

namespace Lexicon
variable {lexicon : Lexicon} {s : Scanner} {piece rest : List Char}

theorem isKnown_symbolToken {c : Category} {table : List (String × String)}
    (hlookup : ∀ e ∈ table, table.lookup e.1 = some e.2) (hnames : ∀ e ∈ table, ∃ op ∈ Operation.all, op.name = e.2)
    (h : Scanner.symbolLength table (piece ++ rest) = piece.length) (hne : piece ≠ []) :
    (Scanner.symbolToken c table (String.ofList piece)).IsKnown := by
  obtain ⟨e, he, rfl⟩ := Scanner.symbol_of_length h hne
  obtain ⟨op, -, hop⟩ := hnames e he
  intro _
  exact ⟨op, by simp [Scanner.symbolToken, hlookup e he, hop]⟩

/-- The token of a piece is known, and a piece without one is no unknown name. -/
theorem Takes.meets (h : lexicon.Takes s piece rest) : (s.token lexicon piece).Meets fun t => ∀ u ∈ t, u.IsKnown := by
  have one : ∀ {t : Token}, t.IsKnown → ∀ u ∈ some t, u.IsKnown := fun ht u hu => Option.some.inj hu ▸ ht
  cases s with
  | blank => exact fun _ hu => by cases hu
  | number =>
    refine Meets.map (P := fun _ => True) ?_ fun v _ => one (Token.isKnown_of_operand (Or.inl rfl))
    unfold Scanner.numberValue
    repeat' split
    all_goals trivial
  | operator | comparator => exact one (isKnown_symbolToken (by decide) (by decide) h.length h.ne_nil)
  | combinator =>
    obtain ⟨w, hw, hlen, hspelled⟩ := Scanner.word_of_length h.length h.ne_nil
    have hplain : ∀ w ∈ Scanner.combinatorWords, w.toList.all (['a', 'n', 'd', 'o', 'r'].contains ·) = true ∧
        ∃ op ∈ Operation.all, op.name = w := by decide
    obtain ⟨hletters, op, -, hop⟩ := hplain w hw
    have hletters : ∀ l ∈ w.toList, l ∈ ['a', 'n', 'd', 'o', 'r'] := fun l hl =>
      List.contains_iff_mem.mp (List.all_eq_true.mp hletters l hl)
    refine one fun _ => ⟨op, ?_⟩
    rw [Text.lower, String.toList_ofList, Scanner.lowerAfter_of_startsWith hlen hletters hspelled, String.ofList_toList,
      hop]
  | _ => exact one (by simp [Token.IsKnown, Scanner.symbolToken, Token.comma])

theorem tokenizeFrom_meets (text : String) (position : Nat) (cs : List Char) :
    (lexicon.tokenizeFrom text position cs).Meets Stream.IsKnown := by
  refine tokenizeFrom_induction lexicon
    (motive := fun position cs => (lexicon.tokenizeFrom text position cs).Meets Stream.IsKnown)
    ?nil ?stuck ?piece position cs
  case nil =>
    intro position
    rw [tokenizeFrom_nil]
    exact fun _ ht => by cases ht
  case stuck =>
    intro position cs hne hfirst
    rw [tokenizeFrom_stuck hne hfirst]
    rfl
  case piece =>
    intro position s piece rest htakes ih
    rw [htakes.tokenizeFrom]
    refine htakes.meets.bind fun t ht => ih.map fun ts hts => ?_
    exact List.forall_mem_append.mpr ⟨fun u hu => ht u (Option.mem_toList.mp hu), hts⟩

end Lexicon

/-! ### Binding variables -/

namespace Calculator
variable (c : Calculator)

theorem ofValue_meets (v : Value) : (Token.ofValue v).Meets Token.IsKnown := by
  unfold Token.ofValue
  split
  · exact Token.isKnown_of_operand (Or.inr (Or.inr rfl))
  · exact Token.isKnown_of_operand (Or.inr (Or.inl rfl))
  · split
    · exact Token.isKnown_of_operand (Or.inl rfl)
    · rfl

theorem bindings_meets (data : List (Value × Value)) : (c.bindings data).Meets fun _ => True := by
  have key : ∀ name, (c.key name).Meets fun _ => True := by
    intro name
    unfold Calculator.key
    repeat' split
    all_goals trivial
  unfold bindings
  generalize c.memory = memory
  induction data generalizing memory with
  | nil => trivial
  | cons entry data ih =>
    rw [List.foldlM_cons]
    exact (Meets.map (Q := fun _ => True) (key entry.1) fun _ _ => trivial).bind fun _ _ => ih _

theorem bind_meets {ts : Stream} (h : ts.IsKnown) (data : List (Value × Value)) :
    (c.bind ts data).Meets Stream.IsKnown := by
  refine (c.bindings_meets data).bind fun b _ => ?_
  repeat' split
  all_goals first
    | rfl
    | refine Meets.mapM fun t ht => ?_
      unfold bindToken
      split
      · exact ofValue_meets _
      · exact h t ht

/-! ### Calculators -/

/-- The calculator after a call of `addFunction`, which leaves it as it was if it fails. -/
def afterAdding (f : UserFunction) : Calculator :=
  match c.addFunction f with
  | .ok c' => c'
  | .error _ => c

variable {c}

theorem afterAdding_serves {f : UserFunction} (h : c.table.Serves) (hf : f.IsPlain) :
    (c.afterAdding f).table.Serves := by
  unfold afterAdding
  split
  · rename_i c' hadd
    obtain ⟨t, ht, rfl⟩ := Outcome.map_eq_ok hadd
    exact h.add hf ht
  · exact h

theorem foldl_afterAdding_serves : ∀ {fs : List UserFunction} {c : Calculator}, c.table.Serves → (∀ f ∈ fs, f.IsPlain) →
    (fs.foldl afterAdding c).table.Serves
  | [], _, h, _ => h
  | f :: fs, c, h, hfs => by
    obtain ⟨hf, hfs⟩ := List.forall_mem_cons.mp hfs
    exact foldl_afterAdding_serves (c := c.afterAdding f) (afterAdding_serves h hf) hfs

theorem evaluate_meets (h : c.table.Serves) (text : String) (data : List (Value × Value)) :
    (c.evaluate text data).outcome.Meets fun _ => True := by
  simp only [evaluate, Traced.outcome_bind, Traced.outcome_ofOutcome]
  refine Meets.bind (Lexicon.tokenizeFrom_meets text 0 text.toList) fun ts hts => ?_
  exact (c.bind_meets hts data).bind fun bound hbound => Engine.evaluate_meets h hbound

/-- With the standard rules and functions that return numbers, texts and truth values, no text fails for an operator or
    a function that is not known. -/
theorem evaluate_ne_unknown {fs : List UserFunction} (hc : c.table = {})
    (hnames : ∀ f ∈ fs, ∃ name, f.name = Text.lower name)
    (hreturns : ∀ f ∈ fs, f.returns = .numeric ∨ f.returns = .string ∨ f.returns = .logical)
    (hbody : ∀ f ∈ fs, ∀ vs g, f.body.run vs = .error g → g.isUnknown = false) (text : String)
    (data : List (Value × Value)) :
    (∀ name, ((fs.foldl afterAdding c).evaluate text data).outcome ≠ .error (.unknownOperator name)) ∧
      ∀ name, ((fs.foldl afterAdding c).evaluate text data).outcome ≠ .error (.unknownFunction name) := by
  have hplain : ∀ f ∈ fs, f.IsPlain := by
    intro f hf
    obtain ⟨name, hname⟩ := hnames f hf
    exact ⟨by rw [hname, Text.lower_lower], hreturns f hf, hbody f hf⟩
  have hmeets := evaluate_meets (foldl_afterAdding_serves (hc ▸ RuleTable.Serves.default) hplain) text data
  constructor
  · intro name h
    rw [h] at hmeets
    cases hmeets
  · intro name h
    rw [h] at hmeets
    cases hmeets

/-- A text with every kind of sign, a variable and a call. -/
theorem evaluate_ne_unknown_first :
    let fs := [UserFunction.make "First" .numeric [.category .numeric, .category .numeric] ⟨"first", Body.first⟩]
    let c : Calculator := fs.foldl afterAdding { memory := [(.text "x", .int 2)] }
    let o := (c.evaluate "first(x ^ 2, 4) <= 5 and x % 2 == y" [(.text "y", .int 0)]).outcome
    (∀ f ∈ fs, ∀ vs g, f.body.run vs = .error g → g.isUnknown = false) ∧
      (∀ name, o ≠ .error (.unknownOperator name)) ∧ ∀ name, o ≠ .error (.unknownFunction name) := by
  intro fs c o
  have hbody : ∀ f ∈ fs, ∀ vs g, f.body.run vs = .error g → g.isUnknown = false := by
    intro f hf vs g h
    rw [List.mem_singleton.mp hf] at h
    cases vs with
    | nil => exact Except.error.inj h ▸ rfl
    | cons v vs => cases h
  exact ⟨hbody, evaluate_ne_unknown rfl (fun f hf => ⟨"First", List.mem_singleton.mp hf ▸ rfl⟩)
    (fun f hf => Or.inl (List.mem_singleton.mp hf ▸ rfl)) hbody _ _⟩

end Calculator
end Reckoner
