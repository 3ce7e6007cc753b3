import Reckoner.Proofs.Chains

/-!
# Arithmetic

Chains of numbers and operators, whose operands may themselves be chains in brackets or in calls of the rounding
functions, to any depth. The value of a chain is defined by its structure (`Chain.value`). The standard rules know
nothing of this structure, but they give the value (`Engine.reduce_chain`): contracting a site is possible at any
time, so that the operands may be thought of as being replaced by their values first, from left to right.
-/

namespace Reckoner

/-- The forms of brackets around a single chain. -/
inductive Bracket where
  | group
  | round
  | roundUp
  | roundDown
  deriving DecidableEq, Repr

mutual

/-- An operand: a number, a chain in brackets, or the call that rounds a chain to places. -/
inductive Atom where
  | number (v : Value)
  | bracket (k : Bracket) (c : Chain)
  | roundTo (c places : Chain)

/-- Operands with operators between them, and a minus in front or not. -/
inductive Chain where
  | mk (negated : Bool) (first : Atom) (rest : Tail)

/-- Operators and the operands behind them. -/
inductive Tail where
  | nil
  | cons (s : Sign) (a : Atom) (rest : Tail)

end

namespace Bracket

def head : Bracket → Stream
  | .group => []
  | .round => [.named "round"]
  | .roundUp => [.named "roundup"]
  | .roundDown => [.named "rounddown"]

def step : Bracket → Step
  | .group => .evaluateGroup
  | .round => .round
  | .roundUp | .roundDown => .roundInt

/-- What becomes of the value inside. -/
def finish (settings : Settings) : Bracket → Value → Outcome Value
  | .group, v => .ok v
  | .round, v => (Rounding.toPlaces v settings.defaultPlaces settings.halfThreshold).map .real
  | .roundUp, v => (Rounding.up v).map .int
  | .roundDown, v => (Rounding.down v).map .int

end Bracket

/-! ### Tokens and values -/

mutual

def Atom.tokens : Atom → Stream
  | .number v => [.number v]
  | .bracket k c => k.head ++ c.tokens.wrap
  | .roundTo c places => [.named "round"] ++ (c.tokens ++ Token.comma :: places.tokens).wrap

def Chain.tokens : Chain → Stream
  | .mk negated first rest => (if negated then [Sign.subtract.token] else []) ++ (first.tokens ++ rest.tokens)

def Tail.tokens : Tail → Stream
  | .nil => []
  | .cons s a rest => s.token :: (a.tokens ++ rest.tokens)

end

section Values
variable (settings : Settings) (note : Value → Outcome Value)

/-- The value of a line with or without a minus in front. -/
def Links.signedValue (negated : Bool) (v : Value) (links : Links) : Outcome Value :=
  (if negated then (v.mul (.int (-1))).bind note else .ok v).bind fun u =>
    Links.value (fun s v w => (s.operation.apply v w).bind note) u links

mutual

/-- The value of an operand. Every value that occurs on the way is passed to `note`, which may refuse it. -/
def Atom.value : Atom → Outcome Value
  | .number v => note v
  | .bracket k c => c.value.bind fun v => (k.finish settings v).bind note
  | .roundTo c places => c.value.bind fun v => places.value.bind fun p =>
      (Rounding.toPlaces v p settings.halfThreshold).bind fun x => note (.real x)

/-- The value of a chain: first its operands, then the minus in front, then the operators level by level. -/
def Chain.value : Chain → Outcome Value
  | .mk negated first rest => first.value.bind fun v => rest.values.bind fun links =>
      Links.signedValue note negated v links

def Tail.values : Tail → Outcome Links
  | .nil => .ok []
  | .cons s a rest => a.value.bind fun w => rest.values.bind fun links => .ok ((s, w) :: links)

end

end Values

/-- A value is refused if it holds an integer too long to be written. -/
def Value.checked (v : Value) : Outcome Value := if v.isWritable then .ok v else .error .longInteger

theorem Value.checked_eq_ok {v u : Value} (h : v.checked = .ok u) : u = v ∧ v.isWritable = true := by
  unfold checked at h
  split at h
  · rename_i hw
    exact ⟨(Except.ok.inj h).symm, hw⟩
  · cases h

/-! ### Values of lines as contractions give them -/

section Contracted
variable {negated : Bool} {v u : Value} {links : Links}

/-- What contractions make of a line is its value. -/
theorem Links.value_of_contracted (h : Links.contracted negated v links = .ok u) :
    Links.signedValue .ok negated v links = .ok u := by
  have hop : ∀ s v w u, True → True → Sign.contracted s v w = .ok u →
      (s.operation.apply v w).bind .ok = .ok u ∧ True := by
    intro s v w u _ _ h
    obtain ⟨x, hx, h⟩ := Outcome.bind_eq_ok h
    split at h
    · rw [hx]
      exact ⟨h, trivial⟩
    · cases h
  obtain ⟨w, hw, h⟩ := Outcome.bind_eq_ok h
  have hfirst : (if negated then (v.mul (.int (-1))).bind .ok else .ok v) = .ok w := by
    cases negated with
    | false => exact hw
    | true =>
      obtain ⟨x, hx, hw⟩ := Outcome.bind_eq_ok (show v.negateContracted = .ok w from hw)
      split at hw
      · rw [if_pos rfl, hx]
        exact hw
      · cases hw
  rw [signedValue, hfirst]
  exact (Links.value_mono hop trivial (fun _ _ => trivial) h).1

/-- The value of a line is what contractions make of it, if no integer on the way is too long. -/
theorem Links.contracted_of_value (hv : v.isWritable = true) (hlinks : ∀ l ∈ links, l.2.isWritable = true)
    (h : Links.signedValue Value.checked negated v links = .ok u) :
    Links.contracted negated v links = .ok u ∧ u.isWritable = true := by
  have hop : ∀ s v w u, v.isWritable = true → w.isWritable = true → (s.operation.apply v w).bind Value.checked = .ok u →
      Sign.contracted s v w = .ok u ∧ u.isWritable = true := by
    intro s v w u hv hw h
    obtain ⟨x, hx, h⟩ := Outcome.bind_eq_ok h
    obtain ⟨rfl, hu⟩ := Value.checked_eq_ok h
    exact ⟨Operation.contracted_of_apply hx hv hw hu, hu⟩
  obtain ⟨w, hw, h⟩ := Outcome.bind_eq_ok h
  have hfirst : (if negated then v.negateContracted else .ok v) = .ok w ∧ w.isWritable = true := by
    cases negated with
    | false =>
      rw [← Except.ok.inj hw]
      exact ⟨rfl, hv⟩
    | true =>
      obtain ⟨x, hx, hw⟩ := Outcome.bind_eq_ok (show (v.mul (.int (-1))).bind Value.checked = .ok w from hw)
      obtain ⟨rfl, hx'⟩ := Value.checked_eq_ok hw
      rw [if_pos rfl, Value.negateContracted, hx]
      exact ⟨if_pos (by rw [hv, hx']; rfl), hx'⟩
  rw [contracted, hfirst.1]
  exact Links.value_mono hop hfirst.2 hlinks h

end Contracted

/-! ### Brackets around lines -/

namespace Stream

theorem isWritable_append (xs ys : Stream) : (xs ++ ys).isWritable = (xs.isWritable && ys.isWritable) :=
  List.all_append

theorem isWritable_line {v : Value} {links : Links} (hv : v.isWritable = true)
    (hlinks : ∀ l ∈ links, l.2.isWritable = true) : (line v links).isWritable = true := by
  refine List.all_eq_true.mpr fun t ht => ?_
  rcases List.mem_cons.mp ht with rfl | ht
  · exact hv
  · obtain ⟨l, hl, ht⟩ := List.mem_flatMap.mp ht
    simp only [List.mem_cons, List.not_mem_nil, or_false] at ht
    rcases ht with rfl | rfl
    · rfl
    · exact hlinks l hl

theorem isWritable_signed {negated : Bool} {v : Value} {links : Links} (hv : v.isWritable = true)
    (hlinks : ∀ l ∈ links, l.2.isWritable = true) : (signed negated v links).isWritable = true := by
  cases negated with
  | false => exact isWritable_line hv hlinks
  | true => exact (Bool.true_and _).trans (isWritable_line hv hlinks)

theorem isApplied_comma {xs ys : Stream} (hxs : xs.IsApplied) (hys : ys.IsApplied) :
    IsApplied (xs ++ Token.comma :: ys) :=
  isApplied_append hxs ⟨fun hc => Category.noConfusion hc, hys⟩

theorem isApplied_signed (negated : Bool) (v : Value) (links : Links) : (signed negated v links).IsApplied := by
  have hline : ∀ t ∈ line v links, t.category ≠ .function := by
    intro t ht
    rcases category_line ht with hc | hc <;> simp [hc]
  refine isApplied_of_forall fun t ht => ?_
  cases negated with
  | false => exact hline t ht
  | true =>
    rcases List.mem_cons.mp ht with rfl | ht
    · simp [Sign.token]
    · exact hline t ht

theorem isApplied_sign (s : Sign) : IsApplied [s.token] := ⟨fun hc => Category.noConfusion hc, trivial⟩

theorem isApplied_number (v : Value) : IsApplied [.number v] := ⟨fun hc => Category.noConfusion hc, trivial⟩

theorem signed_ne_nil (negated : Bool) (v : Value) (links : Links) : signed negated v links ≠ [] := by
  cases negated <;> simp [signed, line]

end Stream

namespace Bracket
variable {settings : Settings} {nested : Stream → Traced Token} {xs : Stream}

theorem site (k : Bracket) (h : xs.IsFlat) : Site k.step k.head xs := by
  cases k with
  | group => exact .group h
  | round => exact .round h
  | roundUp => exact .roundUp h
  | roundDown => exact .roundDown h

theorem isApplied (k : Bracket) (h : xs.IsApplied) : (k.head ++ xs.wrap).IsApplied := by
  cases k with
  | group => exact Stream.isApplied_wrap h
  | round | roundUp | roundDown => exact Stream.isApplied_call h _

theorem isWritable_head (k : Bracket) : k.head.isWritable = true := by
  cases k <;> rfl

theorem ofStep_outcome (k : Bracket) (hxs : xs.IsFlat) {o : Outcome Value} (h : (nested xs).outcome = o.map .number) :
    (Replacement.ofStep settings nested k.step (k.head ++ xs.wrap)).outcome =
      (o.bind (k.finish settings)).map fun u => [.number u] := by
  cases k with
  | group =>
    rw [show Bracket.group.head ++ xs.wrap = xs.wrap from rfl, show Bracket.group.step = .evaluateGroup from rfl,
      ofStep_group, h]
    cases o <;> rfl
  | round =>
    rw [show Bracket.round.step = .round from rfl, show Bracket.round.head = [.named "round"] from rfl,
      ofStep_round hxs, h]
    cases o with
    | error f => rfl
    | ok v =>
      show Except.map _ (Rounding.toPlaces v _ _) = ((Rounding.toPlaces v _ _).map _).map _
      cases Rounding.toPlaces v settings.defaultPlaces settings.halfThreshold <;> rfl
  | roundUp =>
    rw [show Bracket.roundUp.step = .roundInt from rfl, show Bracket.roundUp.head = [.named "roundup"] from rfl,
      ofStep_roundInt, h]
    cases o with
    | error f => rfl
    | ok v =>
      show Except.map _ (if "roundup" = "roundup" then Rounding.up v else Rounding.down v) = ((Rounding.up v).map _).map _
      rw [if_pos rfl]
      cases Rounding.up v <;> rfl
  | roundDown =>
    rw [show Bracket.roundDown.step = .roundInt from rfl, show Bracket.roundDown.head = [.named "rounddown"] from rfl,
      ofStep_roundInt, h]
    cases o with
    | error f => rfl
    | ok v =>
      show Except.map _ (if "rounddown" = "roundup" then Rounding.up v else Rounding.down v) =
        ((Rounding.down v).map _).map _
      rw [if_neg (by decide)]
      cases Rounding.down v <;> rfl

end Bracket

theorem ofStep_places {settings : Settings} {nested : Stream → Traced Token} {xs ys : Stream} (hxs : xs.IsFlat)
    (hys : ys.IsFlat) (hx : xs ≠ []) (hy : ys ≠ []) {o o' : Outcome Value} (h : (nested xs).outcome = o.map .number)
    (h' : (nested ys).outcome = o'.map .number) :
    (Replacement.ofStep settings nested .round ([.named "round"] ++ (xs ++ Token.comma :: ys).wrap)).outcome =
      (o.bind fun v => o'.bind fun p => (Rounding.toPlaces v p settings.halfThreshold).map .real).map
        fun u => [.number u] := by
  rw [ofStep_roundTo hxs rfl hys hx hy, h, h']
  cases o with
  | error f => rfl
  | ok v =>
    cases o' with
    | error f => rfl
    | ok p =>
      show Except.map _ (Rounding.toPlaces v p _) = ((Rounding.toPlaces v p _).map _).map _
      cases Rounding.toPlaces v p settings.halfThreshold <;> rfl

namespace Engine
variable {e : Engine} {depth : Int}

/-! ### Operands in a context -/

variable {α β : Type} {C : Prop} {P : α → Prop} {Q : β → Prop} {old old' : Stream} {mid mid' : α → Stream}
  {fin : β → Stream}

/-- What it means that an operand may be thought of as replaced by its value. If the old stream reduces to a token,
    the operand has a value and the new stream with it reduces to the same token. Conversely, on a condition and
    if the checked value exists, it is of some class, and the old stream reduces to all that the new one does. -/
structure Stands (e : Engine) (depth : Int) (C : Prop) (value checked : Outcome α) (P : α → Prop) (old : Stream)
    (mid : α → Stream) : Prop where
  down : ∀ t, (e.reduce depth old).outcome = .ok t → ∃ a, value = .ok a ∧ (e.reduce depth (mid a)).outcome = .ok t
  up : C → ∀ a, checked = .ok a → P a ∧
    ∀ t, (e.reduce depth (mid a)).outcome = .ok t → (e.reduce depth old).outcome = .ok t

/-- One operand after the other may be replaced. -/
theorem Stands.bind {value checked : Outcome α} {f g : α → Outcome β} (h : Stands e depth C value checked P old mid)
    (hf : ∀ a, Stands e depth (C ∧ P a) (f a) (g a) Q (mid a) fin) :
    Stands e depth C (value.bind f) (checked.bind g) Q old fin where
  down := by
    intro t ht
    obtain ⟨a, rfl, ha⟩ := h.down t ht
    exact (hf a).down t ha
  up := by
    intro hC b hb
    obtain ⟨a, ha, hb⟩ := Outcome.bind_eq_ok hb
    obtain ⟨hP, hold⟩ := h.up hC a ha
    obtain ⟨hQ, hmid⟩ := (hf a).up ⟨hC, hP⟩ b hb
    exact ⟨hQ, fun t ht => hold t (hmid t ht)⟩

theorem Stands.of_eq {value checked : Outcome α} (h : Stands e depth C value checked P old mid) (hold : old' = old)
    (hmid : ∀ a, mid a = mid' a) : Stands e depth C value checked P old' mid' := by
  rw [hold, ← funext hmid]
  exact h

theorem Stands.of_imp {C' : Prop} {value value' checked checked' : Outcome α}
    (h : Stands e depth C value checked P old mid) (hC : C' → C) (hvalue : ∀ a, value = .ok a → value' = .ok a)
    (hchecked : ∀ a, checked' = .ok a → checked = .ok a) : Stands e depth C' value' checked' P old mid where
  down := by
    intro t ht
    obtain ⟨a, ha, hmid⟩ := h.down t ht
    exact ⟨a, hvalue a ha, hmid⟩
  up := fun hC' a ha => h.up (hC hC') a (hchecked a ha)

theorem Stands.of_ok {a : α} (hP : C → P a) : Stands e depth C (.ok a) (.ok a) P (mid a) mid where
  down := fun _ ht => ⟨a, rfl, ht⟩
  up := by
    intro hC b hb
    rw [← Except.ok.inj hb]
    exact ⟨hP hC, fun _ ht => ht⟩

section Site
variable {step : Step} {pre head body post : Stream} {o : Outcome Value} {u : Value} {t : Token} (he : e.IsPlain)
  (hd : depth < e.limit) (h : Site step head body) (hpre : pre.IsApplied) (happlied : (head ++ body.wrap).IsApplied)
  (hpost : post.IsApplied)
  (hout : (Replacement.ofStep e.settings (e.reduce (depth + 1)) step (head ++ body.wrap)).outcome =
    o.map fun u => [.number u])
include he hd h hpre happlied hpost hout

/-- A site that gives a number is replaced by it. -/
theorem site_down (ht : (e.reduce depth (pre ++ ((head ++ body.wrap) ++ post))).outcome = .ok t) :
    ∃ u, o = .ok u ∧ (e.reduce depth (pre ++ (.number u :: post))).outcome = .ok t := by
  have hs := Stream.isApplied_append hpre (Stream.isApplied_append happlied hpost)
  obtain ⟨new, hfire, hnew⟩ := (reduce_site_iff he (by omega) h (hpre.leaves _) hs).mp ht
  have hgiven := (e.ofAction_of_fire _ _ hfire).1
  rw [show (Replacement.ofAction _ _ _ (.step step) _).outcome = _ from hout] at hgiven
  obtain ⟨u, hu, rfl⟩ := Outcome.map_eq_ok hgiven
  exact ⟨u, hu, hnew⟩

/-- The number stands for the site, if all integers can be written. -/
theorem site_up (ho : o = .ok u) (hspan : (head ++ body.wrap).isWritable = true) (hu : u.isWritable = true)
    (ht : (e.reduce depth (pre ++ (.number u :: post))).outcome = .ok t) :
    (e.reduce depth (pre ++ ((head ++ body.wrap) ++ post))).outcome = .ok t := by
  have hs := Stream.isApplied_append hpre (Stream.isApplied_append happlied hpost)
  refine (reduce_site_iff he (by omega) h (hpre.leaves _) hs).mpr ⟨[.number u], ?_, ht⟩
  have hnew : Stream.isWritable [.number u] = true := by simp [Stream.isWritable, Token.number, hu]
  rw [fire, show (Replacement.ofAction _ _ _ (.step step) _).outcome = _ from hout, ho]
  exact if_pos (by rw [hspan, hnew]; rfl)

end Site

section Bracketed
variable {pre post : Stream} {v w : Value} {links links' : Links} (he : e.IsPlain) (hd : depth < e.limit)
  (hpre : pre.IsApplied) (hpost : post.IsApplied)
include he hd hpre hpost

/-- Brackets around a line are replaced by the value in them. -/
theorem stands_bracket (k : Bracket) (negated : Bool) :
    Stands e depth (v.isWritable = true ∧ ∀ l ∈ links, l.2.isWritable = true)
      ((Links.signedValue .ok negated v links).bind fun x => (k.finish e.settings x).bind .ok)
      ((Links.signedValue Value.checked negated v links).bind fun x => (k.finish e.settings x).bind Value.checked)
      (fun u => u.isWritable = true) (pre ++ ((k.head ++ (Stream.signed negated v links).wrap) ++ post))
      fun u => pre ++ (.number u :: post) := by
  have hflat := Stream.flat_signed negated v links
  have happlied := k.isApplied (Stream.isApplied_signed negated v links)
  have hout := @Bracket.ofStep_outcome e.settings _ _ k hflat _ (reduce_signed he (Int.add_one_le_of_lt hd) negated v links)
  constructor
  · intro t ht
    obtain ⟨u, hu, hnew⟩ := site_down he hd (k.site hflat) hpre happlied hpost hout ht
    obtain ⟨x, hx, hu⟩ := Outcome.bind_eq_ok hu
    refine ⟨u, ?_, hnew⟩
    rw [Links.value_of_contracted hx]
    exact (Outcome.bind_ok _).trans hu
  · rintro ⟨hv, hlinks⟩ u hu
    obtain ⟨x, hx, hu⟩ := Outcome.bind_eq_ok hu
    obtain ⟨y, hy, hu⟩ := Outcome.bind_eq_ok hu
    obtain ⟨rfl, hw⟩ := Value.checked_eq_ok hu
    have ho : (Links.contracted negated v links).bind (k.finish e.settings) = .ok u := by
      rw [(Links.contracted_of_value hv hlinks hx).1]
      exact hy
    have hspan : (k.head ++ (Stream.signed negated v links).wrap).isWritable = true := by
      rw [Stream.isWritable_append, k.isWritable_head, isWritable_wrap, Stream.isWritable_signed hv hlinks]
      rfl
    exact ⟨hw, fun t ht => site_up he hd (k.site hflat) hpre happlied hpost hout ho hspan hw ht⟩

/-- The call that rounds a line to places, given by another line, is replaced by its value. -/
theorem stands_places (negated negated' : Bool) :
    Stands e depth ((v.isWritable = true ∧ ∀ l ∈ links, l.2.isWritable = true) ∧
        w.isWritable = true ∧ ∀ l ∈ links', l.2.isWritable = true)
      ((Links.signedValue .ok negated v links).bind fun x => (Links.signedValue .ok negated' w links').bind fun p =>
        (Rounding.toPlaces x p e.settings.halfThreshold).bind fun y => .ok (.real y))
      ((Links.signedValue Value.checked negated v links).bind fun x =>
        (Links.signedValue Value.checked negated' w links').bind fun p =>
          (Rounding.toPlaces x p e.settings.halfThreshold).bind fun y => Value.checked (.real y))
      (fun u => u.isWritable = true)
      (pre ++ (([.named "round"] ++ (Stream.signed negated v links ++ Token.comma :: Stream.signed negated' w links').wrap)
        ++ post)) fun u => pre ++ (.number u :: post) := by
  have hflat := Stream.flat_signed negated v links
  have hflat' := Stream.flat_signed negated' w links'
  have hsite := Site.roundTo hflat (u := Token.comma) rfl hflat'
  have happlied := Stream.isApplied_call (Stream.isApplied_comma (Stream.isApplied_signed negated v links)
    (Stream.isApplied_signed negated' w links')) "round"
  have hout := @ofStep_places e.settings _ _ _ hflat hflat' (Stream.signed_ne_nil _ _ _) (Stream.signed_ne_nil _ _ _) _ _
    (reduce_signed he (Int.add_one_le_of_lt hd) negated v links) (reduce_signed he (Int.add_one_le_of_lt hd) negated' w links')
  constructor
  · intro t ht
    obtain ⟨u, hu, hnew⟩ := site_down he hd hsite hpre happlied hpost hout ht
    obtain ⟨x, hx, hu⟩ := Outcome.bind_eq_ok hu
    obtain ⟨p, hp, hu⟩ := Outcome.bind_eq_ok hu
    obtain ⟨y, hy, rfl⟩ := Outcome.map_eq_ok hu
    refine ⟨_, ?_, hnew⟩
    rw [Links.value_of_contracted hx, Links.value_of_contracted hp]
    show (Rounding.toPlaces x p e.settings.halfThreshold).bind _ = _
    rw [hy]
    rfl
  · rintro ⟨⟨hv, hlinks⟩, hw, hlinks'⟩ u hu
    obtain ⟨x, hx, hu⟩ := Outcome.bind_eq_ok hu
    obtain ⟨p, hp, hu⟩ := Outcome.bind_eq_ok hu
    obtain ⟨y, hy, hu⟩ := Outcome.bind_eq_ok hu
    obtain ⟨rfl, hreal⟩ := Value.checked_eq_ok hu
    have ho : ((Links.contracted negated v links).bind fun x => (Links.contracted negated' w links').bind fun p =>
        (Rounding.toPlaces x p e.settings.halfThreshold).map Value.real) = .ok (.real y) := by
      rw [(Links.contracted_of_value hv hlinks hx).1, (Links.contracted_of_value hw hlinks' hp).1]
      show (Rounding.toPlaces x p e.settings.halfThreshold).map _ = _
      rw [hy]
      rfl
    have hspan : ([.named "round"] ++ (Stream.signed negated v links ++ Token.comma :: Stream.signed negated' w links').wrap :
        Stream).isWritable = true := by
      have hcomma : Stream.isWritable (Token.comma :: Stream.signed negated' w links') = true := by
        exact (Bool.true_and _).trans (Stream.isWritable_signed hw hlinks')
      rw [Stream.isWritable_append, isWritable_wrap, Stream.isWritable_append, Stream.isWritable_signed hv hlinks, hcomma]
      rfl
    exact ⟨hreal, fun t ht => site_up he hd hsite hpre happlied hpost hout ho hspan hreal ht⟩

end Bracketed

end Engine

/-! ### Chains -/

mutual

theorem Atom.isApplied : ∀ a : Atom, a.tokens.IsApplied
  | .number v => Stream.isApplied_signed false v []
  | .bracket k c => k.isApplied c.isApplied
  | .roundTo c places => Stream.isApplied_call (Stream.isApplied_comma c.isApplied places.isApplied) "round"

theorem Chain.isApplied : ∀ c : Chain, c.tokens.IsApplied
  | .mk negated first rest => by
    have hsign : Stream.IsApplied (if negated then [Sign.subtract.token] else []) := by
      refine Stream.isApplied_of_forall fun t ht => ?_
      split at ht
      · simp [List.mem_singleton.mp ht, Sign.token]
      · cases ht
    exact Stream.isApplied_append hsign (Stream.isApplied_append first.isApplied rest.isApplied)

theorem Tail.isApplied : ∀ r : Tail, r.tokens.IsApplied
  | .nil => trivial
  | .cons _ a rest =>
    ⟨fun hc => Category.noConfusion hc, Stream.isApplied_append a.isApplied rest.isApplied⟩

end

namespace Chain

def isNegated : Chain → Bool
  | .mk negated _ _ => negated

/-- The values of the operands, with the operators between them. -/
def operands (settings : Settings) (note : Value → Outcome Value) : Chain → Outcome (Value × Links)
  | .mk _ first rest => (first.value settings note).bind fun v => (rest.values settings note).bind fun links => .ok (v, links)

theorem value_bind {β : Type} (settings : Settings) (note : Value → Outcome Value) (c : Chain) (g : Value → Outcome β) :
    (c.value settings note).bind g = (c.operands settings note).bind fun p =>
      (Links.signedValue note c.isNegated p.1 p.2).bind g := by
  cases c with
  | mk negated first rest =>
    simp only [value, operands, isNegated, Outcome.bind_assoc]
    rfl

end Chain

namespace Engine
variable {e : Engine} {depth : Int}

mutual

/-- An operand stands for its value in every context. -/
theorem stands_atom (he : e.IsPlain) (hd : depth < e.limit) : ∀ (a : Atom) (C : Prop) {pre post : Stream}, pre.IsApplied → post.IsApplied →
    Stands e depth C (a.value e.settings .ok) (a.value e.settings Value.checked) (fun v => v.isWritable = true)
      (pre ++ (a.tokens ++ post)) fun v => pre ++ (.number v :: post)
  | .number v, C, pre, post, _, _ => by
    rw [Atom.value, Atom.value]
    constructor
    · exact fun t ht => ⟨v, rfl, ht⟩
    · intro _ u hu
      obtain ⟨rfl, hw⟩ := Value.checked_eq_ok hu
      exact ⟨hw, fun t ht => ht⟩
  | .bracket k c, C, pre, post, hpre, hpost => by
    rw [Atom.value, Atom.value, Chain.value_bind, Chain.value_bind]
    have hfront : Stream.IsApplied (pre ++ (k.head ++ [.opening])) := by
      refine Stream.isApplied_append hpre ?_
      cases k <;> simp [Bracket.head, Stream.IsApplied, Token.opening]
    have hback : Stream.IsApplied (Token.closing :: post) := ⟨fun hc => Category.noConfusion hc, hpost⟩
    have inner : Stands e depth C (c.operands e.settings .ok) (c.operands e.settings Value.checked)
        (fun p => p.1.isWritable = true ∧ ∀ l ∈ p.2, l.2.isWritable = true) (pre ++ ((Atom.bracket k c).tokens ++ post))
        fun p => pre ++ ((k.head ++ (Stream.signed c.isNegated p.1 p.2).wrap) ++ post) :=
      (stands_chain he hd c C hfront hback).of_eq (by simp [Atom.tokens, Stream.wrap]) fun p => by simp [Stream.wrap]
    exact inner.bind fun p =>
      (stands_bracket he hd hpre hpost k c.isNegated).of_imp And.right (fun _ h => h) (fun _ h => h)
  | .roundTo c places, C, pre, post, hpre, hpost => by
    have hname : Stream.IsApplied [.named "round", .opening] := by
      simp [Stream.IsApplied, Token.opening]
    have hopen : Stream.IsApplied (pre ++ [.named "round", .opening]) := Stream.isApplied_append hpre hname
    have hclose : Stream.IsApplied (Token.closing :: post) := ⟨fun hc => Category.noConfusion hc, hpost⟩
    have hcomma : Stream.IsApplied (Token.comma :: (places.tokens ++ Token.closing :: post)) :=
      ⟨fun hc => Category.noConfusion hc, Stream.isApplied_append places.isApplied hclose⟩
    have hfirst : ∀ p : Value × Links,
        Stream.IsApplied (pre ++ [.named "round", .opening] ++ (Stream.signed c.isNegated p.1 p.2 ++ [Token.comma])) :=
      fun p => Stream.isApplied_append hopen (Stream.isApplied_append (Stream.isApplied_signed _ _ _)
        ⟨fun hc => Category.noConfusion hc, trivial⟩)
    have first : Stands e depth C (c.operands e.settings .ok) (c.operands e.settings Value.checked)
        (fun p => p.1.isWritable = true ∧ ∀ l ∈ p.2, l.2.isWritable = true)
        (pre ++ ((Atom.roundTo c places).tokens ++ post))
        fun p => pre ++ (([.named "round"] ++ (Stream.signed c.isNegated p.1 p.2 ++ Token.comma :: places.tokens).wrap) ++ post) :=
      (stands_chain he hd c C hopen hcomma).of_eq (by simp [Atom.tokens, Stream.wrap]) fun p => by simp [Stream.wrap]
    have second : ∀ (C : Prop) (p : Value × Links), Stands e depth C (places.operands e.settings .ok)
        (places.operands e.settings Value.checked) (fun q => q.1.isWritable = true ∧ ∀ l ∈ q.2, l.2.isWritable = true)
        (pre ++ (([.named "round"] ++ (Stream.signed c.isNegated p.1 p.2 ++ Token.comma :: places.tokens).wrap) ++ post))
        fun q => pre ++ (([.named "round"] ++ (Stream.signed c.isNegated p.1 p.2 ++
          Token.comma :: Stream.signed places.isNegated q.1 q.2).wrap) ++ post) := fun C p =>
      (stands_chain he hd places C (hfirst p) hclose).of_eq (by simp [Stream.wrap]) fun q => by simp [Stream.wrap]
    -- The operands of both chains are replaced before the call is contracted.
    have both := first.bind fun p => (second _ p).bind fun q =>
      (stands_places he hd hpre hpost c.isNegated places.isNegated).of_imp
        (fun h => ⟨h.1.2, h.2⟩) (fun _ h => h) (fun _ h => h)
    simp only [Atom.value, Chain.value_bind]
    refine both.of_imp id (fun u hu => ?_) fun u hu => ?_
    · obtain ⟨p, hp, hu⟩ := Outcome.bind_eq_ok hu
      have hswap := Outcome.bind_comm hu
      rw [hp]
      exact hswap
    · obtain ⟨p, hp, hu⟩ := Outcome.bind_eq_ok hu
      have hswap := Outcome.bind_comm hu
      rw [hp]
      exact hswap

/-- The operands of a chain stand for their values in every context. -/
theorem stands_chain (he : e.IsPlain) (hd : depth < e.limit) : ∀ (c : Chain) (C : Prop) {pre post : Stream}, pre.IsApplied → post.IsApplied →
    Stands e depth C (c.operands e.settings .ok) (c.operands e.settings Value.checked)
      (fun p => p.1.isWritable = true ∧ ∀ l ∈ p.2, l.2.isWritable = true)
      (pre ++ (c.tokens ++ post)) fun p => pre ++ (Stream.signed c.isNegated p.1 p.2 ++ post)
  | .mk negated first rest, C, pre, post, hpre, hpost => by
    have hsign : Stream.IsApplied (if negated then [Sign.subtract.token] else []) := by
      cases negated
      · trivial
      · exact Stream.isApplied_sign _
    have hfront : Stream.IsApplied (pre ++ if negated then [Sign.subtract.token] else []) :=
      Stream.isApplied_append hpre hsign
    have hrest : Stream.IsApplied (rest.tokens ++ post) := Stream.isApplied_append rest.isApplied hpost
    have hnumber : ∀ v, Stream.IsApplied ((pre ++ if negated then [Sign.subtract.token] else []) ++ [.number v]) :=
      fun v => Stream.isApplied_append hfront (Stream.isApplied_number v)
    have hfirst : Stands e depth C (first.value e.settings .ok) (first.value e.settings Value.checked)
        (fun v => v.isWritable = true) (pre ++ ((Chain.mk negated first rest).tokens ++ post))
        fun v => pre ++ (((if negated then [Sign.subtract.token] else []) ++ (.number v :: rest.tokens)) ++ post) :=
      (stands_atom he hd first C hfront hrest).of_eq (by simp [Chain.tokens]) fun v => by simp
    have htail : ∀ (C : Prop) (v : Value), Stands e depth C (rest.values e.settings .ok)
        (rest.values e.settings Value.checked) (fun links => ∀ l ∈ links, l.2.isWritable = true)
        (pre ++ (((if negated then [Sign.subtract.token] else []) ++ (.number v :: rest.tokens)) ++ post))
        fun links => pre ++ (Stream.signed negated v links ++ post) := fun C v =>
      (stands_tail he hd rest C (hnumber v) hpost).of_eq (by simp) fun links => by
        cases negated <;> simp [Stream.signed, Stream.line]
    exact hfirst.bind fun v => (htail _ v).bind fun links =>
      @Stands.of_ok e depth _ _ _ (fun p : Value × Links => pre ++ (Stream.signed negated p.1 p.2 ++ post)) (v, links)
        fun h => ⟨h.1.2, h.2⟩

theorem stands_tail (he : e.IsPlain) (hd : depth < e.limit) : ∀ (r : Tail) (C : Prop) {pre post : Stream}, pre.IsApplied → post.IsApplied →
    Stands e depth C (r.values e.settings .ok) (r.values e.settings Value.checked)
      (fun links => ∀ l ∈ links, l.2.isWritable = true)
      (pre ++ (r.tokens ++ post)) fun links => pre ++ (links.tokens ++ post)
  | .nil, C, pre, post, _, _ => by
    rw [Tail.values, Tail.values]
    exact @Stands.of_ok e depth _ C _ (fun links : Links => pre ++ (links.tokens ++ post)) [] fun _ => by simp
  | .cons s a rest, C, pre, post, hpre, hpost => by
    rw [Tail.values, Tail.values]
    have hsign : Stream.IsApplied (pre ++ [s.token]) := Stream.isApplied_append hpre (Stream.isApplied_sign s)
    have hrest : Stream.IsApplied (rest.tokens ++ post) := Stream.isApplied_append rest.isApplied hpost
    have hnumber : ∀ w, Stream.IsApplied (pre ++ [s.token] ++ [.number w]) := fun w =>
      Stream.isApplied_append hsign (Stream.isApplied_number w)
    have hatom : Stands e depth C (a.value e.settings .ok) (a.value e.settings Value.checked)
        (fun w => w.isWritable = true) (pre ++ ((Tail.cons s a rest).tokens ++ post))
        fun w => pre ++ (s.token :: .number w :: rest.tokens ++ post) :=
      (stands_atom he hd a C hsign hrest).of_eq (by simp [Tail.tokens]) fun w => by simp
    have htail : ∀ (C : Prop) (w : Value), Stands e depth C (rest.values e.settings .ok)
        (rest.values e.settings Value.checked) (fun links => ∀ l ∈ links, l.2.isWritable = true)
        (pre ++ (s.token :: .number w :: rest.tokens ++ post))
        fun links => pre ++ (Links.tokens ((s, w) :: links) ++ post) := fun C w =>
      (stands_tail he hd rest C (hnumber w) hpost).of_eq (by simp) fun links => by simp
    exact hatom.bind fun w => (htail _ w).bind fun links =>
      @Stands.of_ok e depth _ _ _ (fun links : Links => pre ++ (links.tokens ++ post)) ((s, w) :: links)
        fun h => List.forall_mem_cons.mpr ⟨h.1.2, h.2⟩

end

/-- The standard rules give the value of a chain. If its tokens are reduced to a token, this is the number that the
    chain has for a value. And if the chain has a value, where no integer on the way is too long to be written, its
    tokens are reduced to this number. -/
theorem reduce_chain (he : e.IsPlain) (hd : depth < e.limit) (c : Chain) :
    (∀ t, (e.reduce depth c.tokens).outcome = .ok t → ∃ v, c.value e.settings .ok = .ok v ∧ t = .number v) ∧
    (∀ v, c.value e.settings Value.checked = .ok v → (e.reduce depth c.tokens).outcome = .ok (.number v)) := by
  have whole := @stands_chain e depth he hd c True [] [] trivial trivial
  have hflat := fun p : Value × Links => reduce_signed he (Int.le_of_lt hd) c.isNegated p.1 p.2
  simp only [List.nil_append, List.append_nil] at whole
  have hvalue : ∀ note, c.value e.settings note = (c.operands e.settings note).bind fun p =>
      Links.signedValue note c.isNegated p.1 p.2 := by
    intro note
    rw [← Outcome.bind_ok (c.value e.settings note), Chain.value_bind]
    simp only [Outcome.bind_ok]
  constructor
  · intro t ht
    obtain ⟨p, hp, hline⟩ := whole.down t ht
    rw [hflat p] at hline
    obtain ⟨v, hv, rfl⟩ := Outcome.map_eq_ok hline
    refine ⟨v, ?_, rfl⟩
    rw [hvalue, hp]
    exact Links.value_of_contracted hv
  · intro v hv
    rw [hvalue] at hv
    obtain ⟨p, hp, hv⟩ := Outcome.bind_eq_ok hv
    obtain ⟨⟨hshort, hlinks⟩, hup⟩ := whole.up trivial p hp
    refine hup _ ?_
    rw [hflat p, (Links.contracted_of_value hshort hlinks hv).1]
    rfl

/-- A negated sum in brackets times a number. -/
theorem reduce_chain_product :
    (Engine.reduce {} 0 (Chain.mk true (.bracket .group (.mk false (.number (.int 1)) (.cons .add (.number (.int 2)) .nil)))
      (.cons .multiply (.number (.int 4)) .nil)).tokens).outcome = .ok (.number (.int (-12))) := by
  refine (reduce_chain ⟨rfl, rfl⟩ (by decide) _).2 _ ?_
  obtain ⟨v, hv, htoken⟩ := Outcome.map_eq_ok (Outcome.eq_ok_int (o := (Chain.mk true
    (.bracket .group (.mk false (.number (.int 1)) (.cons .add (.number (.int 2)) .nil)))
      (.cons .multiply (.number (.int 4)) .nil)).value {} Value.checked |>.map Token.number) (k := -12) (by decide +kernel))
  cases htoken
  exact hv

end Engine

end Reckoner
