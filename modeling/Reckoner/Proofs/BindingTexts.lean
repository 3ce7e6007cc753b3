import Mathlib.Data.List.DropRight
import Reckoner.Proofs.Assignments
import Reckoner.Proofs.FailureKinds
import Reckoner.Proofs.LowerCase
import Reckoner.Proofs.Numerals

/-!
# Written bindings are read back

A name and the text of a value with an equals sign between them and white space around both are read as this name and
this value, if the value is a truth value, an integer that may be written, or a string that no other value has as its
text. A table of such bindings has the names in the order in which they first came, each with its last value. A list of
any texts is refused exactly if one of them has no equals sign (`Bindings.ofTexts_written`).
-/

namespace Reckoner

/-! ### White space at the ends -/

namespace Text
variable {s before after : List Char}

theorem trim_eq_rdropWhile (s : List Char) : trim s = (s.dropWhile isBlank).rdropWhile isBlank := rfl

/-- The text does not start with a blank any more. -/
theorem dropWhile_trim (s : List Char) : (trim s).dropWhile isBlank = trim s := by
  rw [List.dropWhile_eq_self_iff]
  intro hpos
  obtain ⟨rest, hrest⟩ := List.rdropWhile_prefix isBlank (s.dropWhile isBlank)
  rw [← trim_eq_rdropWhile] at hrest
  have hne : s.dropWhile isBlank ≠ [] := fun h => by
    rw [h, List.append_eq_nil_iff] at hrest
    rw [hrest.1] at hpos
    cases hpos
  have hfirst : (trim s)[0] = (s.dropWhile isBlank).head hne := by
    rw [List.head_eq_getElem]
    simp only [← hrest, List.getElem_append_left hpos]
  rw [hfirst, List.head_dropWhile_not isBlank hne]
  decide

theorem trim_trim (s : List Char) : trim (trim s) = trim s := by
  rw [trim_eq_rdropWhile, dropWhile_trim, trim_eq_rdropWhile, List.rdropWhile_idempotent]

/-- White space that is put around a text is left out again. -/
theorem trim_append (hbefore : ∀ c ∈ before, isBlank c = true) (hafter : ∀ c ∈ after, isBlank c = true) :
    trim (before ++ s ++ after) = trim s := by
  rw [List.append_assoc, trim, List.dropWhile_append_of_pos hbefore, trim, List.dropWhile_append]
  split
  · -- There is nothing but white space.
    rename_i hempty
    rw [List.isEmpty_iff.mp hempty, List.dropWhile_eq_nil_iff.mpr hafter]
  · rw [List.reverse_append, List.dropWhile_append_of_pos fun c hc => hafter c (List.mem_reverse.mp hc)]

end Text

/-! ### The text of an integer -/

namespace Reading
open Text

variable {c : Char} {n : Int}

/-- A character of a written integer. Reading keeps it, and it belongs to no truth value. -/
structure IsOfInteger (c : Char) : Prop where
  ascii : toAscii c = c
  not_blank : isBlank c = false ∧ isAsciiBlank c = false
  not_underscore : c ≠ '_'
  lower : IsLower c
  not_letter : c ≠ 't' ∧ c ≠ 'f'

theorem isOfInteger_of_isDigit (h : c = '-' ∨ c.isDigit = true) : IsOfInteger c := by
  have hall : ∀ k < 58, let c := Char.ofNat k
      c = '-' ∨ c.isDigit = true → toAscii c = c ∧ (isBlank c = false ∧ isAsciiBlank c = false) ∧ c ≠ '_' ∧ IsLower c ∧
        (c ≠ 't' ∧ c ≠ 'f') := by
    decide
  have hlt : c.toNat < 58 := by
    rcases h with rfl | h
    · decide
    · simp only [Char.isDigit, Bool.and_eq_true, decide_eq_true_eq] at h
      exact Nat.lt_succ_of_le h.2
  have hc := hall c.toNat hlt
  rw [c.ofNat_toNat] at hc
  obtain ⟨hascii, hblank, hunderscore, hlower, hletter⟩ := hc h
  exact ⟨hascii, hblank, hunderscore, hlower, hletter⟩

theorem isDigit_of_mem_natural {k : Nat} (h : c ∈ Notation.natural k) : c.isDigit = true :=
  Nat.isDigit_of_mem_toDigits (by decide) (by decide) h

theorem isOfInteger_of_mem (h : c ∈ (Notation.integer n).toList) : IsOfInteger c := by
  rw [Notation.integer, String.toList_ofList] at h
  refine isOfInteger_of_isDigit ?_
  split at h
  · exact (List.mem_cons.mp h).imp_right isDigit_of_mem_natural
  · exact Or.inr (isDigit_of_mem_natural h)

theorem normalise_integer (n : Int) : normalise (Notation.integer n).toList = (Notation.integer n).toList := by
  have hascii : (Notation.integer n).toList.map toAscii = (Notation.integer n).toList :=
    (List.map_congr_left fun c hc => (isOfInteger_of_mem hc).ascii).trans (List.map_id _)
  rw [normalise_eq fun c hc => ?_, hascii]
  rw [(isOfInteger_of_mem hc).ascii]
  exact (isOfInteger_of_mem hc).not_blank.2

theorem signed_integer (n : Int) :
    signed (Notation.integer n).toList = (decide (n < 0), Notation.natural n.natAbs) := by
  rw [Notation.integer, String.toList_ofList]
  split
  · rename_i hneg
    rw [decide_eq_true hneg]
    rfl
  · rename_i hpos
    rw [decide_eq_false hpos]
    refine signed_eq fun c hc => ?_
    have hdigit := isDigit_of_mem_natural (List.mem_of_mem_head? hc)
    constructor <;> (rintro rfl; cases hdigit)

theorem valueOf_natural (k : Nat) : valueOf (Notation.natural k) = k := by
  have hdigits : Nat.ofDigitChars 10 (Nat.toDigits 10 k) 0 = k := Nat.ofDigitChars_ten_toDigits
  rwa [Nat.ofDigitChars_eq_foldl] at hdigits

/-- An integer that may be written is read back, with its sign. -/
theorem integer?_integer (h : (Nat.toDigits 10 n.natAbs).length ≤ digitLimit) :
    integer? (Notation.integer n).toList = some n := by
  have hdigits : ∀ c ∈ Notation.natural n.natAbs, c.isDigit = true := fun c => isDigit_of_mem_natural
  have hjoin : joinDigits? ' ' (Notation.natural n.natAbs) = some (Notation.natural n.natAbs) :=
    joinDigits?_eq (by decide) fun c hc => (isOfInteger_of_isDigit (Or.inr (hdigits c hc))).not_underscore
  have hne : Notation.natural n.natAbs ≠ [] := Nat.toDigits_ne_nil
  have hshort : ¬ digitLimit < (Notation.natural n.natAbs).length := Nat.not_lt.mpr h
  rw [integer?, normalise_integer, signed_integer]
  simp only [hjoin, List.isEmpty_eq_false_iff.mpr hne, List.all_eq_true.mpr hdigits, valueOf_natural, hshort]
  simp only [Bool.not_true, Bool.or_self, decide_false, Bool.false_eq_true, if_false, decide_eq_true_eq]
  congr 1
  split <;> omega

/-- The text of an integer is no truth value. -/
theorem lower_integer_ne {word : String} (hword : word = "true" ∨ word = "false") :
    Text.lower (Notation.integer n) ≠ word := by
  intro h
  rw [Text.lower, lowerAfter_of_isLower fun c hc => (isOfInteger_of_mem hc).lower, String.ofList_toList] at h
  have hletter : ∀ c ∈ word.toList, c ≠ 't' ∧ c ≠ 'f' := fun c hc => (isOfInteger_of_mem (h ▸ hc)).not_letter
  rcases hword with rfl | rfl
  · exact (hletter 't' (by decide)).1 rfl
  · exact (hletter 'f' (by decide)).2 rfl

end Reading

/-! ### The text of a value -/

namespace Value
open Text

/-- The text without the white space around it. -/
def trimmed (s : String) : String := String.ofList (trim s.toList)

/-- The value that is left of a written one: a string loses the white space around it. -/
def kept : Value → Value
  | .text s => .text (trimmed s)
  | v => v

/-- The text of the value stands for the value: an integer is not too long, and a string is neither a truth value in
    any letter case nor a number. -/
inductive IsReadable : Value → Prop where
  | bool (b : Bool) : IsReadable (.bool b)
  | int {n : Int} : (Nat.toDigits 10 n.natAbs).length ≤ Reading.digitLimit → IsReadable (.int n)
  | text {s : String} : lower (trimmed s) ≠ "true" → lower (trimmed s) ≠ "false" →
      Reading.integer? (trim s.toList) = none → Reading.real? (trim s.toList) = none → IsReadable (.text s)

theorem ofText_bool (b : Bool) : ofText (trimmed (boolText b)) = .bool b := by
  cases b <;> rfl

theorem ofText_integer {n : Int} (h : (Nat.toDigits 10 n.natAbs).length ≤ Reading.digitLimit) :
    ofText (trimmed (Notation.integer n)) = .int n := by
  have htrim : trim (Notation.integer n).toList = (Notation.integer n).toList :=
    Assignment.trim_of_forall fun c hc => (Reading.isOfInteger_of_mem hc).not_blank.1
  have hsame : trimmed (Notation.integer n) = Notation.integer n := by rw [trimmed, htrim, String.ofList_toList]
  have htrue : (lower (Notation.integer n) == "true") = false :=
    beq_eq_false_iff_ne.mpr (Reading.lower_integer_ne (Or.inl rfl))
  have hfalse : (lower (Notation.integer n) == "false") = false :=
    beq_eq_false_iff_ne.mpr (Reading.lower_integer_ne (Or.inr rfl))
  rw [hsame, ofText, ← trimmed, hsame]
  simp only [htrue, hfalse, Bool.false_eq_true, if_false, Reading.integer?_integer h]

theorem IsReadable.ofText {v : Value} (h : v.IsReadable) : ofText (trimmed v.display) = v.kept := by
  cases h with
  | bool b => exact ofText_bool b
  | int h => exact ofText_integer h
  | @text s htrue hfalse hint hreal =>
    have hsame : String.ofList (trim (trimmed s).toList) = trimmed s := by
      rw [trimmed, String.toList_ofList, trim_trim]
    have htext : (trimmed s).toList = trim s.toList := String.toList_ofList
    rw [display, Value.ofText, hsame]
    simp only [beq_eq_false_iff_ne.mpr htrue, beq_eq_false_iff_ne.mpr hfalse, Bool.false_eq_true, if_false, htext, hint,
      hreal]
    rfl

end Value

/-! ### One binding -/

namespace Bindings
open Text
variable {name value : List Char} {text : String} {f : Failure}

/-- The first equals sign ends the name. -/
theorem entryOf_append (h : '=' ∉ name) : entryOf (String.ofList (name ++ '=' :: value)) =
    .ok (.text (String.ofList (trim name)), .ofText (String.ofList (trim value))) := by
  have hname : ∀ c ∈ name, (c != '=') = true := fun c hc => bne_iff_ne.mpr fun heq => h (heq ▸ hc)
  rw [entryOf, String.toList_ofList, List.dropWhile_append_of_pos hname, List.takeWhile_append_of_pos hname]
  simp

theorem entryOf_of_not_mem (h : '=' ∉ text.toList) : entryOf text = .error (.malformedBinding text) := by
  have hall : text.toList.dropWhile (· != '=') = [] :=
    List.dropWhile_eq_nil_iff.mpr fun c hc => bne_iff_ne.mpr fun heq => h (heq ▸ hc)
  simp only [entryOf, hall]

theorem exists_entryOf (h : '=' ∈ text.toList) : ∃ e, entryOf text = .ok e := by
  obtain ⟨name, value, htext, hname⟩ := List.eq_append_cons_of_mem h
  have hentry := @entryOf_append name value hname
  rw [← htext, String.ofList_toList] at hentry
  exact ⟨_, hentry⟩

theorem entryOf_error (h : entryOf text = .error f) : '=' ∉ text.toList ∧ f = .malformedBinding text := by
  have hmem : '=' ∉ text.toList := fun hmem => by
    obtain ⟨e, he⟩ := exists_entryOf hmem
    rw [he] at h
    cases h
  rw [entryOf_of_not_mem hmem] at h
  exact ⟨hmem, (Except.error.inj h).symm⟩

/-! ### Lists of texts -/

variable {texts : List String}

theorem ofTexts_error (h : ofTexts texts = .error f) :
    ∃ text ∈ texts, '=' ∉ text.toList ∧ f = .malformedBinding text := by
  obtain ⟨text, htext, he⟩ := Outcome.mapM_eq_error (Outcome.map_eq_error h)
  exact ⟨text, htext, entryOf_error he⟩

theorem forall_of_mapM_entryOf : ∀ {texts : List String} {es : List (Value × Value)}, texts.mapM entryOf = .ok es →
    ∀ text ∈ texts, '=' ∈ text.toList
  | [], _, _ => nofun
  | text :: texts, es, h => by
    rw [List.mapM_cons] at h
    obtain ⟨e, he, h⟩ := Outcome.bind_eq_ok h
    obtain ⟨es', hes', -⟩ := Outcome.bind_eq_ok h
    refine List.forall_mem_cons.mpr ⟨?_, forall_of_mapM_entryOf hes'⟩
    by_contra hmem
    rw [entryOf_of_not_mem hmem] at he
    cases he

theorem forall_of_ofTexts {b : Bindings} (h : ofTexts texts = .ok b) : ∀ text ∈ texts, '=' ∈ text.toList := by
  obtain ⟨es, hes, -⟩ := Outcome.map_eq_ok h
  exact forall_of_mapM_entryOf hes

/-- A list of texts is refused exactly if one of them has no equals sign. -/
theorem exists_ofTexts_error_iff :
    (∃ f, ofTexts texts = .error f ∧ f.kind = .value) ↔ ∃ text ∈ texts, '=' ∉ text.toList := by
  constructor
  · rintro ⟨f, hf, -⟩
    obtain ⟨text, htext, hmem, -⟩ := ofTexts_error hf
    exact ⟨text, htext, hmem⟩
  · rintro ⟨text, htext, hmem⟩
    cases hresult : ofTexts texts with
    | ok b => exact absurd (forall_of_ofTexts hresult text htext) hmem
    | error f =>
      obtain ⟨text', -, -, rfl⟩ := ofTexts_error hresult
      exact ⟨_, rfl, rfl⟩

/-! ### Tables -/

/-- The table of some entries: their names in the order in which they first came, each with its last value. -/
structure Merges (es : List (String × Value)) (b : Bindings) : Prop where
  names : b.map (·.1) = (es.map (·.1)).eraseDups.map .text
  last : ∀ before name value after, es = before ++ (name, value) :: after → name ∉ after.map (·.1) →
    (.text name, value) ∈ b

/-- A name keeps its place, and a new one comes behind the others. -/
theorem map_fst_put (name value : Value) : ∀ b : Bindings, (b.put name value).map (·.1) =
    if b.has name then b.map (·.1) else b.map (·.1) ++ [name]
  | [] => rfl
  | (n, v) :: b => by
    have ih := map_fst_put name value b
    rw [put, has, List.any_cons]
    cases hn : n.same name with
    | true => simp
    | false =>
      have hhas : (false || b.any fun e => e.1.same name) = has b name := rfl
      rw [if_neg Bool.false_ne_true, List.map_cons, ih, hhas]
      split <;> rfl

theorem has_text_iff {b : Bindings} {s : String} : b.has (.text s) = true ↔ .text s ∈ b.map (·.1) := by
  simp only [has, List.any_eq_true, Value.same_text, List.mem_map]

theorem map_fst_ofEntries (es : List (String × Value)) :
    (ofEntries (es.map fun e => (.text e.1, e.2))).map (·.1) = (es.map (·.1)).eraseDups.map .text := by
  induction es using List.reverseRecOn with
  | nil => rfl
  | append_singleton es e ih =>
    have hsnoc : ofEntries ((es ++ [e]).map fun e => (.text e.1, e.2)) =
        (ofEntries (es.map fun e => (.text e.1, e.2))).put (.text e.1) e.2 := by
      rw [List.map_append, ofEntries, putAll, List.foldl_append]
      rfl
    have hknown : (ofEntries (es.map fun e => (.text e.1, e.2))).has (.text e.1) = true ↔ e.1 ∈ es.map (·.1) := by
      rw [has_text_iff, ih, List.mem_map_of_injective fun _ _ => Value.text.inj, List.mem_eraseDups]
    rw [hsnoc, map_fst_put, ih, List.map_append, List.map_singleton, eraseDups_snoc, if_congr hknown rfl rfl]
    split
    · rfl
    · rw [List.map_append, List.map_singleton]

theorem mem_of_get? {b : Bindings} {s : String} {v : Value} (h : b.get? (.text s) = some v) : (.text s, v) ∈ b := by
  obtain ⟨⟨n, w⟩, hfind, rfl⟩ := Option.map_eq_some_iff.mp h
  have hsame : n.same (.text s) = true := by simpa using List.find?_some hfind
  obtain rfl := (Value.same_text n s).mp hsame
  exact List.mem_of_find?_eq_some hfind

theorem merges_ofEntries (es : List (String × Value)) : Merges es (ofEntries (es.map fun e => (.text e.1, e.2))) where
  names := map_fst_ofEntries es
  last := by
    rintro before name value after rfl hafter
    have hlater : after.reverse.find? (·.1 == name) = none := by
      rw [List.find?_eq_none]
      intro e he
      have hne : e.1 ≠ name := fun heq => hafter (heq ▸ List.mem_map_of_mem (List.mem_reverse.mp he))
      simpa using hne
    refine mem_of_get? ?_
    rw [get?_ofEntries, List.reverse_append, List.reverse_cons, List.append_assoc, List.find?_append, hlater]
    simp

end Bindings

/-! ### Written bindings -/

/-- A name and a value as they are written, with white space in front of both and behind both. -/
structure WrittenBinding where
  name : String
  value : Value
  beforeName : List Char
  afterName : List Char
  beforeValue : List Char
  afterValue : List Char

namespace WrittenBinding
open Text
variable {w : WrittenBinding} {ws : List WrittenBinding}

/-- The text of the binding. -/
def text (w : WrittenBinding) : String :=
  String.ofList ((w.beforeName ++ w.name.toList ++ w.afterName) ++
    '=' :: (w.beforeValue ++ w.value.display.toList ++ w.afterValue))

/-- What the binding says: the name without the white space around it, and the value. -/
def entry (w : WrittenBinding) : String × Value := (Value.trimmed w.name, w.value.kept)

/-- The name has no equals sign, the value has a text that stands for it, and around them is white space only. -/
structure IsReadable (w : WrittenBinding) : Prop where
  name : '=' ∉ w.name.toList
  value : w.value.IsReadable
  blanks : ∀ c ∈ w.beforeName ++ w.afterName ++ w.beforeValue ++ w.afterValue, isBlank c = true

theorem entryOf_text (h : w.IsReadable) : Bindings.entryOf w.text = .ok (.text w.entry.1, w.entry.2) := by
  obtain ⟨hname, hvalue, hblanks⟩ := h
  simp only [List.forall_mem_append] at hblanks
  obtain ⟨⟨⟨hbeforeName, hafterName⟩, hbeforeValue⟩, hafterValue⟩ := hblanks
  have hequals : ∀ cs : List Char, (∀ c ∈ cs, isBlank c = true) → '=' ∉ cs := fun cs hcs hmem => by
    cases hcs '=' hmem
  have hleft : '=' ∉ w.beforeName ++ w.name.toList ++ w.afterName := by
    simp only [List.mem_append, not_or]
    exact ⟨⟨hequals _ hbeforeName, hname⟩, hequals _ hafterName⟩
  rw [text, Bindings.entryOf_append hleft, trim_append hbeforeName hafterName, trim_append hbeforeValue hafterValue]
  exact congrArg (fun v => Except.ok (Value.text w.entry.1, v)) hvalue.ofText

theorem ofTexts_text (h : ∀ w ∈ ws, w.IsReadable) : Bindings.ofTexts (ws.map text) =
    .ok (.ofEntries ((ws.map entry).map fun e => (.text e.1, e.2))) := by
  have hentries : (ws.map text).mapM Bindings.entryOf = .ok ((ws.map entry).map fun e => (.text e.1, e.2)) := by
    induction ws with
    | nil => rfl
    | cons w ws ih =>
      obtain ⟨hw, hws⟩ := List.forall_mem_cons.mp h
      rw [List.map_cons, List.mapM_cons, entryOf_text hw, ih hws]
      rfl
  rw [Bindings.ofTexts, hentries]
  rfl

end WrittenBinding

namespace Bindings

/-- Written bindings are read back: the table has the names in the order in which they first came, each with its last
    value. And a list of any texts is refused exactly if one of them has no equals sign, for this text. -/
theorem ofTexts_written :
    (∀ ws : List WrittenBinding, (∀ w ∈ ws, w.IsReadable) →
      ∃ b, ofTexts (ws.map (·.text)) = .ok b ∧ Merges (ws.map (·.entry)) b) ∧
    ∀ texts : List String,
      ((∃ f, ofTexts texts = .error f ∧ f.kind = .value) ↔ ∃ text ∈ texts, '=' ∉ text.toList) ∧
      ∀ f, ofTexts texts = .error f → ∃ text ∈ texts, '=' ∉ text.toList ∧ f = .malformedBinding text :=
  ⟨fun _ h => ⟨_, WrittenBinding.ofTexts_text h, merges_ofEntries _⟩,
    fun _ => ⟨exists_ofTexts_error_iff, fun _ => ofTexts_error⟩⟩

/-- A name that comes twice, an integer below zero, and a string with an equals sign in it. A text without one is
    refused. -/
theorem ofTexts_written_repeated :
    let ws : List WrittenBinding := [⟨"x", .int 1, [], [' '], [' '], []⟩, ⟨"y", .bool true, [' '], [], [], []⟩,
      ⟨" x", .int (-20), [], [], ['\t'], ['\n']⟩, ⟨"z", .text " a=b", [], [], [], [' ']⟩]
    (ws.map (·.text) = ["x = 1", " y=True", " x=\t-20\n", "z= a=b "] ∧ ∀ w ∈ ws, w.IsReadable) ∧
      (∃ b, ofTexts (ws.map (·.text)) = .ok b ∧ b.map (·.1) = [.text "x", .text "y", .text "z"] ∧
        (.text "x", .int (-20)) ∈ b ∧ (.text "z", .text "a=b") ∈ b) ∧
      ∃ f, ofTexts ["x=1", "y"] = .error f ∧ f.kind = .value := by
  intro ws
  have htext : Value.IsReadable (.text " a=b") := .text (by decide) (by decide) rfl rfl
  have hreadable : ∀ w ∈ ws, w.IsReadable := by
    simp only [ws, List.forall_mem_cons, List.not_mem_nil, false_implies, implies_true, and_true]
    exact ⟨⟨by decide, .int (by decide +kernel), List.all_eq_true.mp rfl⟩,
      ⟨by decide, .bool true, List.all_eq_true.mp rfl⟩,
      ⟨by decide, .int (by decide +kernel), List.all_eq_true.mp rfl⟩, ⟨by decide, htext, List.all_eq_true.mp rfl⟩⟩
  obtain ⟨b, hb, hnames, hlast⟩ := ofTexts_written.1 ws hreadable
  refine ⟨⟨by decide, hreadable⟩, ⟨b, hb, hnames, ?_, ?_⟩, (ofTexts_written.2 _).1.mpr ⟨"y", by decide, by decide⟩⟩
  · exact hlast [("x", .int 1), ("y", .bool true)] "x" (.int (-20)) [("z", .text "a=b")] rfl (by decide)
  · exact hlast [("x", .int 1), ("y", .bool true), ("x", .int (-20))] "z" (.text "a=b") [] rfl (by decide)

end Bindings
end Reckoner
