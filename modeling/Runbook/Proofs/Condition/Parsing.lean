import Runbook.Condition
import Runbook.Proofs.Text

namespace Runbook

/-!
# Conditions — reading a comparison

An expression is cut at one of six operators, which are tried in a fixed order.  This file compares
the reader with the way in which comparisons are written.

* `Comparison.Spells` — an expression is a comparison, with blanks around its two operands;
* `Operator.eq_or_narrow_of_infix` — where a text holds a single operator, none occurs in it but
  this one and, if it has two characters, the one that it begins with;
* `Comparison.parse_unmarked` — so what becomes of such a text is told by the blanks around the
  operator;
* `Comparison.faithful_parse` — whatever is read is spelled so, and all that is spelled with a
  single operator is read;
* `Comparison.keepsWhole_iff` — an operator of two characters is cut in the middle where nothing
  but blanks follows it, and nowhere else.
-/

/-! ### Characters of operators -/

namespace Operator

/-- The characters that operators are made of. -/
def marks : List Char := ['=', '!', '<', '>']

/-- No operator begins, ends or occurs in a text. -/
def Unmarked (cs : List Char) : Prop := ∀ c ∈ cs, c ∉ marks

/-- The operator of one character that an operator of two begins with. -/
def narrow? : Operator → Option Operator
  | ge => some gt
  | le => some lt
  | _ => none

theorem text_toList (op : Operator) : op.text.toList = op.symbol := String.toList_ofList

theorem symbol_subset (op : Operator) : op.symbol ⊆ marks := by
  cases op <;> decide

theorem isBlank_symbol (op : Operator) : op.symbol.all Text.isBlank = false := by
  cases op <;> decide

theorem exists_symbol_eq_cons (op : Operator) : ∃ c rest, op.symbol = c :: rest := by
  cases op <;> exact ⟨_, _, rfl⟩

theorem symbol_ne_nil (op : Operator) : op.symbol ≠ [] := by
  cases op <;> decide

theorem symbol_of_narrow? {op op' : Operator} (h : op.narrow? = some op') :
    ∃ c, op'.symbol = [c] ∧ op.symbol = [c, '='] ∧ c ≠ '=' := by
  cases op <;> cases h <;> exact ⟨_, rfl, rfl, by decide⟩

/-- The operators that others begin with. -/
theorem exists_narrow? {op' : Operator} :
    op' = gt ∨ op' = lt ↔ ∃ op : Operator, op.narrow? = some op' := by
  constructor
  · rintro (rfl | rfl)
    · exact ⟨ge, rfl⟩
    · exact ⟨le, rfl⟩
  · rintro ⟨op, h⟩
    cases op <;> cases h <;> simp

/-- Cutting after the first character of an operator leaves the other one to the right. -/
theorem append_symbol_of_narrow? {op op' : Operator} (h : op.narrow? = some op')
    (before after : List Char) :
    before ++ op.symbol ++ after = before ++ op'.symbol ++ '=' :: after := by
  obtain ⟨x, hsymbol', hsymbol, -⟩ := symbol_of_narrow? h
  rw [hsymbol, hsymbol', List.append_assoc, List.append_assoc]
  rfl

/-- The characters of an operator are, in the same order, in no other one but the one that begins
    with it. -/
theorem eq_or_narrow {op op' : Operator} (h : op'.symbol.Sublist op.symbol) :
    op' = op ∨ op.narrow? = some op' := by
  revert h
  cases op <;> cases op' <;> decide

variable {cs ds : List Char}

theorem Unmarked.append (h : Unmarked cs) (h' : Unmarked ds) : Unmarked (cs ++ ds) :=
  fun c hc => (List.mem_append.1 hc).elim (h c) (h' c)

theorem Unmarked.of_blank (h : cs.all Text.isBlank = true) : Unmarked cs := by
  intro c hc hmark
  have hblank := List.all_eq_true.1 h c hc
  simp only [marks, List.mem_cons, List.not_mem_nil, or_false] at hmark
  rcases hmark with rfl | rfl | rfl | rfl <;> exact absurd hblank (by decide)

/-- **Marks.** Around a single operator nothing occurs but the operator itself, and the one that it
    begins with. -/
theorem eq_or_narrow_of_infix {op op' : Operator} (hbefore : Unmarked cs) (hafter : Unmarked ds)
    (h : op'.symbol <:+: cs ++ op.symbol ++ ds) : op' = op ∨ op.narrow? = some op' := by
  -- All marks of the text are those of the operator.
  have hsub := h.sublist.filter fun c => decide (c ∈ marks)
  have hnone : ∀ {l : List Char}, Unmarked l → l.filter (fun c => decide (c ∈ marks)) = [] :=
    fun hl => List.filter_eq_nil_iff.2 fun c hc => by simpa using hl c hc
  have hall : ∀ o : Operator, o.symbol.filter (fun c => decide (c ∈ marks)) = o.symbol :=
    fun o => List.filter_eq_self.2 fun c hc => by simpa using symbol_subset o hc
  rw [List.filter_append, List.filter_append, hnone hbefore, hnone hafter, hall, hall,
    List.nil_append, List.append_nil] at hsub
  exact eq_or_narrow hsub

/-- An operator is tried before the one that it begins with. -/
theorem mem_of_narrow? {op op' : Operator} (h : op.narrow? = some op') {tried rest : List Operator}
    (horder : parseOrder = tried ++ op' :: rest) : op ∈ tried := by
  have hmem : op ∈ tried ++ op' :: rest := by
    rw [← horder]
    cases op <;> decide
  rcases List.mem_append.1 hmem with hmem | hmem
  · exact hmem
  · -- Otherwise the order would list them the other way round.
    have hsub : [op', op].Sublist parseOrder := by
      rw [horder]
      refine List.Sublist.trans ?_ (List.sublist_append_right tried _)
      rcases List.mem_cons.1 hmem with rfl | hmem
      · cases op <;> cases h
      · exact (List.singleton_sublist.2 hmem).cons_cons _
    have hnot : ¬ [op', op].Sublist parseOrder := by
      cases op <;> cases h <;> decide
    exact absurd hsub hnot

/-- What comes first in the order, where only an operator and the one that it begins with may give
    anything. -/
theorem findSome?_parseOrder {β : Type} {f : Operator → Option β} {op : Operator}
    (h : ∀ op', op' ≠ op → op.narrow? ≠ some op' → f op' = none) :
    parseOrder.findSome? f = (f op).or (op.narrow?.bind f) := by
  have hcons : ∀ (g : Operator → Option β) o rest,
      (o :: rest).findSome? g = (g o).or (rest.findSome? g) := fun g o rest => by
    rw [List.findSome?_cons]
    cases g o <;> rfl
  have honly : f = fun op' => if op' = op ∨ op.narrow? = some op' then f op' else none := by
    funext op'
    split
    case isTrue => rfl
    case isFalse hother => exact h op' (fun heq => hother (.inl heq)) fun heq => hother (.inr heq)
  rw [honly]
  cases op <;> simp [parseOrder, narrow?, hcons]

end Operator

/-! ### How a comparison is written -/

/-- The operand that is written as the text `s`. -/
inductive Operand.Spells : Operand → String → Prop
  | reference {s : String} :
      s.toList.head? = some '@' ∨ s.toList.head? = some '$' → Spells (.reference s) s
  | literal {s : String} :
      ¬ (s.toList.head? = some '@' ∨ s.toList.head? = some '$') → Spells (.literal s) s

theorem Operand.spells_ofText (s : String) : (ofText s).Spells s := by
  have hmark : Reference.needsLookup s = true ↔
      s.toList.head? = some '@' ∨ s.toList.head? = some '$' := by
    rw [Reference.needsLookup]
    cases s.toList <;> simp
  rw [ofText]
  split
  case isTrue h => exact .reference (hmark.1 h)
  case isFalse h => exact .literal fun hhead => h (hmark.2 hhead)

/-- A text that an operand may have: there is something, and no blank at its ends. -/
def Operand.Trimmed (s : String) : Prop := s ≠ "" ∧ Text.trim s = s

namespace Operand.Trimmed

theorem of_not_blank {cs : List Char} (h : cs.all Text.isBlank = false) :
    Trimmed (String.ofList (Text.trimChars cs)) := by
  have hnil : Text.trimChars cs ≠ [] := by
    rw [Ne, Text.trimChars_eq_nil, h]
    exact Bool.false_ne_true
  refine ⟨fun hempty => hnil ?_, ?_⟩
  · rw [← String.toList_inj, String.toList_ofList] at hempty
    exact hempty
  · rw [Text.trim, String.toList_ofList, Text.trimChars_trimChars]

variable {s : String} (h : Trimmed s)
include h

theorem all_isBlank_pad {w w' : String} : (w ++ s ++ w').toList.all Text.isBlank = false := by
  have hsome : s.toList.all Text.isBlank = false := by
    rw [← Bool.not_eq_true, ← Text.isBlankText, ← Text.isEmpty_trim, h.2, String.isEmpty_iff]
    exact h.1
  rw [String.toList_append, String.toList_append, List.all_append, List.all_append, hsome,
    Bool.and_false, Bool.false_and]

theorem trimChars_pad {w w' : String} (hw : Text.isBlankText w = true)
    (hw' : Text.isBlankText w' = true) :
    String.ofList (Text.trimChars (w ++ s ++ w').toList) = s := by
  rw [String.toList_append, String.toList_append, Text.trimChars_pad hw hw', ← Text.trim, h.2]

end Operand.Trimmed

/-- An expression is a comparison: an operand, the operator and an operand, with blanks around the
    operands. -/
inductive Comparison.Spells : Comparison → String → Prop
  | intro {op : Operator} {lhs rhs : Operand} {l r w₁ w₂ w₃ w₄ : String} :
      lhs.Spells l → rhs.Spells r → Operand.Trimmed l → Operand.Trimmed r →
      (∀ w ∈ [w₁, w₂, w₃, w₄], Text.isBlankText w = true) →
      -- The operator does not occur again on either side.
      ¬ op.symbol <:+: (w₁ ++ l ++ w₂).toList → ¬ op.symbol <:+: (w₃ ++ r ++ w₄).toList →
      Spells ⟨op, lhs, rhs⟩ (w₁ ++ l ++ w₂ ++ op.text ++ (w₃ ++ r ++ w₄))

namespace Comparison

variable {e before after : List Char} {op : Operator} {c : Comparison}

/-! ### Cutting at one operator -/

/-- The comparison of what stands before and after an operator. -/
def between (op : Operator) (before after : List Char) : Comparison :=
  ⟨op, .ofText (String.ofList (Text.trimChars before)),
    .ofText (String.ofList (Text.trimChars after))⟩

theorem splitAt?_eq_none (h : ¬ op.symbol <:+: e) : splitAt? e op = none := by
  rw [splitAt?, Text.cutAt_eq_none.2 h]

/-- What becomes of an expression in which an operator occurs once. -/
theorem splitAt?_of_cut (hcut : Text.cutAt op.symbol e = some (before, after))
    (hagain : ¬ op.symbol <:+: after) :
    splitAt? e op = if before.all Text.isBlank || after.all Text.isBlank then none
      else some (between op before after) := by
  have hempty : ∀ cs : List Char, (Text.trimChars cs).isEmpty = cs.all Text.isBlank := fun cs => by
    rw [Bool.eq_iff_iff, List.isEmpty_iff, Text.trimChars_eq_nil]
  rw [splitAt?, hcut]
  dsimp only
  rw [Text.cutAt_eq_none.2 hagain, hempty, hempty]
  rfl

/-- An expression that is cut at an operator has the operator once, and something on either side. -/
theorem of_splitAt? (h : splitAt? e op = some c) : ∃ before after,
    Text.cutAt op.symbol e = some (before, after) ∧ ¬ op.symbol <:+: after ∧
      before.all Text.isBlank = false ∧ after.all Text.isBlank = false ∧
        c = between op before after := by
  cases hcut : Text.cutAt op.symbol e with
  | none =>
    rw [splitAt?, hcut] at h
    cases h
  | some parts =>
    obtain ⟨before, after⟩ := parts
    by_cases hagain : op.symbol <:+: after
    · rw [splitAt?, hcut] at h
      dsimp only at h
      rw [Text.isSome_cutAt.2 hagain, if_pos rfl] at h
      cases h
    · rw [splitAt?_of_cut hcut hagain] at h
      split at h
      case isTrue => cases h
      case isFalse hblank =>
        rw [Bool.not_eq_true, Bool.or_eq_false_iff] at hblank
        exact ⟨before, after, rfl, hagain, hblank.1, hblank.2, (Option.some.inj h).symm⟩

/-- A comparison is read by the operator that cuts it, and none that is tried before cuts it. -/
theorem of_parse {e : String} (h : parse e = .ok c) : ∃ tried rest,
    Operator.parseOrder = tried ++ c.op :: rest ∧ splitAt? e.toList c.op = some c ∧
      ∀ op ∈ tried, splitAt? e.toList op = none := by
  rw [parse] at h
  split at h
  case isTrue => cases h
  case isFalse =>
    split at h
    case h_2 => cases h
    case h_1 c' hfound =>
      cases h
      obtain ⟨tried, op, rest, horder, hop, htried⟩ := List.findSome?_eq_some_iff.1 hfound
      obtain ⟨_, _, _, _, _, _, rfl⟩ := of_splitAt? hop
      exact ⟨tried, rest, horder, hop, htried⟩

/-! ### Texts with a single operator -/

/-- Where the first character of an operator does not occur before it nor after it, the text is cut
    there. -/
theorem splitAt?_append {x : Char} {symbol : List Char} (hsymbol : op.symbol = x :: symbol)
    (hbefore : x ∉ before) (hafter : x ∉ after) :
    splitAt? (before ++ op.symbol ++ after) op =
      if before.all Text.isBlank || after.all Text.isBlank then none
      else some (between op before after) := by
  refine splitAt?_of_cut (by rw [hsymbol, Text.cutAt_append hbefore]) fun hinfix => hafter ?_
  rw [hsymbol] at hinfix
  exact hinfix.subset List.mem_cons_self

/-- What stays of an equality sign that only blanks follow. -/
theorem trimChars_sign (h : after.all Text.isBlank = true) :
    Text.trimChars ('=' :: after) = ['='] :=
  Text.trimChars_pad (w := []) rfl h ['=']

theorem all_isBlank_sign (after : List Char) : ('=' :: after).all Text.isBlank = false := by
  rw [List.all_cons]
  rfl

/-- **Single operators.** What becomes of a text with a single operator is told by the blanks around
    it.  With nothing to its right, it is cut by the operator that its own begins with. -/
theorem parse_unmarked {e : String} (he : e.toList = before ++ op.symbol ++ after)
    (hbefore : Operator.Unmarked before) (hafter : Operator.Unmarked after) :
    parse e =
      if before.all Text.isBlank then .error (.noOperator e)
      else if after.all Text.isBlank then
        match op.narrow? with
        | some op' => .ok (between op' before ('=' :: after))
        | none => .error (.noOperator e)
      else .ok (between op before after) := by
  have hblank : Text.isBlankText e = false := by
    rw [Text.isBlankText, he, List.all_append, List.all_append, op.isBlank_symbol, Bool.and_false,
      Bool.false_and]
  -- No other operator occurs in the text, so none splits it.
  have hother : ∀ op', op' ≠ op → op.narrow? ≠ some op' → splitAt? e.toList op' = none :=
    fun op' hne hnarrow => splitAt?_eq_none fun hinfix =>
      (Operator.eq_or_narrow_of_infix hbefore hafter (he ▸ hinfix)).elim hne hnarrow
  have hmark : ∀ {x : Char}, x ∈ op.symbol → x ∉ before ∧ x ∉ after := fun hx =>
    ⟨fun h => hbefore _ h (op.symbol_subset hx), fun h => hafter _ h (op.symbol_subset hx)⟩
  have hop : splitAt? e.toList op =
      if before.all Text.isBlank || after.all Text.isBlank then none
      else some (between op before after) := by
    obtain ⟨x, symbol, hsymbol⟩ := op.exists_symbol_eq_cons
    obtain ⟨hx, hx'⟩ := hmark (hsymbol ▸ List.mem_cons_self)
    rw [he, splitAt?_append hsymbol hx hx']
  -- The operator of one character leaves the other one to its right.
  have hnarrow : ∀ op', op.narrow? = some op' → splitAt? e.toList op' =
      if before.all Text.isBlank then none else some (between op' before ('=' :: after)) := by
    intro op' hop'
    obtain ⟨x, hsymbol', hsymbol, hne⟩ := Operator.symbol_of_narrow? hop'
    obtain ⟨hx, hx'⟩ := hmark (x := x) (by simp [hsymbol])
    rw [he, Operator.append_symbol_of_narrow? hop',
      splitAt?_append hsymbol' hx (by simp [hne, hx'])]
    rw [all_isBlank_sign, Bool.or_false]
  rw [parse, hblank, if_neg Bool.false_ne_true, Operator.findSome?_parseOrder hother, hop]
  cases h : op.narrow? with
  | none =>
    rw [Option.bind_none, Option.or_none]
    cases before.all Text.isBlank <;> cases after.all Text.isBlank <;> rfl
  | some op' =>
    rw [Option.bind_some, hnarrow op' h]
    cases before.all Text.isBlank <;> cases after.all Text.isBlank <;> rfl

/-! ### What is read, and what is written -/

/-- What stands before and after an operator spells the comparison of both. -/
theorem spells_between (hbefore : before.all Text.isBlank = false)
    (hafter : after.all Text.isBlank = false) (hop : ¬ op.symbol <:+: before)
    (hop' : ¬ op.symbol <:+: after) :
    (between op before after).Spells (String.ofList (before ++ op.symbol ++ after)) := by
  obtain ⟨w₁, w₂, hw₁, hw₂, hl⟩ := Text.exists_trimChars before
  obtain ⟨w₃, w₄, hw₃, hw₄, hr⟩ := Text.exists_trimChars after
  have hpart : ∀ {cs w w' : List Char}, cs = w ++ Text.trimChars cs ++ w' →
      String.ofList cs = String.ofList w ++ String.ofList (Text.trimChars cs) ++ String.ofList w' :=
    fun h => by rw [← String.ofList_append, ← String.ofList_append, ← h]
  have hblank : ∀ w ∈ [String.ofList w₁, String.ofList w₂, String.ofList w₃, String.ofList w₄],
      Text.isBlankText w = true := by
    simp only [List.forall_mem_cons, Text.isBlankText, String.toList_ofList]
    exact ⟨hw₁, hw₂, hw₃, hw₄, fun _ h => by cases h⟩
  rw [String.ofList_append, String.ofList_append, hpart hl, hpart hr]
  refine .intro (Operand.spells_ofText _) (Operand.spells_ofText _) (.of_not_blank hbefore)
    (.of_not_blank hafter) hblank ?_ ?_
  · rwa [← hpart hl, String.toList_ofList]
  · rwa [← hpart hr, String.toList_ofList]

/-- **Reading.** What is read is written as a comparison. -/
theorem spells_of_parse {e : String} (h : parse e = .ok c) : c.Spells e := by
  obtain ⟨_, _, _, hop, _⟩ := of_parse h
  obtain ⟨before, after, hcut, hagain, hbefore, hafter, hc⟩ := of_splitAt? hop
  have hspells := spells_between hbefore hafter
    (Text.not_infix_of_cutAt c.op.symbol_ne_nil hcut) hagain
  rwa [← Text.cutAt_eq_some hcut, String.ofList_toList, ← hc] at hspells

theorem parse_eq_empty {e : String} : parse e = .error .empty ↔ Text.isBlankText e = true := by
  rw [parse]
  split
  case isTrue h => simp [h]
  case isFalse h => split <;> simp [h]

/-- **Writing.** What is written with a single operator is read as it is written. -/
theorem parse_written {l r w₁ w₂ w₃ w₄ : String} (hl : Operand.Trimmed l) (hr : Operand.Trimmed r)
    (hlmarks : Operator.Unmarked l.toList) (hrmarks : Operator.Unmarked r.toList)
    (hw : ∀ w ∈ [w₁, w₂, w₃, w₄], Text.isBlankText w = true) :
    parse (w₁ ++ l ++ w₂ ++ op.text ++ (w₃ ++ r ++ w₄)) = .ok ⟨op, .ofText l, .ofText r⟩ := by
  simp only [List.forall_mem_cons] at hw
  obtain ⟨hw₁, hw₂, hw₃, hw₄, -⟩ := hw
  -- Blanks around an operand bring no marks.
  have hpad : ∀ {s w w' : String}, Operator.Unmarked s.toList → Text.isBlankText w = true →
      Text.isBlankText w' = true → Operator.Unmarked (w ++ s ++ w').toList := by
    intro s w w' hs hblank hblank'
    rw [String.toList_append, String.toList_append]
    exact ((Operator.Unmarked.of_blank hblank).append hs).append (.of_blank hblank')
  have htext : (w₁ ++ l ++ w₂ ++ op.text ++ (w₃ ++ r ++ w₄)).toList =
      (w₁ ++ l ++ w₂).toList ++ op.symbol ++ (w₃ ++ r ++ w₄).toList := by
    rw [String.toList_append, String.toList_append, op.text_toList]
  rw [parse_unmarked htext (hpad hlmarks hw₁ hw₂) (hpad hrmarks hw₃ hw₄), hl.all_isBlank_pad,
    hr.all_isBlank_pad, if_neg Bool.false_ne_true, if_neg Bool.false_ne_true, between,
    hl.trimChars_pad hw₁ hw₂, hr.trimChars_pad hw₃ hw₄]

/-- A reader of comparisons is faithful to how they are written. -/
structure Faithful (read : String → Except ParseError Comparison) : Prop where
  /-- What is read is spelled as the comparison that comes out. -/
  spells : ∀ e c, read e = .ok c → c.Spells e
  /-- There is nothing to read in a blank text, and only there. -/
  empty : ∀ e, read e = .error .empty ↔ Text.isBlankText e = true
  /-- A comparison with a single operator comes out with its operator and its operands, whatever
      blanks stand around these. -/
  reads : ∀ (op : Operator) (l r w₁ w₂ w₃ w₄ : String), Operand.Trimmed l → Operand.Trimmed r →
    Operator.Unmarked l.toList → Operator.Unmarked r.toList →
      (∀ w ∈ [w₁, w₂, w₃, w₄], Text.isBlankText w = true) →
        ∃ lhs rhs, read (w₁ ++ l ++ w₂ ++ op.text ++ (w₃ ++ r ++ w₄)) = .ok ⟨op, lhs, rhs⟩ ∧
          lhs.Spells l ∧ rhs.Spells r

/-- **Comparisons.** Expressions are read as they are written. -/
theorem faithful_parse : Faithful parse where
  spells _ _ := spells_of_parse
  empty _ := parse_eq_empty
  reads _ l r _ _ _ _ hl hr hlmarks hrmarks hw :=
    ⟨.ofText l, .ofText r, parse_written hl hr hlmarks hrmarks hw, Operand.spells_ofText l,
      Operand.spells_ofText r⟩

example : parse " $count\t>=  10 " = .ok ⟨.ge, .reference "$count", .literal "10"⟩ := by
  decide +kernel

/-! ### Cuts in the middle of an operator -/

/-- An expression breaks off after an operator of two characters, and nothing splits it before it
    comes to the operator that this one begins with. -/
inductive BreaksOff : List Char → Prop
  | intro {op op' : Operator} {before after : List Char} {tried rest : List Operator} :
      op.narrow? = some op' → Operator.parseOrder = tried ++ op' :: rest →
      before.all Text.isBlank = false → after.all Text.isBlank = true →
      (∀ x ∈ op'.symbol, x ∉ before) →
      (∀ o ∈ tried, splitAt? (before ++ op.symbol ++ after) o = none) →
      BreaksOff (before ++ op.symbol ++ after)

/-- **Cuts.** An operator of two characters that the reader cuts after the first one has nothing but
    blanks to its right. -/
theorem breaksOff_of_parse {e : String} (h : parse e = .ok c) (hnarrow : op.narrow? = some c.op)
    (he : e.toList = before ++ op.symbol ++ after) : BreaksOff e.toList := by
  obtain ⟨x, hsymbol', hsymbol, hne⟩ := Operator.symbol_of_narrow? hnarrow
  obtain ⟨tried, _, horder, hc, htried⟩ := of_parse h
  obtain ⟨b, a, hcut, hagain, hb, _, -⟩ := of_splitAt? hc
  -- The text has the character at which it is cut only once.
  have hcount : e.toList.count x = 1 := by
    have hfirst := Text.not_infix_of_cutAt c.op.symbol_ne_nil hcut
    rw [hsymbol', List.singleton_infix_iff, ← List.count_eq_zero] at hfirst hagain
    rw [Text.cutAt_eq_some hcut, hsymbol', List.count_append, List.count_append, hfirst, hagain,
      List.count_singleton_self]
  have honce : x ∉ before ∧ x ∉ after := by
    rw [he, hsymbol] at hcount
    simp only [List.count_append, List.count_cons_self] at hcount
    rw [← List.count_eq_zero, ← List.count_eq_zero]
    omega
  have hbefore : before.all Text.isBlank = false := by
    rw [he, Operator.append_symbol_of_narrow? hnarrow, hsymbol', Text.cutAt_append honce.1] at hcut
    rwa [(Prod.mk.inj (Option.some.inj hcut)).1]
  -- So the operator itself failed for want of a right operand.
  have hafter : after.all Text.isBlank = true := by
    have hwider := htried op (Operator.mem_of_narrow? hnarrow horder)
    rw [he, splitAt?_append hsymbol honce.1 honce.2, hbefore, Bool.false_or] at hwider
    by_contra hsome
    rw [if_neg hsome] at hwider
    cases hwider
  rw [he] at htried ⊢
  refine .intro hnarrow horder hbefore hafter (fun y hy => ?_) htried
  rw [hsymbol', List.mem_singleton] at hy
  rw [hy]
  exact honce.1

/-- Where an expression breaks off, the equality sign is read as the right operand. -/
theorem parse_of_breaksOff {e : String} (h : BreaksOff e.toList) : ∃ c before after,
    parse e = .ok c ∧ (c.op = .gt ∨ c.op = .lt) ∧ c.rhs = .literal "=" ∧
      e.toList = before ++ c.op.symbol ++ '=' :: after := by
  generalize he : e.toList = cs at h
  cases h with
  | @intro op op' before after tried rest hnarrow horder hbefore hafter hnot htried =>
    have hblank : Text.isBlankText e = false := by
      rw [Text.isBlankText, he, List.all_append, List.all_append, hbefore, Bool.false_and,
        Bool.false_and]
    have hsplit : splitAt? e.toList op' = some (between op' before ('=' :: after)) := by
      obtain ⟨x, hsymbol, -, hne⟩ := Operator.symbol_of_narrow? hnarrow
      have hx : x ∈ op'.symbol := by simp [hsymbol]
      have hx' : x ∉ after := fun hmem =>
        Operator.Unmarked.of_blank hafter x hmem (op'.symbol_subset hx)
      rw [he, Operator.append_symbol_of_narrow? hnarrow,
        splitAt?_append hsymbol (hnot x hx) (by simp [hne, hx']), hbefore, all_isBlank_sign]
      rfl
    -- Nothing that is tried before splits the text.
    have hfound : Operator.parseOrder.findSome? (splitAt? e.toList) =
        some (between op' before ('=' :: after)) :=
      List.findSome?_eq_some_iff.2 ⟨tried, op', rest, horder, hsplit, he ▸ htried⟩
    refine ⟨_, before, after, by rw [parse, hblank, if_neg Bool.false_ne_true, hfound],
      Operator.exists_narrow?.2 ⟨op, hnarrow⟩, ?_, Operator.append_symbol_of_narrow? hnarrow _ _⟩
    rw [between, trimChars_sign hafter]
    rfl

/-- With nothing to the left of its operator, an expression is rejected. -/
theorem parse_unbegun {l w : String} (hl : Operator.Unmarked l.toList)
    (hw : Text.isBlankText w = true) :
    parse (w ++ op.text ++ l) = .error (.noOperator (w ++ op.text ++ l)) := by
  have htext : (w ++ op.text ++ l).toList = w.toList ++ op.symbol ++ l.toList := by
    rw [String.toList_append, String.toList_append, op.text_toList]
  rw [parse_unmarked htext (.of_blank hw) hl, ← Text.isBlankText, hw, if_pos rfl]

/-- With nothing to the right of its operator, an expression is rejected, unless another operator is
    the beginning of it: that one takes the equality sign for its right operand. -/
theorem parse_unended {l w : String} (hl : Operator.Unmarked l.toList)
    (hw : Text.isBlankText w = true) :
    parse (l ++ op.text ++ w) =
      if Text.isBlankText l then .error (.noOperator (l ++ op.text ++ w))
      else
        match op.narrow? with
        | some op' => .ok ⟨op', .ofText (Text.trim l), .literal "="⟩
        | none => .error (.noOperator (l ++ op.text ++ w)) := by
  have htext : (l ++ op.text ++ w).toList = l.toList ++ op.symbol ++ w.toList := by
    rw [String.toList_append, String.toList_append, op.text_toList]
  rw [parse_unmarked htext hl (.of_blank hw), ← Text.isBlankText, ← Text.isBlankText, hw,
    if_pos rfl]
  cases op.narrow? with
  | none => rfl
  | some op' =>
    dsimp only
    rw [between, trimChars_sign hw]
    rfl

/-- The reader keeps the operators of an expression whole. -/
structure KeepsWhole (e : String) : Prop where
  /-- An expression is not split at `>` or `<` where an equality sign follows. -/
  cut : ∀ c before after, parse e = .ok c → c.op = .gt ∨ c.op = .lt →
    e.toList ≠ before ++ c.op.symbol ++ '=' :: after
  /-- With nothing to the left of its operator it is rejected, -/
  unbegun : ∀ (op : Operator) (l w : String), Operator.Unmarked l.toList →
    Text.isBlankText w = true → e = w ++ op.text ++ l → ∃ err, parse e = .error err
  /-- and with nothing to the right of it as well. -/
  unended : ∀ (op : Operator) (l w : String), Operator.Unmarked l.toList →
    Text.isBlankText w = true → e = l ++ op.text ++ w → ∃ err, parse e = .error err

/-- **Operators.** The operators of an expression are kept whole, unless it breaks off after one of
    two characters. -/
theorem keepsWhole_iff (e : String) : KeepsWhole e ↔ ¬ BreaksOff e.toList := by
  constructor
  · intro h hbreaks
    obtain ⟨c, before, after, hc, hop, -, he⟩ := parse_of_breaksOff hbreaks
    exact h.cut c before after hc hop he
  · intro h
    have hcut : ∀ c before after, parse e = .ok c → c.op = .gt ∨ c.op = .lt →
        e.toList ≠ before ++ c.op.symbol ++ '=' :: after := by
      intro c before after hc hop he
      obtain ⟨op, hnarrow⟩ := Operator.exists_narrow?.1 hop
      rw [← Operator.append_symbol_of_narrow? hnarrow] at he
      exact h (breaksOff_of_parse hc hnarrow he)
    refine ⟨hcut, fun op l w hl hw he => ⟨_, he ▸ parse_unbegun hl hw⟩, fun op l w hl hw he => ?_⟩
    by_cases hblank : Text.isBlankText l = true
    · exact ⟨_, by rw [he, parse_unended hl hw, if_pos hblank]⟩
    · cases hnarrow : op.narrow? with
      | none => exact ⟨_, by rw [he, parse_unended hl hw, if_neg hblank, hnarrow]⟩
      | some op' =>
        -- It would be read with the equality sign for its right operand.
        have hread : parse e = .ok ⟨op', .ofText (Text.trim l), .literal "="⟩ := by
          rw [he, parse_unended hl hw, if_neg hblank, hnarrow]
        refine absurd ?_ (hcut _ l.toList w.toList hread (Operator.exists_narrow?.2 ⟨op, hnarrow⟩))
        rw [he, String.toList_append, String.toList_append, op.text_toList,
          Operator.append_symbol_of_narrow? hnarrow]

/-- An expression that breaks off after `>=` is read as one with the operator `>`. -/
theorem parse_ge_nothing : ¬ KeepsWhole "x >=" ∧
    parse "x >=" = .ok ⟨.gt, .literal "x", .literal "="⟩ := by
  have hread : parse "x >=" = .ok ⟨.gt, .literal "x", .literal "="⟩ := by decide +kernel
  exact ⟨fun h => h.cut _ ['x', ' '] [] hread (.inl rfl) (by decide), hread⟩

end Comparison

end Runbook
