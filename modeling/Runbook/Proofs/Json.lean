import Runbook.Json.Printer
import Runbook.Json.Reader
import Runbook.Proofs.Text
import Mathlib.Data.List.TakeWhile
import Mathlib.Tactic.FinCases

namespace Runbook.Json

/-!
# JSON texts — what is laid out in tokens is read back

A text is read in two steps: it is split into tokens, and the tokens build a value.  Between tokens
there may be spaces, so the texts of a value are all the layouts of its tokens; the printer writes
the one without spaces.

* `Token.Spelled` — the characters are a token, whatever comes after it;
* `Token.spelled_digits` — an integer of 64 bits is spelled by its digits;
* `Token.Laid`, `Token.scan_of_laid` — a layout is split into its tokens;
* `Json.tokens`, `Progress.foldlM_tokens` — the tokens of a value build it;
* `Json.parse_of_laid` — every layout of a value is read as this value;
* `Json.parse_compact` — and so is what the printer writes.
-/

/-! ### Numerals -/

section Numerals

/-- What comes next is no part of a numeral. -/
def EndsNumeral (rest : List Char) : Prop :=
  ∀ c ∈ rest.head?, c.isDigit = false ∧ c ≠ '.' ∧ c ≠ 'e' ∧ c ≠ 'E'

theorem endsNumeral_nil : EndsNumeral [] := fun _ h => by cases h

theorem endsNumeral_cons {c : Char} {rest : List Char}
    (h : c.isDigit = false ∧ c ≠ '.' ∧ c ≠ 'e' ∧ c ≠ 'E') : EndsNumeral (c :: rest) := by
  intro c' hc'
  rw [List.head?_cons, Option.mem_some_iff] at hc'
  exact hc' ▸ h

/-- Digits are taken while the number they make up fits 64 bits. -/
theorem Scaled.take_digits {n : Nat} {cs : List Char}
    (h : cs.foldl (fun n c => n * 10 + Text.digitValue c) n ≤ Text.uint64Max) :
    Scaled.take 0 1 ⟨n, 0⟩ cs =
      ⟨cs.foldl (fun n c => n * 10 + Text.digitValue c) n, 0⟩ := by
  induction cs generalizing n with
  | nil => rfl
  | cons c cs ih =>
    have hgrows : ∀ (cs : List Char) (n : Nat),
        n ≤ cs.foldl (fun n c => n * 10 + Text.digitValue c) n := by
      intro cs
      induction cs with
      | nil => exact fun n => le_rfl
      | cons c cs ih =>
        intro n
        refine le_trans ?_ (ih (n * 10 + Text.digitValue c))
        omega
    rw [List.foldl_cons] at h ⊢
    rw [Scaled.take, if_pos (le_trans (hgrows cs _) h)]
    exact ih h

/-- Only zero starts with the digit zero. -/
theorem head?_toDigits {n : Nat} (h : n ≠ 0) : (Nat.toDigits 10 n).head? ≠ some '0' := by
  induction n using Nat.strongRecOn with
  | _ n ih =>
    rw [Nat.toDigits_eq_if (by decide)]
    split
    case isTrue hlt =>
      have hsmall : ∀ n < 10, n ≠ 0 → [Nat.digitChar n].head? ≠ some '0' := by decide
      exact hsmall n hlt h
    case isFalse hge =>
      rw [List.head?_append, Option.or_of_isSome (by simp [Nat.toDigits_ne_nil])]
      exact ih (n / 10) (by omega) (by omega)

theorem Scaled.take_toDigits {n : Nat} (h : n ≤ Text.uint64Max) :
    take 0 1 ⟨0, 0⟩ (Nat.toDigits 10 n) = ⟨n, 0⟩ := by
  have hvalue : (Nat.toDigits 10 n).foldl (fun n c => n * 10 + Text.digitValue c) 0 = n := by
    have hread := Nat.ofDigitChars_ten_toDigits (n := n)
    rw [Nat.ofDigitChars_eq_foldl] at hread
    simpa only [Text.digitValue, Nat.mul_comm] using hread
  rw [take_digits (by rw [hvalue]; exact h), hvalue]

theorem spanDigits_append {digits rest : List Char} (h : ∀ c ∈ digits, c.isDigit = true)
    (hrest : EndsNumeral rest) : spanDigits (digits ++ rest) = (digits, rest) := by
  have hnone : rest.takeWhile Char.isDigit = [] ∧ rest.dropWhile Char.isDigit = rest := by
    cases rest with
    | nil => exact ⟨rfl, rfl⟩
    | cons c rest =>
      have hc : ¬ c.isDigit = true := by simp [(hrest c rfl).1]
      exact ⟨List.takeWhile_cons_of_neg hc, List.dropWhile_cons_of_neg hc⟩
  rw [spanDigits, List.takeWhile_append_of_pos h, List.dropWhile_append_of_pos h, hnone.1, hnone.2,
    List.append_nil]

theorem scanFraction_of_endsNumeral {rest : List Char} (h : EndsNumeral rest) :
    scanFraction rest = some (none, rest) := by
  rw [scanFraction.eq_2]
  rintro rest' rfl
  exact (h '.' rfl).2.1 rfl

theorem scanExponent_of_endsNumeral {rest : List Char} (h : EndsNumeral rest) :
    scanExponent rest = some (none, rest) := by
  cases rest with
  | nil => rfl
  | cons c rest =>
    obtain ⟨-, -, he, hE⟩ := h c rfl
    rw [scanExponent.eq_def]
    exact if_neg (not_or.2 ⟨he, hE⟩)

/-- The digits of a number are taken as they stand. -/
theorem scanNumeral_toDigits (negative : Bool) (n : Nat) {rest : List Char}
    (h : EndsNumeral rest) :
    scanNumeral negative (Nat.toDigits 10 n ++ rest) =
      some (⟨negative, Nat.toDigits 10 n, none, none⟩, rest) := by
  have hdigits : ∀ c ∈ Nat.toDigits 10 n, c.isDigit = true := fun c hc =>
    Nat.isDigit_of_mem_toDigits (by decide) (by decide) hc
  -- Zero has one digit, and other numbers do not start with zero.
  have hlead : (decide (1 < (Nat.toDigits 10 n).length) &&
      (Nat.toDigits 10 n).head? == some '0') = false := by
    by_cases hn : n = 0
    · subst hn
      rfl
    · simp [head?_toDigits hn]
  rw [scanNumeral, spanDigits_append hdigits h]
  simp only [List.isEmpty_eq_false_iff.2 Nat.toDigits_ne_nil, hlead, Bool.or_false,
    Bool.false_eq_true, if_false, scanFraction_of_endsNumeral h, scanExponent_of_endsNumeral h,
    Option.bind_eq_bind, Option.bind_some]

/-- The digits of a number of 64 bits denote this number. -/
theorem Number.ofNumeral_natural {n : Nat} (h : n ≤ Text.uint64Max) :
    ofNumeral ⟨false, Nat.toDigits 10 n, none, none⟩ = some (.integer n) := by
  simp [ofNumeral, Scaled.take_toDigits h]

/-- With a sign before them they denote a negative number. -/
theorem Number.ofNumeral_negative {n : Nat} (hpos : 0 < n) (h : Text.int64Min ≤ -(n : Int)) :
    ofNumeral ⟨true, Nat.toDigits 10 n, none, none⟩ = some (.integer (-(n : Int))) := by
  have hle : n ≤ Text.uint64Max := by
    have hmin : Text.int64Min = -9223372036854775808 := rfl
    have hmax : Text.uint64Max = 18446744073709551615 := rfl
    omega
  simp [ofNumeral, Scaled.take_toDigits hle, h, hpos]

end Numerals

/-! ### Strings -/

section Strings

/-- How the printer writes a character, as the reader finds it. -/
def pieceOf (c : Char) : Piece :=
  if c ∈ ['\x08', '\x0c', '\n', '\r', '\t'] then .char c
  else if c.toNat < 0x20 then .unit c.toNat
  else .char c

theorem hexValue?_hexDigit : ∀ n < 16, hexValue? (hexDigit n) = some n := by
  decide

/-- A character is found as it was written. -/
theorem scanString_escape (pieces : List Piece) (c : Char) (rest : List Char) :
    scanString pieces (escape c ++ rest) = scanString (pieceOf c :: pieces) rest := by
  rw [escape.eq_def]
  split
  case h_8 hquote hslash hb hf hn hr ht =>
    have hletter : c ∉ ['\x08', '\x0c', '\n', '\r', '\t'] := by simp_all
    rw [pieceOf, if_neg hletter]
    split
    case isTrue hlt =>
      have hhigh := hexValue?_hexDigit (c.toNat / 16) (by omega)
      have hlow := hexValue?_hexDigit (c.toNat % 16) (by omega)
      have hzero : hexValue? '0' = some 0 := rfl
      have hvalue : ((0 * 16 + 0) * 16 + c.toNat / 16) * 16 + c.toNat % 16 = c.toNat := by omega
      simp only [List.cons_append, List.nil_append, scanString, hzero, hhigh, hlow, hvalue]
    case isFalse hge =>
      rw [List.singleton_append, scanString.eq_def]
      split <;> simp_all
  all_goals rfl

theorem scanString_escapes (pieces : List Piece) (cs rest : List Char) :
    scanString pieces (cs.flatMap escape ++ '"' :: rest) =
      some (pieces.reverse ++ cs.map pieceOf, rest) := by
  induction cs generalizing pieces with
  | nil =>
    rw [List.map_nil, List.append_nil]
    rfl
  | cons c cs ih =>
    rw [List.flatMap_cons, List.append_assoc, scanString_escape, ih, List.reverse_cons,
      List.append_assoc, List.singleton_append, List.map_cons]

/-- The pieces spell the characters that were written. -/
theorem decodeString_pieceOf (cs : List Char) : decodeString (cs.map pieceOf) = some cs := by
  induction cs with
  | nil => rfl
  | cons c cs ih =>
    rw [List.map_cons, pieceOf]
    split
    · rw [decodeString, ih, Option.map_some]
    split
    case isTrue hlt =>
      -- A control character is no surrogate.
      have hhigh : isHighSurrogate c.toNat = false := by
        simp only [isHighSurrogate, Bool.and_eq_false_iff, decide_eq_false_iff_not]
        omega
      have hlow : isLowSurrogate c.toNat = false := by
        simp only [isLowSurrogate, Bool.and_eq_false_iff, decide_eq_false_iff_not]
        omega
      rw [decodeString.eq_def]
      simp [hhigh, hlow, ih, Char.ofNat_toNat]
    case isFalse hge => rw [decodeString, ih, Option.map_some]

end Strings

namespace Token

/-! ### Tokens -/

/-- The characters `cs` are a token where `rest` comes after them. -/
def Spelled (rest cs : List Char) (t : Token) : Prop :=
  ∃ c cs', cs = c :: cs' ∧ isSpace c = false ∧ scanOne c (cs' ++ rest) = some (t, rest)

theorem scanOne_digit {c : Char} (h : c.isDigit = true) (rest : List Char) :
    scanOne c rest = (scanNumeral false (c :: rest)).map numberOf := by
  rw [scanOne.eq_def]
  split
  case h_9 => rw [if_pos h]
  all_goals exact absurd h (by decide)

theorem isSpace_of_isDigit {c : Char} (h : c.isDigit = true) : isSpace c = false := by
  have hne : ∀ c' : Char, c'.isDigit = false → c ≠ c' := by
    rintro c' hc' rfl
    rw [h] at hc'
    cases hc'
  simp [isSpace, hne ' ' rfl, hne '\t' rfl, hne '\n' rfl, hne '\r' rfl]

/-- **Integers.** An integer of 64 bits, signed or unsigned, is spelled by its digits. -/
theorem spelled_digits {n : Int} (hmin : Text.int64Min ≤ n) (hmax : n ≤ Text.uint64Max)
    {rest : List Char} (hrest : EndsNumeral rest) :
    Spelled rest (toString n).toList (number (some (.integer n))) := by
  cases n with
  | ofNat n =>
    obtain ⟨c, cs, hcs⟩ := List.exists_cons_of_ne_nil (Nat.toDigits_ne_nil (n := n) (b := 10))
    have hdigit : c.isDigit = true :=
      Nat.isDigit_of_mem_toDigits (n := n) (by decide) (by decide) (hcs ▸ List.mem_cons_self)
    refine ⟨c, cs, (Text.toList_natural n).trans hcs, isSpace_of_isDigit hdigit, ?_⟩
    rw [scanOne_digit hdigit, ← List.cons_append, ← hcs, scanNumeral_toDigits false n hrest]
    simp [numberOf, Number.ofNumeral_natural (Int.ofNat_le.1 hmax)]
  | negSucc n =>
    refine ⟨'-', _, Text.toList_negative n, rfl, ?_⟩
    show (scanNumeral true (Nat.toDigits 10 (n + 1) ++ rest)).map numberOf = _
    rw [scanNumeral_toDigits true (n + 1) hrest]
    simp only [Option.map_some, numberOf,
      Number.ofNumeral_negative (Nat.succ_pos n) (Int.negSucc_eq n ▸ hmin)]
    rfl

/-- A text is spelled by its quotation. -/
theorem spelled_quote (s : String) (rest : List Char) :
    Spelled rest (quote s).toList (string (some s)) := by
  have htext : (quote s).toList = '"' :: (s.toList.flatMap escape ++ ['"']) := by
    simp [quote]
  refine ⟨'"', _, htext, rfl, ?_⟩
  show (scanString [] ((s.toList.flatMap escape ++ ['"']) ++ rest)).map _ = _
  rw [List.append_assoc, List.singleton_append, scanString_escapes]
  simp [decodeString_pieceOf]

theorem spelled_bool (b : Bool) (rest : List Char) :
    Spelled rest (if b then "true" else "false").toList (bool b) := by
  cases b
  · exact ⟨'f', ['a', 'l', 's', 'e'], rfl, rfl, rfl⟩
  · exact ⟨'t', ['r', 'u', 'e'], rfl, rfl, rfl⟩

theorem spelled_null (rest : List Char) : Spelled rest "null".toList null :=
  ⟨'n', ['u', 'l', 'l'], rfl, rfl, rfl⟩

/-- The tokens of one character. -/
def marks : List (Char × Token) :=
  [('[', openArray), (']', closeArray), ('\x7b', openObject), ('\x7d', closeObject),
    (',', comma), (':', colon)]

theorem spelled_mark {m : Char × Token} (h : m ∈ marks) (rest : List Char) :
    Spelled rest [m.1] m.2 := by
  fin_cases h <;> exact ⟨_, [], rfl, rfl, rfl⟩

/-- A layout of tokens, with spaces before some of them and at the end. -/
inductive Laid : List Char → List Token → Prop
  | nil {w : List Char} : w.all isSpace = true → Laid w []
  | cons {w cs rest : List Char} {t : Token} {ts : List Token} : w.all isSpace = true →
      Spelled rest cs t → Laid rest ts → Laid (w ++ (cs ++ rest)) (t :: ts)

theorem scanAll_of_laid {cs : List Char} {ts : List Token} (h : Laid cs ts) :
    ∀ fuel, cs.length < fuel → scanAll fuel cs = some ts := by
  induction h with
  | @nil w hw =>
    intro fuel hfuel
    obtain ⟨fuel, rfl⟩ := Nat.exists_eq_add_one_of_ne_zero (Nat.ne_zero_of_lt hfuel)
    rw [scanAll, List.dropWhile_eq_nil_iff.2 (List.all_eq_true.1 hw)]
  | @cons w cs rest t ts hw hspelled _ ih =>
    intro fuel hfuel
    obtain ⟨fuel, rfl⟩ := Nat.exists_eq_add_one_of_ne_zero (Nat.ne_zero_of_lt hfuel)
    obtain ⟨c, cs, rfl, hspace, hscan⟩ := hspelled
    have hshorter : rest.length < fuel := by
      simp only [List.length_append, List.length_cons] at hfuel
      omega
    have hdrop : (w ++ (c :: cs ++ rest)).dropWhile isSpace = c :: (cs ++ rest) := by
      rw [List.dropWhile_append_of_pos (List.all_eq_true.1 hw), List.cons_append]
      exact List.dropWhile_cons_of_neg (by simp [hspace])
    rw [scanAll, hdrop]
    simp only [hscan, ih fuel hshorter, Option.bind_eq_bind, Option.bind_some]

/-- **Tokens.** A layout is split into its tokens. -/
theorem scan_of_laid {cs : List Char} {ts : List Token} (h : Laid cs ts) : scan cs = some ts :=
  scanAll_of_laid h _ (Nat.lt_succ_self _)

end Token

/-! ### Values -/

mutual

/-- The values that the reader finds again inside `depth` arrays and objects: nothing in them is
    unreadable or a double, and they are not nested too deeply. -/
def Faithful (depth : Nat) : Json → Prop
  | null | bool _ | string _ => True
  | number (.integer n) => Text.int64Min ≤ n ∧ n ≤ Text.uint64Max
  | number (.real _) => False
  | array items => depth < maxDepth ∧ FaithfulItems (depth + 1) items
  | object members => depth < maxDepth ∧ FaithfulMembers (depth + 1) members
  | unreadable => False

def FaithfulItems (depth : Nat) : List Json → Prop
  | [] => True
  | j :: rest => j.Faithful depth ∧ FaithfulItems depth rest

def FaithfulMembers (depth : Nat) : List (String × Json) → Prop
  | [] => True
  | (_, j) :: rest => j.Faithful depth ∧ FaithfulMembers depth rest

end

mutual

/-- The tokens of a value. -/
def tokens : Json → List Token
  | null | unreadable => [.null]
  | bool b => [.bool b]
  | number n => [.number (some n)]
  | string s => [.string (some s)]
  | array items => .openArray :: (itemTokens items ++ [.closeArray])
  | object members => .openObject :: (memberTokens members ++ [.closeObject])

def itemTokens : List Json → List Token
  | [] => []
  | [j] => j.tokens
  | j :: rest => j.tokens ++ .comma :: itemTokens rest

def memberTokens : List (String × Json) → List Token
  | [] => []
  | [(name, j)] => .string (some name) :: .colon :: j.tokens
  | (name, j) :: rest =>
    .string (some name) :: .colon :: (j.tokens ++ .comma :: memberTokens rest)

end

/-- Arrays and objects that are not nested too deeply are closed with all their parts. -/
theorem Open.close_array {depth : Nat} (h : depth < maxDepth) (items : List Json) :
    (array items.reverse).close depth = .array items := by
  rw [Open.close.eq_def, if_neg (Nat.not_le.2 h)]
  exact congrArg Json.array items.reverse_reverse

theorem Open.close_object {depth : Nat} (h : depth < maxDepth) (members : List (String × Json)) :
    (object members.reverse true none).close depth = .object members := by
  rw [Open.close.eq_def, if_neg (Nat.not_le.2 h)]
  exact congrArg Json.object members.reverse_reverse

namespace Progress

/-- Where a value may begin. -/
def AtValue (p : Progress) : Prop := p.expected = .value ∨ p.expected = .valueOrClose

/-- Where a name may stand. -/
def AtName (p : Progress) : Prop := p.expected = .name ∨ p.expected = .nameOrClose

theorem take?_of_atValue {p : Progress} (h : p.AtValue) {t : Token}
    (ht : ∀ (_ : t = .closeArray), False) : p.take? t = p.begin? t := by
  obtain ⟨done, stack, expected⟩ := p
  obtain rfl | rfl := h
  · rfl
  · rw [take?.eq_3 _ _ rfl ht]

theorem take?_of_atName {p : Progress} (h : p.AtName) (s : String) :
    p.take? (.string (some s)) = p.name? (.string (some s)) := by
  obtain ⟨done, stack, expected⟩ := p
  obtain rfl | rfl := h <;> rfl

theorem closeTop?_cons (p : Progress) (done : Option Json) (o : Open) (expected : Expectation) :
    closeTop? ⟨done, o :: p.stack, expected⟩ = some (p.complete (o.close p.stack.length)) :=
  rfl

mutual

/-- **Values.** Where a value may begin, the tokens of one complete it. -/
theorem foldlM_tokens : ∀ (j : Json) (p : Progress), p.AtValue → j.Faithful p.stack.length →
    j.tokens.foldlM take? p = some (p.complete j)
  | .null, p, hp, _ => by
    rw [tokens, List.foldlM_cons, take?_of_atValue hp (by simp)]
    rfl
  | .bool b, p, hp, _ => by
    rw [tokens, List.foldlM_cons, take?_of_atValue hp (by simp)]
    rfl
  | .string s, p, hp, _ => by
    rw [tokens, List.foldlM_cons, take?_of_atValue hp (by simp)]
    rfl
  | .number n, p, hp, _ => by
    rw [tokens, List.foldlM_cons, take?_of_atValue hp (by simp)]
    rfl
  -- An open bracket may be closed at once; a comma must be followed by a value.
  | .array [], p, hp, h => by
    rw [tokens, itemTokens, List.nil_append, List.foldlM_cons, take?_of_atValue hp (by simp)]
    show closeTop? ⟨none, .array [].reverse :: p.stack, .valueOrClose⟩ >>= _ = _
    rw [closeTop?_cons, Open.close_array h.1]
    rfl
  | .array (j :: rest), p, hp, h => by
    rw [tokens, List.foldlM_cons, take?_of_atValue hp (by simp), begin?, Option.bind_eq_bind,
      Option.bind_some, List.foldlM_append,
      foldlM_itemTokens (j :: rest) [] p.stack .valueOrClose (by simp) (.inr rfl) h.2,
      Option.bind_eq_bind, Option.bind_some, List.append_nil]
    -- The items are all there, in reverse.
    show closeTop? ⟨none, .array (j :: rest).reverse :: p.stack, .commaOrClose⟩ >>= _ = _
    rw [closeTop?_cons, Open.close_array h.1]
    rfl
  | .object [], p, hp, h => by
    rw [tokens, memberTokens, List.nil_append, List.foldlM_cons, take?_of_atValue hp (by simp)]
    show closeTop? ⟨none, .object [].reverse true none :: p.stack, .nameOrClose⟩ >>= _ = _
    rw [closeTop?_cons, Open.close_object h.1]
    rfl
  | .object (m :: rest), p, hp, h => by
    rw [tokens, List.foldlM_cons, take?_of_atValue hp (by simp), begin?, Option.bind_eq_bind,
      Option.bind_some, List.foldlM_append,
      foldlM_memberTokens (m :: rest) [] p.stack .nameOrClose (by simp) (.inr rfl) h.2,
      Option.bind_eq_bind, Option.bind_some, List.append_nil]
    show closeTop? ⟨none, .object (m :: rest).reverse true none :: p.stack, .commaOrClose⟩ >>= _ = _
    rw [closeTop?_cons, Open.close_object h.1]
    rfl

/-- The items of an open array are added to it. -/
theorem foldlM_itemTokens : ∀ (items before : List Json) (outer : List Open)
    (expected : Expectation), items ≠ [] →
    AtValue ⟨none, .array before :: outer, expected⟩ → FaithfulItems (outer.length + 1) items →
    (itemTokens items).foldlM take? ⟨none, .array before :: outer, expected⟩ =
      some ⟨none, .array (items.reverse ++ before) :: outer, .commaOrClose⟩
  | [j], before, outer, expected, _, hp, h => by
    rw [itemTokens, foldlM_tokens j _ hp h.1]
    rfl
  | j :: j' :: rest, before, outer, expected, _, hp, h => by
    rw [itemTokens.eq_3 _ _ (by simp), List.foldlM_append, foldlM_tokens j _ hp h.1,
      Option.bind_eq_bind, Option.bind_some, List.foldlM_cons]
    show (itemTokens (j' :: rest)).foldlM take? ⟨none, .array (j :: before) :: outer, .value⟩ = _
    rw [foldlM_itemTokens (j' :: rest) (j :: before) outer .value (by simp) (.inl rfl) h.2]
    simp

/-- The members of an open object are added to it. -/
theorem foldlM_memberTokens : ∀ (members before : List (String × Json)) (outer : List Open)
    (expected : Expectation), members ≠ [] →
    AtName ⟨none, .object before true none :: outer, expected⟩ →
    FaithfulMembers (outer.length + 1) members →
    (memberTokens members).foldlM take? ⟨none, .object before true none :: outer, expected⟩ =
      some ⟨none, .object (members.reverse ++ before) true none :: outer, .commaOrClose⟩
  | [(name, j)], before, outer, expected, _, hp, h => by
    rw [memberTokens, List.foldlM_cons, take?_of_atName hp]
    show j.tokens.foldlM take? ⟨none, .object before true (some name) :: outer, .value⟩ = _
    rw [foldlM_tokens j ⟨none, .object before true (some name) :: outer, .value⟩ (.inl rfl) h.1]
    rfl
  | (name, j) :: m :: rest, before, outer, expected, _, hp, h => by
    rw [memberTokens.eq_3 _ _ _ (by simp), List.foldlM_cons, take?_of_atName hp]
    show (j.tokens ++ .comma :: memberTokens (m :: rest)).foldlM take?
      ⟨none, .object before true (some name) :: outer, .value⟩ = _
    rw [List.foldlM_append,
      foldlM_tokens j ⟨none, .object before true (some name) :: outer, .value⟩ (.inl rfl) h.1,
      Option.bind_eq_bind, Option.bind_some, List.foldlM_cons]
    show (memberTokens (m :: rest)).foldlM take?
      ⟨none, .object ((name, j) :: before) true none :: outer, .name⟩ = _
    rw [foldlM_memberTokens (m :: rest) ((name, j) :: before) outer .name (by simp) (.inl rfl) h.2]
    simp

end

end Progress

/-- **Reading.** Every layout of a value is read as this value. -/
theorem parse_of_laid {j : Json} (hj : j.Faithful 0) {text : String}
    (h : Token.Laid text.toList j.tokens) : parse text = some j := by
  rw [parse, Token.scan_of_laid h, Option.bind_eq_bind, Option.bind_some,
    Progress.foldlM_tokens j .start (.inl rfl) hj]
  rfl

/-! ### What the printer writes -/

namespace Token

theorem Laid.token {cs rest : List Char} {t : Token} {ts : List Token} (h : Laid rest ts)
    (ht : Spelled rest cs t) : Laid (cs ++ rest) (t :: ts) :=
  .cons (w := []) rfl ht h

theorem Laid.mark {rest : List Char} {ts : List Token} (h : Laid rest ts) (m : Char × Token)
    (hm : m ∈ marks) : Laid (m.1 :: rest) (m.2 :: ts) :=
  h.token (spelled_mark hm rest)

end Token

mutual

/-- The printer writes a value as a layout of its tokens. -/
theorem laid_compact : ∀ (j : Json) {depth : Nat}, j.Faithful depth →
    ∀ {rest : List Char} {ts : List Token}, EndsNumeral rest → Token.Laid rest ts →
      Token.Laid (j.compact.toList ++ rest) (j.tokens ++ ts)
  | .null, _, _, rest, ts, _, h => by
    rw [tokens, compact]
    exact h.token (Token.spelled_null rest)
  | .bool b, _, _, rest, ts, _, h => by
    rw [tokens, compact]
    exact h.token (Token.spelled_bool b rest)
  | .string s, _, _, rest, ts, _, h => by
    rw [tokens, compact]
    exact h.token (Token.spelled_quote s rest)
  | .number (.integer n), _, hj, rest, ts, hends, h => by
    rw [tokens, compact]
    exact h.token (Token.spelled_digits hj.1 hj.2 hends)
  | .array items, _, hj, rest, ts, _, h => by
    have hclose := h.mark (']', .closeArray) (by simp [Token.marks])
    have hitems := laid_compactItems items hj.2 (endsNumeral_cons (by decide)) hclose
    have hopen := hitems.mark ('[', .openArray) (by simp [Token.marks])
    simpa [tokens, compact] using hopen
  | .object members, _, hj, rest, ts, _, h => by
    have hclose := h.mark ('\x7d', .closeObject) (by simp [Token.marks])
    have hmembers := laid_compactMembers members hj.2 (endsNumeral_cons (by decide)) hclose
    have hopen := hmembers.mark ('\x7b', .openObject) (by simp [Token.marks])
    simpa [tokens, compact] using hopen

theorem laid_compactItems : ∀ (items : List Json) {depth : Nat}, FaithfulItems depth items →
    ∀ {rest : List Char} {ts : List Token}, EndsNumeral rest → Token.Laid rest ts →
      Token.Laid ((compactItems items).toList ++ rest) (itemTokens items ++ ts)
  | [], _, _, rest, ts, _, h => h
  | [j], _, hj, rest, ts, hends, h => by
    rw [itemTokens, compactItems]
    exact laid_compact j hj.1 hends h
  | j :: j' :: others, _, hj, rest, ts, hends, h => by
    have hrest := laid_compactItems (j' :: others) hj.2 hends h
    have hcomma := hrest.mark (',', .comma) (by simp [Token.marks])
    have hfirst := laid_compact j hj.1 (endsNumeral_cons (by decide)) hcomma
    simpa [itemTokens.eq_3, compactItems.eq_3] using hfirst

theorem laid_compactMembers : ∀ (members : List (String × Json)) {depth : Nat},
    FaithfulMembers depth members → ∀ {rest : List Char} {ts : List Token}, EndsNumeral rest →
      Token.Laid rest ts →
      Token.Laid ((compactMembers members).toList ++ rest) (memberTokens members ++ ts)
  | [], _, _, rest, ts, _, h => h
  | [(name, j)], _, hj, rest, ts, hends, h => by
    have hvalue := laid_compact j hj.1 hends h
    have hcolon := hvalue.mark (':', .colon) (by simp [Token.marks])
    have hname := hcolon.token (Token.spelled_quote name _)
    simpa [memberTokens, compactMembers] using hname
  | (name, j) :: m :: others, _, hj, rest, ts, hends, h => by
    have hrest := laid_compactMembers (m :: others) hj.2 hends h
    have hcomma := hrest.mark (',', .comma) (by simp [Token.marks])
    have hvalue := laid_compact j hj.1 (endsNumeral_cons (by decide)) hcomma
    have hcolon := hvalue.mark (':', .colon) (by simp [Token.marks])
    have hname := hcolon.token (Token.spelled_quote name _)
    simpa [memberTokens.eq_3, compactMembers.eq_3] using hname

end

/-- **Printing.** What the printer writes is read as the value it was written for. -/
theorem parse_compact {j : Json} (hj : j.Faithful 0) : parse j.compact = some j := by
  refine parse_of_laid hj ?_
  have h := laid_compact j hj endsNumeral_nil (.nil (w := []) rfl)
  rwa [List.append_nil, List.append_nil] at h

end Runbook.Json
