import Mathlib.Data.List.Forall2
import Mathlib.Logic.ExistsUnique
import Runbook.Proofs.Text
import Runbook.Template

namespace Runbook.Template

/-!
# Texts with placeholders — what is put in their places

A text is cut into pieces in one way only, unless a placeholder in it has no end.  What stands for
the placeholders is then told by what is between their braces.

* `Pieces` — a text as it is written, with placeholders between plain pieces;
* `parse_chars`, `parse_chars_append` — a text is cut where it was put together;
* `text_induction` — induction over a text by its first placeholder;
* `existsUnique_pieces` — the texts that are put together from pieces, in one way;
* `Stands`, `Offends` — what stands for a placeholder, and what is wrong if nothing does;
* `expandParts_parts`, `expandParts_eq_error` — pieces are expanded with what stands for their
  placeholders, and the leftmost one for which nothing stands decides what is wrong;
* `expands_expand` — the law of expansion.
-/

/-! ### Pieces -/

/-- A text with placeholders: what stands before the first of them, and for each of them what is
    between its braces and what stands after it. -/
structure Pieces where
  first : List Char
  rest : List (List Char × List Char)

namespace Pieces

/-- The text that is put together from pieces. -/
def chars (p : Pieces) : List Char :=
  p.first ++ p.rest.flatMap fun r => ['$', '{'] ++ r.1 ++ ['}'] ++ r.2

/-- What is between the braces of the placeholders. -/
def bodies (p : Pieces) : List (List Char) := p.rest.map Prod.fst

/-- The text with values in the places of the placeholders. -/
def fill (p : Pieces) (values : List (List Char)) : List Char :=
  p.first ++ (values.zip (p.rest.map Prod.snd)).flatMap fun r => r.1 ++ r.2

/-- No placeholder begins in the pieces between the placeholders, and none ends before its end. -/
structure Plain (p : Pieces) : Prop where
  texts : ∀ t ∈ p.first :: p.rest.map Prod.snd, ¬ ['$', '{'] <:+: t
  bodies : ∀ b ∈ p.bodies, '}' ∉ b

/-- The parts of the text that is put together from pieces. -/
def parts (p : Pieces) : List Part :=
  .text p.first :: p.rest.flatMap fun r => [.placeholder r.1, .text r.2]

variable {t : List Char} {r : List Char × List Char} {rest : List (List Char × List Char)}

theorem chars_cons (t : List Char) (r : List Char × List Char)
    (rest : List (List Char × List Char)) :
    chars ⟨t, r :: rest⟩ = t ++ opening ++ (r.1 ++ closing ++ chars ⟨r.2, rest⟩) := by
  simp [chars, opening, closing]

theorem plain_nil : Plain ⟨t, []⟩ ↔ ¬ ['$', '{'] <:+: t :=
  ⟨fun h => h.texts t List.mem_cons_self, fun h => ⟨by simpa using h, by simp [Pieces.bodies]⟩⟩

theorem plain_cons :
    Plain ⟨t, r :: rest⟩ ↔ ¬ ['$', '{'] <:+: t ∧ '}' ∉ r.1 ∧ Plain ⟨r.2, rest⟩ := by
  constructor
  · rintro ⟨htexts, hbodies⟩
    exact ⟨htexts t List.mem_cons_self, hbodies r.1 List.mem_cons_self,
      fun u hu => htexts u (List.mem_cons_of_mem t hu),
      fun b hb => hbodies b (List.mem_cons_of_mem r.1 hb)⟩
  · rintro ⟨ht, hr, hrest⟩
    exact ⟨List.forall_mem_cons.2 ⟨ht, hrest.texts⟩, List.forall_mem_cons.2 ⟨hr, hrest.bodies⟩⟩

theorem parts_inj {p q : Pieces} (h : p.parts = q.parts) : p = q := by
  obtain ⟨t, rest⟩ := p
  obtain ⟨u, rest'⟩ := q
  obtain ⟨htext, hrest⟩ := List.cons.inj h
  obtain rfl : t = u := Part.text.inj htext
  refine congrArg (Pieces.mk t) ?_
  clear h htext
  induction rest generalizing rest' with
  | nil =>
    cases rest' with
    | nil => rfl
    | cons => cases hrest
  | cons r rest ih =>
    cases rest' with
    | nil => cases hrest
    | cons r' rest' =>
      simp only [List.flatMap_cons, List.cons_append, List.nil_append, List.cons.injEq,
        Part.placeholder.injEq, Part.text.injEq] at hrest
      obtain ⟨hbody, htext, hrest⟩ := hrest
      rw [ih rest' hrest, Prod.ext hbody htext]

end Pieces

/-- A placeholder begins in a text and does not end. -/
def Unterminated (cs : List Char) : Prop :=
  ∃ before inside, cs = before ++ ['$', '{'] ++ inside ∧ '}' ∉ inside

/-! ### Cutting -/

/-- The parts of a text that begins between the braces of a placeholder. -/
def parseInside (inside : List Char) : List Part :=
  match Text.cutAt closing inside with
  | none => [.unterminated]
  | some (body, after) => .placeholder body :: parse after

variable {t body inside after : List Char}

theorem parse_text (h : ¬ ['$', '{'] <:+: t) : parse t = [.text t] := by
  have hcut : Text.cutAt opening t = none := Text.cutAt_eq_none.2 h
  unfold parse
  split
  · rfl
  · simp_all

theorem parse_opening (h : ¬ ['$', '{'] <:+: t) (inside : List Char) :
    parse (t ++ opening ++ inside) = .text t :: parseInside inside := by
  have hcut : Text.cutAt opening (t ++ opening ++ inside) = some (t, inside) :=
    Text.cutAt_pair (by decide) h
  rw [parse]
  split
  case h_1 hnone => rw [hcut] at hnone; cases hnone
  case h_2 before inside' hsome =>
    rw [hcut] at hsome
    obtain ⟨rfl, rfl⟩ := Prod.mk.inj (Option.some.inj hsome)
    unfold parseInside
    split <;> simp_all

theorem parseInside_closing (h : '}' ∉ body) (after : List Char) :
    parseInside (body ++ closing ++ after) = .placeholder body :: parse after := by
  have hcut : Text.cutAt closing (body ++ closing ++ after) = some (body, after) :=
    Text.cutAt_append h
  rw [parseInside, hcut]

theorem parseInside_unended (h : '}' ∉ inside) : parseInside inside = [.unterminated] := by
  have hcut : Text.cutAt closing inside = none := by
    rw [Text.cutAt_eq_none]
    exact fun hin => h (hin.subset List.mem_cons_self)
  rw [parseInside, hcut]

/-- A text is cut where it was put together. -/
theorem parse_chars {p : Pieces} (h : p.Plain) : parse p.chars = p.parts := by
  obtain ⟨t, rest⟩ := p
  induction rest generalizing t with
  | nil =>
    rw [Pieces.plain_nil] at h
    simpa [Pieces.chars, Pieces.parts] using parse_text h
  | cons r rest ih =>
    obtain ⟨ht, hr, hrest⟩ := Pieces.plain_cons.1 h
    rw [Pieces.chars_cons, parse_opening ht, parseInside_closing hr, ih _ hrest]
    rfl

/-- So is a text that goes on with a placeholder. -/
theorem parse_chars_append {p : Pieces} (h : p.Plain) (inside : List Char) :
    parse (p.chars ++ opening ++ inside) = p.parts ++ parseInside inside := by
  obtain ⟨t, rest⟩ := p
  induction rest generalizing t with
  | nil =>
    rw [Pieces.plain_nil] at h
    simpa [Pieces.chars, Pieces.parts] using parse_opening h inside
  | cons r rest ih =>
    obtain ⟨ht, hr, hrest⟩ := Pieces.plain_cons.1 h
    have hmore : r.1 ++ closing ++ Pieces.chars ⟨r.2, rest⟩ ++ opening ++ inside =
        r.1 ++ closing ++ (Pieces.chars ⟨r.2, rest⟩ ++ opening ++ inside) := by
      simp
    rw [Pieces.chars_cons, List.append_assoc, List.append_assoc, ← List.append_assoc _ opening,
      hmore, parse_opening ht, parseInside_closing hr, ih _ hrest]
    rfl

/-- Induction over a text, by its first placeholder. -/
theorem text_induction {P : List Char → Prop}
    (text : ∀ t, ¬ ['$', '{'] <:+: t → P t)
    (unended : ∀ t inside, ¬ ['$', '{'] <:+: t → '}' ∉ inside → P (t ++ opening ++ inside))
    (ended : ∀ t body after, ¬ ['$', '{'] <:+: t → '}' ∉ body → P after →
      P (t ++ opening ++ (body ++ closing ++ after))) (cs : List Char) : P cs := by
  induction cs using parse.induct with
  | case1 cs hnone => exact text cs (Text.cutAt_eq_none.1 hnone)
  | case2 cs before inside hbegins hnone =>
    rw [Text.cutAt_eq_some hbegins]
    exact unended before inside (Text.not_infix_of_cutAt (by decide) hbegins) fun hmem =>
      Text.cutAt_eq_none.1 hnone ((List.singleton_infix_iff _ _).2 hmem)
  | case3 cs before inside hbegins body after hends ih =>
    rw [Text.cutAt_eq_some hbegins, Text.cutAt_eq_some hends]
    refine ended before body after (Text.not_infix_of_cutAt (by decide) hbegins) ?_ ih
    exact fun hmem =>
      Text.not_infix_of_cutAt (by decide) hends ((List.singleton_infix_iff _ _).2 hmem)

/-- Every text is put together from pieces, or from pieces before a placeholder that has no end. -/
theorem exists_pieces (cs : List Char) :
    (∃ p : Pieces, p.Plain ∧ p.chars = cs) ∨
      ∃ (p : Pieces) (inside : List Char), p.Plain ∧ cs = p.chars ++ opening ++ inside ∧
        '}' ∉ inside := by
  induction cs using text_induction with
  | text t ht => exact .inl ⟨⟨t, []⟩, Pieces.plain_nil.2 ht, by simp [Pieces.chars]⟩
  | unended t inside ht hinside =>
    exact .inr ⟨⟨t, []⟩, inside, Pieces.plain_nil.2 ht, by simp [Pieces.chars], hinside⟩
  | ended t body after ht hbody ih =>
    rcases ih with ⟨⟨u, rest⟩, hrest, rfl⟩ | ⟨⟨u, rest⟩, inside, hrest, rfl, hinside⟩
    · refine .inl ⟨⟨t, (body, u) :: rest⟩, Pieces.plain_cons.2 ⟨ht, hbody, hrest⟩, ?_⟩
      rw [Pieces.chars_cons]
    · refine .inr ⟨⟨t, (body, u) :: rest⟩, inside, Pieces.plain_cons.2 ⟨ht, hbody, hrest⟩, ?_,
        hinside⟩
      simp [Pieces.chars_cons]

/-- In a text that is put together from pieces, every placeholder ends. -/
theorem not_unterminated {p : Pieces} (h : p.Plain) : ¬ Unterminated p.chars := by
  obtain ⟨t, rest⟩ := p
  rintro ⟨before, inside, hsplit, hinside⟩
  induction rest generalizing t before with
  | nil =>
    rw [Pieces.plain_nil] at h
    exact h ⟨before, inside, by simpa [Pieces.chars] using hsplit.symm⟩
  | cons r rest ih =>
    obtain ⟨ht, hr, hrest⟩ := Pieces.plain_cons.1 h
    -- The placeholder without an end begins after the first one, or the end of that one follows it.
    have hopen : opening ++ inside <:+ Pieces.chars ⟨t, r :: rest⟩ := by
      rw [hsplit, List.append_assoc]
      exact List.suffix_append before _
    have hmore : '}' :: Pieces.chars ⟨r.2, rest⟩ <:+ Pieces.chars ⟨t, r :: rest⟩ :=
      ⟨t ++ opening ++ r.1, by simp [Pieces.chars_cons, closing]⟩
    rcases List.suffix_or_suffix_of_suffix hopen hmore with hsuffix | hsuffix
    · rcases List.suffix_cons_iff.1 hsuffix with heq | ⟨before', hbefore'⟩
      · simp [opening] at heq
      · exact ih _ hrest before' (by rw [← hbefore', opening, List.append_assoc])
    · have hmem : '}' ∈ opening ++ inside := hsuffix.subset List.mem_cons_self
      simp [opening, hinside] at hmem

/-- **Pieces.** A text is put together from pieces in exactly one way, unless a placeholder in it
    has no end. -/
theorem existsUnique_pieces {cs : List Char} :
    (∃! p : Pieces, p.Plain ∧ p.chars = cs) ↔ ¬ Unterminated cs := by
  constructor
  · rintro ⟨p, ⟨hp, rfl⟩, -⟩
    exact not_unterminated hp
  · intro h
    have hended : ¬ ∃ (p : Pieces) (inside : List Char),
        p.Plain ∧ cs = p.chars ++ opening ++ inside ∧ '}' ∉ inside :=
      fun ⟨p, inside, _, hcs, hinside⟩ => h ⟨p.chars, inside, hcs, hinside⟩
    obtain ⟨p, hp, hchars⟩ := (exists_pieces cs).resolve_right hended
    refine ⟨p, ⟨hp, hchars⟩, ?_⟩
    rintro q ⟨hq, hchars'⟩
    apply Pieces.parts_inj
    rw [← parse_chars hq, ← parse_chars hp, hchars, hchars']

/-! ### What stands for a placeholder -/

/-- What is between the braces of a placeholder is a name, or a name and its fallback after the
    first mark. -/
inductive Names : List Char → List Char → Option (List Char) → Prop
  | whole {body : List Char} : ¬ [':', '-'] <:+: body → Names body body none
  | split {name fallback : List Char} : ¬ [':', '-'] <:+: name →
      Names (name ++ [':', '-'] ++ fallback) name (some fallback)

section

variable (value? : String → Option String)

/-- The name in a placeholder has a value, or else there is a fallback. -/
def HasValue (body : List Char) : Prop :=
  ∃ name fallback, Names body name fallback ∧ name ≠ [] ∧
    ((value? (String.ofList name)).isSome ∨ fallback.isSome)

/-- What stands for a placeholder: the value of its name, or else the fallback. -/
inductive Stands (body : List Char) : List Char → Prop
  | value {name : List Char} {fallback : Option (List Char)} {v : String} :
      Names body name fallback → name ≠ [] → value? (String.ofList name) = some v →
      Stands body v.toList
  | fallback {name fallback : List Char} :
      Names body name (some fallback) → name ≠ [] → value? (String.ofList name) = none →
      Stands body fallback

/-- What is wrong with a placeholder for which nothing stands. -/
inductive Offends (body : List Char) : Error → Prop
  | unnamed {fallback : Option (List Char)} : Names body [] fallback →
      Offends body (.unnamed (String.ofList body))
  | unset {name : List Char} : Names body name none → name ≠ [] →
      value? (String.ofList name) = none → Offends body (.unset (String.ofList name))

/-- What is wrong with the placeholder that a text begins inside of. -/
inductive OffendsInside : List Char → Error → Prop
  | unended {inside : List Char} : '}' ∉ inside → OffendsInside inside .unterminated
  | ended {body after : List Char} {e : Error} : '}' ∉ body → Offends value? body e →
      OffendsInside (body ++ ['}'] ++ after) e

end

variable {value? : String → Option String} {name body inside after : List Char}
  {fallback : Option (List Char)}

theorem names_iff : Names body name fallback ↔ nameAndFallback body = (name, fallback) := by
  constructor
  · rintro (hwhole | hname)
    · rw [nameAndFallback, fallbackMark, Text.cutAt_eq_none.2 hwhole]
    · rw [nameAndFallback, fallbackMark, Text.cutAt_pair (by decide) hname]
  · intro h
    rw [nameAndFallback] at h
    split at h
    case h_1 name' fallback' hcut =>
      obtain ⟨rfl, rfl⟩ := Prod.mk.inj h
      rw [Text.cutAt_eq_some hcut]
      exact .split (Text.not_infix_of_cutAt (by decide) hcut)
    case h_2 hcut =>
      obtain ⟨rfl, rfl⟩ := Prod.mk.inj h
      exact .whole (Text.cutAt_eq_none.1 hcut)

/-- What stands for a placeholder, by its name and its fallback. -/
theorem expandPart_of_names (h : Names body name fallback) :
    expandPart value? (.placeholder body) =
      if name = [] then .error (.unnamed (String.ofList body))
      else (((value? (String.ofList name)).map String.toList).or fallback).elim
        (.error (.unset (String.ofList name))) .ok := by
  rw [expandPart, names_iff.1 h]
  simp only [List.isEmpty_iff]
  cases value? (String.ofList name) <;> cases fallback <;> rfl

theorem exists_names (body : List Char) : ∃ name fallback, Names body name fallback :=
  ⟨_, _, names_iff.2 rfl⟩

/-- Something stands for a placeholder, or something is wrong with it. -/
theorem stands_or_offends (value? : String → Option String) (body : List Char) :
    (∃ chars, Stands value? body chars) ∨ ∃ e, Offends value? body e := by
  obtain ⟨name, fallback, hnames⟩ := exists_names body
  by_cases hname : name = []
  · exact .inr ⟨_, .unnamed (hname ▸ hnames)⟩
  · cases hv : value? (String.ofList name) with
    | some v => exact .inl ⟨_, .value hnames hname hv⟩
    | none =>
      cases fallback with
      | some fallback => exact .inl ⟨_, .fallback hnames hname hv⟩
      | none => exact .inr ⟨_, .unset hnames hname hv⟩

theorem Stands.expandPart_eq {chars : List Char} (h : Stands value? body chars) :
    expandPart value? (.placeholder body) = .ok chars := by
  cases h with
  | value hnames hname hv => rw [expandPart_of_names hnames, if_neg hname, hv]; rfl
  | fallback hnames hname hv => rw [expandPart_of_names hnames, if_neg hname, hv]; rfl

theorem Offends.expandPart_eq {e : Error} (h : Offends value? body e) :
    expandPart value? (.placeholder body) = .error e := by
  cases h with
  | unnamed hnames => rw [expandPart_of_names hnames, if_pos rfl]
  | unset hnames hname hv => rw [expandPart_of_names hnames, if_neg hname, hv]; rfl

theorem expandPart_eq_ok {chars : List Char} :
    expandPart value? (.placeholder body) = .ok chars ↔ Stands value? body chars := by
  refine ⟨fun h => ?_, Stands.expandPart_eq⟩
  rcases stands_or_offends value? body with ⟨chars', hchars⟩ | ⟨e, he⟩
  · obtain rfl := Except.ok.inj (hchars.expandPart_eq.symm.trans h)
    exact hchars
  · cases he.expandPart_eq.symm.trans h

theorem expandPart_eq_error {e : Error} :
    expandPart value? (.placeholder body) = .error e ↔ Offends value? body e := by
  refine ⟨fun h => ?_, Offends.expandPart_eq⟩
  rcases stands_or_offends value? body with ⟨chars, hchars⟩ | ⟨e', he⟩
  · cases hchars.expandPart_eq.symm.trans h
  · obtain rfl := Except.error.inj (he.expandPart_eq.symm.trans h)
    exact he

theorem hasValue_iff : HasValue value? body ↔ ∃ chars, Stands value? body chars := by
  constructor
  · rintro ⟨name, fallback, hnames, hname, hsome⟩
    cases hv : value? (String.ofList name) with
    | some v => exact ⟨_, .value hnames hname hv⟩
    | none =>
      rw [hv] at hsome
      obtain ⟨chars, rfl⟩ := Option.isSome_iff_exists.1 (hsome.resolve_left Bool.false_ne_true)
      exact ⟨chars, .fallback hnames hname hv⟩
  · rintro ⟨chars, ⟨hnames, hname, hv⟩ | ⟨hnames, hname, hv⟩⟩
    · exact ⟨_, _, hnames, hname, .inl (hv ▸ rfl)⟩
    · exact ⟨_, _, hnames, hname, .inr rfl⟩

/-! ### Expansion -/

theorem expandParts_append (before after : List Part) :
    expandParts value? (before ++ after) = (expandParts value? before).bind fun chars =>
      (expandParts value? after).map fun others => chars ++ others := by
  induction before with
  | nil =>
    rw [List.nil_append, expandParts]
    cases expandParts value? after <;> rfl
  | cons part rest ih =>
    rw [List.cons_append, expandParts, expandParts, ih]
    cases expandPart value? part with
    | error e => rfl
    | ok chars =>
      cases expandParts value? rest with
      | error e => rfl
      | ok others =>
        cases expandParts value? after with
        | error e => rfl
        | ok more => exact congrArg Except.ok (List.append_assoc chars others more).symm

/-- A text with a placeholder after it, and what comes then. -/
theorem expandParts_cons (t body : List Char) (parts : List Part) :
    expandParts value? (.text t :: .placeholder body :: parts) =
      (expandPart value? (.placeholder body)).bind fun chars =>
        (expandParts value? parts).map fun others => t ++ (chars ++ others) := by
  rw [expandParts, expandParts, expandPart]
  cases expandPart value? (.placeholder body) with
  | error e => rfl
  | ok chars => cases expandParts value? parts <;> rfl

theorem expandParts_text (t : List Char) : expandParts value? [.text t] = .ok t :=
  congrArg Except.ok (List.append_nil t)

/-- Pieces are expanded if something stands for each placeholder, to the pieces with that in its
    place. -/
theorem expandParts_parts (p : Pieces) (result : List Char) :
    expandParts value? p.parts = .ok result ↔
      ∃ values, List.Forall₂ (Stands value?) p.bodies values ∧ result = p.fill values := by
  obtain ⟨t, rest⟩ := p
  induction rest generalizing t result with
  -- The induction is on the placeholders, with any text before them.
  | nil =>
    have hparts : Pieces.parts ⟨t, []⟩ = [.text t] := rfl
    rw [hparts, expandParts_text, Except.ok.injEq]
    constructor
    · rintro rfl
      exact ⟨[], .nil, (List.append_nil t).symm⟩
    · rintro ⟨values, hvalues, rfl⟩
      cases hvalues
      exact (List.append_nil t).symm
  | cons r rest ih =>
    have hparts : Pieces.parts ⟨t, r :: rest⟩ =
        .text t :: .placeholder r.1 :: Pieces.parts ⟨r.2, rest⟩ := rfl
    rw [hparts, expandParts_cons]
    constructor
    · intro h
      cases hpart : expandPart value? (.placeholder r.1) with
      | error e => rw [hpart] at h; cases h
      | ok chars =>
        cases hrest : expandParts value? (Pieces.parts ⟨r.2, rest⟩) with
        | error e => rw [hpart, hrest] at h; cases h
        | ok others =>
          rw [hpart, hrest] at h
          cases h
          obtain ⟨values, hvalues, rfl⟩ := (ih _ _).1 hrest
          refine ⟨chars :: values, .cons (expandPart_eq_ok.1 hpart) hvalues, ?_⟩
          simp [Pieces.fill]
    · rintro ⟨values, hvalues, rfl⟩
      cases hvalues with
      | @cons _ chars _ values hchars hvalues =>
        rw [expandPart_eq_ok.2 hchars, (ih _ _).2 ⟨values, hvalues, rfl⟩]
        simp [Except.bind, Except.map, Pieces.fill]

/-- Something stands for each of some placeholders. -/
theorem exists_values {bodies : List (List Char)} :
    (∃ values, List.Forall₂ (Stands value?) bodies values) ↔ ∀ b ∈ bodies, HasValue value? b := by
  induction bodies with
  | nil => exact ⟨fun _ => by simp, fun _ => ⟨[], .nil⟩⟩
  | cons b rest ih =>
    rw [List.forall_mem_cons, ← ih, hasValue_iff]
    constructor
    · rintro ⟨values, hvalues⟩
      cases hvalues with
      | cons hb hrest => exact ⟨⟨_, hb⟩, _, hrest⟩
    · rintro ⟨⟨chars, hb⟩, values, hrest⟩
      exact ⟨chars :: values, .cons hb hrest⟩

/-- A text that goes on inside of a placeholder is not expanded if something is wrong there. -/
theorem expandParts_parseInside {e : Error} (h : OffendsInside value? inside e) :
    expandParts value? (parseInside inside) = .error e := by
  cases h with
  | unended hinside =>
    rw [parseInside_unended hinside]
    rfl
  | ended hbody hoffends =>
    have hclosing := parseInside_closing hbody
    rw [closing] at hclosing
    rw [hclosing, expandParts, expandPart_eq_error.2 hoffends]
    rfl

/-- What is wrong with a text is wrong with a placeholder before which all have values. -/
theorem exists_offends {e : Error} {cs : List Char} (h : expandParts value? (parse cs) = .error e) :
    ∃ (p : Pieces) (inside : List Char), p.Plain ∧ cs = p.chars ++ ['$', '{'] ++ inside ∧
      (∀ b ∈ p.bodies, HasValue value? b) ∧ OffendsInside value? inside e := by
  -- If it is the first placeholder, no piece but the text before it is needed.
  have hfirst : ∀ {t inside : List Char}, ¬ ['$', '{'] <:+: t → OffendsInside value? inside e →
      ∃ (p : Pieces) (inside' : List Char), p.Plain ∧
        t ++ opening ++ inside = p.chars ++ ['$', '{'] ++ inside' ∧
        (∀ b ∈ p.bodies, HasValue value? b) ∧ OffendsInside value? inside' e :=
    fun {t inside} ht hoffends => ⟨⟨t, []⟩, inside, Pieces.plain_nil.2 ht,
      by simp [Pieces.chars, opening], by simp [Pieces.bodies], hoffends⟩
  induction cs using text_induction with
  | text t ht =>
    rw [parse_text ht, expandParts_text] at h
    cases h
  | unended t inside ht hinside =>
    rw [parse_opening ht, parseInside_unended hinside] at h
    cases h
    exact hfirst ht (.unended hinside)
  | ended t body after ht hbody ih =>
    rw [parse_opening ht, parseInside_closing hbody, expandParts_cons] at h
    cases hpart : expandPart value? (.placeholder body) with
    | error e' =>
      rw [hpart] at h
      cases h
      exact hfirst ht (.ended hbody (expandPart_eq_error.1 hpart))
    | ok chars =>
      rw [hpart] at h
      cases hrest : expandParts value? (parse after) with
      | ok others => rw [hrest] at h; cases h
      | error e' =>
        rw [hrest] at h
        cases h
        obtain ⟨⟨u, rest⟩, inside, hplain, rfl, hvalues, hoffends⟩ := ih hrest
        have hvalue : HasValue value? body := hasValue_iff.2 ⟨chars, expandPart_eq_ok.1 hpart⟩
        refine ⟨⟨t, (body, u) :: rest⟩, inside, Pieces.plain_cons.2 ⟨ht, hbody, hplain⟩, ?_,
          List.forall_mem_cons.2 ⟨hvalue, hvalues⟩, hoffends⟩
        simp [Pieces.chars_cons]

/-- The leftmost placeholder for which nothing stands decides what is wrong. -/
theorem expandParts_eq_error {e : Error} (cs : List Char) :
    expandParts value? (parse cs) = .error e ↔ ∃ (p : Pieces) (inside : List Char), p.Plain ∧
      cs = p.chars ++ ['$', '{'] ++ inside ∧ (∀ b ∈ p.bodies, HasValue value? b) ∧
        OffendsInside value? inside e := by
  refine ⟨exists_offends, ?_⟩
  rintro ⟨p, inside, hplain, rfl, hvalues, hoffends⟩
  obtain ⟨values, hvalues⟩ := exists_values.2 hvalues
  have hparse := parse_chars_append hplain inside
  rw [opening] at hparse
  rw [hparse, expandParts_append, (expandParts_parts p _).2 ⟨values, hvalues, rfl⟩,
    expandParts_parseInside hoffends]
  rfl

/-- A text with a placeholder that has no end is not expanded. -/
theorem expandParts_unterminated {cs : List Char} (h : Unterminated cs) :
    ∃ e, expandParts value? (parse cs) = .error e := by
  rcases exists_pieces cs with ⟨p, hp, rfl⟩ | ⟨p, inside, hp, rfl, hinside⟩
  · exact absurd h (not_unterminated hp)
  · rw [parse_chars_append hp, parseInside_unended hinside, expandParts_append]
    cases expandParts value? p.parts with
    | error e => exact ⟨e, rfl⟩
    | ok chars => exact ⟨.unterminated, rfl⟩

/-- How texts with placeholders are expanded. -/
structure Expands (expand : (String → Option String) → String → Except Error String) : Prop where
  /-- A text that is put together from pieces is expanded if every placeholder in it has a value, -/
  succeeds_iff : ∀ value? (p : Pieces), p.Plain →
    ((∃ result, expand value? (String.ofList p.chars) = .ok result) ↔
      ∀ b ∈ p.bodies, HasValue value? b)
  /-- and then what stands for the placeholders is put in their places as it is. -/
  result_iff : ∀ value? (p : Pieces) result, p.Plain →
    (expand value? (String.ofList p.chars) = .ok result ↔
      ∃ values, List.Forall₂ (Stands value?) p.bodies values ∧
        result = String.ofList (p.fill values))
  /-- A text is put together from pieces in exactly one way, or a placeholder in it has no end, -/
  unique_iff : ∀ cs : List Char,
    (∃! p : Pieces, p.Plain ∧ p.chars = cs) ↔ ¬ Unterminated cs
  /-- and then it is not expanded. -/
  unterminated : ∀ value? s, Unterminated s.toList → ∃ e, expand value? s = .error e
  /-- The leftmost placeholder for which nothing stands decides what is wrong. -/
  leftmost : ∀ value? s e, expand value? s = .error e ↔
    ∃ (p : Pieces) (inside : List Char), p.Plain ∧ s.toList = p.chars ++ ['$', '{'] ++ inside ∧
      (∀ b ∈ p.bodies, HasValue value? b) ∧ OffendsInside value? inside e

theorem expand_eq_ok {p : Pieces} (h : p.Plain) (result : String) :
    expand value? (String.ofList p.chars) = .ok result ↔
      ∃ values, List.Forall₂ (Stands value?) p.bodies values ∧
        result = String.ofList (p.fill values) := by
  rw [expand, String.toList_ofList, parse_chars h]
  constructor
  · intro hok
    cases hparts : expandParts value? p.parts with
    | error e => rw [hparts] at hok; cases hok
    | ok chars =>
      rw [hparts] at hok
      cases hok
      obtain ⟨values, hvalues, rfl⟩ := (expandParts_parts p _).1 hparts
      exact ⟨values, hvalues, rfl⟩
  · rintro ⟨values, hvalues, rfl⟩
    rw [(expandParts_parts p _).2 ⟨values, hvalues, rfl⟩]
    rfl

theorem expand_eq_error {s : String} {e : Error} :
    expand value? s = .error e ↔ expandParts value? (parse s.toList) = .error e := by
  rw [expand]
  cases expandParts value? (parse s.toList) with
  | error e' => rw [Except.map, Except.error.injEq, Except.error.injEq]
  | ok chars => exact ⟨nofun, nofun⟩

/-- **Expansion.** Placeholders give way to what stands for them, which is not looked at again, and
    the leftmost one for which nothing stands decides what is wrong. -/
theorem expands_expand : Expands expand where
  succeeds_iff value? p hplain := by
    rw [← exists_values]
    constructor
    · rintro ⟨result, hok⟩
      obtain ⟨values, hvalues, -⟩ := (expand_eq_ok hplain result).1 hok
      exact ⟨values, hvalues⟩
    · rintro ⟨values, hvalues⟩
      exact ⟨_, (expand_eq_ok hplain _).2 ⟨values, hvalues, rfl⟩⟩
  result_iff value? p result hplain := expand_eq_ok hplain result
  unique_iff _ := existsUnique_pieces
  unterminated value? s h := by
    obtain ⟨e, he⟩ := expandParts_unterminated h
    exact ⟨e, expand_eq_error.2 he⟩
  leftmost value? s e := expand_eq_error.trans (expandParts_eq_error s.toList)

/-- A value that looks like a placeholder is not expanded again. -/
example : expand (fun name => if name = "A" then some "$\x7bB\x7d" else none)
    "x$\x7bA\x7dy$\x7bB:-z\x7d" = .ok "x$\x7bB\x7dyz" := by
  cbv

end Runbook.Template
