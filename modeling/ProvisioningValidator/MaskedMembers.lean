import Mathlib
import ProvisioningValidator.IdentityMembers

/-!
# The second pass

A match of the second pass begins with a quote and a letter, and consists of few kinds of characters.
What is around a character that is of no such kind is searched separately (`maskMembers_border`). A
member is found if its name is written without escapes and only spaces are around the colon, and then
its digits are masked.
-/

namespace ProvisioningValidator

open Lib Lib.Regex

/-! ## The second pass where no match begins -/

theorem not_alpha_of_digit {c : Char} (h : c.isDigit = true) : c.isAlpha = false := by
  by_contra hne
  have halpha := Bool.eq_true_of_not_eq_false hne
  simp only [Char.isAlpha, Char.isUpper, Char.isLower, Char.isDigit, Bool.or_eq_true,
    Bool.and_eq_true, decide_eq_true_eq, UInt32.le_iff_toNat_le, ge_iff_le] at h halpha
  have hA : 'A'.val.toNat = 65 := rfl
  have ha : 'a'.val.toNat = 97 := rfl
  have h9 : '9'.val.toNat = 57 := rfl
  omega

/-- The characters of what the second pass finds. -/
def JsonChar (c : Char) : Prop :=
  c.isAlphanum = true ∨ c ∈ ['"', ' ', ':', '-', '[', ']', ',']

instance (c : Char) : Decidable (JsonChar c) := inferInstanceAs (Decidable (_ ∨ _))

theorem jsonChar_of_word {w : List Char} (hw : w ∈ userJsonRegExp.lang) : ∀ c ∈ w, JsonChar c := by
  obtain ⟨c₀, name, sp, sp', v, hname, hsp, hsp', hv, rfl⟩ := json_word hw
  have halpha : ∀ c ∈ c₀ :: name, JsonChar c := fun c hc =>
    .inl (by simp [Char.isAlphanum, hname c hc])
  have hspace : ∀ {l : List Char}, (∀ c ∈ l, c = ' ') → ∀ c ∈ l, JsonChar c := fun hl c hc =>
    .inr (by rw [hl c hc]; decide)
  have hvalue : ∀ c ∈ v, JsonChar c := by
    intro c hc
    cases hv with
    | @text v hv =>
      simp only [List.mem_cons, List.mem_append, List.not_mem_nil, or_false] at hc
      rcases hc with rfl | hc | rfl
      · exact .inr (by decide)
      · exact (hv c hc).imp_right fun h => by rw [h]; decide
      · exact .inr (by decide)
    | @list l hl =>
      simp only [List.mem_cons, List.mem_append, List.not_mem_nil, or_false,
        List.mem_flatten] at hc
      rcases hc with rfl | ⟨x, hx, hc⟩ | rfl
      · exact .inr (by decide)
      · obtain ⟨ds, comma, space, hds, hcomma, hspace', rfl⟩ := mem_trafficIdElement (hl x hx)
        simp only [List.mem_cons, List.mem_append] at hc
        rcases hc with rfl | hc | rfl | hc | hc
        · exact .inr (by decide)
        · exact .inl (by simp [Char.isAlphanum, hds c hc])
        · exact .inr (by decide)
        · rcases hcomma with rfl | rfl
          · exact .inr (by rw [List.mem_singleton.1 hc]; decide)
          · exact absurd hc List.not_mem_nil
        · rcases hspace' with rfl | rfl
          · exact .inr (by rw [List.mem_singleton.1 hc]; decide)
          · exact absurd hc List.not_mem_nil
      · exact .inr (by decide)
  intro c hc
  simp only [List.mem_cons, List.mem_append] at hc
  rcases hc with rfl | hc | rfl | hc | rfl | hc | hc
  · exact .inr (by decide)
  · exact halpha c (List.mem_cons.2 hc)
  · exact .inr (by decide)
  · exact hspace hsp c hc
  · exact .inr (by decide)
  · exact hspace hsp' c hc
  · exact hvalue c hc

/-- The second pass. -/
def maskMembers (s : List Char) : List Char := replaceAll userJsonRegExp jsonFormatter s

/-- A match begins with a quote and a letter. -/
theorem json_none {c : Char} {s : List Char}
    (h : c ≠ '"' ∨ ∀ d ∈ s.head?, d.isAlpha = false) : matchLength userJsonRegExp (c :: s) = 0 := by
  refine matchLength_eq_zero fun w hw hpre => ?_
  obtain ⟨c₀, name, sp, sp', v, hname, -, -, -, rfl⟩ := json_word hw
  obtain ⟨t, ht⟩ := hpre
  obtain ⟨hc, hs⟩ := List.cons.inj ht
  rcases h with h | h
  · exact h hc.symm
  · have halpha := hname c₀ List.mem_cons_self
    rw [h c₀ (by rw [← hs]; rfl)] at halpha
    exact Bool.noConfusion halpha

theorem maskMembers_copy {x : List Char} (hx : '"' ∉ x) (s : List Char) :
    maskMembers (x ++ s) = x ++ maskMembers s := by
  refine replaceAll_append fun u v huv hv => ?_
  obtain ⟨c, v, rfl⟩ := List.exists_cons_of_ne_nil hv
  exact json_none (.inl fun hc => hx (by rw [huv, hc]; simp))

theorem maskMembers_quote {s : List Char} (hs : ∀ c ∈ s.head?, c.isAlpha = false) :
    maskMembers ('"' :: s) = '"' :: maskMembers s := replaceAll_cons (json_none (.inr hs))

/-- A text that the second pass copies before a string that begins with a digit. -/
def Idle (z : List Char) : Prop := ∀ s : List Char, (∀ c ∈ s.head?, c.isAlpha = false) →
  maskMembers (z ++ '"' :: s) = z ++ '"' :: maskMembers s

theorem idle_of_not_mem {z : List Char} (hz : '"' ∉ z) : Idle z := fun s hs => by
  rw [maskMembers_copy hz, maskMembers_quote hs]

theorem idle_quote {c : Char} {z : List Char} (hc : c.isAlpha = false) (hz : '"' ∉ c :: z) :
    Idle ('"' :: c :: z) := fun s hs => by
  have hhead : ∀ e ∈ ((c :: z) ++ '"' :: s).head?, e.isAlpha = false := fun e he => by
    rw [← Option.some.inj he]
    exact hc
  rw [List.cons_append, maskMembers_quote hhead, idle_of_not_mem hz s hs]
  rfl

theorem Idle.append {x z : List Char} (hz : Idle z) (hx : '"' ∉ x) : Idle (x ++ z) := fun s hs => by
  rw [List.append_assoc, maskMembers_copy hx, hz s hs, List.append_assoc]

/-- **A character of no match is a border** for the second pass. -/
theorem maskMembers_border {b : Char} (hb : ¬ JsonChar b) (p : List Char) {s s' : List Char}
    (h : DigitsApart s s') : ∃ x, maskMembers (p ++ b :: s) = x ++ b :: maskMembers s ∧
      maskMembers (p ++ b :: s') = x ++ b :: maskMembers s' := by
  have hcopy : ∀ s, maskMembers (b :: s) = b :: maskMembers s := fun s =>
    replaceAll_cons (json_none (.inl fun heq => hb (by rw [heq]; exact .inr (by decide))))
  have halike : ∀ q, matchLength userJsonRegExp (q ++ b :: s) =
      matchLength userJsonRegExp (q ++ b :: s') := fun q =>
    blind_userJsonRegExp.matchLength_eq (fun _ _ => DigitsApart.length_eq) ((h.same).append q)
  rcases replaceAll_append_alike jsonFormatter halike p with
    ⟨x, -, -, hx, hx'⟩ | ⟨q₀, q₁, x, -, -, -, -, hlt, -, -⟩
  · exact ⟨x, hx.trans (congrArg (x ++ ·) (hcopy s)), hx'.trans (congrArg (x ++ ·) (hcopy s'))⟩
  · have hword := take_mem_lang (lt_of_le_of_lt (Nat.zero_le _) hlt)
    refine absurd (jsonChar_of_word hword b ?_) hb
    obtain ⟨n, hn⟩ := Nat.exists_eq_add_of_lt hlt
    rw [hn, Nat.add_assoc, List.take_length_add_append, List.take_succ_cons]
    exact List.mem_append_right q₁ List.mem_cons_self

/-- **The digits are shown** behind such a border. -/
theorem maskMembers_shown_iff {b : Char} (hb : ¬ JsonChar b) {z : List Char} (hz : Idle z)
    (p w : List Char) {d d' : List Char} (hlength : d.length = d'.length)
    (hd : ∀ c ∈ d, c.isDigit = true) (hd' : ∀ c ∈ d', c.isDigit = true) :
    maskMembers (p ++ b :: (z ++ '"' :: (d ++ '"' :: w))) =
      maskMembers (p ++ b :: (z ++ '"' :: (d' ++ '"' :: w))) ↔ d = d' := by
  have happart : DigitsApart (z ++ '"' :: (d ++ '"' :: w)) (z ++ '"' :: (d' ++ '"' :: w)) :=
    ((digitsApart_append (forall₂_digits hlength hd hd') (hyphen_digits hd) (hyphen_digits hd')
      (by simp)).same).append z
  obtain ⟨x, hx, hx'⟩ := maskMembers_border hb p happart
  have hshown : ∀ {e : List Char}, (∀ c ∈ e, c.isDigit = true) →
      maskMembers (z ++ '"' :: (e ++ '"' :: w)) = z ++ '"' :: (e ++ maskMembers ('"' :: w)) := by
    intro e he
    rw [hz _ ?_, maskMembers_copy (quote_digits he)]
    intro c hc
    cases e with
    | nil =>
      rw [← Option.some.inj hc]
      decide
    | cons c' e =>
      rw [← Option.some.inj hc]
      exact not_alpha_of_digit (he c' List.mem_cons_self)
  rw [hx, hx', hshown hd, hshown hd']
  constructor
  · intro h
    have hsame := (List.cons.inj (List.append_cancel_left (List.cons.inj
      (List.append_cancel_left h)).2)).2
    exact List.append_cancel_right hsame
  · intro h
    rw [h]

/-! ## The second pass on the member -/

/-- Behind a comma in a list of traffic ids. -/
theorem behind_comma {l : List (List Char)} (hl : ∀ x ∈ l, x ∈ trafficIdElement.lang)
    {p z : List Char} (h : l.flatten ++ [']'] = p ++ ',' :: z) :
    ∃ (space : List Char) (l' : List (List Char)), (∀ c ∈ space, c = ' ') ∧ (∀ x ∈ l', x ∈ trafficIdElement.lang) ∧
      z = space ++ (l'.flatten ++ [']']) := by
  induction l generalizing p with
  | nil =>
    have hmem : ',' ∈ ([] : List (List Char)).flatten ++ [']'] :=
      h ▸ List.mem_append_right p List.mem_cons_self
    exact absurd hmem (by decide)
  | cons e l ih =>
    obtain ⟨he, htail⟩ := List.forall_mem_cons.1 hl
    obtain ⟨v, comma, space, hv, hcomma, hspace, rfl⟩ := mem_trafficIdElement he
    have hspaces : ∀ c ∈ space, c = ' ' := by
      rcases hspace with rfl | rfl
      · simp
      · exact nofun
    have hfirst : ',' ∉ '"' :: (v ++ ['"']) := by
      simp only [List.mem_cons, List.mem_append, List.not_mem_nil, or_false, not_or]
      exact ⟨by decide, fun hmem => absurd (hv ',' hmem) (by decide), by decide⟩
    have hsplit : ('"' :: (v ++ ['"'])) ++ (comma ++ (space ++ (l.flatten ++ [']']))) =
        p ++ ',' :: z := by
      rw [← h]
      simp
    obtain ⟨p', hp', -⟩ := cons_of_append hfirst hsplit
    have hrest : ∀ {p'' : List Char}, space ++ (l.flatten ++ [']']) = p'' ++ ',' :: z →
        ∃ (space : List Char) (l' : List (List Char)), (∀ c ∈ space, c = ' ') ∧ (∀ x ∈ l', x ∈ trafficIdElement.lang) ∧
          z = space ++ (l'.flatten ++ [']']) := by
      intro p'' hp''
      obtain ⟨p₃, hp₃, -⟩ := cons_of_append
        (fun hmem => absurd (hspaces ',' hmem) (by decide)) hp''
      exact ih htail hp₃
    rcases hcomma with rfl | rfl
    · cases p' with
      | nil => exact ⟨space, l, hspaces, htail, ((List.cons.inj hp').2).symm⟩
      | cons c p' => exact hrest (List.cons.inj hp').2
    · exact hrest hp'

/-- A string behind a comma, in what the second pass finds, is not a name. -/
theorem json_comma {p sp y : List Char} (hw : p ++ ',' :: (sp ++ '"' :: y) ∈ userJsonRegExp.lang)
    (hsp : ∀ c ∈ sp, c = ' ') : ∃ c ∈ y.head?, c.isAlpha = false := by
  obtain ⟨c₀, name, sp₁, sp₂, v, hname, hsp₁, hsp₂, hv, heq⟩ := json_word hw
  have hfirst : ',' ∉ '"' :: (c₀ :: name ++ '"' :: (sp₁ ++ ':' :: sp₂)) := by
    simp only [List.mem_cons, List.mem_append, not_or]
    refine ⟨by decide, ?_, by decide, ?_, by decide, ?_⟩
    · rw [← not_or, ← List.mem_cons]
      exact fun hmem => absurd (hname ',' hmem) (by decide)
    · exact fun hmem => absurd (hsp₁ ',' hmem) (by decide)
    · exact fun hmem => absurd (hsp₂ ',' hmem) (by decide)
  have hsplit : ('"' :: (c₀ :: name ++ '"' :: (sp₁ ++ ':' :: sp₂))) ++ v =
      p ++ ',' :: (sp ++ '"' :: y) := by
    rw [heq]
    simp
  obtain ⟨p', hp', -⟩ := cons_of_append hfirst hsplit
  cases hv with
  | @text v hv =>
    -- There is no comma in a text.
    have hmem : ',' ∈ '"' :: (v ++ ['"']) :=
      hp' ▸ List.mem_append_right p' List.mem_cons_self
    simp only [List.mem_cons, List.mem_append, List.not_mem_nil, or_false] at hmem
    rcases hmem with h | h | h
    · exact absurd h (by decide)
    · rcases hv ',' h with h | h
      · exact absurd h (by decide)
      · exact absurd h (by decide)
    · exact absurd h (by decide)
  | @list l hl =>
    cases p' with
    | nil => exact absurd (List.cons.inj hp').1 (by decide)
    | cons c p' =>
      obtain ⟨space, l', hspace, hl', hz⟩ := behind_comma hl (List.cons.inj hp').2
      cases l' with
      | nil =>
        obtain ⟨-, hc, -⟩ := span_inj (p := (· = ' ')) hsp hspace (by decide) (by decide) hz
        exact absurd hc (by decide)
      | cons e l' =>
        obtain ⟨ds, comma, space', hds, -, -, rfl⟩ := mem_trafficIdElement (hl' e List.mem_cons_self)
        rw [List.flatten_cons, List.cons_append, List.cons_append] at hz
        obtain ⟨-, -, rfl⟩ := span_inj (p := (· = ' ')) hsp hspace (by decide) (by decide) hz
        cases ds with
        | nil => exact ⟨'"', rfl, by decide⟩
        | cons d ds => exact ⟨d, rfl, not_alpha_of_digit (hds d List.mem_cons_self)⟩

/-- **No match of the second pass goes over the beginning of a member**, a quote and a letter behind
a brace, a comma or a star, with white space between. -/
theorem json_not_over {p q₀ q₁ space y : List Char} {b : Char} (hb : b = '{' ∨ b = ',' ∨ b = '*')
    (hspace : ∀ c ∈ space, c.isWhitespace = true) (hq : p ++ b :: space = q₀ ++ q₁) (hne : q₁ ≠ [])
    (hy : ∀ c ∈ y.head?, c.isAlpha = true) : q₁ ++ '"' :: y ∉ userJsonRegExp.lang := by
  intro hw
  have hchars := jsonChar_of_word hw
  rcases List.append_eq_append_iff.1 hq with ⟨a, rfl, ha⟩ | ⟨a, rfl, rfl⟩
  · -- What is before the quote begins with white space, or with the brace.
    obtain ⟨c, q₁, rfl⟩ := List.exists_cons_of_ne_nil hne
    obtain ⟨c₀, name, sp, sp', v, -, -, -, -, heq⟩ := json_word hw
    have hc : c = '"' := (List.cons.inj heq).1
    have hmem : '"' ∈ b :: space := ha ▸ List.mem_append_right a (List.mem_cons.2 (.inl hc.symm))
    rcases List.mem_cons.1 hmem with h | h
    · rcases hb with rfl | rfl | rfl <;> exact absurd h (by decide)
    · exact absurd (hspace '"' h) (by decide)
  · -- All of it is in the match, which only a comma and spaces can be.
    rw [List.append_assoc, List.cons_append] at hw hchars
    have hcomma : b = ',' := by
      have hjson := hchars b (List.mem_append_right a List.mem_cons_self)
      rcases hb with rfl | rfl | rfl
      · exact absurd hjson (by decide)
      · rfl
      · exact absurd hjson (by decide)
    have hspaces : ∀ c ∈ space, c = ' ' := by
      intro c hc
      have hjson := hchars c (by simp [hc])
      have hwhite := hspace c hc
      simp only [Char.isWhitespace, Bool.or_eq_true, decide_eq_true_eq] at hwhite
      rcases hwhite with ((h | h) | h) | h
      · exact h
      · exact absurd (h ▸ hjson) (by decide)
      · exact absurd (h ▸ hjson) (by decide)
      · exact absurd (h ▸ hjson) (by decide)
    rw [hcomma] at hw
    obtain ⟨c, hc, halpha⟩ := json_comma hw hspaces
    exact Bool.noConfusion (halpha.symm.trans (hy c hc))

namespace MemberText

variable {m : MemberText}

/-- A member that is written as the second pass looks for it. -/
structure Plain (m : MemberText) : Prop where
  literal_eq : m.literal = m.name.toList
  space₁_eq : ∀ c ∈ m.space₁, c = ' '
  space₂_eq : ∀ c ∈ m.space₂, c = ' '

/-- The member with its digits. -/
def member (m : MemberText) (d : List Char) : List Char := m.head ++ '"' :: (d ++ ['"'])

theorem member_mem_lang (hm : m.Plain) {d : List Char} (hlo : 5 ≤ d.length) (hhi : d.length ≤ 15)
    (hd : ∀ c ∈ d, c.isDigit = true) : m.member d ∈ userJsonRegExp.lang := by
  have hvalue : '"' :: (d ++ ['"']) ∈ (inQuotes (between 5 15 digit)).lang :=
    mem_inQuotes.2 ⟨d, (mem_lang_between_cls (by decide)).2 ⟨hlo, hhi, hd⟩, rfl⟩
  have hword : ∀ names : List String, m.name ∈ names →
      m.member d ∈ (jsonMember names (inQuotes (between 5 15 digit))).lang := by
    intro names hname
    refine mem_jsonMember.2 ⟨m.name, hname, m.space₁, m.space₂, _, hm.space₁_eq, hm.space₂_eq,
      hvalue, ?_⟩
    simp [member, head, hm.literal_eq]
  have hname := m.name_mem
  simp only [identityNames, List.mem_cons, List.not_mem_nil, or_false] at hname
  have hthree : m.name ∈ ["imsi", "IMSI"] ∨ m.name ∈ ["msisdn", "MSISDN"] ∨
      m.name ∈ ["impi", "IMPI"] := by
    rcases hname with h | h | h | h | h | h <;> simp [h]
  rcases hthree with h | h | h
  · exact mem_lang_oneOf.2 ⟨_, by simp, hword _ h⟩
  · exact mem_lang_oneOf.2 ⟨_, by simp, hword _ h⟩
  · exact mem_lang_oneOf.2 ⟨_, by simp, hword _ h⟩

/-- Nothing else in the language begins a text that begins with the member. -/
theorem eq_member_of_word (hm : m.Plain) {d t w : List Char} (hd : ∀ c ∈ d, c.isDigit = true)
    (hw : w ∈ userJsonRegExp.lang) (hpre : w <+: m.member d ++ t) : w = m.member d := by
  obtain ⟨c₀, name, sp, sp', v, hname, hsp, hsp', hv, rfl⟩ := json_word hw
  obtain ⟨t', ht'⟩ := hpre
  simp only [member, head, List.cons_append, List.append_assoc, List.cons.injEq, true_and] at ht'
  have hquote : ∀ x ∈ c₀ :: name, x ≠ '"' := fun x hx heq => by
    have halpha := hname x hx
    rw [heq] at halpha
    exact absurd halpha (by decide)
  have hliteral : ∀ x ∈ m.literal, x ≠ '"' := fun x hx heq =>
    m.literal_ne (by decide) (by decide) (heq ▸ hx)
  obtain ⟨h₁, -, hrest⟩ := span_inj (p := (· ≠ '"')) hquote hliteral (by simp) (by simp) ht'
  obtain ⟨h₂, -, hrest⟩ := span_inj (p := (· = ' ')) hsp hm.space₁_eq (by decide) (by decide) hrest
  cases hv with
  | @text v hv =>
    simp only [List.cons_append, List.append_assoc] at hrest
    obtain ⟨h₃, -, hrest⟩ := span_inj (p := (· = ' ')) hsp' hm.space₂_eq (by decide) (by decide)
      hrest
    have hv' : ∀ x ∈ v, x ≠ '"' := fun x hx heq => by
      rcases hv x hx with h | h
      · exact absurd (heq ▸ h) (by decide)
      · exact absurd (heq.symm.trans h) (by decide)
    have hd' : ∀ x ∈ d, x ≠ '"' := fun x hx heq => quote_digits hd (heq ▸ hx)
    obtain ⟨h₄, -, -⟩ := span_inj (p := (· ≠ '"')) hv' hd' (by simp) (by simp) hrest
    rw [h₁, h₂, h₃, h₄]
    simp [member, head]
  | @list l hl =>
    simp only [List.cons_append, List.append_assoc] at hrest
    obtain ⟨-, hc, -⟩ := span_inj (p := (· = ' ')) hsp' hm.space₂_eq (by decide) (by decide) hrest
    exact absurd hc (by decide)

/-- The second pass finds the member, where it comes to it. -/
theorem maskMembers_member (hm : m.Plain) {d : List Char} (hlo : 5 ≤ d.length)
    (hhi : d.length ≤ 15) (hd : ∀ c ∈ d, c.isDigit = true) (t : List Char) :
    maskMembers (m.member d ++ t) = jsonFormatter (m.member d) ++ maskMembers t := by
  have hlength : matchLength userJsonRegExp (m.member d ++ t) = (m.member d).length :=
    matchLength_eq_of_unique (member_mem_lang hm hlo hhi hd) fun w hw => eq_member_of_word hm hd hw
  have hpos : 0 < matchLength userJsonRegExp (m.member d ++ t) := by
    rw [hlength, member, head]
    exact Nat.zero_lt_succ _
  rw [maskMembers, replaceAll_match hpos, hlength, List.take_left, List.drop_left]
  rfl

/-- The digits of the member are masked from the first one on. -/
theorem jsonFormatter_member (hm : m.Plain) {d : List Char} (hd : ∀ c ∈ d, c.isDigit = true) :
    jsonFormatter (m.member d) = eraseAll ' ' ('"' :: (m.literal ++ '"' :: m.space₁)) ++
      ':' :: '"' :: (mask 0 d ++ ['"']) := by
  have hname : ':' ∉ '"' :: (m.literal ++ '"' :: m.space₁) := by
    simp only [List.mem_cons, List.mem_append, not_or]
    exact ⟨by decide, m.literal_ne (by decide) (by decide), by decide,
      fun h => absurd (m.space₁_white ':' h) (by decide)⟩
  have hvalue : ':' ∉ m.space₂ ++ '"' :: (d ++ ['"']) := by
    simp only [List.mem_cons, List.mem_append, List.not_mem_nil, or_false, not_or]
    exact ⟨fun h => absurd (m.space₂_white ':' h) (by decide), by decide,
      fun h => absurd (hd ':' h) (by decide), by decide⟩
  have hsplit : m.member d = ('"' :: (m.literal ++ '"' :: m.space₁)) ++
      ':' :: (m.space₂ ++ '"' :: (d ++ ['"'])) := by simp [member, head]
  have hspace : eraseAll ' ' m.space₂ = [] :=
    List.filter_eq_nil_iff.2 fun c hc => by simp [hm.space₂_eq c hc]
  have hdigits : ∀ {c : Char}, c.isDigit = false → eraseAll c d = d := fun {c} hc =>
    List.filter_eq_self.2 fun e he => bne_iff_ne.2 fun heq => by
      rw [← heq, hd e he] at hc
      exact Bool.noConfusion hc
  have herase : eraseAll ' ' (m.space₂ ++ '"' :: (d ++ ['"'])) = '"' :: (d ++ ['"']) := by
    have hd' := hdigits (c := ' ') (by decide)
    rw [eraseAll] at hspace hd' ⊢
    rw [List.filter_append, hspace, List.filter_cons_of_pos (by decide), List.filter_append, hd']
    rfl
  have herase' : eraseAll '"' ('"' :: (d ++ ['"'])) = d := by
    have hd' := hdigits (c := '"') (by decide)
    rw [eraseAll] at hd' ⊢
    rw [List.filter_cons_of_neg (by decide), List.filter_append, hd']
    simp
  rw [jsonFormatter, hsplit, List.splitOn_append_cons_self, List.splitOn_eq_singleton hname,
    List.splitOn_eq_singleton hvalue]
  simp [herase, herase']

end MemberText

end ProvisioningValidator
