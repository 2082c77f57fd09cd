import Mathlib
import ProvisioningValidator.FirstPass

/-!
# Identities in the log

The log is to be the same whatever the digits at even places of an identity are. It is, exactly if the
digits are `Hidden`: by a match of the first pass with the right count, or by the second pass, if it
finds the member.
-/

namespace ProvisioningValidator

open Lib Lib.Regex

namespace MemberText

variable (m : MemberText) (d : List Char)

/-- **When the digits at even places are hidden.** Either a match of the first pass goes over them
and an even number of characters stands between its last hyphen and the first of them; or none goes
over the beginning of the member, its name is written as it is, and only spaces are around the
colon. -/
def Hidden : Prop :=
  (∃ u, Covers userRegExp (m.text d) u (m.fromDigits d) ∧ (behindHyphen u).length % 2 = 0) ∨
  ((∀ u, ¬ Covers userRegExp (m.text d) u (m.fromMember d)) ∧ m.literal = m.name.toList ∧
    (∀ c ∈ m.space₁, c = ' ') ∧ ∀ c ∈ m.space₂, c = ' ')

section

variable {m d} {d' : List Char}

/-- No match begins at the digits. -/
theorem not_covers_of_reaches (hd : ∀ c ∈ d, c.isDigit = true)
    (hreach : Reaches userRegExp (m.text d) (m.fromDigits d)) (u : List Char) :
    ¬ Covers userRegExp (m.text d) u (m.fromDigits d) := by
  intro h
  have hu := h.eq_nil hreach
  have hlt := h.2
  rw [hu, List.nil_append, fromDigits, user_none (hyphen_digits hd)] at hlt
  exact absurd hlt (Nat.not_lt_zero _)

theorem hidden_iff_of_untouched (hd : ∀ c ∈ d, c.isDigit = true)
    (hreach : Reaches userRegExp (m.text d) (m.fromMember d)) : m.Hidden d ↔ m.Plain := by
  have hdigits : Reaches userRegExp (m.text d) (m.fromDigits d) :=
    hreach.trans (reaches_fromDigits hd m.hyphen_head)
  have hnone : ∀ u, ¬ Covers userRegExp (m.text d) u (m.fromMember d) := by
    intro u h
    have hu := h.eq_nil hreach
    have hlt := h.2
    have hzero := user_none (x := []) List.not_mem_nil
      (m.literal ++ '"' :: (m.space₁ ++ ':' :: m.space₂) ++ '"' :: m.fromDigits d)
    rw [hu, List.nil_append, fromMember, head] at hlt
    exact absurd hlt (by rw [List.cons_append, ← List.nil_append (_ :: _), hzero]; simp)
  constructor
  · intro h
    rcases h with ⟨u, hu, -⟩ | ⟨-, hliteral, h₁, h₂⟩
    · exact absurd hu (not_covers_of_reaches hd hdigits u)
    · exact ⟨hliteral, h₁, h₂⟩
  · intro h
    exact .inr ⟨hnone, h.literal_eq, h.space₁_eq, h.space₂_eq⟩

theorem hidden_iff_of_covered {u : List Char}
    (hmember : ∃ u, Covers userRegExp (m.text d) u (m.fromMember d))
    (hdigits : Covers userRegExp (m.text d) u (m.fromDigits d)) :
    m.Hidden d ↔ (behindHyphen u).length % 2 = 0 := by
  obtain ⟨v, hv⟩ := hmember
  constructor
  · intro h
    rcases h with ⟨u', hu', heven⟩ | ⟨hnone, -⟩
    · rwa [hdigits.unique hu']
    · exact absurd hv (hnone v)
  · intro h
    exact .inl ⟨u, hdigits, h⟩

theorem not_hidden_of_torn (hd : ∀ c ∈ d, c.isDigit = true)
    (hmember : ∃ u, Covers userRegExp (m.text d) u (m.fromMember d))
    (hreach : Reaches userRegExp (m.text d) (m.fromDigits d)) : ¬ m.Hidden d := by
  intro h
  obtain ⟨v, hv⟩ := hmember
  rcases h with ⟨u, hu, -⟩ | ⟨hnone, -⟩
  · exact not_covers_of_reaches hd hreach u hu
  · exact hnone v hv

theorem idle_quote_colon (m : MemberText) : Idle ('"' :: m.colon) := by
  have hfree : '"' ∉ m.colon := m.colon_ne (by decide) (by decide)
  have hcons : ∃ c l, m.colon = c :: l := List.exists_cons_of_ne_nil (by simp [colon])
  obtain ⟨c, l, hcolon⟩ := hcons
  have halpha : c.isAlpha = false := by
    rcases m.colon_chars c (hcolon ▸ List.mem_cons_self) with h | h
    · exact (Bool.or_eq_false_iff.1 (not_alphanum_of_isSpace (isSpace_of_isWhitespace h))).1
    · rw [h]
      decide
  rw [hcolon] at hfree ⊢
  exact idle_quote halpha hfree

/-- A member that the second pass does not look for has a character before the digits that is in no
match. -/
theorem exists_border (hm : ¬ m.Plain) :
    ∃ h b z, m.head = h ++ b :: z ∧ ¬ JsonChar b ∧ Idle z := by
  have hquote : ∀ {space : List Char}, (∀ c ∈ space, c.isWhitespace = true) → '"' ∉ space :=
    fun h hmem => absurd (h '"' hmem) (by decide)
  have hborder : ∀ {c : Char}, c.isWhitespace = true → c ≠ ' ' → ¬ JsonChar c := by
    intro c hc hne
    simp only [Char.isWhitespace, Bool.or_eq_true, decide_eq_true_eq] at hc
    rcases hc with ((h | h) | h) | h
    · exact absurd h hne
    · rw [h]
      decide
    · rw [h]
      decide
    · rw [h]
      decide
  by_cases hescape : '\\' ∈ m.literal
  · -- Behind the backslash stand letters and digits, a quote, and then no letter.
    obtain ⟨a, z, hliteral⟩ := List.append_of_mem hescape
    have hz : '"' ∉ z := fun hmem => m.literal_ne (by decide) (by decide)
      (hliteral ▸ List.mem_append_right a (List.mem_cons_of_mem _ hmem))
    refine ⟨'"' :: a, '\\', z ++ '"' :: m.colon, by simp [head, colon, hliteral], by decide, ?_⟩
    exact (m.idle_quote_colon).append hz
  · have hliteral := m.literal_spells.eq_of_not_mem hescape
    by_cases h₁ : ∀ c ∈ m.space₁, c = ' '
    · by_cases h₂ : ∀ c ∈ m.space₂, c = ' '
      · exact absurd ⟨hliteral, h₁, h₂⟩ hm
      · simp only [not_forall] at h₂
        obtain ⟨c, hc, hne⟩ := h₂
        obtain ⟨a, z, hspace⟩ := List.append_of_mem hc
        refine ⟨'"' :: (m.literal ++ '"' :: (m.space₁ ++ ':' :: a)), c, z, by simp [head, hspace],
          hborder (m.space₂_white c hc) hne, idle_of_not_mem fun hmem => ?_⟩
        exact hquote m.space₂_white (hspace ▸ List.mem_append_right a (List.mem_cons_of_mem c hmem))
    · simp only [not_forall] at h₁
      obtain ⟨c, hc, hne⟩ := h₁
      obtain ⟨a, z, hspace⟩ := List.append_of_mem hc
      refine ⟨'"' :: (m.literal ++ '"' :: a), c, z ++ ':' :: m.space₂, by simp [head, hspace],
        hborder (m.space₁_white c hc) hne, idle_of_not_mem fun hmem => ?_⟩
      rcases List.mem_append.1 hmem with hmem | hmem
      · exact hquote m.space₁_white
          (hspace ▸ List.mem_append_right a (List.mem_cons_of_mem c hmem))
      · rcases List.mem_cons.1 hmem with hmem | hmem
        · exact absurd hmem (by decide)
        · exact hquote m.space₂_white hmem

/-- The second pass masks a member that it looks for. -/
theorem maskMembers_plain (hm : m.Plain) (hlength : d.length = d'.length) (hlo : 5 ≤ d.length)
    (hhi : d.length ≤ 15) (hd : ∀ c ∈ d, c.isDigit = true) (hd' : ∀ c ∈ d', c.isDigit = true)
    (hodd : ∀ i, i % 2 = 1 → d[i]? = d'[i]?) (p : List Char) {b : Char}
    (hb : b = '{' ∨ b = ',' ∨ b = '*') :
    maskMembers (p ++ b :: (m.space₀ ++ m.shown d)) =
      maskMembers (p ++ b :: (m.space₀ ++ m.shown d')) := by
  have happart : DigitsApart (m.shown d) (m.shown d') :=
    ((digitsApart_append (forall₂_digits hlength hd hd') (hyphen_digits hd) (hyphen_digits hd')
      (by simp)).same).append m.head
  have halike : ∀ q, matchLength userJsonRegExp (q ++ m.shown d) =
      matchLength userJsonRegExp (q ++ m.shown d') := fun q =>
    blind_userJsonRegExp.matchLength_eq (fun _ _ => DigitsApart.length_eq) (happart.append q)
  have hsplit : ∀ e, p ++ b :: (m.space₀ ++ m.shown e) = (p ++ b :: m.space₀) ++ m.shown e := by
    intro e
    simp
  have hshown : ∀ e, m.shown e = m.member e ++ anonymizeString m.after := by
    intro e
    simp [shown, member]
  rw [hsplit, hsplit]
  rcases replaceAll_append_alike jsonFormatter halike (p ++ b :: m.space₀) with
    ⟨x, -, -, hx, hx'⟩ | ⟨q₀, q₁, x, hq, hne, -, -, hlt, -, -⟩
  · have heq : jsonFormatter (m.member d) = jsonFormatter (m.member d') := by
      rw [jsonFormatter_member hm hd, jsonFormatter_member hm hd', mask_eq_of_even rfl hlength hodd]
    calc maskMembers ((p ++ b :: m.space₀) ++ m.shown d)
        = x ++ maskMembers (m.member d ++ anonymizeString m.after) := by rw [← hshown]; exact hx
      _ = x ++ (jsonFormatter (m.member d) ++ maskMembers (anonymizeString m.after)) := by
          rw [maskMembers_member hm hlo hhi hd]
      _ = x ++ maskMembers (m.member d' ++ anonymizeString m.after) := by
          rw [heq, maskMembers_member hm (hlength ▸ hlo) (hlength ▸ hhi) hd']
      _ = maskMembers ((p ++ b :: m.space₀) ++ m.shown d') := by rw [← hshown]; exact hx'.symm
  · -- A match that goes over the beginning of the member.
    have hword := take_mem_lang (lt_of_le_of_lt (Nat.zero_le _) hlt)
    obtain ⟨n, hn⟩ := Nat.exists_eq_add_of_lt hlt
    rw [hn, Nat.add_assoc, List.take_length_add_append, shown, head, List.cons_append,
      List.take_succ_cons] at hword
    refine absurd hword (json_not_over hb m.space₀_white hq hne fun c hc => ?_)
    have hname : ∃ e l, m.name.toList = e :: l := List.exists_cons_of_ne_nil m.name_ne_nil
    obtain ⟨e, l, hname⟩ := hname
    rw [hm.literal_eq, hname] at hc
    cases n with
    | zero => cases hc
    | succ n =>
      rw [← Option.some.inj hc]
      exact m.name_alpha e (hname ▸ List.mem_cons_self)

/-- Where the first pass has left the member as it was. -/
theorem maskMembers_untouched_iff (hlength : d.length = d'.length) (hlo : 5 ≤ d.length)
    (hhi : d.length ≤ 15) (hd : ∀ c ∈ d, c.isDigit = true) (hd' : ∀ c ∈ d', c.isDigit = true)
    (hodd : ∀ i, i % 2 = 1 → d[i]? = d'[i]?) (p : List Char) {b : Char}
    (hb : b = '{' ∨ b = ',' ∨ b = '*') :
    maskMembers (p ++ b :: (m.space₀ ++ m.shown d)) =
      maskMembers (p ++ b :: (m.space₀ ++ m.shown d')) ↔ d = d' ∨ m.Plain := by
  by_cases hm : m.Plain
  · exact iff_of_true (maskMembers_plain hm hlength hlo hhi hd hd' hodd p hb) (.inr hm)
  · obtain ⟨h, c, z, hhead, hc, hz⟩ := exists_border hm
    have hsplit : ∀ e, p ++ b :: (m.space₀ ++ m.shown e) =
        (p ++ b :: (m.space₀ ++ h)) ++ c :: (z ++ '"' :: (e ++ '"' :: anonymizeString m.after)) := by
      intro e
      simp [shown, hhead]
    rw [hsplit, hsplit, maskMembers_shown_iff hc hz _ _ hlength hd hd', or_iff_left hm]

/-- Where a match of the first pass has taken the digits. -/
theorem maskMembers_covered_iff (hlength : d.length = d'.length)
    (hd : ∀ c ∈ d, c.isDigit = true) (hd' : ∀ c ∈ d', c.isDigit = true)
    (hodd : ∀ i, i % 2 = 1 → d[i]? = d'[i]?) {q t : List Char} (hq : '-' ∈ q) (ht : '-' ∉ t)
    (x y z : List Char) :
    maskMembers (x ++ (formatter (q ++ ((t ++ '"' :: d) ++ '"' :: z)) ++ y)) =
      maskMembers (x ++ (formatter (q ++ ((t ++ '"' :: d') ++ '"' :: z)) ++ y)) ↔
    d = d' ∨ (behindHyphen (q ++ (t ++ ['"']))).length % 2 = 0 := by
  have hcount : '-' ∉ t ++ ['"'] := by
    simp only [List.mem_append, List.mem_singleton, not_or]
    exact ⟨ht, by decide⟩
  set n := (behindHyphen q).length + t.length with hn
  have hbehind : (behindHyphen (q ++ (t ++ ['"']))).length = n + 1 := by
    rw [length_behindHyphen_append hcount]
    simp [hn, Nat.add_assoc]
  have hformat : ∀ e : List Char, (∀ c ∈ e, c.isDigit = true) →
      formatter (q ++ ((t ++ '"' :: e) ++ '"' :: z)) =
        (formatter q ++ mask (behindHyphen q).length t) ++
          (if n % 2 = 0 then '*' else '"') ::
            (mask (n + 1) e ++ maskRest (n + 1 + e.length) ('"' :: z)) := by
    intro e he
    have hfree : '-' ∉ t ++ '"' :: e := by
      simp only [List.mem_append, List.mem_cons, not_or]
      exact ⟨ht, by decide, hyphen_digits he⟩
    rw [formatter_append hq hfree, mask_append, mask_cons]
    simp [hn, Nat.add_assoc, Nat.add_comm 1]
  rw [hbehind, hformat d hd, hformat d' hd', ← hlength]
  by_cases heven : (n + 1) % 2 = 0
  · rw [mask_eq_of_even heven hlength hodd]
    exact iff_of_true rfl (.inr heven)
  · -- The quote is masked, and with it all that the second pass could find.
    have hstar : n % 2 = 0 := by omega
    rw [if_pos hstar, or_iff_left heven]
    set w := maskRest (n + 1 + d.length) ('"' :: z) ++ y with hw
    have hhead : w.head? ≠ some '-' := by
      have hrest := maskRest_append (x := ['"']) (by decide) (n + 1 + d.length) z
      rw [List.cons_append, List.nil_append, mask_cons] at hrest
      rw [hw, hrest]
      split_ifs <;> simp
    have hfree : ∀ {c : Char} {e : List Char}, c ≠ '*' → c ∉ e → c ∉ mask (n + 1) e :=
      fun hc he hmem => (mem_mask hmem).elim hc he
    have happart : DigitsApart (mask (n + 1) d ++ w) (mask (n + 1) d' ++ w) :=
      digitsApart_append (forall₂_mask (forall₂_digits hlength hd hd') (n + 1))
        (hfree (by decide) (hyphen_digits hd)) (hfree (by decide) (hyphen_digits hd')) hhead
    obtain ⟨x', hx, hx'⟩ := maskMembers_border (b := '*') (by decide)
      (x ++ (formatter q ++ mask (behindHyphen q).length t)) happart
    have hsplit : ∀ e, x ++ ((formatter q ++ mask (behindHyphen q).length t) ++ '*' ::
        (mask (n + 1) e ++ maskRest (n + 1 + d.length) ('"' :: z)) ++ y) =
        (x ++ (formatter q ++ mask (behindHyphen q).length t)) ++ '*' :: (mask (n + 1) e ++ w) := by
      intro e
      simp [hw]
    rw [hsplit, hsplit, hx, hx', maskMembers_copy (hfree (by decide) (quote_digits hd)),
      maskMembers_copy (hfree (by decide) (quote_digits hd'))]
    constructor
    · intro h
      refine eq_of_mask_odd (n := n + 1) (by omega) hodd ?_
      exact List.append_cancel_right (List.cons.inj (List.append_cancel_left h)).2
    · intro h
      rw [h]

/-- **The logged text does not depend on the digits at even places**, exactly if they are hidden. -/
theorem digits_hidden_iff (m : MemberText) (d d' : List Char) (hlength : d.length = d'.length)
    (hlo : 5 ≤ d.length) (hhi : d.length ≤ 15) (hd : ∀ c ∈ d, c.isDigit = true)
    (hd' : ∀ c ∈ d', c.isDigit = true) (hodd : ∀ i, i % 2 = 1 → d[i]? = d'[i]?) :
    anonymizeJson (m.text d) = anonymizeJson (m.text d') ↔ d = d' ∨ m.Hidden d := by
  show maskMembers (anonymizeString (m.text d)) = maskMembers (anonymizeString (m.text d')) ↔ _
  cases firstPass (m := m) hlength hd hd' with
  | untouched p b hb hreach h h' =>
    rw [h, h', maskMembers_untouched_iff hlength hlo hhi hd hd' hodd p hb,
      hidden_iff_of_untouched hd hreach]
  | covered x q t z y hq ht hmember hdigits h h' =>
    rw [h, h', maskMembers_covered_iff hlength hd hd' hodd hq ht,
      hidden_iff_of_covered hmember hdigits]
  | torn x z hz hmember hreach h h' =>
    rw [h, h', maskMembers_shown_iff (by decide) hz x _ hlength hd hd',
      or_iff_left (not_hidden_of_torn hd hmember hreach)]

/-- A body with an `imsi`, and this white space behind the colon. -/
def imsiBody (space : Char) (hspace : space.isWhitespace = true) : MemberText where
  before := []
  opening := '{'
  space₀ := []
  name := "imsi"
  literal := "imsi".toList
  space₁ := []
  space₂ := [space]
  after := ['}']
  opening_eq := .inl rfl
  space₀_white := nofun
  name_mem := List.mem_cons_self
  literal_spells := .plain (.plain (.plain (.plain .nil)))
  space₁_white := nofun
  space₂_white := List.forall_mem_singleton.2 hspace

/-- The first digit is hidden behind a space: the text is logged the same with another one. -/
theorem digits_hidden_behind_space : (imsiBody ' ' rfl).Hidden "12345".toList := by
  have hodd : ∀ i, i % 2 = 1 → "12345".toList[i]? = "92345".toList[i]? := by
    intro i hi
    cases i with
    | zero => cases hi
    | succ i => rfl
  have hiff := digits_hidden_iff (imsiBody ' ' rfl) "12345".toList "92345".toList rfl (by decide)
    (by decide) (by simp) (by simp) hodd
  exact (hiff.1 (by decide +kernel)).resolve_left (by decide)

/-- It is shown behind a tab. -/
theorem digits_shown_behind_tab :
    (imsiBody '\t' rfl).text "12345".toList = "\x7b\"imsi\":\t\"12345\"\x7d".toList ∧
    (imsiBody '\t' rfl).text "92345".toList = "\x7b\"imsi\":\t\"92345\"\x7d".toList ∧
    anonymizeJson "\x7b\"imsi\":\t\"12345\"\x7d".toList ≠
      anonymizeJson "\x7b\"imsi\":\t\"92345\"\x7d".toList := by
  refine ⟨rfl, rfl, ?_⟩
  decide +kernel

end

end MemberText

end ProvisioningValidator
