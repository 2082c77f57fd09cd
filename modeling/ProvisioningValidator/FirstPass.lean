import Mathlib
import ProvisioningValidator.MaskedMembers

/-!
# What the first pass leaves to the second one

Mostly the member is as it was. A match of the first pass that goes over the digits masks them, but it
counts from the last hyphen. And one that ends at white space within the member takes the name away
from the second pass.
-/

namespace ProvisioningValidator

open Lib Lib.Regex

/-! ## What the first pass leaves -/

/-- A match of the first pass that takes the first of two parts. -/
theorem anonymizeString_match {a b : List Char} (ha : a ≠ [])
    (h : matchLength userRegExp (a ++ b) = a.length) :
    anonymizeString (a ++ b) = formatter a ++ anonymizeString b := by
  have hpos : 0 < matchLength userRegExp (a ++ b) := h ▸ List.length_pos_iff.2 ha
  rw [anonymizeString, replaceAll_match hpos, h, List.take_left, List.drop_left]
  rfl

/-- Of the last two characters behind a hyphen, one is masked. -/
theorem exists_mask_star (n : ℕ) {t : List Char} (ht : t ≠ []) (e : Char) :
    ∃ a z, mask n (t ++ [e]) = a ++ '*' :: z ∧ (z = [] ∨ z = [e]) := by
  obtain ⟨t, c, rfl⟩ := (List.eq_nil_or_concat' t).resolve_left ht
  rw [List.append_assoc, mask_append, List.cons_append, List.nil_append, mask_cons, mask_cons,
    mask_nil]
  by_cases heven : (n + t.length) % 2 = 0
  · have hodd : ¬ (n + t.length + 1) % 2 = 0 := by omega
    rw [if_pos heven, if_neg hodd]
    exact ⟨_, [e], rfl, .inr rfl⟩
  · have hnext : (n + t.length + 1) % 2 = 0 := by omega
    rw [if_neg heven, if_pos hnext]
    exact ⟨mask n t ++ [c], [], by simp, .inl rfl⟩

namespace MemberText

variable (m : MemberText)

/-- The member as it was, and what the first pass makes of the rest. -/
def shown (d : List Char) : List Char := m.head ++ '"' :: (d ++ '"' :: anonymizeString m.after)

/-- **What the first pass leaves**, for two lists of digits. -/
inductive FirstPass (d d' : List Char) : Prop
  /-- The member is as it was. -/
  | untouched (p : List Char) (b : Char) (hb : b = '{' ∨ b = ',' ∨ b = '*')
      (hreach : Reaches userRegExp (m.text d) (m.fromMember d))
      (h : anonymizeString (m.text d) = p ++ b :: (m.space₀ ++ m.shown d))
      (h' : anonymizeString (m.text d') = p ++ b :: (m.space₀ ++ m.shown d'))
  /-- The digits are in a match, `t` and a quote behind something that has a hyphen. -/
  | covered (x q t z y : List Char) (hq : '-' ∈ q) (ht : '-' ∉ t)
      (hmember : ∃ u, Covers userRegExp (m.text d) u (m.fromMember d))
      (hdigits : Covers userRegExp (m.text d) (q ++ (t ++ ['"'])) (m.fromDigits d))
      (h : anonymizeString (m.text d) =
        x ++ (formatter (q ++ ((t ++ '"' :: d) ++ '"' :: z)) ++ y))
      (h' : anonymizeString (m.text d') =
        x ++ (formatter (q ++ ((t ++ '"' :: d') ++ '"' :: z)) ++ y))
  /-- The name is in a match, and the digits are behind it. -/
  | torn (x z : List Char) (hz : Idle z)
      (hmember : ∃ u, Covers userRegExp (m.text d) u (m.fromMember d))
      (hreach : Reaches userRegExp (m.text d) (m.fromDigits d))
      (h : anonymizeString (m.text d) =
        x ++ '*' :: (z ++ '"' :: (d ++ '"' :: anonymizeString m.after)))
      (h' : anonymizeString (m.text d') =
        x ++ '*' :: (z ++ '"' :: (d' ++ '"' :: anonymizeString m.after)))

section

variable {m} {d : List Char}

/-- The search goes over the member without a match, where it comes to a part before it that has no
hyphen. -/
theorem reaches_fromMember (hd : ∀ c ∈ d, c.isDigit = true) {x : List Char} (hx : '-' ∉ x) :
    Reaches userRegExp (x ++ m.fromMember d) (m.fromMember d) := by
  refine Reaches.append fun u v huv _ => ?_
  have hfree : '-' ∉ v ++ (m.head ++ '"' :: d) := by
    simp only [List.mem_append, List.mem_cons, not_or]
    exact ⟨fun h => hx (huv ▸ List.mem_append_right u h), m.hyphen_head, by decide,
      hyphen_digits hd⟩
  have hnone := user_none hfree m.after
  simp only [List.append_assoc, List.cons_append] at hnone
  exact hnone

theorem reaches_fromDigits (hd : ∀ c ∈ d, c.isDigit = true) {x : List Char} (hx : '-' ∉ x) :
    Reaches userRegExp (x ++ '"' :: m.fromDigits d) (m.fromDigits d) := by
  have hsplit : x ++ '"' :: m.fromDigits d = (x ++ ['"']) ++ m.fromDigits d := by simp
  rw [hsplit]
  refine Reaches.append fun u v huv _ => ?_
  have hfree : '-' ∉ v ++ d := by
    rw [List.mem_append, not_or]
    refine ⟨fun h => ?_, hyphen_digits hd⟩
    have hmem : '-' ∈ x ++ ['"'] := huv ▸ List.mem_append_right u h
    rcases List.mem_append.1 hmem with h | h
    · exact hx h
    · exact absurd h (by decide)
  have hnone := user_none hfree m.after
  rwa [List.append_assoc] at hnone

theorem anonymizeString_fromDigits (hd : ∀ c ∈ d, c.isDigit = true) {x : List Char}
    (hx : '-' ∉ x) : anonymizeString (x ++ '"' :: m.fromDigits d) =
      x ++ '"' :: (d ++ '"' :: anonymizeString m.after) := by
  have hfree : '-' ∉ x ++ '"' :: d := by
    simp only [List.mem_append, List.mem_cons, not_or]
    exact ⟨hx, by decide, hyphen_digits hd⟩
  have hcopy := user_copy hfree m.after
  rw [anonymizeString_quote] at hcopy
  simp only [List.append_assoc, List.cons_append] at hcopy
  exact hcopy

theorem fromMember_apart {d' : List Char} (hlength : d.length = d'.length)
    (hd : ∀ c ∈ d, c.isDigit = true) (hd' : ∀ c ∈ d', c.isDigit = true) :
    DigitsApart (m.fromMember d) (m.fromMember d') :=
  ((digitsApart_append (forall₂_digits hlength hd hd') (hyphen_digits hd) (hyphen_digits hd')
    (by simp)).same).append m.head

/-- A match that ends at white space in the member has masked a character shortly before, and what
is left before the digits is copied by the second pass. -/
theorem idle_behind_torn {q b h : List Char} {c : Char} (hq : '-' ∈ q) (hc : isSpace c = true)
    (hhead : m.head = b ++ c :: h) :
    ∃ x z, formatter (q ++ (m.opening :: (m.space₀ ++ b))) ++ c :: h = x ++ '*' :: z ∧ Idle z := by
  have hname : c ∉ '"' :: (m.literal ++ ['"']) := by
    intro hmem
    simp only [List.mem_cons, List.mem_append, List.not_mem_nil, or_false] at hmem
    rcases hmem with rfl | hmem | rfl
    · exact absurd hc (by decide)
    · rcases m.literal_chars c hmem with h | rfl
      · exact Bool.noConfusion ((not_alphanum_of_isSpace hc).symm.trans h)
      · exact absurd hc (by decide)
    · exact absurd hc (by decide)
  rw [head_eq] at hhead
  obtain ⟨y, hcolon, rfl⟩ := cons_of_append hname hhead
  have hrest : '"' ∉ c :: h := fun hmem =>
    m.colon_ne (by decide) (by decide) (hcolon ▸ List.mem_append_right y hmem)
  have halpha : c.isAlpha = false :=
    (Bool.or_eq_false_iff.1 (not_alphanum_of_isSpace hc)).1
  generalize hname' : '"' :: (m.literal ++ ['"']) = name at *
  have hfree : '-' ∉ m.opening :: (m.space₀ ++ (name ++ y)) := by
    intro hmem
    rw [← List.cons_append, List.mem_append] at hmem
    rcases hmem with hmem | hmem
    · exact m.hyphen_opening hmem
    · refine m.hyphen_head ?_
      rw [head_eq, hname', hcolon, ← List.append_assoc]
      exact List.mem_append_left _ hmem
  -- The last character that the match has taken.
  have hlast : ∃ t e, t ≠ [] ∧ m.opening :: (m.space₀ ++ (name ++ y)) = t ++ [e] ∧
      (e = '"' ∨ e ∈ m.colon) := by
    rcases List.eq_nil_or_concat' y with rfl | ⟨y, e, rfl⟩
    · refine ⟨m.opening :: (m.space₀ ++ '"' :: m.literal), '"', List.cons_ne_nil _ _, ?_, .inl rfl⟩
      rw [← hname']
      simp
    · refine ⟨m.opening :: (m.space₀ ++ (name ++ y)), e, List.cons_ne_nil _ _, by simp, .inr ?_⟩
      rw [hcolon]
      simp
  obtain ⟨t, e, ht, heq, hkind⟩ := hlast
  obtain ⟨a, z, hmask, hz⟩ := exists_mask_star (behindHyphen q).length ht e
  have hformat := formatter_append hq hfree []
  rw [List.append_nil, maskRest_nil, List.append_nil, heq, hmask] at hformat
  refine ⟨formatter q ++ a, z ++ c :: h, ?_, ?_⟩
  · rw [heq, hformat]
    simp
  · rcases hz with rfl | rfl
    · exact idle_of_not_mem hrest
    · by_cases hquote : e = '"'
      · rw [hquote]
        exact idle_quote halpha hrest
      · refine idle_of_not_mem fun hmem => ?_
        rcases List.mem_cons.1 hmem with hmem | hmem
        · exact hquote hmem.symm
        · exact hrest hmem

/-- A match into the member begins with letters and a hyphen before it. -/
theorem hyphen_of_match {q y : List Char}
    (h : ∃ a b, q ++ m.opening :: y = a ++ '-' :: b ∧ ∀ c ∈ a, c.isAlpha = true) : '-' ∈ q := by
  obtain ⟨a, b, hab, ha⟩ := h
  by_contra hq
  obtain ⟨x, hx, rfl⟩ := cons_of_append hq hab
  have hopening : m.opening ≠ '-' ∧ m.opening.isAlpha = false := by
    rcases m.opening_eq with h | h <;> rw [h] <;> decide
  cases x with
  | nil => exact hopening.1 (List.cons.inj hx).1
  | cons c x =>
    have halpha := ha c (List.mem_append_right q List.mem_cons_self)
    rw [← (List.cons.inj hx).1, hopening.2] at halpha
    exact Bool.noConfusion halpha

/-- Such a match goes on to the end of the text or to white space. -/
theorem endsAtSpace_of_match {q y t : List Char}
    (h : (∀ c ∈ q ++ m.opening :: y, c.isAlphanum = true ∨ c = '-') ∨
      EndsAtSpace (q ++ m.opening :: y) t) : EndsAtSpace (q ++ m.opening :: y) t := by
  refine h.resolve_left fun hall => ?_
  have hopening := hall m.opening (List.mem_append_right q List.mem_cons_self)
  rcases m.opening_eq with ho | ho <;> rw [ho] at hopening <;> exact absurd hopening (by decide)

/-- What it ends before is white space. -/
theorem isSpace_of_endsAtSpace {w t : List Char} {c : Char} (h : EndsAtSpace w (c :: t)) :
    isSpace c = true := by
  rcases h with h | ⟨⟨c', hc, hspace⟩, -⟩
  · cases h
  · rwa [Option.some.inj hc]

theorem not_endsAtSpace_quote {w t : List Char} : ¬ EndsAtSpace w ('"' :: t) := fun h =>
  absurd (isSpace_of_endsAtSpace h) (by decide)

/-- A match that ends behind the name and the colon has taken the digits and the quotes. -/
theorem digits_of_endsAtSpace (hd : ∀ c ∈ d, c.isDigit = true) {w z t : List Char}
    (hend : EndsAtSpace w t) (hz : '"' :: m.fromDigits d = z ++ t) :
    ∃ z', z = '"' :: (d ++ '"' :: z') ∧ m.after = z' ++ t := by
  have hrest : ∀ {z : List Char}, '"' :: m.after = z ++ t → ∃ z', z = '"' :: z' ∧
      m.after = z' ++ t := by
    intro z h
    cases z with
    | nil =>
      rw [List.nil_append] at h
      exact absurd (h ▸ hend) not_endsAtSpace_quote
    | cons c z =>
      obtain ⟨hc, h⟩ := List.cons.inj h
      exact ⟨z, by rw [hc], h⟩
  cases z with
  | nil =>
    rw [List.nil_append] at hz
    exact absurd (hz ▸ hend) not_endsAtSpace_quote
  | cons c z =>
    obtain ⟨hc, hz⟩ := List.cons.inj hz
    rcases List.append_eq_append_iff.1 hz with ⟨y, rfl, hy⟩ | ⟨y, hdy, rfl⟩
    · obtain ⟨z', rfl, hafter⟩ := hrest hy
      exact ⟨z', by rw [hc], hafter⟩
    · cases y with
      | nil => exact absurd hend not_endsAtSpace_quote
      | cons c' y =>
        have hdigit := hd c' (hdy ▸ List.mem_append_right z List.mem_cons_self)
        exact absurd (isSpace_of_endsAtSpace hend) (by rw [isSpace_digit hdigit]; decide)

/-- A match that ends before the member ends at the brace or comma. -/
theorem nil_of_endsAtSpace {w y a s : List Char} (ha : m.space₀ = y ++ a) (hs : s ≠ [])
    (hend : EndsAtSpace (w ++ y) (a ++ s)) : y = [] := by
  rcases hend with h | ⟨-, c, hc, hspace⟩
  · exact absurd (List.append_eq_nil_iff.1 h).2 hs
  · by_contra hne
    rw [List.getLast?_append_of_ne_nil _ hne, List.getLast?_eq_some_getLast hne] at hc
    have hmem : c ∈ y := Option.some.inj hc ▸ List.getLast_mem hne
    have hwhite := m.space₀_white c (ha ▸ List.mem_append_left a hmem)
    exact Bool.noConfusion (hspace.symm.trans (isSpace_of_isWhitespace hwhite))

/-- What the first pass finds if a match that began at `q`, before the member, goes on. -/
theorem exists_match {q s : List Char}
    (hlt : q.length < matchLength userRegExp (q ++ m.opening :: s)) :
    ∃ y t, s = y ++ t ∧ '-' ∈ q ∧ EndsAtSpace (q ++ m.opening :: y) t ∧
      matchLength userRegExp (q ++ m.opening :: s) = (q ++ m.opening :: y).length := by
  obtain ⟨k, hk⟩ := Nat.exists_eq_add_of_lt hlt
  rw [Nat.add_assoc] at hk
  obtain ⟨hhyphen, hend⟩ := user_match (lt_of_le_of_lt (Nat.zero_le _) hlt)
  rw [hk, List.take_length_add_append, List.take_succ_cons] at hhyphen
  rw [hk, List.take_length_add_append, List.take_succ_cons, List.drop_length_add_append,
    List.drop_succ_cons] at hend
  have hle := matchLength_le (r := userRegExp) (q ++ m.opening :: s)
  rw [hk, List.length_append, List.length_cons] at hle
  refine ⟨s.take k, s.drop k, (List.take_append_drop k s).symm, hyphen_of_match hhyphen,
    endsAtSpace_of_match hend, ?_⟩
  rw [hk, List.length_append, List.length_cons, List.length_take, min_eq_left (by omega)]

/-- The search of two texts comes to `q`, before the member, and finds a match there that has taken
the brace or comma. -/
structure Enters (m : MemberText) (d d' x q : List Char) : Prop where
  hyphen : '-' ∈ q
  reaches : Reaches userRegExp (m.text d) (q ++ m.opening :: (m.space₀ ++ m.fromMember d))
  alike : matchLength userRegExp (q ++ m.opening :: (m.space₀ ++ m.fromMember d)) =
    matchLength userRegExp (q ++ m.opening :: (m.space₀ ++ m.fromMember d'))
  eq : anonymizeString (m.text d) =
    x ++ anonymizeString (q ++ m.opening :: (m.space₀ ++ m.fromMember d))
  eq' : anonymizeString (m.text d') =
    x ++ anonymizeString (q ++ m.opening :: (m.space₀ ++ m.fromMember d'))

namespace Enters

variable {d' x q : List Char}

/-- The match has taken `y` behind the brace in one text, and as much in the other one. -/
theorem take (h : m.Enters d d' x q) {y y' t t' : List Char}
    (hy : m.space₀ ++ m.fromMember d = y ++ t) (hy' : m.space₀ ++ m.fromMember d' = y' ++ t')
    (hlength : y.length = y'.length)
    (hmatch : matchLength userRegExp (q ++ m.opening :: (m.space₀ ++ m.fromMember d)) =
      (q ++ m.opening :: y).length) :
    anonymizeString (m.text d) = x ++ (formatter (q ++ m.opening :: y) ++ anonymizeString t) ∧
    anonymizeString (m.text d') = x ++ (formatter (q ++ m.opening :: y') ++ anonymizeString t') ∧
    Reaches userRegExp (m.text d) t ∧
    ∀ u v, y = u ++ v → v ≠ [] → Covers userRegExp (m.text d) (q ++ m.opening :: u) (v ++ t) := by
  have hsplit : ∀ y t : List Char, q ++ m.opening :: (y ++ t) = (q ++ m.opening :: y) ++ t := by
    intro y t
    simp
  have hne : ∀ y : List Char, q ++ m.opening :: y ≠ [] := by simp
  have heq := h.eq
  have heq' := h.eq'
  have hreach := h.reaches
  have halike := h.alike
  rw [hy] at heq hreach halike hmatch
  rw [hy'] at heq' halike
  rw [hsplit] at heq hreach halike hmatch
  rw [hsplit] at heq' halike
  have hmatch' : matchLength userRegExp (q ++ m.opening :: y' ++ t') =
      (q ++ m.opening :: y').length := by
    rw [← halike, hmatch]
    simp [hlength]
  refine ⟨?_, ?_, ?_, ?_⟩
  · rw [heq, anonymizeString_match (hne y) hmatch]
  · rw [heq', anonymizeString_match (hne y') hmatch']
  · refine hreach.trans (.jump (hmatch ▸ List.length_pos_iff.2 (hne y)) ?_)
    rw [hmatch, List.drop_left]
    exact .here t
  · intro u v huv hv
    have hwhole : q ++ m.opening :: u ++ (v ++ t) = q ++ m.opening :: y ++ t := by
      rw [huv]
      simp
    refine ⟨hwhole ▸ hreach, ?_⟩
    rw [hwhole, hmatch, huv]
    have hpos : 0 < v.length := List.length_pos_iff.2 hv
    simp
    omega

/-- A match that ends behind the brace or comma leaves the member as it was. -/
theorem before (h : m.Enters d d' x q) (hd : ∀ c ∈ d, c.isDigit = true)
    (hd' : ∀ c ∈ d', c.isDigit = true)
    (hmatch : matchLength userRegExp (q ++ m.opening :: (m.space₀ ++ m.fromMember d)) =
      (q ++ [m.opening]).length) : m.FirstPass d d' := by
  obtain ⟨heq, heq', hreach, -⟩ := h.take (List.nil_append _).symm
    (List.nil_append _).symm rfl hmatch
  have hspace : '-' ∉ m.space₀ := fun hmem => m.hyphen_opening (List.mem_cons_of_mem _ hmem)
  have hopening : '-' ∉ [m.opening] := fun hmem =>
    m.hyphen_opening (List.mem_cons.2 (.inl (List.mem_singleton.1 hmem)))
  have hformat := formatter_append h.hyphen hopening []
  rw [List.append_nil, maskRest_nil, List.append_nil, mask_cons, mask_nil] at hformat
  rw [anonymizeString_fromMember m hd hspace, hformat] at heq
  rw [anonymizeString_fromMember m hd' hspace, hformat] at heq'
  refine .untouched (x ++ formatter q)
    (if (behindHyphen q).length % 2 = 0 then '*' else m.opening) ?_
    (hreach.trans (reaches_fromMember hd hspace)) ?_ ?_
  · split_ifs
    · exact .inr (.inr rfl)
    · exact m.opening_eq.imp_right .inl
  · rw [heq]
    simp [shown]
  · rw [heq']
    simp [shown]

/-- A match that goes on behind the digits. -/
theorem beyond (h : m.Enters d d' x q) (hlength : d.length = d'.length) {z t : List Char}
    (hafter : m.after = z ++ t)
    (hmatch : matchLength userRegExp (q ++ m.opening :: (m.space₀ ++ m.fromMember d)) =
      (q ++ m.opening :: (m.space₀ ++ (m.head ++ '"' :: (d ++ '"' :: z)))).length) :
    m.FirstPass d d' := by
  have hsplit : ∀ e : List Char, m.space₀ ++ m.fromMember e =
      (m.space₀ ++ (m.head ++ '"' :: (e ++ '"' :: z))) ++ t := by
    intro e
    simp [fromMember, fromDigits, hafter]
  obtain ⟨heq, heq', -, hcovers⟩ := h.take (hsplit d) (hsplit d') (by simp [hlength]) hmatch
  have hfree : '-' ∉ m.opening :: (m.space₀ ++ m.head) := by
    rw [← List.cons_append, List.mem_append, not_or]
    exact ⟨m.hyphen_opening, m.hyphen_head⟩
  refine .covered x q (m.opening :: (m.space₀ ++ m.head)) z (anonymizeString t) h.hyphen hfree
    ⟨q ++ m.opening :: m.space₀, ?_⟩ ?_ ?_ ?_
  · have hmember := hcovers m.space₀ (m.head ++ '"' :: (d ++ '"' :: z)) rfl (by simp)
    simpa [fromMember, fromDigits, hafter] using hmember
  · have hdigits := hcovers (m.space₀ ++ (m.head ++ ['"'])) (d ++ '"' :: z) (by simp) (by simp)
    simpa [fromDigits, hafter] using hdigits
  · rw [heq]
    simp
  · rw [heq']
    simp

/-- A match that ends at white space in the member. -/
theorem within (h : m.Enters d d' x q) (hd : ∀ c ∈ d, c.isDigit = true)
    (hd' : ∀ c ∈ d', c.isDigit = true) {b s : List Char} {c : Char} (hc : isSpace c = true)
    (hhead : m.head = b ++ c :: s) (hb : b ≠ [])
    (hmatch : matchLength userRegExp (q ++ m.opening :: (m.space₀ ++ m.fromMember d)) =
      (q ++ m.opening :: (m.space₀ ++ b)).length) : m.FirstPass d d' := by
  have hsplit : ∀ e : List Char, m.space₀ ++ m.fromMember e =
      (m.space₀ ++ b) ++ (c :: s ++ '"' :: m.fromDigits e) := by
    intro e
    simp [fromMember, hhead]
  obtain ⟨heq, heq', hreach, hcovers⟩ := h.take (hsplit d) (hsplit d') rfl hmatch
  have hfree : '-' ∉ c :: s := fun hmem =>
    m.hyphen_head (hhead ▸ List.mem_append_right b hmem)
  obtain ⟨a, z, hformat, hz⟩ := idle_behind_torn h.hyphen hc hhead
  have houtput : ∀ e : List Char, (∀ c ∈ e, c.isDigit = true) →
      x ++ (formatter (q ++ m.opening :: (m.space₀ ++ b)) ++
        anonymizeString (c :: s ++ '"' :: m.fromDigits e)) =
      (x ++ a) ++ '*' :: (z ++ '"' :: (e ++ '"' :: anonymizeString m.after)) := by
    intro e he
    rw [anonymizeString_fromDigits he hfree, ← List.append_assoc (formatter _), hformat]
    simp
  refine .torn (x ++ a) z hz ⟨q ++ m.opening :: m.space₀, ?_⟩ ?_ ?_ ?_
  · have hmember := hcovers m.space₀ b rfl hb
    simpa [fromMember, hhead] using hmember
  · exact hreach.trans (reaches_fromDigits hd hfree)
  · rw [heq, houtput d hd]
  · rw [heq', houtput d' hd']

end Enters

theorem firstPass {d' : List Char} (hlength : d.length = d'.length)
    (hd : ∀ c ∈ d, c.isDigit = true) (hd' : ∀ c ∈ d', c.isDigit = true) : m.FirstPass d d' := by
  have hsame : ∀ q, matchLength userRegExp (q ++ m.fromMember d) =
      matchLength userRegExp (q ++ m.fromMember d') := fun q =>
    blind_userRegExp.matchLength_eq (fun _ _ => DigitsApart.length_eq)
      ((fromMember_apart hlength hd hd').append q)
  have halike : ∀ q, matchLength userRegExp (q ++ m.opening :: (m.space₀ ++ m.fromMember d)) =
      matchLength userRegExp (q ++ m.opening :: (m.space₀ ++ m.fromMember d')) := fun q => by
    have h := hsame (q ++ m.opening :: m.space₀)
    simpa only [List.append_assoc, List.cons_append] using h
  rcases replaceAll_append_alike formatter halike m.before with
    ⟨x, hr, -, hx, hx'⟩ | ⟨q₀, q, x, -, -, hr, -, hlt, hx, hx'⟩
  · -- The search comes to the brace or comma.
    refine .untouched x m.opening (m.opening_eq.imp_right .inl) ?_ ?_ ?_
    · exact hr.trans (reaches_fromMember hd m.hyphen_opening)
    · exact hx.trans (congrArg (x ++ ·) (anonymizeString_fromMember m hd m.hyphen_opening))
    · exact hx'.trans (congrArg (x ++ ·) (anonymizeString_fromMember m hd' m.hyphen_opening))
  · obtain ⟨y, t, hyt, hhyphen, hend, hmatch⟩ := exists_match hlt
    have hentry : m.Enters d d' x q := ⟨hhyphen, hr, halike q, hx, hx'⟩
    rcases List.append_eq_append_iff.1 hyt with ⟨b, rfl, hb⟩ | ⟨a, ha, rfl⟩
    · -- The match goes into the member.
      rcases List.append_eq_append_iff.1 hb with ⟨z, rfl, hz⟩ | ⟨s, hs, rfl⟩
      · obtain ⟨z, rfl, hafter⟩ := digits_of_endsAtSpace hd hend hz
        exact hentry.beyond hlength hafter hmatch
      · have hne : b ≠ [] := by
          intro hb
          rw [hb, List.nil_append] at hs
          rw [← hs] at hend
          exact absurd hend not_endsAtSpace_quote
        cases s with
        | nil => exact absurd hend not_endsAtSpace_quote
        | cons c s => exact hentry.within hd hd' (isSpace_of_endsAtSpace hend) hs hne hmatch
    · -- It ends before the member, and not behind white space.
      have hend' : EndsAtSpace ((q ++ [m.opening]) ++ y) (a ++ m.fromMember d) := by
        simpa using hend
      rw [nil_of_endsAtSpace ha (by simp [fromMember]) hend'] at hmatch
      exact hentry.before hd hd' hmatch

end

end MemberText

end ProvisioningValidator
