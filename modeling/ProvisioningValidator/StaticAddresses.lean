import Mathlib
import ProvisioningValidator.Lib.Pieces
import ProvisioningValidator.SubscriptionRules

/-!
# The languages of static addresses

What the expressions for addresses accept, in terms of the pieces of a text:

* `IsIpv4` — four numbers up to 255, with dots between them;
* `IsIpv6` — eight groups with colons between them, or two lists of at most seven groups in all
  with `::` between them;
* `IsIpv6Prefix` — such an address, a slash, and a length up to 128.

For IPv6 two expressions must match. The first bounds the number of pieces but lets them be empty,
the second rules out that `::` comes twice but does not look into the pieces. In the intersection
the pieces of a text are determined (`pieces_unique`), so that what either expression says about
them can be put together.

**Theorem (`static_address_languages`).** The tests accept exactly these languages.
-/

namespace ProvisioningValidator

open Lib Lib.Regex

/-! ## Decimal numbers -/

/-- A number in decimal digits, without leading zeros. -/
def decimal (n : ℕ) : List Char := (toString n).toList

set_option maxRecDepth 4000 in
theorem decimal_eq : ∀ n < 256, decimal n =
    if n < 10 then [Nat.digitChar n]
    else if n < 100 then [Nat.digitChar (n / 10), Nat.digitChar (n % 10)]
    else [Nat.digitChar (n / 100), Nat.digitChar (n / 10 % 10), Nat.digitChar (n % 10)] := by
  decide +kernel

theorem digitChar_le_iff :
    ∀ i < 10, ∀ d < 10, (Nat.digitChar i ≤ Nat.digitChar d ↔ i ≤ d) := by
  decide

theorem exists_digitChar {c : Char} (h₀ : '0' ≤ c) (h₉ : c ≤ '9') :
    ∃ d < 10, c = Nat.digitChar d := by
  have hlow : 48 ≤ c.toNat := h₀
  have hhigh : c.toNat ≤ 57 := h₉
  have hc : c = Char.ofNat c.toNat := (Char.ofNat_toNat c).symm
  refine ⟨c.toNat - 48, by omega, ?_⟩
  rw [hc]
  generalize c.toNat = n at hlow hhigh ⊢
  interval_cases n <;> rfl

/-- A class of digits. -/
theorem mem_lang_digits {i j : ℕ} (hi : i < 10) (hj : j < 10) {w : List Char} :
    w ∈ (range (Nat.digitChar i) (Nat.digitChar j)).lang ↔
      ∃ d, (i ≤ d ∧ d ≤ j) ∧ w = [Nat.digitChar d] := by
  rw [mem_lang_range]
  constructor
  · intro h
    obtain ⟨c, ⟨hlow, hhigh⟩, rfl⟩ := h
    have hzero : Nat.digitChar 0 ≤ Nat.digitChar i := (digitChar_le_iff 0 (by omega) i hi).2 (by omega)
    have hnine : Nat.digitChar j ≤ Nat.digitChar 9 := (digitChar_le_iff j hj 9 (by omega)).2 (by omega)
    obtain ⟨d, hd, rfl⟩ := exists_digitChar (hzero.trans hlow) (hhigh.trans hnine)
    exact ⟨d, ⟨(digitChar_le_iff i hi d hd).1 hlow, (digitChar_le_iff d hd j hj).1 hhigh⟩, rfl⟩
  · intro h
    obtain ⟨d, ⟨hlow, hhigh⟩, rfl⟩ := h
    have hd : d < 10 := by omega
    exact ⟨_, ⟨(digitChar_le_iff i hi d hd).2 hlow, (digitChar_le_iff d hd j hj).2 hhigh⟩, rfl⟩

theorem decimal_of_lt_ten {d : ℕ} (hd : d < 10) : decimal d = [Nat.digitChar d] := by
  rw [decimal_eq d (by omega), if_pos hd]

theorem decimal_two {a b : ℕ} (ha : 1 ≤ a ∧ a ≤ 9) (hb : b ≤ 9) :
    decimal (10 * a + b) = [Nat.digitChar a, Nat.digitChar b] := by
  have hfirst : (10 * a + b) / 10 = a := by omega
  have hlast : (10 * a + b) % 10 = b := by omega
  rw [decimal_eq _ (by omega), if_neg (by omega), if_pos (by omega), hfirst, hlast]

theorem decimal_three {a b c : ℕ} (ha : 1 ≤ a) (hb : b ≤ 9) (hc : c ≤ 9)
    (h : 100 * a + 10 * b + c < 256) :
    decimal (100 * a + 10 * b + c) = [Nat.digitChar a, Nat.digitChar b, Nat.digitChar c] := by
  have hfirst : (100 * a + 10 * b + c) / 100 = a := by omega
  have hsecond : (100 * a + 10 * b + c) / 10 % 10 = b := by omega
  have hlast : (100 * a + 10 * b + c) % 10 = c := by omega
  rw [decimal_eq _ h, if_neg (by omega), if_neg (by omega), hfirst, hsecond, hlast]

/-- The digits of a number of three digits. -/
theorem exists_digits_of_three {n : ℕ} (h : 100 ≤ n) :
    ∃ a b c, 1 ≤ a ∧ b ≤ 9 ∧ c ≤ 9 ∧ n = 100 * a + 10 * b + c :=
  ⟨n / 100, n / 10 % 10, n % 10, by omega, by omega, by omega, by omega⟩

theorem mem_lang_zero_nine {w : List Char} :
    w ∈ (range '0' '9').lang ↔ ∃ d, d ≤ 9 ∧ w = [Nat.digitChar d] := by
  have h := @mem_lang_digits 0 9 (by omega) (by omega) w
  simp only [Nat.zero_le, true_and] at h
  exact h

/-! ## IPv4 -/

/-- Four numbers up to 255, with dots between them. -/
def IsIpv4 (w : List Char) : Prop :=
  ∃ ns : List ℕ, ns.length = 4 ∧ (∀ n ∈ ns, n ≤ 255) ∧ w = ['.'].intercalate (ns.map decimal)

theorem mem_lang_ipv4Number {w : List Char} :
    w ∈ ipv4Number.lang ↔ ∃ n ≤ 255, w = decimal n := by
  have h19 := fun w => @mem_lang_digits 1 9 (by omega) (by omega) w
  have h04 := fun w => @mem_lang_digits 0 4 (by omega) (by omega) w
  have h05 := fun w => @mem_lang_digits 0 5 (by omega) (by omega) w
  rw [ipv4Number, mem_lang_oneOf]
  simp only [List.mem_cons, List.not_mem_nil, or_false, exists_eq_or_imp, exists_eq_left,
    mem_lang_zero_nine]
  constructor
  · intro h
    rcases h with h | h | h | h | h
    · obtain ⟨d, hd, rfl⟩ := h
      exact ⟨d, by omega, (decimal_of_lt_ten (by omega)).symm⟩
    · obtain ⟨x, hx, y, hy, rfl⟩ := mem_lang_seq.1 h
      obtain ⟨a, ha, rfl⟩ := (h19 x).1 hx
      obtain ⟨b, hb, rfl⟩ := mem_lang_zero_nine.1 hy
      exact ⟨10 * a + b, by omega, (decimal_two ha hb).symm⟩
    · obtain ⟨x, hx, y, hy, rfl⟩ := mem_lang_seq.1 h
      obtain ⟨y, hy', z, hz, rfl⟩ := mem_lang_seq.1 hy
      obtain rfl := mem_lang_char.1 hx
      obtain ⟨b, hb, rfl⟩ := mem_lang_zero_nine.1 hy'
      obtain ⟨c, hc, rfl⟩ := mem_lang_zero_nine.1 hz
      have hn := @decimal_three 1 b c (by omega) hb hc (by omega)
      exact ⟨_, by omega, hn.symm⟩
    · obtain ⟨x, hx, y, hy, rfl⟩ := mem_lang_seq.1 h
      obtain ⟨y, hy', z, hz, rfl⟩ := mem_lang_seq.1 hy
      obtain rfl := mem_lang_char.1 hx
      obtain ⟨b, hb, rfl⟩ := (h04 y).1 hy'
      obtain ⟨c, hc, rfl⟩ := mem_lang_zero_nine.1 hz
      have hn := @decimal_three 2 b c (by omega) (by omega) hc (by omega)
      exact ⟨_, by omega, hn.symm⟩
    · obtain ⟨x, hx, y, hy, rfl⟩ := mem_lang_seq.1 h
      obtain rfl := mem_lang_lit.1 hx
      obtain ⟨c, hc, rfl⟩ := (h05 y).1 hy
      have hn := @decimal_three 2 5 c (by omega) (by omega) (by omega) (by omega)
      exact ⟨_, by omega, hn.symm⟩
  · intro h
    obtain ⟨n, hn, rfl⟩ := h
    by_cases hten : n < 10
    · exact Or.inl ⟨n, by omega, decimal_of_lt_ten hten⟩
    by_cases hhundred : n < 100
    · have hsplit : n = 10 * (n / 10) + n % 10 := by omega
      refine Or.inr (Or.inl (mem_lang_seq.2 ⟨_, (h19 _).2 ⟨n / 10, by omega, rfl⟩, _,
        mem_lang_zero_nine.2 ⟨n % 10, by omega, rfl⟩, ?_⟩))
      rw [hsplit, decimal_two (by omega) (by omega), ← hsplit]
      rfl
    · obtain ⟨a, b, c, ha, hb, hc, rfl⟩ := exists_digits_of_three (not_lt.1 hhundred)
      rw [decimal_three ha hb hc (by omega)]
      have hlast := mem_lang_zero_nine.2 ⟨c, hc, rfl⟩
      have hmiddle := mem_lang_zero_nine.2 ⟨b, hb, rfl⟩
      by_cases hone : a = 1
      · subst hone
        exact Or.inr (Or.inr (Or.inl (mem_lang_seq.2 ⟨_, mem_lang_char.2 rfl, _,
          mem_lang_seq.2 ⟨_, hmiddle, _, hlast, rfl⟩, rfl⟩)))
      · obtain rfl : a = 2 := by omega
        by_cases hfour : b ≤ 4
        · have hsmall := (h04 _).2 ⟨b, ⟨Nat.zero_le b, hfour⟩, rfl⟩
          exact Or.inr (Or.inr (Or.inr (Or.inl (mem_lang_seq.2 ⟨_, mem_lang_char.2 rfl, _,
            mem_lang_seq.2 ⟨_, hsmall, _, hlast, rfl⟩, rfl⟩))))
        · obtain rfl : b = 5 := by omega
          have hsmall := (h05 _).2 ⟨c, ⟨Nat.zero_le c, by omega⟩, rfl⟩
          exact Or.inr (Or.inr (Or.inr (Or.inr (mem_lang_seq.2 ⟨_, mem_lang_lit.2 rfl, _,
            hsmall, rfl⟩))))

theorem mem_lang_ipv4 {w : List Char} : w ∈ ipv4Regexp.lang ↔ IsIpv4 w := by
  rw [ipv4Regexp, mem_lang_times_pieces, IsIpv4]
  simp only [mem_lang_ipv4Number]
  constructor
  · intro h
    obtain ⟨ps, hlen, hps, rfl⟩ := h
    have hnumbers : ∃ ns : List ℕ, (∀ n ∈ ns, n ≤ 255) ∧ ps = ns.map decimal := by
      clear hlen
      induction ps with
      | nil => exact ⟨[], by simp, rfl⟩
      | cons p ps ih =>
        obtain ⟨⟨n, hn, rfl⟩, hrest⟩ := List.forall_mem_cons.1 hps
        obtain ⟨ns, hns, rfl⟩ := ih hrest
        exact ⟨n :: ns, List.forall_mem_cons.2 ⟨hn, hns⟩, rfl⟩
    obtain ⟨ns, hns, rfl⟩ := hnumbers
    exact ⟨ns, by simpa using hlen, hns, rfl⟩
  · intro h
    obtain ⟨ns, hlen, hns, rfl⟩ := h
    refine ⟨ns.map decimal, by rw [List.length_map, hlen], ?_, rfl⟩
    rw [List.forall_mem_map]
    exact fun n hn => ⟨n, hns n hn, rfl⟩

/-! ## Groups -/

/-- A decimal digit, or one of the letters `a` to `f`. -/
def IsLowerHex (c : Char) : Prop := ('0' ≤ c ∧ c ≤ '9') ∨ ('a' ≤ c ∧ c ≤ 'f')

/-- `0`, or one to four hexadecimal digits in lower case that do not start with `0`. -/
def IsGroup (w : List Char) : Prop :=
  w = ['0'] ∨ (1 ≤ w.length ∧ w.length ≤ 4) ∧ (∀ c ∈ w, IsLowerHex c) ∧ w.head? ≠ some '0'

/-- The pieces that the first expression looks for: they may be empty. -/
def IsLoose (w : List Char) : Prop := w = [] ∨ IsGroup w

theorem not_isGroup_nil : ¬ IsGroup [] := by
  simp [IsGroup]

theorem IsLoose.isGroup {w : List Char} (h : IsLoose w) (hne : w ≠ []) : IsGroup w :=
  h.resolve_left hne

theorem IsGroup.lowerHex {w : List Char} (h : IsGroup w) {c : Char} (hc : c ∈ w) :
    IsLowerHex c := by
  rcases h with rfl | ⟨-, hall, -⟩
  · obtain rfl := List.mem_singleton.1 hc
    exact Or.inl ⟨by decide, by decide⟩
  · exact hall c hc

theorem IsLoose.not_mem {w : List Char} (h : IsLoose w) {c : Char} (hc : ¬ IsLowerHex c) :
    c ∉ w := by
  rcases h with rfl | h
  · exact List.not_mem_nil
  · exact fun hmem => hc (h.lowerHex hmem)

theorem not_isLowerHex_colon : ¬ IsLowerHex ':' := by
  unfold IsLowerHex
  decide

theorem not_isLowerHex_slash : ¬ IsLowerHex '/' := by
  unfold IsLowerHex
  decide

instance (c : Char) : Decidable (IsLowerHex c) :=
  inferInstanceAs (Decidable (('0' ≤ c ∧ c ≤ '9') ∨ ('a' ≤ c ∧ c ≤ 'f')))

/-- Up to so many hexadecimal digits. -/
theorem mem_lang_upTo_lowerHex {n : ℕ} {w : List Char} :
    w ∈ (upTo n (alt (range '0' '9') (range 'a' 'f'))).lang ↔
      w.length ≤ n ∧ ∀ c ∈ w, IsLowerHex c := by
  have hclass : (alt (range '0' '9') (range 'a' 'f')).lang =
      (cls fun c => decide (IsLowerHex c)).lang := by
    ext x
    simp only [mem_lang_alt, mem_lang_range, mem_lang_cls, IsLowerHex]
    grind
  rw [mem_lang_upTo_iff_times]
  simp only [lang_times_congr hclass, mem_lang_times_cls, decide_eq_true_eq]
  constructor
  · intro h
    obtain ⟨k, hk, hlen, hall⟩ := h
    exact ⟨hlen ▸ hk, hall⟩
  · intro h
    exact ⟨w.length, h.1, rfl, h.2⟩

/-- The digits that a group starts with. -/
theorem mem_lang_groupStart {w : List Char} :
    w ∈ (alt (range '1' '9') (range 'a' 'f')).lang ↔
      ∃ c, (IsLowerHex c ∧ c ≠ '0') ∧ w = [c] := by
  have hdigit : ∀ c : Char, ('1' ≤ c ∧ c ≤ '9') ↔ ('0' ≤ c ∧ c ≤ '9') ∧ c ≠ '0' := by
    intro c
    rw [Ne, ← Char.toNat_inj]
    show (49 ≤ c.toNat ∧ c.toNat ≤ 57) ↔ (48 ≤ c.toNat ∧ c.toNat ≤ 57) ∧ ¬ c.toNat = 48
    omega
  have hletter : ∀ c : Char, ('a' ≤ c ∧ c ≤ 'f') → c ≠ '0' := by
    intro c hc he
    subst he
    exact absurd hc.1 (by decide)
  simp only [mem_lang_alt, mem_lang_range, hdigit, IsLowerHex]
  constructor
  · intro h
    rcases h with ⟨c, hc, rfl⟩ | ⟨c, hc, rfl⟩
    · exact ⟨c, ⟨Or.inl hc.1, hc.2⟩, rfl⟩
    · exact ⟨c, ⟨Or.inr hc, hletter c hc⟩, rfl⟩
  · intro h
    obtain ⟨c, ⟨hc | hc, hne⟩, rfl⟩ := h
    · exact Or.inl ⟨c, ⟨hc, hne⟩, rfl⟩
    · exact Or.inr ⟨c, hc, rfl⟩

theorem mem_lang_ipv6Group {w : List Char} : w ∈ ipv6Group.lang ↔ IsLoose w := by
  rw [ipv6Group, mem_lang_alt, mem_lang_opt, mem_lang_char, mem_lang_seq, IsLoose, IsGroup]
  constructor
  · intro h
    rcases h with (h | h) | h
    · exact Or.inr (Or.inl h)
    · exact Or.inl h
    · obtain ⟨a, ha, b, hb, rfl⟩ := h
      obtain ⟨c, ⟨hc, hne⟩, rfl⟩ := mem_lang_groupStart.1 ha
      obtain ⟨hlen, hall⟩ := mem_lang_upTo_lowerHex.1 hb
      refine Or.inr (Or.inr ⟨⟨?_, ?_⟩, List.forall_mem_cons.2 ⟨hc, hall⟩, ?_⟩)
      · simp
      · rw [List.length_append, List.length_singleton]
        omega
      · simpa using hne
  · intro h
    rcases h with h | h | ⟨⟨hpos, hlen⟩, hall, hhead⟩
    · exact Or.inl (Or.inr h)
    · exact Or.inl (Or.inl h)
    · cases w with
      | nil => simp at hpos
      | cons c ds =>
        obtain ⟨hc, hds⟩ := List.forall_mem_cons.1 hall
        rw [List.length_cons] at hlen
        exact Or.inr ⟨[c], mem_lang_groupStart.2 ⟨c, ⟨hc, by simpa using hhead⟩, rfl⟩, ds,
          mem_lang_upTo_lowerHex.2 ⟨by omega, hds⟩, rfl⟩

/-! ## IPv6 -/

/-- Pieces with colons between them. -/
abbrev joined (ps : List (List Char)) : List Char := [':'].intercalate ps

/-- Eight groups with colons between them, or two lists of at most seven groups in all with `::`
between them. -/
def IsIpv6 (w : List Char) : Prop :=
  (∃ gs : List (List Char), gs.length = 8 ∧ (∀ g ∈ gs, IsGroup g) ∧ w = joined gs) ∨
    ∃ ls rs : List (List Char), (∀ g ∈ ls ++ rs, IsGroup g) ∧ ls.length + rs.length ≤ 7 ∧
      w = joined ls ++ ':' :: ':' :: joined rs

/-- The pieces at either end in the first expression: one, or the two of a colon. -/
def IsEnd (ps : List (List Char)) : Prop := ps = [[], []] ∨ ∃ x, IsLoose x ∧ ps = [x]

theorem IsEnd.ne_nil {ps : List (List Char)} (h : IsEnd ps) : ps ≠ [] := by
  rcases h with rfl | ⟨x, -, rfl⟩
  · exact List.cons_ne_nil _ _
  · exact List.cons_ne_nil _ _

theorem IsEnd.loose {ps : List (List Char)} (h : IsEnd ps) : ∀ p ∈ ps, IsLoose p := by
  rcases h with rfl | ⟨x, hx, rfl⟩
  · intro p hp
    exact Or.inl (by simpa using hp)
  · exact List.forall_mem_singleton.2 hx

theorem mem_lang_end {w : List Char} :
    w ∈ (alt (char ':') ipv6Group).lang ↔ ∃ ps, IsEnd ps ∧ w = joined ps := by
  rw [mem_lang_alt, mem_lang_char, mem_lang_ipv6Group]
  constructor
  · intro h
    rcases h with rfl | h
    · exact ⟨[[], []], Or.inl rfl, rfl⟩
    · exact ⟨[w], Or.inr ⟨w, h, rfl⟩, List.intercalate_singleton.symm⟩
  · intro h
    obtain ⟨ps, rfl | ⟨x, hx, rfl⟩, rfl⟩ := h
    · exact Or.inl rfl
    · rw [joined, List.intercalate_singleton]
      exact Or.inr hx

theorem joined_ends {first ys last : List (List Char)} (hfirst : first ≠ []) (hlast : last ≠ []) :
    joined first ++ [':'] ++ (ys.flatMap (· ++ [':']) ++ joined last) =
      joined (first ++ (ys ++ last)) := by
  have hrest : ys ++ last ≠ [] := by simp [hlast]
  rw [joined, joined, joined, flatMap_append_intercalate ':' ys hlast,
    intercalate_append hfirst hrest, List.append_assoc, List.singleton_append]

/-- What the first expression says: up to six loose pieces between two ends. -/
theorem mem_lang_ipv6Regexp1 {w : List Char} :
    w ∈ ipv6Regexp1.lang ↔ ∃ first ys last, (IsEnd first ∧ IsEnd last) ∧
      (ys.length ≤ 6 ∧ ∀ y ∈ ys, IsLoose y) ∧ w = joined (first ++ (ys ++ last)) := by
  rw [ipv6Regexp1, mem_lang_seq]
  constructor
  · intro h
    obtain ⟨a, ha, b, hb, rfl⟩ := h
    obtain ⟨x, hx, colon, hcolon, rfl⟩ := mem_lang_seq.1 ha
    obtain rfl := mem_lang_char.1 hcolon
    obtain ⟨y, hy, z, hz, rfl⟩ := mem_lang_seq.1 hb
    obtain ⟨first, hfirst, rfl⟩ := mem_lang_end.1 hx
    obtain ⟨last, hlast, rfl⟩ := mem_lang_end.1 hz
    obtain ⟨ys, hlen, hys, rfl⟩ := mem_lang_upTo_pieces.1 hy
    refine ⟨first, ys, last, ⟨hfirst, hlast⟩,
      ⟨hlen, fun y hy => mem_lang_ipv6Group.1 (hys y hy)⟩, ?_⟩
    exact joined_ends hfirst.ne_nil hlast.ne_nil
  · intro h
    obtain ⟨first, ys, last, ⟨hfirst, hlast⟩, ⟨hlen, hys⟩, rfl⟩ := h
    refine ⟨joined first ++ [':'], mem_lang_seq.2 ⟨_, mem_lang_end.2 ⟨first, hfirst, rfl⟩, [':'],
      mem_lang_char.2 rfl, rfl⟩, ys.flatMap (· ++ [':']) ++ joined last,
      mem_lang_seq.2 ⟨_, mem_lang_upTo_pieces.2 ⟨ys, hlen,
        fun y hy => mem_lang_ipv6Group.2 (hys y hy), rfl⟩, _,
        mem_lang_end.2 ⟨last, hlast, rfl⟩, rfl⟩, ?_⟩
    exact joined_ends hfirst.ne_nil hlast.ne_nil

/-- A piece of the second expression: not empty, and without a colon. -/
def IsRun (p : List Char) : Prop := p ≠ [] ∧ ':' ∉ p

theorem mem_lang_noColons {w : List Char} : w ∈ noColons.lang ↔ IsRun w := by
  rw [noColons, mem_lang_plus_cls, IsRun]
  refine and_congr Iff.rfl ⟨fun h hmem => ?_, fun h c hc => ?_⟩
  · simpa using h ':' hmem
  · have hne : c ≠ ':' := fun he => h (he ▸ hc)
    simpa using hne

theorem IsGroup.isRun {w : List Char} (h : IsGroup w) : IsRun w := by
  refine ⟨fun he => not_isGroup_nil (he ▸ h), ?_⟩
  exact (show IsLoose w from Or.inr h).not_mem not_isLowerHex_colon

/-- What the second expression says: eight pieces, or two lists of them with `::` between them. -/
theorem mem_lang_ipv6Regexp2 {w : List Char} :
    w ∈ ipv6Regexp2.lang ↔
      (∃ ps : List (List Char), ps.length = 8 ∧ (∀ p ∈ ps, IsRun p) ∧ w = joined ps) ∨
        ∃ ls rs : List (List Char), (∀ p ∈ ls ++ rs, IsRun p) ∧
          w = joined ls ++ ':' :: ':' :: joined rs := by
  have hlist : ∀ a, a ∈ (opt (seq (star (seq noColons (char ':'))) noColons)).lang ↔
      ∃ ps : List (List Char), (∀ p ∈ ps, IsRun p) ∧ a = joined ps := by
    intro a
    rw [mem_lang_opt, mem_lang_star_pieces]
    simp only [mem_lang_noColons]
    constructor
    · intro h
      rcases h with ⟨ps, -, hps, rfl⟩ | rfl
      · exact ⟨ps, hps, rfl⟩
      · exact ⟨[], by simp, rfl⟩
    · intro h
      obtain ⟨ps, hps, rfl⟩ := h
      by_cases hne : ps = []
      · exact Or.inr (by rw [hne]; rfl)
      · exact Or.inl ⟨ps, hne, hps, rfl⟩
  show w ∈ (alt _ (seq _ _)).lang ↔ _
  rw [mem_lang_alt, mem_lang_times_pieces]
  simp only [mem_lang_noColons]
  refine or_congr Iff.rfl ?_
  rw [mem_lang_seq]
  constructor
  · intro h
    obtain ⟨a, ha, b, hb, rfl⟩ := h
    obtain ⟨colons, hcolons, c, hc, rfl⟩ := mem_lang_seq.1 hb
    obtain rfl := mem_lang_lit.1 hcolons
    obtain ⟨ls, hls, rfl⟩ := (hlist a).1 ha
    obtain ⟨rs, hrs, rfl⟩ := (hlist c).1 hc
    exact ⟨ls, rs, List.forall_mem_append.2 ⟨hls, hrs⟩, rfl⟩
  · intro h
    obtain ⟨ls, rs, hall, rfl⟩ := h
    obtain ⟨hls, hrs⟩ := List.forall_mem_append.1 hall
    exact ⟨joined ls, (hlist _).2 ⟨ls, hls, rfl⟩, ':' :: ':' :: joined rs,
      mem_lang_seq.2 ⟨"::".toList, mem_lang_lit.2 rfl, _, (hlist _).2 ⟨rs, hrs, rfl⟩, rfl⟩, rfl⟩

/-! ## The pieces around `::` -/

/-- A list of pieces, as it is in a text: no pieces are one empty piece. -/
def padded (ps : List (List Char)) : List (List Char) := if ps = [] then [[]] else ps

/-- The pieces of a text with `::` in it. -/
def gap (ls rs : List (List Char)) : List (List Char) := padded ls ++ [] :: padded rs

theorem padded_ne_nil (ps : List (List Char)) : padded ps ≠ [] := by
  unfold padded
  split_ifs with h
  · exact List.cons_ne_nil _ _
  · exact h

theorem joined_padded (ps : List (List Char)) : joined (padded ps) = joined ps := by
  unfold padded
  split_ifs with h
  · rw [h]
    rfl
  · rfl

theorem joined_gap (ls rs : List (List Char)) :
    joined (gap ls rs) = joined ls ++ ':' :: ':' :: joined rs := by
  have hright : joined ([] :: padded rs) = ':' :: joined rs := by
    rw [joined, List.intercalate_cons_of_ne_nil (padded_ne_nil rs), ← joined, joined_padded]
    rfl
  rw [gap, joined, intercalate_append (padded_ne_nil ls) (List.cons_ne_nil _ _), ← joined,
    ← joined, joined_padded, hright]

theorem length_padded (ps : List (List Char)) : (padded ps).length = max 1 ps.length := by
  unfold padded
  split_ifs with h
  · rw [h]
    rfl
  · have hpos : 0 < ps.length := List.length_pos_iff.2 h
    omega

theorem mem_gap_of_mem {ls rs : List (List Char)} {p : List Char} (h : p ∈ ls ++ rs) :
    p ∈ gap ls rs := by
  have hpadded : ∀ ps : List (List Char), p ∈ ps → p ∈ padded ps := by
    intro ps hp
    rw [padded, if_neg (List.ne_nil_of_mem hp)]
    exact hp
  rcases List.mem_append.1 h with h | h
  · exact List.mem_append_left _ (hpadded ls h)
  · exact List.mem_append_right _ (List.mem_cons_of_mem _ (hpadded rs h))

theorem colon_notMem_gap {ls rs : List (List Char)} (h : ∀ p ∈ ls ++ rs, IsRun p) :
    ∀ p ∈ gap ls rs, ':' ∉ p := by
  have hpadded : ∀ ps : List (List Char), (∀ p ∈ ps, IsRun p) → ∀ p ∈ padded ps, ':' ∉ p := by
    intro ps hps p hp
    unfold padded at hp
    split_ifs at hp
    · obtain rfl := List.mem_singleton.1 hp
      exact List.not_mem_nil
    · exact (hps p hp).2
  obtain ⟨hls, hrs⟩ := List.forall_mem_append.1 h
  refine List.forall_mem_append.2 ⟨hpadded ls hls, List.forall_mem_cons.2 ⟨?_, hpadded rs hrs⟩⟩
  exact List.not_mem_nil

/-- An end that starts with something is one piece. -/
theorem IsEnd.length_of_head {first : List (List Char)} (h : IsEnd first) {rest : List (List Char)}
    (hne : (first ++ rest).head? ≠ some []) : first.length = 1 := by
  rcases h with rfl | ⟨x, -, rfl⟩
  · exact absurd rfl hne
  · rfl

/-- An end that ends with something is one piece. -/
theorem IsEnd.length_of_getLast {last : List (List Char)} (h : IsEnd last)
    {before : List (List Char)} (hne : (before ++ last).getLast? ≠ some []) : last.length = 1 := by
  rcases h with rfl | ⟨x, -, rfl⟩
  · rw [List.getLast?_append] at hne
    exact absurd rfl hne
  · rfl

theorem IsEnd.length_le {ps : List (List Char)} (h : IsEnd ps) : ps.length ≤ 2 := by
  rcases h with rfl | ⟨x, -, rfl⟩
  · exact le_rfl
  · exact Nat.le_succ 1

/-- Two to eight loose pieces are in the first language. -/
theorem exists_ends_of_length {ps : List (List Char)} (hloose : ∀ p ∈ ps, IsLoose p)
    (htwo : 2 ≤ ps.length) (height : ps.length ≤ 8) :
    ∃ first ys last, (IsEnd first ∧ IsEnd last) ∧ (ys.length ≤ 6 ∧ ∀ y ∈ ys, IsLoose y) ∧
      ps = first ++ (ys ++ last) := by
  cases ps with
  | nil => simp at htwo
  | cons p ps =>
    obtain ⟨hp, hps⟩ := List.forall_mem_cons.1 hloose
    rw [List.length_cons] at htwo height
    have hne : ps ≠ [] := fun he => by simp [he] at htwo
    refine ⟨[p], ps.dropLast, [ps.getLast hne], ⟨Or.inr ⟨p, hp, rfl⟩,
      Or.inr ⟨_, hps _ (List.getLast_mem hne), rfl⟩⟩, ⟨?_, ?_⟩, ?_⟩
    · rw [List.length_dropLast]
      omega
    · exact fun y hy => hps y (List.mem_of_mem_dropLast hy)
    · rw [List.dropLast_append_getLast hne, List.singleton_append]

theorem loose_of_mem_gap {ls rs : List (List Char)} (h : ∀ g ∈ ls ++ rs, IsGroup g) :
    ∀ p ∈ gap ls rs, IsLoose p := by
  have hpadded : ∀ ps : List (List Char), (∀ p ∈ ps, IsGroup p) → ∀ p ∈ padded ps, IsLoose p := by
    intro ps hps p hp
    unfold padded at hp
    split_ifs at hp
    · exact Or.inl (List.mem_singleton.1 hp)
    · exact Or.inr (hps p hp)
  obtain ⟨hls, hrs⟩ := List.forall_mem_append.1 h
  exact List.forall_mem_append.2 ⟨hpadded ls hls,
    List.forall_mem_cons.2 ⟨Or.inl rfl, hpadded rs hrs⟩⟩

/-- At most seven groups around `::` are in the first language. Where a list is empty, its end takes
both pieces of a colon, so that the other list may have seven groups. -/
theorem exists_ends_of_gap {ls rs : List (List Char)} (h : ∀ g ∈ ls ++ rs, IsGroup g)
    (hlen : ls.length + rs.length ≤ 7) :
    ∃ first ys last, (IsEnd first ∧ IsEnd last) ∧ (ys.length ≤ 6 ∧ ∀ y ∈ ys, IsLoose y) ∧
      gap ls rs = first ++ (ys ++ last) := by
  have hloose := loose_of_mem_gap h
  have hlength : (gap ls rs).length = max 1 ls.length + (max 1 rs.length + 1) := by
    rw [gap, List.length_append, List.length_cons, length_padded, length_padded]
  obtain ⟨hls, hrs⟩ := List.forall_mem_append.1 h
  by_cases hl : ls = []
  · by_cases hr : rs = []
    · refine exists_ends_of_length hloose ?_ ?_
      · omega
      · rw [hl, hr] at hlength
        rw [hl, hr, hlength]
        decide
    · subst hl
      have hrsLen : rs.length ≤ 7 := by simpa using hlen
      refine ⟨[[], []], rs.dropLast, [rs.getLast hr], ⟨Or.inl rfl,
        Or.inr ⟨_, Or.inr (hrs _ (List.getLast_mem hr)), rfl⟩⟩, ⟨?_, ?_⟩, ?_⟩
      · rw [List.length_dropLast]
        omega
      · exact fun y hy => Or.inr (hrs y (List.mem_of_mem_dropLast hy))
      · rw [List.dropLast_append_getLast hr, gap, padded, padded, if_pos rfl, if_neg hr]
        rfl
  · by_cases hr : rs = []
    · subst hr
      cases ls with
      | nil => exact absurd rfl hl
      | cons g gs =>
        obtain ⟨hg, hgs⟩ := List.forall_mem_cons.1 hls
        rw [List.length_cons, List.length_nil] at hlen
        refine ⟨[g], gs, [[], []], ⟨Or.inr ⟨g, Or.inr hg, rfl⟩, Or.inl rfl⟩, ⟨by omega, ?_⟩, ?_⟩
        · exact fun y hy => Or.inr (hgs y hy)
        · rw [gap, padded, padded, if_neg hl, if_pos rfl, List.cons_append, List.singleton_append]
    · have hlpos := List.length_pos_iff.2 hl
      have hrpos := List.length_pos_iff.2 hr
      exact exists_ends_of_length hloose (by omega) (by omega)

/-- A text of the first language has at most seven pieces around `::`. -/
theorem length_le_of_gap {ls rs first ys last : List (List Char)}
    (hruns : ∀ p ∈ ls ++ rs, IsRun p) (hfirst : IsEnd first) (hlast : IsEnd last)
    (hlen : ys.length ≤ 6) (h : gap ls rs = first ++ (ys ++ last)) :
    ls.length + rs.length ≤ 7 := by
  have hlength : max 1 ls.length + (max 1 rs.length + 1) =
      first.length + (ys.length + last.length) := by
    rw [← length_padded, ← length_padded, ← List.length_cons, ← List.length_append, ← gap, h,
      List.length_append, List.length_append]
  obtain ⟨hls, hrs⟩ := List.forall_mem_append.1 hruns
  have hleft : ls ≠ [] → first.length = 1 := by
    intro hl
    refine @IsEnd.length_of_head first hfirst (ys ++ last) ?_
    rw [← h, gap, padded, if_neg hl, List.head?_append_of_ne_nil _ hl]
    intro he
    exact (hls [] (List.mem_of_head? he)).1 rfl
  have hright : rs ≠ [] → last.length = 1 := by
    intro hr
    refine @IsEnd.length_of_getLast last hlast (first ++ ys) ?_
    rw [List.append_assoc, ← h, gap, padded, padded, if_neg hr, List.getLast?_append,
      List.getLast?_cons, List.getLast?_eq_some_getLast hr]
    intro he
    have hlastEmpty : rs.getLast hr = [] := by simpa using he
    exact (hrs _ (List.getLast_mem hr)).1 hlastEmpty
  have hfirstLe := hfirst.length_le
  have hlastLe := hlast.length_le
  by_cases hl : ls = []
  · by_cases hr : rs = []
    · simp [hl, hr]
    · have hone := hright hr
      rw [hl, List.length_nil] at hlength ⊢
      omega
  · by_cases hr : rs = []
    · have hone := hleft hl
      rw [hr, List.length_nil] at hlength ⊢
      omega
    · have hlone := hleft hl
      have hrone := hright hr
      omega

/-! ## Both expressions -/

theorem loose_of_ends {first ys last : List (List Char)} (hfirst : IsEnd first)
    (hlast : IsEnd last) (hys : ∀ y ∈ ys, IsLoose y) :
    ∀ p ∈ first ++ (ys ++ last), IsLoose p :=
  List.forall_mem_append.2 ⟨hfirst.loose, List.forall_mem_append.2 ⟨hys, hlast.loose⟩⟩

/-- **Both expressions together describe the addresses.** -/
theorem mem_lang_ipv6 {w : List Char} :
    (w ∈ ipv6Regexp1.lang ∧ w ∈ ipv6Regexp2.lang) ↔ IsIpv6 w := by
  rw [mem_lang_ipv6Regexp1, mem_lang_ipv6Regexp2]
  constructor
  · intro h
    obtain ⟨⟨first, ys, last, ⟨hfirst, hlast⟩, ⟨hlen, hys⟩, hw⟩, hpieces⟩ := h
    have hloose := loose_of_ends hfirst hlast hys
    have hne : first ++ (ys ++ last) ≠ [] := by simp [hfirst.ne_nil]
    have hcolon : ∀ p ∈ first ++ (ys ++ last), ':' ∉ p :=
      fun p hp => (hloose p hp).not_mem not_isLowerHex_colon
    rcases hpieces with ⟨ps, height, hruns, hw'⟩ | ⟨ls, rs, hruns, hw'⟩
    · have hps : ps ≠ [] := fun he => by simp [he] at height
      have hsame := pieces_unique hne hps hcolon (fun p hp => (hruns p hp).2) (hw.symm.trans hw')
      refine Or.inl ⟨ps, height, fun g hg => ?_, hw'⟩
      exact (hloose g (hsame ▸ hg)).isGroup (hruns g hg).1
    · rw [← joined_gap] at hw'
      have hgap : gap ls rs ≠ [] := List.append_ne_nil_of_left_ne_nil (padded_ne_nil ls) _
      have hsame := pieces_unique hgap hne (colon_notMem_gap hruns) hcolon (hw'.symm.trans hw)
      refine Or.inr ⟨ls, rs, fun g hg => ?_, length_le_of_gap hruns hfirst hlast hlen hsame, ?_⟩
      · exact (hloose g (hsame ▸ mem_gap_of_mem hg)).isGroup (hruns g hg).1
      · rw [hw', joined_gap]
  · intro h
    rcases h with ⟨gs, height, hgroups, rfl⟩ | ⟨ls, rs, hgroups, hlen, rfl⟩
    · obtain ⟨first, ys, last, hends, hys, rfl⟩ := exists_ends_of_length
        (fun p hp => Or.inr (hgroups p hp)) (by omega) height.le
      exact ⟨⟨first, ys, last, hends, hys, rfl⟩,
        Or.inl ⟨_, height, fun p hp => (hgroups p hp).isRun, rfl⟩⟩
    · obtain ⟨first, ys, last, hends, hys, hgap⟩ := exists_ends_of_gap hgroups hlen
      refine ⟨⟨first, ys, last, hends, hys, ?_⟩,
        Or.inr ⟨ls, rs, fun p hp => (hgroups p hp).isRun, rfl⟩⟩
      rw [← hgap, joined_gap]

/-! ## Prefixes -/

/-- A length up to 128: in decimal digits without leading zeros, or in two digits of which the
first is `0`. -/
def IsPrefixLength (w : List Char) : Prop :=
  ∃ n ≤ 128, w = decimal n ∨ n < 10 ∧ w = '0' :: decimal n

/-- An address, a slash and a length. -/
def IsIpv6Prefix (w : List Char) : Prop :=
  ∃ address length, IsIpv6 address ∧ IsPrefixLength length ∧ w = address ++ '/' :: length

theorem mem_lang_ipv6PrefixLength {w : List Char} :
    w ∈ ipv6PrefixLength.lang ↔ IsPrefixLength w := by
  have h01 := fun w => @mem_lang_digits 0 1 (by omega) (by omega) w
  have h08 := fun w => @mem_lang_digits 0 8 (by omega) (by omega) w
  rw [ipv6PrefixLength, mem_lang_oneOf]
  simp only [List.mem_cons, List.not_mem_nil, or_false, exists_eq_or_imp, exists_eq_left,
    mem_lang_zero_nine]
  constructor
  · intro h
    rcases h with h | h | h | h
    · obtain ⟨d, hd, rfl⟩ := h
      exact ⟨d, by omega, Or.inl (decimal_of_lt_ten (by omega)).symm⟩
    · obtain ⟨x, hx, y, hy, rfl⟩ := mem_lang_seq.1 h
      obtain ⟨y, hy', z, hz, rfl⟩ := mem_lang_seq.1 hy
      obtain rfl : z = [] := by simpa [times] using hz
      obtain ⟨a, ha, rfl⟩ := mem_lang_zero_nine.1 hx
      obtain ⟨b, hb, rfl⟩ := mem_lang_zero_nine.1 hy'
      by_cases hzero : a = 0
      · subst hzero
        exact ⟨b, by omega, Or.inr ⟨by omega, by rw [decimal_of_lt_ten (by omega)]; rfl⟩⟩
      · have hn := @decimal_two a b ⟨by omega, ha⟩ hb
        exact ⟨_, by omega, Or.inl hn.symm⟩
    · obtain ⟨x, hx, y, hy, rfl⟩ := mem_lang_seq.1 h
      obtain ⟨y, hy', z, hz, rfl⟩ := mem_lang_seq.1 hy
      obtain rfl := mem_lang_char.1 hx
      obtain ⟨b, hb, rfl⟩ := (h01 y).1 hy'
      obtain ⟨c, hc, rfl⟩ := mem_lang_zero_nine.1 hz
      have hn := @decimal_three 1 b c (by omega) (by omega) hc (by omega)
      exact ⟨_, by omega, Or.inl hn.symm⟩
    · obtain ⟨x, hx, y, hy, rfl⟩ := mem_lang_seq.1 h
      obtain rfl := mem_lang_lit.1 hx
      obtain ⟨c, hc, rfl⟩ := (h08 y).1 hy
      have hn := @decimal_three 1 2 c (by omega) (by omega) (by omega) (by omega)
      exact ⟨_, by omega, Or.inl hn.symm⟩
  · intro h
    have hpair : ∀ a b, a ≤ 9 → b ≤ 9 →
        [Nat.digitChar a, Nat.digitChar b] ∈ (times 2 (range '0' '9')).lang := by
      intro a b ha hb
      exact mem_lang_seq.2 ⟨_, mem_lang_zero_nine.2 ⟨a, ha, rfl⟩, _, mem_lang_seq.2
        ⟨_, mem_lang_zero_nine.2 ⟨b, hb, rfl⟩, [], by simp [times], rfl⟩, rfl⟩
    obtain ⟨n, hn, rfl | ⟨hten, rfl⟩⟩ := h
    · by_cases hten : n < 10
      · exact Or.inl ⟨n, by omega, decimal_of_lt_ten hten⟩
      by_cases hhundred : n < 100
      · have hsplit : decimal n = [Nat.digitChar (n / 10), Nat.digitChar (n % 10)] := by
          rw [decimal_eq n (by omega), if_neg hten, if_pos hhundred]
        rw [hsplit]
        exact Or.inr (Or.inl (hpair _ _ (by omega) (by omega)))
      · obtain ⟨a, b, c, ha, hb, hc, rfl⟩ := exists_digits_of_three (not_lt.1 hhundred)
        obtain rfl : a = 1 := by omega
        rw [decimal_three ha hb hc (by omega)]
        by_cases hone : b ≤ 1
        · exact Or.inr (Or.inr (Or.inl (mem_lang_seq.2 ⟨_, mem_lang_char.2 rfl, _, mem_lang_seq.2
            ⟨_, (h01 _).2 ⟨b, ⟨Nat.zero_le b, hone⟩, rfl⟩, _,
              mem_lang_zero_nine.2 ⟨c, hc, rfl⟩, rfl⟩, rfl⟩)))
        · obtain rfl : b = 2 := by omega
          exact Or.inr (Or.inr (Or.inr (mem_lang_seq.2 ⟨_, mem_lang_lit.2 rfl, _,
            (h08 _).2 ⟨c, ⟨Nat.zero_le c, by omega⟩, rfl⟩, rfl⟩)))
    · rw [decimal_of_lt_ten hten]
      exact Or.inr (Or.inl (hpair 0 n (by omega) (by omega)))

/-- There is no slash in an address of the first expression. -/
theorem slash_notMem_address {w : List Char} (h : w ∈ ipv6Regexp1.lang) : '/' ∉ w := by
  obtain ⟨first, ys, last, ⟨hfirst, hlast⟩, ⟨-, hys⟩, rfl⟩ := mem_lang_ipv6Regexp1.1 h
  intro hmem
  rcases mem_intercalate hmem with hcolon | ⟨p, hp, hslash⟩
  · exact absurd hcolon (by decide)
  · exact (loose_of_ends hfirst hlast hys p hp).not_mem not_isLowerHex_slash hslash

theorem slash_notMem_length {w : List Char} (h : IsPrefixLength w) : '/' ∉ w := by
  have hdigits : ∀ n < 256, '/' ∉ decimal n := by decide +kernel
  obtain ⟨n, hn, rfl | ⟨-, rfl⟩⟩ := h
  · exact hdigits n (by omega)
  · intro hmem
    rcases List.mem_cons.1 hmem with he | hmem
    · exact absurd he (by decide)
    · exact hdigits n (by omega) hmem

/-- Before and behind the only slash. -/
theorem eq_of_append_slash {a b l m : List Char} (ha : '/' ∉ a) (hl : '/' ∉ l)
    (h : a ++ '/' :: l = b ++ '/' :: m) : a = b ∧ l = m := by
  rcases List.append_eq_append_iff.1 h with ⟨t, rfl, ht⟩ | ⟨t, rfl, ht⟩
  · cases t with
    | nil =>
      rw [List.append_nil]
      exact ⟨rfl, (List.cons.inj ht).2⟩
    | cons c t =>
      refine absurd ?_ hl
      rw [(List.cons.inj ht).2]
      exact List.mem_append_right _ List.mem_cons_self
  · cases t with
    | nil =>
      rw [List.append_nil]
      exact ⟨rfl, (List.cons.inj ht).2.symm⟩
    | cons c t =>
      refine absurd ?_ ha
      rw [← (List.cons.inj ht).1]
      exact List.mem_append_right _ List.mem_cons_self

theorem mem_lang_ipv6Prefix {w : List Char} :
    (w ∈ ipv6PrefixRegexp1.lang ∧ w ∈ ipv6PrefixRegexp2.lang) ↔ IsIpv6Prefix w := by
  rw [ipv6PrefixRegexp1, ipv6PrefixRegexp2, mem_lang_seq, mem_lang_seq, IsIpv6Prefix]
  constructor
  · intro h
    obtain ⟨⟨a, ha, s, hs, rfl⟩, ⟨b, hb, t, ht, hw⟩⟩ := h
    obtain ⟨slash, hslash, l, hl, rfl⟩ := mem_lang_seq.1 hs
    obtain rfl := mem_lang_char.1 hslash
    obtain ⟨slash, hslash, m, hm, rfl⟩ := mem_lang_seq.1 ht
    obtain rfl := mem_lang_char.1 hslash
    have hlength := mem_lang_ipv6PrefixLength.1 hl
    obtain ⟨rfl, -⟩ := eq_of_append_slash (slash_notMem_address ha) (slash_notMem_length hlength)
      hw.symm
    exact ⟨a, l, mem_lang_ipv6.1 ⟨ha, hb⟩, hlength, rfl⟩
  · intro h
    obtain ⟨a, l, ha, hl, rfl⟩ := h
    obtain ⟨hfirst, hsecond⟩ := mem_lang_ipv6.2 ha
    have hne : l ≠ [] := by
      obtain ⟨n, hn, rfl | ⟨-, rfl⟩⟩ := hl
      · rw [decimal_eq n (by omega)]
        split_ifs <;> exact List.cons_ne_nil _ _
      · exact List.cons_ne_nil _ _
    refine ⟨⟨a, hfirst, '/' :: l, mem_lang_seq.2 ⟨['/'], mem_lang_char.2 rfl, l,
      mem_lang_ipv6PrefixLength.2 hl, rfl⟩, rfl⟩, a, hsecond, '/' :: l, mem_lang_seq.2
      ⟨['/'], mem_lang_char.2 rfl, l, mem_lang_plus_cls.2 ⟨hne, fun _ _ => rfl⟩, rfl⟩, rfl⟩

/-! ## The tests -/

theorem matchesCStr_of_nulFree {re : Regex} {s : String} (h : NulFree s) :
    matchesCStr re s = true ↔ s.toList ∈ re.lang := by
  rw [matchesCStr, cstr_eq_self.2 h, isMatch_iff]

/-- **The languages of static addresses.** Of texts without NUL, the test for IPv4, the two tests
for IPv6 and the two for a prefix accept exactly the addresses of their kind. -/
theorem static_address_languages {s : String} (h : NulFree s) :
    (matchesCStr ipv4Regexp s = true ↔ IsIpv4 s.toList) ∧
      (matchesCStr ipv6Regexp1 s = true ∧ matchesCStr ipv6Regexp2 s = true ↔ IsIpv6 s.toList) ∧
      (matchesCStr ipv6PrefixRegexp1 s = true ∧ matchesCStr ipv6PrefixRegexp2 s = true ↔
        IsIpv6Prefix s.toList) := by
  rw [matchesCStr_of_nulFree h, matchesCStr_of_nulFree h, matchesCStr_of_nulFree h,
    matchesCStr_of_nulFree h, matchesCStr_of_nulFree h]
  exact ⟨mem_lang_ipv4, mem_lang_ipv6, mem_lang_ipv6Prefix⟩

theorem static_address_languages_db8 :
    (matchesCStr ipv4Regexp "2001:db8::/32" = true ↔ IsIpv4 "2001:db8::/32".toList) ∧
      (matchesCStr ipv6Regexp1 "2001:db8::/32" = true ∧
          matchesCStr ipv6Regexp2 "2001:db8::/32" = true ↔ IsIpv6 "2001:db8::/32".toList) ∧
      (matchesCStr ipv6PrefixRegexp1 "2001:db8::/32" = true ∧
          matchesCStr ipv6PrefixRegexp2 "2001:db8::/32" = true ↔
        IsIpv6Prefix "2001:db8::/32".toList) :=
  static_address_languages (by decide +kernel)

/-- The rule for an address, in the same terms. -/
theorem validIp_iff {V : Type} {ip : IpAddr V} (h : NulFree ip.ip) :
    validIp ip = true ↔ match ip.ipType with
      | .ipv4 => IsIpv4 ip.ip.toList
      | .ipv6 => IsIpv6 ip.ip.toList
      | .ipv6Prefix => IsIpv6Prefix ip.ip.toList := by
  rw [validIp]
  cases ip.ipType with
  | ipv4 => exact (matchesCStr_of_nulFree h).trans mem_lang_ipv4
  | ipv6 =>
    simp only [Bool.and_eq_true, matchesCStr_of_nulFree h]
    exact mem_lang_ipv6
  | ipv6Prefix =>
    simp only [Bool.and_eq_true, matchesCStr_of_nulFree h]
    exact mem_lang_ipv6Prefix

end ProvisioningValidator
