import ProvisioningValidator.Lib.Text
import Mathlib

/-!
# Regular expressions, matched against a whole text

The fragment of the Perl syntax that describes a language: classes, alternatives, sequences and
repetitions. `isMatch` decides whether a *whole* text is in the language, as `regex_match` does.
An anchor at either end of an expression that is matched in full holds of itself, so there is no
anchor here.

`isMatch` takes derivatives; `isMatch_iff` says that it decides `lang`, the language of the
expression among Mathlib's languages.
-/

namespace Lib

open scoped Computability

/-- A regular expression over bytes. -/
inductive Regex where
  | empty
  | eps
  | cls (p : Char → Bool)
  | alt (r s : Regex)
  | seq (r s : Regex)
  | star (r : Regex)

namespace Regex

/-! ## The language of an expression -/

/-- The texts an expression describes. -/
def lang : Regex → Language Char
  | empty => 0
  | eps => 1
  | cls p => {w | ∃ c, p c = true ∧ w = [c]}
  | alt r s => r.lang + s.lang
  | seq r s => r.lang * s.lang
  | star r => r.lang∗

theorem mem_lang_cls {p : Char → Bool} {w : List Char} :
    w ∈ (cls p).lang ↔ ∃ c, p c = true ∧ w = [c] := Iff.rfl

@[simp] theorem lang_eps : eps.lang = 1 := rfl

theorem mem_lang_alt {r s : Regex} {w : List Char} :
    w ∈ (alt r s).lang ↔ w ∈ r.lang ∨ w ∈ s.lang := Language.mem_add _ _ _

theorem mem_lang_seq {r s : Regex} {w : List Char} :
    w ∈ (seq r s).lang ↔ ∃ a ∈ r.lang, ∃ b ∈ s.lang, a ++ b = w := Language.mem_mul

/-- The empty text is in the language. -/
def nullable : Regex → Bool
  | empty => false
  | eps => true
  | cls _ => false
  | alt r s => r.nullable || s.nullable
  | seq r s => r.nullable && s.nullable
  | star _ => true

theorem nullable_iff (r : Regex) : r.nullable = true ↔ [] ∈ r.lang := by
  induction r with
  | empty => simp [nullable, lang]
  | eps => simp [nullable, Language.mem_one]
  | cls p => simp [nullable, mem_lang_cls]
  | alt r s ihr ihs => simp [nullable, ihr, ihs, mem_lang_alt]
  | seq r s ihr ihs => simp [nullable, ihr, ihs, mem_lang_seq]
  | star r _ => simp [nullable, lang, Language.nil_mem_kstar]

/-! ## Derivatives -/

/-- A sequence that drops a part which adds nothing. -/
def seq' : Regex → Regex → Regex
  | empty, _ => empty
  | eps, s => s
  | r, s => seq r s

/-- An alternative that drops a branch without texts. -/
def alt' : Regex → Regex → Regex
  | empty, s => s
  | r, empty => r
  | r, s => alt r s

theorem lang_seq' (r s : Regex) : (seq' r s).lang = r.lang * s.lang := by
  unfold seq'
  split
  · simp [lang]
  · simp
  · rfl

theorem mem_lang_alt' {r s : Regex} {w : List Char} :
    w ∈ (alt' r s).lang ↔ w ∈ r.lang ∨ w ∈ s.lang := by
  unfold alt'
  split
  · simp [lang]
  · simp [lang]
  · exact mem_lang_alt

/-- What may follow once `c` has been read. -/
def deriv (c : Char) : Regex → Regex
  | empty => empty
  | eps => empty
  | cls p => if p c then eps else empty
  | alt r s => alt' (deriv c r) (deriv c s)
  | seq r s =>
    if r.nullable then alt' (seq' (deriv c r) s) (deriv c s) else seq' (deriv c r) s
  | star r => seq' (deriv c r) (star r)

theorem cons_mem_mul {l m : Language Char} {c : Char} {w : List Char} :
    c :: w ∈ l * m ↔
      (∃ a b, c :: a ∈ l ∧ b ∈ m ∧ a ++ b = w) ∨ ([] ∈ l ∧ c :: w ∈ m) := by
  rw [Language.mem_mul]
  constructor
  · rintro ⟨a, ha, b, hb, hab⟩
    cases a with
    | nil => exact Or.inr ⟨ha, by simpa [← hab] using hb⟩
    | cons d a =>
      rw [List.cons_append, List.cons.injEq] at hab
      obtain ⟨rfl, hab⟩ := hab
      exact Or.inl ⟨a, b, ha, hb, hab⟩
  · rintro (⟨a, b, ha, hb, rfl⟩ | ⟨hl, hm⟩)
    · exact ⟨c :: a, ha, b, hb, rfl⟩
    · exact ⟨[], hl, c :: w, hm, rfl⟩

theorem cons_mem_kstar {l : Language Char} {c : Char} {w : List Char} :
    c :: w ∈ l∗ ↔ ∃ a b, c :: a ∈ l ∧ b ∈ l∗ ∧ a ++ b = w := by
  constructor
  · intro h
    obtain ⟨L, hw, hL⟩ := Language.mem_kstar_iff_exists_nonempty.1 h
    cases L with
    | nil => simp at hw
    | cons x L =>
      obtain ⟨hx, hne⟩ := hL x List.mem_cons_self
      cases x with
      | nil => exact absurd rfl hne
      | cons d x =>
        rw [List.flatten_cons, List.cons_append, List.cons.injEq] at hw
        obtain ⟨rfl, rfl⟩ := hw
        exact ⟨x, L.flatten, hx,
          Language.join_mem_kstar fun y hy => (hL y (List.mem_cons_of_mem _ hy)).1, rfl⟩
  · rintro ⟨a, b, ha, hb, rfl⟩
    obtain ⟨L, rfl, hL⟩ := Language.mem_kstar.1 hb
    refine Language.mem_kstar.2 ⟨(c :: a) :: L, rfl, fun y hy => ?_⟩
    rcases List.mem_cons.1 hy with rfl | hy
    · exact ha
    · exact hL y hy

/-- **The derivative describes the rests of the texts that begin with `c`.** -/
theorem mem_lang_deriv (c : Char) (r : Regex) (w : List Char) :
    w ∈ (deriv c r).lang ↔ c :: w ∈ r.lang := by
  induction r generalizing w with
  | empty => simp [deriv, lang]
  | eps => simp [deriv, lang, Language.mem_one]
  | cls p =>
    rw [mem_lang_cls, deriv]
    split_ifs with hp
    · simp [Language.mem_one, hp]
    · simpa [lang] using fun h : p c = true => absurd h hp
  | alt r s ihr ihs => simp [deriv, mem_lang_alt', mem_lang_alt, ihr, ihs]
  | seq r s ihr ihs =>
    have hfirst : w ∈ (seq' (deriv c r) s).lang ↔
        ∃ a b, c :: a ∈ r.lang ∧ b ∈ s.lang ∧ a ++ b = w := by
      simp only [lang_seq', Language.mem_mul, ihr]
      grind
    rw [show (seq r s).lang = r.lang * s.lang from rfl, cons_mem_mul, ← nullable_iff, deriv]
    split_ifs with hnull
    · simp [mem_lang_alt', hfirst, ihs, hnull]
    · simp [hfirst, hnull]
  | star r ih =>
    rw [deriv, lang_seq', Language.mem_mul, show (star r).lang = r.lang∗ from rfl, cons_mem_kstar]
    simp only [ih]
    grind

/-- `regex_match(s.c_str(), r)` for a text without NUL, `regex_match(s, r)` for any. -/
def isMatch (r : Regex) (s : String) : Bool := (s.toList.foldl (fun r c => deriv c r) r).nullable

/-- **Matching decides the language.** -/
theorem isMatch_iff (r : Regex) (s : String) : r.isMatch s = true ↔ s.toList ∈ r.lang := by
  unfold isMatch
  induction s.toList generalizing r with
  | nil => exact nullable_iff r
  | cons c w ih => rw [List.foldl_cons, ih, mem_lang_deriv]

/-! ## Shorthands of the syntax -/

/-- One given character. -/
def char (c : Char) : Regex := cls (· == c)

/-- A text taken literally. -/
def lit (s : String) : Regex := s.toList.foldr (fun c r => seq (char c) r) eps

/-- `.`: any character, a line break included. -/
def any : Regex := cls fun _ => true

/-- `r?`. -/
def opt (r : Regex) : Regex := alt r eps

/-- `r+`. -/
def plus (r : Regex) : Regex := seq r (star r)

/-- `r{n}`. -/
def times : Nat → Regex → Regex
  | 0, _ => eps
  | n + 1, r => seq r (times n r)

/-- `r{0,n}`. -/
def upTo : Nat → Regex → Regex
  | 0, _ => eps
  | n + 1, r => opt (seq r (upTo n r))

/-- The first of several alternatives and the others: `r1|r2|..`. -/
def oneOf (rs : List Regex) : Regex := rs.foldr alt empty

/-- `[0-9]`, `\d`. -/
def digit : Regex := cls Char.isDigit

/-- `[a-b]`. -/
def range (a b : Char) : Regex := cls fun c => a ≤ c && c ≤ b

theorem mem_lang_lit {s : String} {w : List Char} : w ∈ (lit s).lang ↔ w = s.toList := by
  unfold lit
  induction s.toList generalizing w with
  | nil => simp [Language.mem_one]
  | cons c l ih =>
    rw [List.foldr_cons, mem_lang_seq]
    constructor
    · rintro ⟨a, ha, b, hb, rfl⟩
      obtain ⟨d, hd, rfl⟩ := mem_lang_cls.1 ha
      rw [ih.1 hb, beq_iff_eq.1 hd]
      rfl
    · rintro rfl
      exact ⟨[c], ⟨c, beq_self_eq_true c, rfl⟩, l, ih.2 rfl, rfl⟩

theorem mem_lang_star_cls {p : Char → Bool} {w : List Char} :
    w ∈ (star (cls p)).lang ↔ ∀ c ∈ w, p c = true := by
  constructor
  · intro h
    obtain ⟨ws, rfl, hws⟩ := Language.mem_kstar.1 h
    intro c hc
    obtain ⟨y, hy, hcy⟩ := List.mem_flatten.1 hc
    obtain ⟨d, hd, rfl⟩ := hws y hy
    obtain rfl := List.mem_singleton.1 hcy
    exact hd
  · intro h
    refine Language.mem_kstar.2 ⟨w.map fun c => [c], ?_, fun y hy => ?_⟩
    · clear h
      induction w with
      | nil => rfl
      | cons c w ih => simpa using ih
    · obtain ⟨c, hc, rfl⟩ := List.mem_map.1 hy
      exact ⟨c, h c hc, rfl⟩

theorem mem_lang_star_any (w : List Char) : w ∈ (star any).lang :=
  mem_lang_star_cls.2 fun _ _ => rfl

theorem mem_lang_opt {r : Regex} {w : List Char} : w ∈ (opt r).lang ↔ w ∈ r.lang ∨ w = [] := by
  rw [opt, mem_lang_alt, lang_eps, Language.mem_one]

/-- One character or more of a class. -/
theorem mem_lang_plus_cls {p : Char → Bool} {w : List Char} :
    w ∈ (plus (cls p)).lang ↔ w ≠ [] ∧ ∀ c ∈ w, p c = true := by
  rw [plus, mem_lang_seq]
  constructor
  · rintro ⟨a, ⟨c, hc, rfl⟩, b, hb, rfl⟩
    refine ⟨by simp, fun d hd => ?_⟩
    rcases List.mem_cons.1 hd with rfl | hd
    · exact hc
    · exact mem_lang_star_cls.1 hb d hd
  · rintro ⟨hne, hall⟩
    cases w with
    | nil => exact absurd rfl hne
    | cons c w =>
      refine ⟨[c], ⟨c, hall c List.mem_cons_self, rfl⟩, w, mem_lang_star_cls.2 ?_, rfl⟩
      intro d hd
      exact hall d (List.mem_cons_of_mem c hd)

/-- A number of characters of a class. -/
theorem mem_lang_times_cls {p : Char → Bool} {n : ℕ} {w : List Char} :
    w ∈ (times n (cls p)).lang ↔ w.length = n ∧ ∀ c ∈ w, p c = true := by
  induction n generalizing w with
  | zero =>
    rw [times, lang_eps, Language.mem_one, List.length_eq_zero_iff]
    refine ⟨fun h => ⟨h, by simp [h]⟩, fun h => h.1⟩
  | succ n ih =>
    rw [times, mem_lang_seq]
    constructor
    · rintro ⟨a, ⟨c, hc, rfl⟩, b, hb, rfl⟩
      obtain ⟨hlen, hall⟩ := ih.1 hb
      refine ⟨by simp [hlen], fun d hd => ?_⟩
      rcases List.mem_cons.1 hd with rfl | hd
      · exact hc
      · exact hall d hd
    · rintro ⟨hlen, hall⟩
      cases w with
      | nil => cases hlen
      | cons c w =>
        have hrest : w ∈ (times n (cls p)).lang :=
          ih.2 ⟨Nat.succ.inj hlen, fun d hd => hall d (List.mem_cons_of_mem c hd)⟩
        exact ⟨[c], ⟨c, hall c List.mem_cons_self, rfl⟩, w, hrest, rfl⟩

theorem mem_lang_char {c : Char} {w : List Char} : w ∈ (char c).lang ↔ w = [c] := by
  constructor
  · rintro ⟨d, hd, rfl⟩
    rw [beq_iff_eq.1 hd]
  · rintro rfl
    exact ⟨c, beq_self_eq_true c, rfl⟩

theorem mem_lang_range {a b : Char} {w : List Char} :
    w ∈ (range a b).lang ↔ ∃ c, (a ≤ c ∧ c ≤ b) ∧ w = [c] := by
  simp [range, mem_lang_cls]

/-- Repetitions of expressions with the same language. -/
theorem lang_times_congr {r s : Regex} (h : r.lang = s.lang) (n : ℕ) :
    (times n r).lang = (times n s).lang := by
  induction n with
  | zero => rfl
  | succ n ih => rw [times, times, lang, lang, h, ih]

theorem mem_lang_oneOf {rs : List Regex} {w : List Char} :
    w ∈ (oneOf rs).lang ↔ ∃ r ∈ rs, w ∈ r.lang := by
  induction rs with
  | nil => simp [oneOf, lang]
  | cons r rs ih =>
    have hcons : oneOf (r :: rs) = alt r (oneOf rs) := rfl
    rw [hcons, mem_lang_alt, ih]
    simp

/-- A literal followed by anything describes the texts with that prefix. -/
theorem isMatch_lit_any {pre s : String} :
    (seq (lit pre) (star any)).isMatch s = startsWith s pre := by
  rw [Bool.eq_iff_iff, isMatch_iff, startsWith_iff, mem_lang_seq]
  constructor
  · rintro ⟨a, ha, b, -, hab⟩
    rw [mem_lang_lit] at ha
    exact ⟨b, by rw [← hab, ha]⟩
  · rintro ⟨b, hb⟩
    exact ⟨pre.toList, mem_lang_lit.2 rfl, b, mem_lang_star_any b, hb⟩

/-- Anything between two literals: the texts that have the one before and the other behind. -/
theorem isMatch_lit_any_lit {pre suf s : String} :
    (seq (lit pre) (seq (star any) (lit suf))).isMatch s = true ↔
      ∃ m, s.toList = pre.toList ++ m ++ suf.toList := by
  rw [isMatch_iff, mem_lang_seq]
  constructor
  · rintro ⟨a, ha, b, hb, hab⟩
    obtain ⟨m, -, t, ht, hmt⟩ := mem_lang_seq.1 hb
    rw [mem_lang_lit] at ha ht
    exact ⟨m, by rw [← hab, ← hmt, ha, ht, List.append_assoc]⟩
  · rintro ⟨m, hm⟩
    exact ⟨pre.toList, mem_lang_lit.2 rfl, m ++ suf.toList,
      mem_lang_seq.2 ⟨m, mem_lang_star_any m, suf.toList, mem_lang_lit.2 rfl, rfl⟩,
      by rw [hm, List.append_assoc]⟩

end Regex

end Lib
