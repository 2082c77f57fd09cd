import Mathlib
import ProvisioningValidator.DigitMasks

/-!
# Members with an identity

A `MemberText` is a JSON text around the digits of a member that is named `imsi`, `msisdn` or
`impi`. The member itself has no hyphen, so no match of the first pass begins in it.
-/

namespace ProvisioningValidator

open Lib Lib.Regex

/-! ## The member and the text around it -/

/-- The names of members with an identity. -/
def identityNames : List String := ["imsi", "IMSI", "msisdn", "MSISDN", "impi", "IMPI"]

def hexValue (c : Char) : Option ℕ :=
  if c.isDigit = true then some (c.toNat - '0'.toNat)
  else if 'a' ≤ c ∧ c ≤ 'f' then some (c.toNat - 'a'.toNat + 10)
  else if 'A' ≤ c ∧ c ≤ 'F' then some (c.toNat - 'A'.toNat + 10)
  else none

/-- The number that four hexadecimal digits denote. -/
def hexCode (a b c d : Char) : Option ℕ := do
  return (((← hexValue a) * 16 + (← hexValue b)) * 16 + (← hexValue c)) * 16 + (← hexValue d)

/-- What may stand between the quotes of a JSON string, for a text that needs no escapes. -/
inductive Spells : List Char → List Char → Prop
  | nil : Spells [] []
  | plain {c : Char} {l s : List Char} (h : Spells l s) : Spells (c :: l) (c :: s)
  | escaped {a b c d e : Char} {l s : List Char} (hcode : hexCode a b c d = some e.toNat)
      (h : Spells l s) : Spells ('\\' :: 'u' :: a :: b :: c :: d :: l) (e :: s)

/-- A JSON text with a member of one of the names, but for the digits that are its value. -/
structure MemberText where
  before : List Char
  /-- The brace or the comma before the member. -/
  opening : Char
  space₀ : List Char
  name : String
  /-- How the name is written. -/
  literal : List Char
  space₁ : List Char
  space₂ : List Char
  after : List Char
  opening_eq : opening = '{' ∨ opening = ','
  space₀_white : ∀ c ∈ space₀, c.isWhitespace = true
  name_mem : name ∈ identityNames
  literal_spells : Spells literal name.toList
  space₁_white : ∀ c ∈ space₁, c.isWhitespace = true
  space₂_white : ∀ c ∈ space₂, c.isWhitespace = true

namespace MemberText

variable (m : MemberText) (d : List Char)

/-- The member up to its value. -/
def head : List Char := '"' :: (m.literal ++ '"' :: (m.space₁ ++ ':' :: m.space₂))

/-- The text from the first digit on. -/
def fromDigits : List Char := d ++ '"' :: m.after

/-- The text from the member on. -/
def fromMember : List Char := m.head ++ '"' :: m.fromDigits d

/-- The text with these digits. -/
def text : List Char := m.before ++ m.opening :: (m.space₀ ++ m.fromMember d)

end MemberText

/-! ### Characters of the member -/

theorem isAlphanum_of_hexValue {c : Char} (h : (hexValue c).isSome = true) :
    c.isAlphanum = true := by
  rw [hexValue] at h
  split_ifs at h with hd ha hA
  · simp [Char.isAlphanum, hd]
  · have hz : c ≤ 'z' := ha.2.trans (by decide)
    have hlower : c.isLower = true := Bool.and_eq_true_iff.2
      ⟨decide_eq_true ha.1, decide_eq_true hz⟩
    simp [Char.isAlphanum, Char.isAlpha, hlower]
  · have hZ : c ≤ 'Z' := hA.2.trans (by decide)
    have hupper : c.isUpper = true := decide_eq_true ⟨hA.1, hZ⟩
    simp [Char.isAlphanum, Char.isAlpha, hupper]
  · cases h

namespace Spells

variable {l s : List Char}

/-- A name of letters is written with letters, digits and backslashes. -/
theorem chars (h : Spells l s) (hs : ∀ c ∈ s, c.isAlpha = true) :
    ∀ c ∈ l, c.isAlphanum = true ∨ c = '\\' := by
  induction h with
  | nil => exact nofun
  | plain _ ih =>
    obtain ⟨hc, hs⟩ := List.forall_mem_cons.1 hs
    exact List.forall_mem_cons.2 ⟨.inl (by simp [Char.isAlphanum, hc]), ih hs⟩
  | @escaped a b c d e l s hcode _ ih =>
    have hsome : (hexValue a).isSome = true ∧ (hexValue b).isSome = true ∧
        (hexValue c).isSome = true ∧ (hexValue d).isSome = true := by
      rw [hexCode] at hcode
      cases ha : hexValue a <;> cases hb : hexValue b <;> cases hc : hexValue c <;>
        cases hd : hexValue d <;> simp_all
    obtain ⟨ha, hb, hc, hd⟩ := hsome
    intro x hx
    simp only [List.mem_cons] at hx
    rcases hx with rfl | rfl | rfl | rfl | rfl | rfl | hx
    · exact .inr rfl
    · exact .inl (by decide)
    · exact .inl (isAlphanum_of_hexValue ha)
    · exact .inl (isAlphanum_of_hexValue hb)
    · exact .inl (isAlphanum_of_hexValue hc)
    · exact .inl (isAlphanum_of_hexValue hd)
    · exact ih (List.forall_mem_cons.1 hs).2 x hx

/-- A name without a backslash is written as it is. -/
theorem eq_of_not_mem (h : Spells l s) (hl : '\\' ∉ l) : l = s := by
  induction h with
  | nil => rfl
  | plain _ ih => rw [ih fun hmem => hl (List.mem_cons_of_mem _ hmem)]
  | escaped => exact absurd List.mem_cons_self hl

end Spells

/-! ## Texts with a distinguished character -/

/-- Two ways to take the characters of a kind from the beginning of a text. -/
theorem span_inj {p : Char → Prop} {a a' b b' : List Char} {c c' : Char} (ha : ∀ x ∈ a, p x)
    (ha' : ∀ x ∈ a', p x) (hc : ¬ p c) (hc' : ¬ p c') (h : a ++ c :: b = a' ++ c' :: b') :
    a = a' ∧ c = c' ∧ b = b' := by
  induction a generalizing a' with
  | nil =>
    cases a' with
    | nil => exact ⟨rfl, List.cons.inj h⟩
    | cons y a' => exact absurd ((List.cons.inj h).1 ▸ ha' y List.mem_cons_self) hc
  | cons x a ih =>
    cases a' with
    | nil => exact absurd ((List.cons.inj h).1 ▸ ha x List.mem_cons_self) hc'
    | cons y a' =>
      obtain ⟨hxy, hrest⟩ := List.cons.inj h
      obtain ⟨haa, hcc, hbb⟩ := ih (fun z hz => ha z (List.mem_cons_of_mem x hz))
        (fun z hz => ha' z (List.mem_cons_of_mem y hz)) hrest
      exact ⟨by rw [hxy, haa], hcc, hbb⟩

/-- Where a text goes on with a character, behind a beginning without it. -/
theorem cons_of_append {a b x y : List Char} {c : Char} (hc : c ∉ a)
    (h : a ++ b = x ++ c :: y) : ∃ x', b = x' ++ c :: y ∧ x = a ++ x' := by
  rcases List.append_eq_append_iff.1 h with ⟨x', rfl, hb⟩ | ⟨z, rfl, hz⟩
  · exact ⟨x', hb, rfl⟩
  · cases z with
    | nil => exact ⟨[], hz.symm, by simp⟩
    | cons d z =>
      rw [List.cons_append, List.cons.injEq] at hz
      exact absurd (hz.1 ▸ List.mem_append_right x List.mem_cons_self) hc

/-! ## The first pass on the member -/

/-- Before a quote, with no hyphen on the way, no match begins. -/
theorem user_none {x : List Char} (hx : '-' ∉ x) (s : List Char) :
    matchLength userRegExp (x ++ '"' :: s) = 0 := by
  by_contra hne
  obtain ⟨⟨a, b, hab, ha⟩, -⟩ := user_match (Nat.pos_of_ne_zero hne)
  have hsplit := List.take_append_drop (matchLength userRegExp (x ++ '"' :: s)) (x ++ '"' :: s)
  rw [hab, List.append_assoc, List.cons_append] at hsplit
  obtain ⟨x', hx', rfl⟩ := cons_of_append hx hsplit.symm
  cases x' with
  | nil => exact absurd (List.cons.inj hx').1 (by decide)
  | cons c x' =>
    have hquote : '"' ∈ x ++ c :: x' :=
      List.mem_append_right x (List.mem_cons.2 (.inl (List.cons.inj hx').1))
    exact absurd (ha '"' hquote) (by decide)

theorem user_none_suffix {x : List Char} (hx : '-' ∉ x) (s : List Char) :
    ∀ u v, x = u ++ v → v ≠ [] → matchLength userRegExp (v ++ '"' :: s) = 0 := by
  intro u v huv _
  exact user_none (fun h => hx (huv ▸ List.mem_append_right u h)) s

/-- The first pass copies what it finds before a quote, with no hyphen on the way. -/
theorem user_copy {x : List Char} (hx : '-' ∉ x) (s : List Char) :
    anonymizeString (x ++ '"' :: s) = x ++ anonymizeString ('"' :: s) :=
  replaceAll_append (user_none_suffix hx s)

theorem anonymizeString_quote (s : List Char) :
    anonymizeString ('"' :: s) = '"' :: anonymizeString s :=
  replaceAll_cons (user_none (x := []) List.not_mem_nil s)

namespace MemberText

variable (m : MemberText)

theorem name_alpha : ∀ c ∈ m.name.toList, c.isAlpha = true := by
  have hall : ∀ name ∈ identityNames, ∀ c ∈ name.toList, c.isAlpha = true := by
    simp [identityNames]
  exact hall m.name m.name_mem

theorem literal_chars : ∀ c ∈ m.literal, c.isAlphanum = true ∨ c = '\\' :=
  m.literal_spells.chars m.name_alpha

theorem literal_ne {c : Char} (hc : c.isAlphanum = false) (hc' : c ≠ '\\') : c ∉ m.literal := by
  intro h
  rcases m.literal_chars c h with h | h
  · exact Bool.noConfusion (hc.symm.trans h)
  · exact hc' h

theorem name_ne_nil : m.name.toList ≠ [] := by
  have hall : ∀ name ∈ identityNames, name.toList ≠ [] := by simp [identityNames]
  exact hall m.name m.name_mem

/-- The characters around the colon. -/
def colon : List Char := m.space₁ ++ ':' :: m.space₂

theorem colon_chars : ∀ c ∈ m.colon, c.isWhitespace = true ∨ c = ':' := by
  intro c hc
  rcases List.mem_append.1 hc with hc | hc
  · exact .inl (m.space₁_white c hc)
  · exact (List.mem_cons.1 hc).symm.imp_left (m.space₂_white c)

theorem colon_ne {c : Char} (hc : c.isWhitespace = false) (hc' : c ≠ ':') : c ∉ m.colon := by
  intro h
  rcases m.colon_chars c h with h | h
  · exact Bool.noConfusion (hc.symm.trans h)
  · exact hc' h

theorem head_eq : m.head = ('"' :: (m.literal ++ ['"'])) ++ m.colon := by simp [head, colon]

theorem hyphen_head : '-' ∉ m.head := by
  intro h
  rw [head_eq] at h
  simp only [List.mem_append, List.mem_cons, List.not_mem_nil, or_false] at h
  rcases h with (h | h | h) | h
  · exact absurd h (by decide)
  · exact m.literal_ne (by decide) (by decide) h
  · exact absurd h (by decide)
  · exact m.colon_ne (by decide) (by decide) h

theorem hyphen_opening : '-' ∉ m.opening :: m.space₀ := by
  intro h
  rcases List.mem_cons.1 h with h | h
  · rcases m.opening_eq with ho | ho
    · exact absurd (h.trans ho) (by decide)
    · exact absurd (h.trans ho) (by decide)
  · exact absurd (m.space₀_white '-' h) (by decide)

end MemberText

theorem hyphen_digits {d : List Char} (hd : ∀ c ∈ d, c.isDigit = true) : '-' ∉ d := fun h =>
  absurd (hd '-' h) (by decide)

theorem quote_digits {d : List Char} (hd : ∀ c ∈ d, c.isDigit = true) : '"' ∉ d := fun h =>
  absurd (hd '"' h) (by decide)

/-- The first pass copies the member where it comes to it. -/
theorem anonymizeString_fromMember (m : MemberText) {d : List Char}
    (hd : ∀ c ∈ d, c.isDigit = true) {x : List Char} (hx : '-' ∉ x) :
    anonymizeString (x ++ m.fromMember d) =
      x ++ (m.head ++ '"' :: (d ++ '"' :: anonymizeString m.after)) := by
  have hfree : '-' ∉ x ++ (m.head ++ '"' :: d) := by
    simp only [List.mem_append, List.mem_cons, not_or]
    exact ⟨hx, m.hyphen_head, by decide, hyphen_digits hd⟩
  have hcopy := user_copy hfree m.after
  rw [anonymizeString_quote] at hcopy
  simp only [List.append_assoc, List.cons_append] at hcopy
  exact hcopy

end ProvisioningValidator
