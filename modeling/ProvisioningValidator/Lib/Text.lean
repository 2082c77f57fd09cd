import Mathlib

/-!
# Texts as C++ reads them

A text is the sequence of its bytes, one `Char` for each. Three operations of the C++ library
are used on them throughout:

* `cstr` — what is left of a text once it has gone through a `const char*`: everything before
  the first NUL;
* `contains`, `startsWith`, `endsWith` — `find(..) != npos`, a prefix and a suffix test;
* `toLowerCopy` — `boost::algorithm::to_lower_copy` in the C locale.
-/

namespace Lib

/-! ## Through a `const char*` -/

/-- `std::string{s.c_str()}`: the text before the first NUL. -/
def cstr (s : String) : String := String.ofList (s.toList.takeWhile (· ≠ '\x00'))

/-- The text has no NUL in it. -/
def NulFree (s : String) : Prop := '\x00' ∉ s.toList

instance (s : String) : Decidable (NulFree s) := inferInstanceAs (Decidable ('\x00' ∉ s.toList))

theorem toList_cstr (s : String) : (cstr s).toList = s.toList.takeWhile (· ≠ '\x00') := by
  simp [cstr]

theorem nulFree_cstr (s : String) : NulFree (cstr s) := by
  intro h
  rw [toList_cstr] at h
  simpa using List.mem_takeWhile_imp h

theorem cstr_eq_self {s : String} : cstr s = s ↔ NulFree s := by
  constructor
  · intro h
    rw [← h]
    exact nulFree_cstr s
  · intro h
    rw [← String.toList_inj, toList_cstr, List.takeWhile_eq_self_iff]
    intro c hc
    have hne : c ≠ '\x00' := fun he => h (he ▸ hc)
    simpa using hne

@[simp] theorem cstr_cstr (s : String) : cstr (cstr s) = cstr s :=
  cstr_eq_self.2 (nulFree_cstr s)

@[simp] theorem cstr_empty : cstr "" = "" := rfl

/-- A text goes through `const char*` as a prefix of itself. -/
theorem cstr_isPrefix (s : String) : (cstr s).toList <+: s.toList := by
  rw [toList_cstr]
  exact List.takeWhile_prefix _

/-! ## Substring tests -/

/-- `s.find(sub) != std::string::npos`. -/
def contains (s sub : String) : Bool := decide (sub.toList <:+: s.toList)

/-- `s` begins with `pre`. -/
def startsWith (s pre : String) : Bool := decide (pre.toList <+: s.toList)

/-- `s.ends_with(suf)`. -/
def endsWith (s suf : String) : Bool := decide (suf.toList <:+ s.toList)

theorem contains_iff {s sub : String} : contains s sub = true ↔ sub.toList <:+: s.toList := by
  simp [contains]

theorem startsWith_iff {s pre : String} : startsWith s pre = true ↔ pre.toList <+: s.toList := by
  simp [startsWith]

theorem endsWith_iff {s suf : String} : endsWith s suf = true ↔ suf.toList <:+ s.toList := by
  simp [endsWith]

/-! ## Letter case -/

/-- `boost::algorithm::to_lower_copy` in the C locale: only `A`..`Z` change. -/
def toLowerCopy (s : String) : String := String.ofList (s.toList.map Char.toLower)

@[simp] theorem toLowerCopy_toLowerCopy (s : String) :
    toLowerCopy (toLowerCopy s) = toLowerCopy s := by
  have htwice : Char.toLower ∘ Char.toLower = Char.toLower :=
    funext Char.toLower_toLower_eq_toLower
  simp [toLowerCopy, htwice]

end Lib
