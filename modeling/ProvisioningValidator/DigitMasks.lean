import Mathlib
import ProvisioningValidator.Anonymizer

/-!
# Texts that differ in digits

Both passes look at the characters of a text one by one, and most of their classes take a digit for
another one. Where they ask for a certain digit, they ask for a hyphen behind it. So texts that
differ only in digits with no hyphen behind them (`DigitsApart`) are searched alike
(`blind_userRegExp`, `blind_userJsonRegExp`), and differ afterwards where `mask` leaves a digit that
differs.
-/

namespace ProvisioningValidator

open Lib Lib.Regex

/-! ## The same but for digits -/

/-- The texts differ only in digits behind which there is no hyphen. -/
inductive DigitsApart : List Char → List Char → Prop
  | nil : DigitsApart [] []
  | same {c : Char} {s s' : List Char} (h : DigitsApart s s') : DigitsApart (c :: s) (c :: s')
  | digit {c c' : Char} {s s' : List Char} (hc : c.isDigit = true) (hc' : c'.isDigit = true)
      (hs : s.head? ≠ some '-') (hs' : s'.head? ≠ some '-') (h : DigitsApart s s') :
      DigitsApart (c :: s) (c' :: s')

namespace DigitsApart

theorem refl (s : List Char) : DigitsApart s s := by
  induction s with
  | nil => exact nil
  | cons c s ih => exact same ih

theorem append (q : List Char) {s s' : List Char} (h : DigitsApart s s') :
    DigitsApart (q ++ s) (q ++ s') := by
  induction q with
  | nil => exact h
  | cons c q ih => exact same ih

theorem length_eq {s s' : List Char} (h : DigitsApart s s') : s.length = s'.length := by
  induction h with
  | nil => rfl
  | same _ ih => exact congrArg Nat.succ ih
  | digit _ _ _ _ _ ih => exact congrArg Nat.succ ih

end DigitsApart

/-! ## Expressions that take a digit for another one -/

section

variable {p : Char → Bool} {r : Regex}

theorem blind_cls (hp : ∀ c c', c.isDigit = true → c'.isDigit = true → p c = p c') :
    Blind DigitsApart (cls p) := by
  intro s s' hs
  cases hs with
  | nil => exact .nil
  | @same c s s' h =>
    rw [rests, rests]
    split_ifs
    · exact .cons h .nil
    · exact .nil
  | @digit c c' s s' hc hc' _ _ h =>
    rw [rests, rests, hp c c' hc hc']
    split_ifs
    · exact .cons h .nil
    · exact .nil

theorem blind_char {c : Char} (hc : c.isDigit = false) : Blind DigitsApart (char c) := by
  refine blind_cls fun d d' hd hd' => ?_
  have hne : ∀ {d : Char}, d.isDigit = true → (d == c) = false := fun hd =>
    beq_eq_false_iff_ne.2 fun heq => by
      rw [heq, hc] at hd
      exact Bool.noConfusion hd
  rw [hne hd, hne hd']

theorem blind_digit : Blind DigitsApart digit := blind_cls fun _ _ hc hc' => hc.trans hc'.symm

theorem blind_any : Blind DigitsApart any := blind_cls fun _ _ _ _ => rfl

theorem blind_lit {s : String} (hs : ∀ c ∈ s.toList, c.isDigit = false) :
    Blind DigitsApart (lit s) := by
  rw [lit]
  generalize s.toList = l at hs
  induction l with
  | nil => exact .eps
  | cons c l ih =>
    exact .seq (blind_char (hs c List.mem_cons_self))
      (ih fun d hd => hs d (List.mem_cons_of_mem c hd))

/-- A class that asks for certain digits, with a hyphen asked for behind it. -/
theorem blind_before_hyphen (h : Blind DigitsApart r)
    (hr : ∀ s : List Char, s.head? ≠ some '-' → rests r s = []) :
    Blind DigitsApart (seq (cls p) r) := by
  intro s s' hs
  cases hs with
  | nil => exact .nil
  | @same c s s' hs =>
    rw [rests, rests, rests, rests]
    split_ifs
    · exact List.rel_append (h s s' hs) .nil
    · exact .nil
  | @digit c c' s s' _ _ hhead hhead' _ =>
    have hnil : ∀ {d : Char} {l : List Char}, l.head? ≠ some '-' →
        rests (seq (cls p) r) (d :: l) = [] := by
      intro d l hl
      rw [rests, rests]
      split_ifs
      · rw [List.flatMap_cons, hr l hl, List.flatMap_nil, List.append_nil]
      · rfl
    rw [hnil hhead, hnil hhead']
    exact .nil

theorem rests_hyphen (r : Regex) (s : List Char) (hs : s.head? ≠ some '-') :
    rests (seq (char '-') r) s = [] := by
  cases s with
  | nil => rfl
  | cons c s =>
    have hc : (c == '-') = false := beq_eq_false_iff_ne.2 fun heq => hs (congrArg some heq)
    rw [rests, char, rests, if_neg (by rw [hc]; exact Bool.false_ne_true), List.flatMap_nil]

theorem rests_lit_hyphen (r : Regex) (s : List Char) (hs : s.head? ≠ some '-') :
    rests (seq (lit "-") r) s = [] := by
  rw [rests]
  show (rests (seq (char '-') eps) s).flatMap (rests r) = []
  rw [rests_hyphen eps s hs, List.flatMap_nil]

/-- `0-` -/
theorem blind_zero_hyphen (h : Blind DigitsApart r) :
    Blind DigitsApart (seq (char '0') (seq (char '-') r)) :=
  blind_before_hyphen (.seq (blind_char (by decide)) h) (rests_hyphen r)

theorem blind_dashed {names : List String} (hnames : ∀ name ∈ names, ∀ c ∈ name.toList,
    c.isDigit = false) (h : Blind DigitsApart r) : Blind DigitsApart (dashed names r) := by
  refine .seq (.oneOf fun r' hr' => ?_) (.seq (blind_lit (by simp)) h)
  obtain ⟨name, hname, rfl⟩ := List.mem_map.1 hr'
  exact blind_lit (hnames name hname)

theorem blind_plus (h : Blind DigitsApart r) : Blind DigitsApart (plus r) :=
  .plus (fun _ _ => DigitsApart.length_eq) h

theorem blind_star (h : Blind DigitsApart r) : Blind DigitsApart (star r) :=
  .star (fun _ _ => DigitsApart.length_eq) h

theorem blind_suci_digits : Blind DigitsApart
    (seq (lit "0-") (seq (times 3 digit) (seq (lit "-") (between 2 3 digit)))) :=
  .seq (blind_zero_hyphen .eps) <| .seq (.times blind_digit 3) <|
    .seq (blind_lit (by simp)) (.between blind_digit 2 3)

theorem blind_suciRegExp : Blind DigitsApart suciRegExp := by
  have hnonSpace : Blind DigitsApart nonSpace := by
    refine blind_cls fun c c' hc hc' => ?_
    rw [isSpace_digit hc, isSpace_digit hc']
  refine .seq (blind_lit (by simp)) <| .seq (.oneOf fun r hr => ?_) <|
    .seq (blind_lit (by simp)) <| .seq (.between blind_digit 1 4) <|
    .seq (blind_lit (by simp)) <| .seq (blind_zero_hyphen (blind_zero_hyphen .eps)) <|
    blind_plus hnonSpace
  simp only [List.mem_cons, List.not_mem_nil, or_false] at hr
  rcases hr with rfl | rfl
  · exact blind_suci_digits
  · exact blind_before_hyphen (.seq (blind_lit (by simp)) (blind_plus blind_any))
      (rests_lit_hyphen _)

/-- The first pass does not tell such texts apart. -/
theorem blind_userRegExp : Blind DigitsApart userRegExp := by
  refine .oneOf fun r hr => ?_
  simp only [List.mem_cons, List.not_mem_nil, or_false] at hr
  rcases hr with rfl | rfl | rfl | rfl | rfl
  · exact blind_dashed (by simp) (.between blind_digit 5 15)
  · exact blind_dashed (by simp) (.times blind_digit 15)
  · exact blind_dashed (by simp) (.between blind_digit 5 15)
  · refine .oneOf fun r hr => ?_
    simp only [List.mem_cons, List.not_mem_nil, or_false] at hr
    rcases hr with rfl | rfl | rfl
    · exact blind_dashed (by simp) (.times blind_digit 16)
    · exact blind_dashed (by simp) (.between blind_digit 5 15)
    · exact .seq (blind_lit (by simp)) (blind_plus blind_any)
  · exact blind_suciRegExp

theorem blind_jsonMember {names : List String} (hnames : ∀ name ∈ names, ∀ c ∈ name.toList,
    c.isDigit = false) (h : Blind DigitsApart r) : Blind DigitsApart (jsonMember names r) := by
  refine .seq (blind_lit (by simp)) <| .seq (.oneOf fun r' hr' => ?_) <|
    .seq (blind_lit (by simp)) <| .seq (blind_star (blind_char (by decide))) <|
    .seq (blind_lit (by simp)) <| .seq (blind_star (blind_char (by decide))) h
  obtain ⟨name, hname, rfl⟩ := List.mem_map.1 hr'
  exact blind_lit (hnames name hname)

theorem blind_inQuotes (h : Blind DigitsApart r) : Blind DigitsApart (inQuotes r) :=
  .seq (blind_lit (by simp)) (.seq h (blind_lit (by simp)))

/-- The second pass does not tell such texts apart. -/
theorem blind_userJsonRegExp : Blind DigitsApart userJsonRegExp := by
  have halphanumeric : Blind DigitsApart alphanumeric :=
    blind_cls fun c c' hc hc' => by rw [Char.isAlphanum, Char.isAlphanum, hc, hc']; simp
  refine .oneOf fun r hr => ?_
  simp only [List.mem_cons, List.not_mem_nil, or_false] at hr
  rcases hr with rfl | rfl | rfl | rfl | rfl | rfl | rfl | rfl | rfl
  · exact blind_jsonMember (by simp) (blind_inQuotes (.between blind_digit 5 15))
  · exact blind_jsonMember (by simp) (blind_inQuotes (.times blind_digit 15))
  · exact blind_jsonMember (by simp) (blind_inQuotes (.times blind_digit 16))
  · exact blind_jsonMember (by simp) (blind_inQuotes (.between blind_digit 5 15))
  · exact blind_jsonMember (by simp) (blind_inQuotes (.between blind_digit 5 15))
  · exact blind_jsonMember (by simp) (blind_inQuotes (blind_star halphanumeric))
  · exact blind_jsonMember (by simp) (blind_inQuotes (blind_star halphanumeric))
  · refine blind_jsonMember (by simp) <| .seq (blind_lit (by simp)) <|
      .seq (blind_star ?_) (blind_lit (by simp))
    exact .seq (blind_inQuotes (blind_star blind_digit)) <|
      .seq (.opt (blind_lit (by simp))) (.opt (blind_lit (by simp)))
  · exact blind_jsonMember (by simp) (blind_inQuotes blind_suci_digits)

end

/-! ## Masks -/

@[simp] theorem mask_nil (n : ℕ) : mask n [] = [] := rfl

theorem mask_cons (n : ℕ) (c : Char) (s : List Char) :
    mask n (c :: s) = (if n % 2 = 0 then '*' else c) :: mask (n + 1) s := by
  rw [mask, List.mapIdx_cons, mask]
  refine congrArg _ (congrArg (List.mapIdx · s) (funext fun i => funext fun d => ?_))
  rw [Nat.add_assoc, Nat.add_comm 1 i]

theorem mask_append (n : ℕ) (s t : List Char) :
    mask n (s ++ t) = mask n s ++ mask (n + s.length) t := by
  induction s generalizing n with
  | nil => rfl
  | cons c s ih =>
    rw [List.cons_append, mask_cons, mask_cons, ih, List.cons_append, List.length_cons,
      Nat.add_assoc, Nat.add_comm 1 s.length]

theorem getElem?_mask (n : ℕ) (s : List Char) (i : ℕ) :
    (mask n s)[i]? = s[i]?.map fun c => if (n + i) % 2 = 0 then '*' else c := by
  rw [mask, List.getElem?_mapIdx]

/-- A mask that begins at an even place hides the digits at even places. -/
theorem mask_eq_of_even {n : ℕ} (hn : n % 2 = 0) {d d' : List Char} (hlength : d.length = d'.length)
    (hodd : ∀ i, i % 2 = 1 → d[i]? = d'[i]?) : mask n d = mask n d' := by
  refine List.ext_getElem? fun i => ?_
  rw [getElem?_mask, getElem?_mask]
  by_cases hi : i % 2 = 1
  · rw [hodd i hi]
  · have heven : (n + i) % 2 = 0 := by omega
    simp only [heven, if_true]
    by_cases hlt : i < d.length
    · rw [List.getElem?_eq_getElem hlt, List.getElem?_eq_getElem (hlength ▸ hlt)]
      rfl
    · rw [List.getElem?_eq_none (not_lt.1 hlt), List.getElem?_eq_none (hlength ▸ not_lt.1 hlt)]

/-- One that begins at an odd place shows them. -/
theorem eq_of_mask_odd {n : ℕ} (hn : n % 2 = 1) {d d' : List Char}
    (hodd : ∀ i, i % 2 = 1 → d[i]? = d'[i]?) (h : mask n d = mask n d') : d = d' := by
  refine List.ext_getElem? fun i => ?_
  by_cases hi : i % 2 = 1
  · exact hodd i hi
  · have hmask := congrArg (·[i]?) h
    have hshown : ¬ (n + i) % 2 = 0 := by omega
    simp only [getElem?_mask, hshown, if_false, Option.map_id'] at hmask
    exact hmask

theorem mem_mask {n : ℕ} {s : List Char} {c : Char} (h : c ∈ mask n s) : c = '*' ∨ c ∈ s := by
  induction s generalizing n with
  | nil => exact absurd h List.not_mem_nil
  | cons d s ih =>
    rw [mask_cons, List.mem_cons] at h
    rcases h with h | h
    · by_cases hn : n % 2 = 0
      · exact .inl (h.trans (if_pos hn))
      · exact .inr (List.mem_cons.2 (.inl (h.trans (if_neg hn))))
    · exact (ih h).imp_right (List.mem_cons_of_mem d)

/-- The same character, or two digits. -/
def SameButDigit (c c' : Char) : Prop := c = c' ∨ (c.isDigit = true ∧ c'.isDigit = true)

theorem forall₂_digits {d d' : List Char} (hlength : d.length = d'.length)
    (hd : ∀ c ∈ d, c.isDigit = true) (hd' : ∀ c ∈ d', c.isDigit = true) :
    List.Forall₂ SameButDigit d d' := by
  induction d generalizing d' with
  | nil =>
    rw [List.eq_nil_of_length_eq_zero hlength.symm]
    exact .nil
  | cons c d ih =>
    cases d' with
    | nil => cases hlength
    | cons c' d' =>
      exact .cons (.inr ⟨hd c List.mem_cons_self, hd' c' List.mem_cons_self⟩)
        (ih (Nat.succ.inj hlength) (fun e he => hd e (List.mem_cons_of_mem c he))
          fun e he => hd' e (List.mem_cons_of_mem c' he))

theorem forall₂_mask {d d' : List Char} (h : List.Forall₂ SameButDigit d d') (n : ℕ) :
    List.Forall₂ SameButDigit (mask n d) (mask n d') := by
  induction h generalizing n with
  | nil => exact .nil
  | cons hc _ ih =>
    rw [mask_cons, mask_cons]
    refine .cons ?_ (ih (n + 1))
    split_ifs
    · exact .inl rfl
    · exact hc

/-- Digits that differ, without hyphens and not before one. -/
theorem digitsApart_append {x x' w : List Char} (h : List.Forall₂ SameButDigit x x')
    (hx : '-' ∉ x) (hx' : '-' ∉ x') (hw : w.head? ≠ some '-') : DigitsApart (x ++ w) (x' ++ w) := by
  have hhead : ∀ {s : List Char}, '-' ∉ s → (s ++ w).head? ≠ some '-' := by
    intro s hs
    cases s with
    | nil => exact hw
    | cons c s => exact fun heq => hs (List.mem_cons.2 (.inl (Option.some.inj heq).symm))
  induction h with
  | nil => exact .refl w
  | cons hc _ ih =>
    rw [List.mem_cons, not_or] at hx hx'
    rcases hc with rfl | ⟨hc, hc'⟩
    · exact .same (ih hx.2 hx'.2)
    · exact .digit hc hc' (hhead hx.2) (hhead hx'.2) (ih hx.2 hx'.2)

/-! ## The formatters -/

/-- The pieces of what a mask has begun `n` characters before. -/
def maskRest (n : ℕ) (s : List Char) : List Char :=
  match s.splitOn '-' with
  | [] => []
  | first :: strs => mask n first ++ strs.flatMap fun it => '-' :: mask 0 it

theorem splitOn_append {sep : Char} {x : List Char} (hx : sep ∉ x) (s : List Char) :
    (x ++ s).splitOn sep = (s.splitOn sep).modifyHead (x ++ ·) := by
  induction x with
  | nil => cases hs : s.splitOn sep <;> simp [hs]
  | cons c x ih =>
    have hc : (c == sep) = false := beq_eq_false_iff_ne.2 fun heq =>
      hx (heq ▸ List.mem_cons_self)
    rw [List.cons_append, List.splitOn_cons_eq_if_modifyHead, if_neg (by simp [hc]),
      ih fun h => hx (List.mem_cons_of_mem c h), List.modifyHead_modifyHead]
    rfl

theorem maskRest_append {x : List Char} (hx : '-' ∉ x) (n : ℕ) (s : List Char) :
    maskRest n (x ++ s) = mask n x ++ maskRest (n + x.length) s := by
  rw [maskRest, splitOn_append hx, maskRest]
  cases hs : s.splitOn '-' with
  | nil => exact absurd hs (List.splitOn_ne_nil _ _)
  | cons first strs =>
    rw [List.modifyHead_cons]
    show mask n (x ++ first) ++ _ = _
    rw [mask_append, List.append_assoc]

theorem maskRest_nil (n : ℕ) : maskRest n [] = [] := rfl

/-- Behind a hyphen the mask begins anew. -/
theorem formatter_hyphen (u s : List Char) :
    formatter (u ++ '-' :: s) = formatter u ++ '-' :: maskRest 0 s := by
  rw [formatter, List.splitOn_append_cons_self, formatter, maskRest]
  cases hu : u.splitOn '-' with
  | nil => exact absurd hu (List.splitOn_ne_nil _ _)
  | cons first strs =>
    cases hs : s.splitOn '-' with
    | nil => exact absurd hs (List.splitOn_ne_nil _ _)
    | cons first' strs' =>
      simp [List.flatMap_append]

/-- What is behind the last hyphen. -/
def behindHyphen (u : List Char) : List Char := (u.reverse.takeWhile (· != '-')).reverse

theorem eq_append_behindHyphen {u : List Char} (h : '-' ∈ u) :
    ∃ u₀, u = u₀ ++ '-' :: behindHyphen u := by
  have hdrop : ∃ l, u.reverse.dropWhile (· != '-') = '-' :: l := by
    cases hl : u.reverse.dropWhile (· != '-') with
    | nil =>
      have hall := List.dropWhile_eq_nil_iff.1 hl '-' (List.mem_reverse.2 h)
      exact absurd hall (by decide)
    | cons c l =>
      have hnot := List.head?_dropWhile_not (· != '-') u.reverse
      rw [hl] at hnot
      have hc : c = '-' := by simpa using hnot
      exact ⟨l, by rw [hc]⟩
  obtain ⟨l, hl⟩ := hdrop
  refine ⟨l.reverse, ?_⟩
  have hsplit := @List.takeWhile_append_dropWhile _ (· != '-') u.reverse
  rw [hl] at hsplit
  calc u = (u.reverse.takeWhile (· != '-') ++ '-' :: l).reverse := by
        rw [hsplit, List.reverse_reverse]
    _ = l.reverse ++ '-' :: behindHyphen u := by
        rw [List.reverse_append, List.reverse_cons, List.append_assoc, behindHyphen]
        rfl

theorem not_mem_behindHyphen (u : List Char) : '-' ∉ behindHyphen u := by
  intro h
  rw [behindHyphen, List.mem_reverse] at h
  exact absurd (List.mem_takeWhile_imp h) (by decide)

theorem length_behindHyphen_append {x : List Char} (hx : '-' ∉ x) (u : List Char) :
    (behindHyphen (u ++ x)).length = (behindHyphen u).length + x.length := by
  have hall : ∀ c ∈ x.reverse, (c != '-') = true := fun c hc =>
    bne_iff_ne.2 fun heq => hx (heq ▸ List.mem_reverse.1 hc)
  rw [behindHyphen, List.reverse_append, List.takeWhile_append_of_pos hall, behindHyphen]
  simp [Nat.add_comm]

/-- **What the formatter makes of something without a hyphen**, behind a text with one. -/
theorem formatter_append {u x : List Char} (hu : '-' ∈ u) (hx : '-' ∉ x) (s : List Char) :
    formatter (u ++ (x ++ s)) =
      formatter u ++ (mask (behindHyphen u).length x ++
        maskRest ((behindHyphen u).length + x.length) s) := by
  obtain ⟨u₀, hu₀⟩ := eq_append_behindHyphen hu
  generalize hk : behindHyphen u = u₁ at hu₀
  have hu₁ : '-' ∉ u₁ := hk ▸ not_mem_behindHyphen u
  have hrest : maskRest 0 u₁ = mask 0 u₁ := by
    have h := maskRest_append hu₁ 0 []
    rwa [List.append_nil, maskRest_nil, List.append_nil] at h
  rw [hu₀, List.append_assoc, List.cons_append, formatter_hyphen, formatter_hyphen, hrest,
    maskRest_append hu₁, maskRest_append hx, Nat.zero_add, List.append_assoc, List.cons_append]

end ProvisioningValidator
