import Mathlib
import ProvisioningValidator.MaskedMembers

/-!
# No identity is left

After both passes the log has no identity with a hyphen in it any more: no `imsi-` with its digits,
wherever it stood, and also none that only came about when something next to it was replaced.

A hyphen that a pass writes is never before a digit (`Guarded`), and what the search copies begins
with the same name, hyphen and digits as what it was given, so that it would have found them
(`not_begins_with_identity`). What the second pass writes is between quotes.

**Theorem (`no_identity_left`).** For every text.
-/

namespace ProvisioningValidator

open Lib Lib.Regex

/-! ## Hyphens before digits -/

/-- No hyphen stands before a digit. -/
def Guarded (s : List Char) : Prop := ∀ u c v, s = u ++ '-' :: c :: v → c.isDigit = false

theorem guarded_nil : Guarded [] := fun u c v h => by simp at h

theorem guarded_cons {x : Char} {s : List Char} (hx : x = '-' → ∀ c ∈ s.head?, c.isDigit = false)
    (hs : Guarded s) : Guarded (x :: s) := by
  intro u c v h
  cases u with
  | nil =>
    obtain ⟨rfl, rfl⟩ := List.cons.inj h
    exact hx rfl c rfl
  | cons y u => exact hs u c v (List.cons.inj h).2

theorem maskRest_hyphen (n : ℕ) (s : List Char) : maskRest n ('-' :: s) = '-' :: maskRest 0 s := by
  have hsplit : ('-' :: s).splitOn '-' = [] :: s.splitOn '-' := List.splitOn_append_cons_self [] s
  rw [maskRest, hsplit, maskRest]
  cases hs : s.splitOn '-' with
  | nil => exact absurd hs (List.splitOn_ne_nil _ _)
  | cons first strs => simp

theorem maskRest_cons {c : Char} (hc : c ≠ '-') (n : ℕ) (s : List Char) :
    maskRest n (c :: s) = (if n % 2 = 0 then '*' else c) :: maskRest (n + 1) s := by
  have hsplit := maskRest_append (x := [c]) (by simpa using hc.symm) n s
  simpa [mask_cons] using hsplit

/-- Behind a hyphen comes a star or another hyphen. -/
theorem head?_maskRest {s : List Char} : ∀ c ∈ (maskRest 0 s).head?, c.isDigit = false := by
  intro c hc
  cases s with
  | nil => simp [maskRest_nil] at hc
  | cons x s =>
    by_cases hx : x = '-'
    · rw [hx, maskRest_hyphen] at hc
      rw [← Option.some.inj hc]
      decide
    · rw [maskRest_cons hx] at hc
      rw [← Option.some.inj hc]
      rfl

theorem guarded_maskRest (n : ℕ) (s : List Char) : Guarded (maskRest n s) := by
  induction s generalizing n with
  | nil => exact guarded_nil
  | cons x s ih =>
    by_cases hx : x = '-'
    · rw [hx, maskRest_hyphen]
      exact guarded_cons (fun _ => head?_maskRest) (ih 0)
    · rw [maskRest_cons hx]
      refine guarded_cons (fun hstar => ?_) (ih (n + 1))
      split_ifs at hstar
      · exact absurd hstar (by decide)
      · exact absurd hstar hx

/-! ## What the first pass writes -/

/-- What is behind the last hyphen is as long as it was, and ends with a star or as it did. -/
theorem getLast?_maskRest (n : ℕ) {b : List Char} (hb : ∀ c ∈ b, c.isDigit = true) :
    ∀ e ∈ (maskRest n b).getLast?, e = '*' ∨ e.isDigit = true := by
  have hfree : '-' ∉ b := hyphen_digits hb
  have hmask : maskRest n b = mask n b := by
    have h := maskRest_append hfree n []
    rwa [List.append_nil, maskRest_nil, List.append_nil] at h
  rw [hmask]
  intro e he
  have hmem : e ∈ mask n b := List.mem_of_getLast? (Option.mem_def.1 he)
  rw [mask, List.mem_mapIdx] at hmem
  obtain ⟨i, hi, rfl⟩ := hmem
  split_ifs
  · exact .inl rfl
  · exact .inr (hb _ (List.getElem_mem hi))

/-- What the first pass finds: letters, a hyphen, and something that is all digits or goes on to the
end of the text or to white space. -/
structure UserMatch (a b t : List Char) : Prop where
  letters : ∀ c ∈ a, c.isAlpha = true
  nonempty : b ≠ []
  ends : (∀ c ∈ b, c.isDigit = true) ∨ ∀ c ∈ t.head?, isSpace c = true

/-- What is written for it. -/
def maskedMatch (a b : List Char) : List Char := a ++ '-' :: maskRest 0 b

theorem hyphen_letters {a : List Char} (h : ∀ c ∈ a, c.isAlpha = true) : '-' ∉ a := fun hmem =>
  absurd (h '-' hmem) (by decide)

theorem formatter_eq_maskedMatch {a b : List Char} (h : ∀ c ∈ a, c.isAlpha = true) :
    formatter (a ++ '-' :: b) = maskedMatch a b := by
  have hfirst : formatter a = a := by
    rw [formatter, List.splitOn_eq_singleton (hyphen_letters h)]
    simp
  rw [formatter_hyphen, hfirst, maskedMatch]

/-- The words of the alternatives with a name and digits. -/
theorem exists_identity {r : Regex} (hr : r ∈ dashedAlternatives) {w : List Char}
    (hw : w ∈ r.lang) : ∃ a ds, w = a ++ '-' :: ds ∧ a ≠ [] ∧ (∀ c ∈ a, c.isAlpha = true) ∧
      ds ≠ [] ∧ ∀ c ∈ ds, c.isDigit = true := by
  have hbetween : ∀ v ∈ (between 5 15 digit).lang, v ≠ [] ∧ ∀ c ∈ v, c.isDigit = true := by
    intro v hv
    obtain ⟨hlo, -, hall⟩ := (mem_lang_between_cls (by decide)).1 hv
    exact ⟨List.ne_nil_of_length_pos (by omega), hall⟩
  have htimes : ∀ n, 0 < n → ∀ v ∈ (times n digit).lang, v ≠ [] ∧ ∀ c ∈ v, c.isDigit = true := by
    intro n hn v hv
    obtain ⟨hlength, hall⟩ := mem_lang_times_cls.1 hv
    exact ⟨List.ne_nil_of_length_pos (by omega), hall⟩
  have hword : ∀ {names : List String} {q : Regex}, w ∈ (dashed names q).lang →
      (∀ name ∈ names, name.toList ≠ [] ∧ ∀ c ∈ name.toList, c.isAlpha = true) →
      (∀ v ∈ q.lang, v ≠ [] ∧ ∀ c ∈ v, c.isDigit = true) →
      ∃ a ds, w = a ++ '-' :: ds ∧ a ≠ [] ∧ (∀ c ∈ a, c.isAlpha = true) ∧
        ds ≠ [] ∧ ∀ c ∈ ds, c.isDigit = true := by
    intro names q hw hnames hq
    obtain ⟨name, hname, v, hv, rfl⟩ := mem_dashed.1 hw
    obtain ⟨hne, halpha⟩ := hnames name hname
    obtain ⟨hsome, hdigits⟩ := hq v hv
    exact ⟨name.toList, v, rfl, hne, halpha, hsome, hdigits⟩
  simp only [dashedAlternatives, List.mem_cons, List.not_mem_nil, or_false] at hr
  rcases hr with rfl | rfl | rfl | rfl | rfl
  · exact hword hw (by simp) hbetween
  · exact hword hw (by simp) (htimes 15 (by decide))
  · exact hword hw (by simp) hbetween
  · exact hword hw (by simp) (htimes 16 (by decide))
  · exact hword hw (by simp) hbetween

/-- What is found at the beginning of a text. -/
theorem exists_userMatch {s : List Char} (h : 0 < matchLength userRegExp s) :
    ∃ a b, s.take (matchLength userRegExp s) = a ++ '-' :: b ∧
      UserMatch a b (s.drop (matchLength userRegExp s)) := by
  have hhead := head?_of_matchLength_pos h
  have htake : ∀ {w}, w ++ s.drop (matchLength userRegExp s) = s →
      s.take (matchLength userRegExp s) = w := fun hw =>
    List.append_cancel_right ((List.take_append_drop _ s).trans hw.symm)
  rcases head?_userRegExp hhead with ⟨r, hr, hhead⟩ | hhead | hhead
  · obtain ⟨w, hw, hws⟩ := mem_rests.1 (List.mem_of_mem_head? hhead)
    obtain ⟨a, ds, rfl, -, halpha, hne, hdigits⟩ := exists_identity hr hw
    exact ⟨a, ds, htake hws, halpha, hne, .inl hdigits⟩
  · obtain ⟨w, hw, hws⟩ := mem_rests.1 (List.mem_of_mem_head? hhead)
    obtain ⟨w', -, -, hnil⟩ := nai_match hhead
    obtain ⟨x, hx, v, hv, rfl⟩ := mem_lang_seq.1 hw
    rw [mem_lang_lit.1 hx] at hws
    refine ⟨"nai".toList, v, htake hws, by simp, ?_, .inr ?_⟩
    · exact (mem_lang_plus_cls.1 hv).1
    · rw [hnil]
      exact nofun
  · obtain ⟨w, hw, hws⟩ := mem_rests.1 (List.mem_of_mem_head? hhead)
    obtain ⟨w', -, -, hend⟩ := suci_match hhead
    obtain ⟨x, hx, v, hv, rfl⟩ := mem_lang_seq.1 hw
    rw [mem_lang_lit.1 hx] at hws
    refine ⟨"suci".toList, v, htake hws, by simp, ?_, .inr ?_⟩
    · obtain ⟨y, -, z, hz, rfl⟩ := mem_lang_seq.1 hv
      obtain ⟨hyphen, hhyphen, z', -, rfl⟩ := mem_lang_seq.1 hz
      rw [mem_lang_lit.1 hhyphen]
      simp
    · rcases hend with hend | ⟨⟨c, hc, hspace⟩, -⟩
      · rw [hend]
        exact nofun
      · intro d hd
        rwa [Option.mem_unique hd hc]

/-- **The first pass at the beginning of a text**: a match is replaced, or a character is copied. -/
theorem anonymizeString_cases (s : List Char) :
    (∃ a b t, s = a ++ '-' :: b ++ t ∧ UserMatch a b t ∧
        anonymizeString s = maskedMatch a b ++ anonymizeString t) ∨
      s = [] ∨ ∃ c t, s = c :: t ∧ matchLength userRegExp s = 0 ∧
        anonymizeString s = c :: anonymizeString t := by
  by_cases h : 0 < matchLength userRegExp s
  · obtain ⟨a, b, htake, hmatch⟩ := exists_userMatch h
    refine .inl ⟨a, b, _, ?_, hmatch, ?_⟩
    · rw [← htake, List.take_append_drop]
    · rw [anonymizeString, replaceAll_match h, htake, formatter_eq_maskedMatch hmatch.letters]
      rfl
  · have hzero := Nat.eq_zero_of_not_pos h
    cases s with
    | nil => exact .inr (.inl rfl)
    | cons c t => exact .inr (.inr ⟨c, t, rfl, hzero, replaceAll_cons hzero⟩)

/-! ## Identities after the first pass -/

/-- What is written begins with a letter or with a hyphen. -/
theorem head?_maskedMatch {a b : List Char} (h : ∀ c ∈ a, c.isAlpha = true) :
    ∀ c ∈ (maskedMatch a b).head?, c.isAlpha = true ∨ c = '-' := by
  intro c hc
  cases a with
  | nil => exact .inr (Option.some.inj hc).symm
  | cons x a =>
    obtain rfl := Option.some.inj hc
    exact .inl (h x List.mem_cons_self)

theorem guarded_maskedMatch {a b : List Char} (h : ∀ c ∈ a, c.isAlpha = true) :
    Guarded (maskedMatch a b) := by
  induction a with
  | nil => exact guarded_cons (fun _ => head?_maskRest) (guarded_maskRest 0 b)
  | cons x a ih =>
    refine guarded_cons (fun hx => ?_) (ih fun c hc => h c (List.mem_cons_of_mem x hc))
    exact absurd (h x List.mem_cons_self) (by rw [hx]; decide)

theorem maskedMatch_append {a b : List Char} (z : List Char) :
    maskedMatch a b ++ z = a ++ '-' :: (maskRest 0 b ++ z) := by
  rw [maskedMatch, List.append_assoc, List.cons_append]

theorem maskRest_ne_nil {n : ℕ} {b : List Char} (hb : b ≠ []) : maskRest n b ≠ [] := by
  obtain ⟨c, b, rfl⟩ := List.exists_cons_of_ne_nil hb
  by_cases hc : c = '-'
  · rw [hc, maskRest_hyphen]
    exact List.cons_ne_nil _ _
  · rw [maskRest_cons hc]
    exact List.cons_ne_nil _ _

/-- Digits at the beginning were copied. -/
theorem begins_with_digits {ds : List Char} (hd : ∀ c ∈ ds, c.isDigit = true) {s z : List Char}
    (h : anonymizeString s = ds ++ z) : ∃ s', s = ds ++ s' := by
  induction ds generalizing s with
  | nil => exact ⟨s, rfl⟩
  | cons d ds ih =>
    obtain ⟨hdigit, hdigits⟩ := List.forall_mem_cons.1 hd
    obtain ⟨a, b, t, -, hmatch, hs⟩ | rfl | ⟨c, t, rfl, -, hs⟩ := anonymizeString_cases s
    · have hhead : d ∈ (maskedMatch a b).head? := by
        have hsplit := hs.symm.trans h
        cases hw : maskedMatch a b with
        | nil => simp [maskedMatch] at hw
        | cons x w =>
          rw [hw] at hsplit
          rw [(List.cons.inj hsplit).1]
          rfl
      rcases head?_maskedMatch hmatch.letters d hhead with halpha | rfl
      · exact absurd halpha (by rw [not_alpha_of_digit hdigit]; decide)
      · exact absurd hdigit (by decide)
    · cases h
    · rw [hs] at h
      obtain ⟨rfl, hrest⟩ := List.cons.inj h
      obtain ⟨s', rfl⟩ := ih hdigits hrest
      exact ⟨s', rfl⟩

/-- What is written does not begin with a name, a hyphen and a digit. -/
theorem maskedMatch_ne {a b a' ds y z : List Char} (hmatch : UserMatch a b y)
    (ha' : ∀ c ∈ a', c.isAlpha = true) (hne : ds ≠ []) (hd : ∀ c ∈ ds, c.isDigit = true)
    (x : List Char) : maskedMatch a b ++ x ≠ a' ++ '-' :: (ds ++ z) := by
  intro h
  rw [maskedMatch_append] at h
  obtain ⟨-, -, hrest⟩ := span_inj (p := fun c => c.isAlpha = true) hmatch.letters ha' (by decide)
    (by decide) h
  obtain ⟨d, ds, rfl⟩ := List.exists_cons_of_ne_nil hne
  obtain ⟨c, l, hl⟩ := List.exists_cons_of_ne_nil (maskRest_ne_nil (n := 0) hmatch.nonempty)
  rw [hl] at hrest
  have hhead := head?_maskRest c (by rw [hl]; rfl)
  rw [(List.cons.inj hrest).1, hd d List.mem_cons_self] at hhead
  exact Bool.noConfusion hhead

/-- A name, a hyphen and digits at the beginning were copied. -/
theorem begins_with_identity {a ds : List Char} (ha : ∀ c ∈ a, c.isAlpha = true) (hne : ds ≠ [])
    (hd : ∀ c ∈ ds, c.isDigit = true) {s z : List Char}
    (h : anonymizeString s = a ++ '-' :: (ds ++ z)) :
    matchLength userRegExp s = 0 ∧ ∃ s', s = a ++ '-' :: (ds ++ s') := by
  induction a generalizing s with
  | nil =>
    obtain ⟨a', b, t, -, hmatch, hs⟩ | rfl | ⟨c, t, rfl, hzero, hs⟩ := anonymizeString_cases s
    · exact absurd (hs.symm.trans h) (maskedMatch_ne hmatch ha hne hd _)
    · cases h
    · rw [hs] at h
      obtain ⟨rfl, hrest⟩ := List.cons.inj h
      obtain ⟨s', rfl⟩ := begins_with_digits hd hrest
      exact ⟨hzero, s', rfl⟩
  | cons x a ih =>
    obtain ⟨a', b, t, -, hmatch, hs⟩ | rfl | ⟨c, t, rfl, hzero, hs⟩ := anonymizeString_cases s
    · exact absurd (hs.symm.trans h) (maskedMatch_ne hmatch ha hne hd _)
    · cases h
    · rw [hs] at h
      obtain ⟨rfl, hrest⟩ := List.cons.inj h
      obtain ⟨-, s', rfl⟩ := ih (fun c hc => ha c (List.mem_cons_of_mem _ hc)) hrest
      exact ⟨hzero, s', rfl⟩

/-- A word of one of the alternatives is found where it stands. -/
theorem matchLength_pos {r : Regex} (hr : r ∈ dashedAlternatives) {w : List Char} (hw : w ∈ r.lang)
    (s : List Char) : 0 < matchLength userRegExp (w ++ s) := by
  have hnil : [] ∉ userRegExp.lang := fun h => by
    have hmatch : userRegExp.isMatch "" = true := (isMatch_iff _ _).2 h
    exact absurd hmatch (by decide +kernel)
  have huser : w ∈ userRegExp.lang := by
    simp only [dashedAlternatives, List.mem_cons, List.not_mem_nil, or_false] at hr
    rw [userRegExp, mem_lang_oneOf]
    rcases hr with rfl | rfl | rfl | rfl | rfl
    · exact ⟨_, by simp, hw⟩
    · exact ⟨_, by simp, hw⟩
    · exact ⟨_, by simp, hw⟩
    · exact ⟨_, List.mem_cons_of_mem _ (List.mem_cons_of_mem _ (List.mem_cons_of_mem _
        List.mem_cons_self)), mem_lang_oneOf.2 ⟨_, by simp, hw⟩⟩
    · exact ⟨_, List.mem_cons_of_mem _ (List.mem_cons_of_mem _ (List.mem_cons_of_mem _
        List.mem_cons_self)), mem_lang_oneOf.2 ⟨_, by simp, hw⟩⟩
  have hmem : s ∈ rests userRegExp (w ++ s) := mem_rests.2 ⟨w, huser, rfl⟩
  obtain ⟨t, ts, hts⟩ := List.exists_cons_of_ne_nil (List.ne_nil_of_mem hmem)
  have htaken := (eq_of_head? (congrArg List.head? hts)).1
  refine Nat.pos_of_ne_zero fun hzero => hnil ?_
  rwa [hzero, List.take_zero] at htaken

/-- **What the first pass leaves begins with no identity.** -/
theorem not_begins_with_identity {r : Regex} (hr : r ∈ dashedAlternatives) {w : List Char}
    (hw : w ∈ r.lang) (s z : List Char) : anonymizeString s ≠ w ++ z := by
  intro h
  obtain ⟨a, ds, rfl, -, ha, hne, hd⟩ := exists_identity hr hw
  rw [List.append_assoc, List.cons_append] at h
  obtain ⟨hzero, s', rfl⟩ := begins_with_identity ha hne hd h
  have hpos := matchLength_pos hr hw s'
  rw [List.append_assoc, List.cons_append, hzero] at hpos
  exact absurd hpos (lt_irrefl 0)

/-- Where the first pass has written something: a star or a digit at the end, or white space behind
it. -/
theorem maskedMatch_border {a b t : List Char} (hmatch : UserMatch a b t) :
    (∀ e ∈ (maskedMatch a b).getLast?, e = '*' ∨ e.isDigit = true) ∨
      ∀ c ∈ (anonymizeString t).head?, isSpace c = true := by
  refine hmatch.ends.imp (fun hdigits => ?_) fun hspace => ?_
  · have hsplit : maskedMatch a b = (a ++ ['-']) ++ maskRest 0 b := by simp [maskedMatch]
    rw [hsplit, List.getLast?_append_of_ne_nil _ (maskRest_ne_nil hmatch.nonempty)]
    exact getLast?_maskRest 0 hdigits
  · obtain ⟨a', b', t', rfl, hmatch', -⟩ | rfl | ⟨c, t', rfl, -, hs⟩ := anonymizeString_cases t
    · cases a' with
      | nil => exact absurd (hspace '-' rfl) (by decide)
      | cons x a' =>
        have hx := not_alphanum_of_isSpace (hspace x rfl)
        rw [Char.isAlphanum, hmatch'.letters x List.mem_cons_self] at hx
        exact Bool.noConfusion hx
    · intro c hc
      exact absurd hc (Option.not_mem_none c)
    · rw [hs]
      exact hspace

/-- At the border there is not a letter or a hyphen before another one or a digit. -/
theorem not_across_border {a b t x y : List Char} {e c : Char} (hmatch : UserMatch a b t)
    (hw : maskedMatch a b = x ++ [e]) (ht : anonymizeString t = c :: y)
    (he : e.isAlpha = true ∨ e = '-') (hc : c.isAlphanum = true ∨ c = '-') : False := by
  rcases maskedMatch_border hmatch with hend | hspace
  · have hlast := hend e (by rw [hw]; simp)
    rcases he with he | rfl
    · rcases hlast with rfl | hdigit
      · exact absurd he (by decide)
      · exact absurd he (by rw [not_alpha_of_digit hdigit]; decide)
    · exact absurd hlast (by decide)
  · have hhead := hspace c (by rw [ht]; rfl)
    rcases hc with hc | rfl
    · exact absurd hc (by rw [not_alphanum_of_isSpace hhead]; decide)
    · exact absurd hhead (by decide)

/-- What is written does not reach into an identity. -/
theorem maskedMatch_apart {a b t : List Char} (hmatch : UserMatch a b t) {u x a' ds z : List Char}
    (hx : x ≠ []) (hw : maskedMatch a b = u ++ x) (ha' : ∀ c ∈ a', c.isAlpha = true) (hne : ds ≠ [])
    (hd : ∀ c ∈ ds, c.isDigit = true) : x ++ anonymizeString t ≠ a' ++ '-' :: (ds ++ z) := by
  intro h
  obtain ⟨d, ds, rfl⟩ := List.exists_cons_of_ne_nil hne
  have hdigit := hd d List.mem_cons_self
  -- It ends in the name, with a letter.
  have hname : ∀ {y}, a' = x ++ y → anonymizeString t = y ++ '-' :: (d :: ds ++ z) → False := by
    intro y ha ht
    obtain ⟨x', e, rfl⟩ := (List.eq_nil_or_concat' x).resolve_left hx
    have he : e.isAlpha = true := ha' e (by rw [ha]; simp)
    have hw' : maskedMatch a b = (u ++ x') ++ [e] := by rw [hw, List.append_assoc]
    cases y with
    | nil => exact not_across_border hmatch hw' ht (.inl he) (.inr rfl)
    | cons c y =>
      have hc : c.isAlpha = true := ha' c (by rw [ha]; simp)
      exact not_across_border hmatch hw' ht (.inl he) (.inl (by simp [Char.isAlphanum, hc]))
  rcases List.append_eq_append_iff.1 h with ⟨y, ha, ht⟩ | ⟨y, rfl, ht⟩
  · exact hname ha ht
  · cases y with
    | nil => exact hname (y := []) (by simp) ht.symm
    | cons hyphen y =>
      obtain ⟨rfl, hrest⟩ := List.cons.inj ht
      cases y with
      | nil =>
        -- It ends with the hyphen.
        have hw' : maskedMatch a b = (u ++ a') ++ ['-'] := by rw [hw, List.append_assoc]
        exact not_across_border hmatch hw' hrest.symm (.inr rfl)
          (.inl (by simp [Char.isAlphanum, hdigit]))
      | cons c y =>
        -- The hyphen is written, and the digit behind it too.
        have hguarded := guarded_maskedMatch (b := b) hmatch.letters (u ++ a') c y
          (by rw [hw, List.append_assoc])
        rw [← (List.cons.inj hrest).1, hdigit] at hguarded
        exact Bool.noConfusion hguarded

/-- **What the first pass leaves has no identity in it.** -/
theorem no_identity_anonymizeString {r : Regex} (hr : r ∈ dashedAlternatives) {w : List Char}
    (hw : w ∈ r.lang) (s u z : List Char) : anonymizeString s ≠ u ++ (w ++ z) := by
  induction hn : s.length using Nat.strong_induction_on generalizing s u with
  | _ n ih =>
    subst hn
    intro h
    obtain ⟨a, b, t, rfl, hmatch, hs⟩ | rfl | ⟨c, t, rfl, hzero, hs⟩ := anonymizeString_cases s
    · rw [hs] at h
      rcases List.append_eq_append_iff.1 h with ⟨x, rfl, ht⟩ | ⟨x, hwritten, ht⟩
      · exact ih t.length (by simp; omega) t x rfl ht
      · by_cases hx : x = []
        · rw [hx, List.nil_append] at ht
          exact not_begins_with_identity hr hw t z ht.symm
        · obtain ⟨a', ds, rfl, -, ha', hne, hd⟩ := exists_identity hr hw
          rw [List.append_assoc, List.cons_append] at ht
          exact maskedMatch_apart hmatch hx hwritten ha' hne hd ht.symm
    · obtain ⟨a, ds, rfl, -⟩ := exists_identity hr hw
      simp [anonymizeString] at h
    · cases u with
      | nil => exact not_begins_with_identity hr hw _ z h
      | cons c' u =>
        rw [hs] at h
        exact ih t.length (Nat.lt_succ_self _) t u rfl (List.cons.inj h).2

/-! ## The second pass -/

/-- Of two characters of a mask next to each other one is a star. -/
theorem star_of_mask {n : ℕ} {q x y : List Char} {c d : Char} (h : mask n q = x ++ c :: d :: y) :
    c = '*' ∨ d = '*' := by
  have hplace : ∀ i, (n + i) % 2 = 0 → ∀ e ∈ (mask n q)[i]?, e = '*' := by
    intro i hi e he
    simp only [getElem?_mask, hi, if_true, Option.mem_def, Option.map_eq_some_iff] at he
    obtain ⟨-, -, rfl⟩ := he
    rfl
  by_cases heven : (n + x.length) % 2 = 0
  · exact .inl (hplace x.length heven c (by rw [h]; simp))
  · exact .inr (hplace (x.length + 1) (by omega) d (by rw [h]; simp))

/-- What is written for a member: its name and its value, in quotes. -/
theorem jsonFormatter_eq {name sp v : List Char} (hname : ∀ c ∈ name, c.isAlpha = true)
    (hsp : ∀ c ∈ sp, c = ' ') (hv : ':' ∉ v) :
    jsonFormatter ('"' :: (name ++ '"' :: (sp ++ ':' :: v))) =
      '"' :: (name ++ '"' :: ':' :: '"' :: (mask 0 (eraseAll '"' (eraseAll ' ' v)) ++ ['"'])) := by
  have hfirst : ':' ∉ '"' :: (name ++ '"' :: sp) := by
    simp only [List.mem_cons, List.mem_append, not_or]
    exact ⟨by decide, fun h => absurd (hname ':' h) (by decide), by decide,
      fun h => absurd (hsp ':' h) (by decide)⟩
  have hsplit : '"' :: (name ++ '"' :: (sp ++ ':' :: v)) = ('"' :: (name ++ '"' :: sp)) ++ ':' :: v :=
    by simp
  have hletters : eraseAll ' ' name = name :=
    List.filter_eq_self.2 fun c hc => bne_iff_ne.2 fun h => by
      have halpha := hname c hc
      rw [h] at halpha
      exact absurd halpha (by decide)
  have hspaces : eraseAll ' ' sp = [] :=
    List.filter_eq_nil_iff.2 fun c hc => by simp [hsp c hc]
  have herase : eraseAll ' ' ('"' :: (name ++ '"' :: sp)) = '"' :: (name ++ ['"']) := by
    rw [eraseAll] at hletters hspaces ⊢
    rw [List.filter_cons_of_pos (by decide), List.filter_append, List.filter_cons_of_pos (by decide),
      hletters, hspaces]
  rw [jsonFormatter, hsplit, List.splitOn_append_cons_self, List.splitOn_eq_singleton hfirst,
    List.splitOn_eq_singleton hv]
  simp [herase]

theorem colon_value {v : List Char} (h : JsonValue v) : ':' ∉ v := by
  intro hmem
  cases h with
  | @text v hv =>
    simp only [List.mem_cons, List.mem_append, List.not_mem_nil, or_false] at hmem
    rcases hmem with h | h | h
    · exact absurd h (by decide)
    · exact absurd (hv ':' h) (by decide)
    · exact absurd h (by decide)
  | @list l hl =>
    simp only [List.mem_cons, List.mem_append, List.not_mem_nil, or_false, List.mem_flatten] at hmem
    rcases hmem with h | ⟨x, hx, h⟩ | h
    · exact absurd h (by decide)
    · obtain ⟨ds, comma, space, hds, hcomma, hspace, rfl⟩ := mem_trafficIdElement (hl x hx)
      simp only [List.mem_cons, List.mem_append] at h
      rcases h with h | h | h | h | h
      · exact absurd h (by decide)
      · exact absurd (hds ':' h) (by decide)
      · exact absurd h (by decide)
      · rcases hcomma with rfl | rfl <;> exact absurd h (by decide)
      · rcases hspace with rfl | rfl <;> exact absurd h (by decide)
    · exact absurd h (by decide)

/-- **The second pass at the beginning of a text**: a member is replaced, or a character is copied.
-/
theorem maskMembers_cases (s : List Char) :
    (∃ name x q t, s = '"' :: (x ++ t) ∧ (∀ c ∈ name, c.isAlpha = true) ∧
        maskMembers s = '"' :: (name ++ '"' :: ':' :: '"' :: (mask 0 q ++ '"' :: maskMembers t))) ∨
      s = [] ∨ ∃ c t, s = c :: t ∧ maskMembers s = c :: maskMembers t := by
  by_cases h : 0 < matchLength userJsonRegExp s
  · obtain ⟨c, name, sp, sp₂, v, hname, hsp, hsp₂, hv, htake⟩ := json_word (take_mem_lang h)
    have hcolon : ':' ∉ sp₂ ++ v := by
      rw [List.mem_append, not_or]
      exact ⟨fun hmem => absurd (hsp₂ ':' hmem) (by decide), colon_value hv⟩
    refine .inl ⟨c :: name, c :: name ++ '"' :: (sp ++ ':' :: (sp₂ ++ v)),
      eraseAll '"' (eraseAll ' ' (sp₂ ++ v)), s.drop (matchLength userJsonRegExp s), ?_, hname, ?_⟩
    · rw [← List.cons_append, ← htake, List.take_append_drop]
    · rw [maskMembers, replaceAll_match h, htake, jsonFormatter_eq hname hsp hcolon]
      simp [maskMembers]
  · have hzero := Nat.eq_zero_of_not_pos h
    cases s with
    | nil => exact .inr (.inl rfl)
    | cons c t => exact .inr (.inr ⟨c, t, rfl, replaceAll_cons hzero⟩)

/-- What is at the beginning and has no quote was copied. -/
theorem begins_without_quote {w : List Char} (hw : '"' ∉ w) {s z : List Char}
    (h : maskMembers s = w ++ z) : ∃ s', s = w ++ s' := by
  induction w generalizing s with
  | nil => exact ⟨s, rfl⟩
  | cons d w ih =>
    obtain ⟨hd, hrest⟩ := not_or.1 (List.mem_cons.not.1 hw)
    obtain ⟨name, x, q, t, -, -, hs⟩ | rfl | ⟨c, t, rfl, hs⟩ := maskMembers_cases s
    · exact absurd (List.cons.inj (hs.symm.trans h)).1 hd
    · simp [maskMembers, replaceAll, replaceFrom] at h
    · rw [hs] at h
      obtain ⟨rfl, ht⟩ := List.cons.inj h
      obtain ⟨s', rfl⟩ := ih hrest ht
      exact ⟨s', rfl⟩

/-- A text without a quote is on one side of each quote. -/
theorem beside_quote {x y u w z : List Char} (hw : '"' ∉ w) (hne : w ≠ [])
    (h : x ++ '"' :: y = u ++ (w ++ z)) :
    (∃ z', x = u ++ (w ++ z')) ∨ ∃ u', y = u' ++ (w ++ z) := by
  rcases List.append_eq_append_iff.1 h with ⟨u', rfl, hy⟩ | ⟨x', rfl, hx⟩
  · cases u' with
    | nil =>
      obtain ⟨c, w, rfl⟩ := List.exists_cons_of_ne_nil hne
      have hc := (List.cons.inj hy).1
      exact absurd (List.mem_cons.2 (.inl hc)) hw
    | cons c u' => exact .inr ⟨u', (List.cons.inj hy).2⟩
  · obtain ⟨z', -, hx'⟩ := cons_of_append hw hx
    exact .inl ⟨z', by rw [hx']⟩

/-- **The second pass makes no identity.** -/
theorem no_identity_maskMembers {a ds : List Char} (ha : ∀ c ∈ a, c.isAlpha = true)
    (hne : ds ≠ []) (hd : ∀ c ∈ ds, c.isDigit = true) {s : List Char}
    (hs : ∀ u z, s ≠ u ++ (a ++ '-' :: ds ++ z)) (u z : List Char) :
    maskMembers s ≠ u ++ (a ++ '-' :: ds ++ z) := by
  have hhyphen : '-' ∈ a ++ '-' :: ds := List.mem_append_right a List.mem_cons_self
  have hquote : '"' ∉ a ++ '-' :: ds := by
    simp only [List.mem_append, List.mem_cons, not_or]
    exact ⟨fun h => absurd (ha '"' h) (by decide), by decide, quote_digits hd⟩
  have hsome : a ++ '-' :: ds ≠ [] := List.ne_nil_of_mem hhyphen
  induction hn : s.length using Nat.strong_induction_on generalizing s u with
  | _ n ih =>
    subst hn
    intro h
    cases u with
    | nil =>
      obtain ⟨s', rfl⟩ := begins_without_quote hquote h
      exact hs [] s' rfl
    | cons e u =>
      obtain ⟨name, x, q, t, rfl, hname, hm⟩ | rfl | ⟨c, t, rfl, hm⟩ := maskMembers_cases s
      · have hrest : ∀ u' z', t ≠ u' ++ (a ++ '-' :: ds ++ z') := fun u' z' ht =>
          hs ('"' :: (x ++ u')) z' (by rw [ht]; simp)
        rw [hm] at h
        -- Between the quotes there are letters, a colon and a mask.
        obtain ⟨z', hz⟩ | ⟨u₁, h₁⟩ := beside_quote hquote hsome (List.cons.inj h).2
        · exact absurd (hname '-' (by rw [hz]; simp)) (by decide)
        obtain ⟨z', hz⟩ | ⟨u₂, h₂⟩ := beside_quote (x := [':']) hquote hsome h₁
        · have hmem : '-' ∈ [':'] := by
            rw [hz]
            simp
          exact absurd hmem (by decide)
        obtain ⟨z', hz⟩ | ⟨u₃, h₃⟩ := beside_quote hquote hsome h₂
        · obtain ⟨d, ds, rfl⟩ := List.exists_cons_of_ne_nil hne
          have hsplit : u₂ ++ (a ++ '-' :: d :: ds ++ z') = (u₂ ++ a) ++ '-' :: d :: (ds ++ z') := by
            simp
          rcases star_of_mask (hz.trans hsplit) with hstar | rfl
          · exact absurd hstar (by decide)
          · exact absurd (hd '*' List.mem_cons_self) (by decide)
        · refine ih t.length ?_ hrest u₃ rfl h₃
          rw [List.length_cons, List.length_append]
          omega
      · simp [maskMembers, replaceAll, replaceFrom] at h
      · rw [hm] at h
        refine ih t.length (Nat.lt_succ_self _) (fun u' z' ht => ?_) u rfl (List.cons.inj h).2
        exact hs (c :: u') z' (by rw [ht]; rfl)

/-! ## Both passes -/

/-- **No identity is left** by the first pass, nor by both. -/
theorem no_identity_left (s : List Char) {r : Regex} (hr : r ∈ dashedAlternatives) {w : List Char}
    (hw : w ∈ r.lang) : ¬ w <:+: anonymizeString s ∧ ¬ w <:+: anonymizeJson s := by
  have hfirst : ∀ u z, anonymizeString s ≠ u ++ (w ++ z) := fun u z =>
    no_identity_anonymizeString hr hw s u z
  constructor
  · rintro ⟨u, z, h⟩
    exact hfirst u z (by rw [← h, List.append_assoc])
  · rintro ⟨u, z, h⟩
    obtain ⟨a, ds, rfl, -, ha, hne, hd⟩ := exists_identity hr hw
    refine no_identity_maskMembers ha hne hd hfirst u z ?_
    rw [← List.append_assoc, h]
    rfl

theorem no_identity_left_imsi :
    ¬ "imsi-12345".toList <:+: anonymizeString "imsi-imsi-123456789".toList ∧
      ¬ "imsi-12345".toList <:+: anonymizeJson "imsi-imsi-123456789".toList := by
  have hdigits : ['1', '2', '3', '4', '5'] ∈ (between 5 15 digit).lang :=
    (mem_lang_between_cls (by decide)).2 ⟨by decide, by decide, by simp⟩
  have hword : "imsi-12345".toList ∈ (dashed ["imsi", "IMSI"] (between 5 15 digit)).lang :=
    mem_dashed.2 ⟨"imsi", List.mem_cons_self, _, hdigits, by decide⟩
  exact no_identity_left _ (by simp [dashedAlternatives]) hword

end ProvisioningValidator
