import Mathlib
import ProvisioningValidator.Lib.Pieces
import ProvisioningValidator.Lib.Regex

/-!
# Search and replace

A backtracking matcher takes, of the ways in which an expression matches at the beginning of a text,
the first one it comes to: the left alternative before the right one, and one more round of a
repetition before none. `rests` lists what these ways leave of the text, in that order
(`mem_rests`: they are the ways in which the text begins with a text of the language).

`replaceAll` is the search from left to right that formats what is matched and copies the rest.
`Reaches` says where the search looks for a match, and `Covers` which places lie in one. Two texts
are searched alike if the expression is `Blind` to how they differ (`replaceAll_append_alike`).
-/

namespace Lib

namespace Regex

/-! ## The matcher -/

/-- `r{lo,hi}`. -/
def between (lo hi : ℕ) (r : Regex) : Regex := seq (times lo r) (upTo (hi - lo) r)

theorem mem_lang_between_cls {p : Char → Bool} {lo hi : ℕ} (hle : lo ≤ hi) {w : List Char} :
    w ∈ (between lo hi (cls p)).lang ↔
      lo ≤ w.length ∧ w.length ≤ hi ∧ ∀ c ∈ w, p c = true := by
  rw [between, mem_lang_seq]
  constructor
  · intro h
    obtain ⟨a, ha, b, hb, rfl⟩ := h
    obtain ⟨n, hn, hb⟩ := mem_lang_upTo_iff_times.1 hb
    obtain ⟨hlen, hall⟩ := mem_lang_times_cls.1 ha
    obtain ⟨hlen', hall'⟩ := mem_lang_times_cls.1 hb
    rw [List.length_append]
    refine ⟨by omega, by omega, fun c hc => ?_⟩
    exact (List.mem_append.1 hc).elim (hall c) (hall' c)
  · intro h
    obtain ⟨hlo, hhi, hall⟩ := h
    refine ⟨w.take lo, mem_lang_times_cls.2 ⟨?_, ?_⟩, w.drop lo,
      mem_lang_upTo_iff_times.2 ⟨w.length - lo, ?_, mem_lang_times_cls.2 ⟨?_, ?_⟩⟩,
      List.take_append_drop lo w⟩
    · rw [List.length_take, min_eq_left hlo]
    · exact fun c hc => hall c (List.mem_of_mem_take hc)
    · omega
    · exact List.length_drop
    · exact fun c hc => hall c (List.mem_of_mem_drop hc)

/-- What a greedy repetition leaves of a text. A round that takes nothing is no round. -/
def manyRests (step : List Char → List (List Char)) : ℕ → List Char → List (List Char)
  | 0, s => [s]
  | n + 1, s => ((step s).filter fun t => t.length < s.length).flatMap (manyRests step n) ++ [s]

/-- What the matches at the beginning of a text leave of it, in the order in which they are tried. -/
def rests : Regex → List Char → List (List Char)
  | empty, _ => []
  | eps, s => [s]
  | cls _, [] => []
  | cls p, c :: s => if p c = true then [s] else []
  | alt r r', s => rests r s ++ rests r' s
  | seq r r', s => (rests r s).flatMap (rests r')
  | star r, s => manyRests (rests r) s.length s

/-- The length of the match at the beginning of a text; 0 if there is none. -/
def matchLength (r : Regex) (s : List Char) : ℕ :=
  match (rests r s).head? with
  | some t => s.length - t.length
  | none => 0

section

variable {r : Regex} {step : List Char → List (List Char)}

theorem mem_of_mem_manyRests (hstep : ∀ s t, t ∈ step s → ∃ w ∈ r.lang, w ++ t = s) {n : ℕ}
    {s t : List Char} (h : t ∈ manyRests step n s) : ∃ w ∈ (star r).lang, w ++ t = s := by
  induction n generalizing s with
  | zero => exact ⟨[], Language.nil_mem_kstar _, (List.mem_singleton.1 h).symm ▸ rfl⟩
  | succ n ih =>
    rcases List.mem_append.1 h with h | h
    · obtain ⟨s', hs', ht⟩ := List.mem_flatMap.1 h
      obtain ⟨w, hw, rfl⟩ := hstep s s' (List.mem_filter.1 hs').1
      obtain ⟨v, hv, rfl⟩ := ih ht
      obtain ⟨l, rfl, hl⟩ := Language.mem_kstar.1 hv
      refine ⟨w ++ l.flatten, Language.mem_kstar.2 ⟨w :: l, rfl, ?_⟩, by simp⟩
      exact List.forall_mem_cons.2 ⟨hw, hl⟩
    · exact ⟨[], Language.nil_mem_kstar _, (List.mem_singleton.1 h).symm ▸ rfl⟩

theorem mem_manyRests (hstep : ∀ w ∈ r.lang, ∀ t, t ∈ step (w ++ t)) {l : List (List Char)}
    (hl : ∀ w ∈ l, w ∈ r.lang ∧ w ≠ []) {n : ℕ} {t : List Char}
    (hn : (l.flatten ++ t).length ≤ n) : t ∈ manyRests step n (l.flatten ++ t) := by
  induction l generalizing n with
  | nil =>
    cases n with
    | zero => exact List.mem_singleton_self t
    | succ n => exact List.mem_append_right _ (List.mem_singleton_self t)
  | cons w l ih =>
    obtain ⟨hw, hne⟩ := hl w List.mem_cons_self
    have hpos : 0 < w.length := List.length_pos_iff.2 hne
    rw [List.flatten_cons, List.append_assoc] at hn ⊢
    rw [List.length_append] at hn
    cases n with
    | zero => omega
    | succ n =>
      refine List.mem_append_left _ (List.mem_flatMap.2 ⟨l.flatten ++ t, ?_, ?_⟩)
      · refine List.mem_filter.2 ⟨hstep w hw _, decide_eq_true ?_⟩
        rw [@List.length_append _ w]
        omega
      · exact ih (fun v hv => hl v (List.mem_cons_of_mem w hv)) (by omega)

/-- **The matcher knows every way in which the text begins with a text of the language.** -/
theorem mem_rests {s t : List Char} : t ∈ rests r s ↔ ∃ w ∈ r.lang, w ++ t = s := by
  induction r generalizing s t with
  | empty => exact iff_of_false (List.not_mem_nil) fun h => by simp [lang] at h
  | eps => simp [rests, Language.mem_one]
  | cls p =>
    cases s with
    | nil =>
      refine iff_of_false List.not_mem_nil fun h => ?_
      obtain ⟨w, ⟨c, -, rfl⟩, hw⟩ := h
      cases hw
    | cons c s =>
      rw [rests]
      by_cases hc : p c = true
      · rw [if_pos hc, List.mem_singleton]
        constructor
        · intro ht
          exact ⟨[c], ⟨c, hc, rfl⟩, by rw [ht]; rfl⟩
        · intro h
          obtain ⟨w, ⟨d, -, rfl⟩, hw⟩ := h
          exact (List.cons.inj hw).2
      · rw [if_neg hc]
        refine iff_of_false List.not_mem_nil fun h => ?_
        obtain ⟨w, ⟨d, hd, rfl⟩, hw⟩ := h
        exact hc ((List.cons.inj hw).1 ▸ hd)
  | alt r r' ih ih' =>
    rw [rests, List.mem_append, ih, ih', ← exists_or]
    refine exists_congr fun w => ?_
    rw [mem_lang_alt, or_and_right]
  | seq r r' ih ih' =>
    rw [rests, List.mem_flatMap]
    constructor
    · intro h
      obtain ⟨s', hs', ht⟩ := h
      obtain ⟨w, hw, rfl⟩ := ih.1 hs'
      obtain ⟨v, hv, rfl⟩ := ih'.1 ht
      exact ⟨w ++ v, mem_lang_seq.2 ⟨w, hw, v, hv, rfl⟩, List.append_assoc w v t⟩
    · intro h
      obtain ⟨u, hu, rfl⟩ := h
      obtain ⟨w, hw, v, hv, rfl⟩ := mem_lang_seq.1 hu
      exact ⟨v ++ t, ih.2 ⟨w, hw, (List.append_assoc w v t).symm⟩, ih'.2 ⟨v, hv, rfl⟩⟩
  | star r ih =>
    constructor
    · exact mem_of_mem_manyRests fun s t ht => ih.1 ht
    · intro h
      obtain ⟨w, hw, rfl⟩ := h
      obtain ⟨l, rfl, hl⟩ := Language.mem_kstar_iff_exists_nonempty.1 hw
      exact mem_manyRests (fun w hw t => ih.2 ⟨w, hw, rfl⟩) hl le_rfl

/-! ## The first match -/

/-- What the match at the beginning of a text takes. -/
theorem eq_of_head? {s t : List Char} (h : (rests r s).head? = some t) :
    s.take (matchLength r s) ∈ r.lang ∧ s.drop (matchLength r s) = t := by
  obtain ⟨w, hw, rfl⟩ := mem_rests.1 (List.mem_of_mem_head? h)
  have hlength : matchLength r (w ++ t) = w.length := by
    rw [matchLength, h]
    show (w ++ t).length - t.length = w.length
    rw [List.length_append, Nat.add_sub_cancel]
  rw [hlength, List.take_left, List.drop_left]
  exact ⟨hw, rfl⟩

/-- A match takes a text of the language. -/
theorem head?_of_matchLength_pos {s : List Char} (h : 0 < matchLength r s) :
    (rests r s).head? = some (s.drop (matchLength r s)) := by
  cases hhead : (rests r s).head? with
  | some t => rw [(eq_of_head? hhead).2]
  | none =>
    rw [matchLength, hhead] at h
    exact absurd h (lt_irrefl 0)

theorem take_mem_lang {s : List Char} (h : 0 < matchLength r s) :
    s.take (matchLength r s) ∈ r.lang := (eq_of_head? (head?_of_matchLength_pos h)).1

theorem matchLength_le (s : List Char) : matchLength r s ≤ s.length := by
  rw [matchLength]
  cases (rests r s).head? with
  | none => exact Nat.zero_le _
  | some t => exact Nat.sub_le _ _

/-- Where the text begins with no text of the language, there is no match. -/
theorem matchLength_eq_zero {s : List Char} (h : ∀ w ∈ r.lang, ¬ w <+: s) : matchLength r s = 0 := by
  by_contra hne
  exact h _ (take_mem_lang (Nat.pos_of_ne_zero hne)) (List.take_prefix _ s)

/-- Where the text begins with exactly one text of the language, that is the match. -/
theorem matchLength_eq_of_unique {w t : List Char} (hw : w ∈ r.lang)
    (huniq : ∀ v ∈ r.lang, v <+: w ++ t → v = w) : matchLength r (w ++ t) = w.length := by
  have hmem : t ∈ rests r (w ++ t) := mem_rests.2 ⟨w, hw, rfl⟩
  cases hhead : (rests r (w ++ t)).head? with
  | none =>
    rw [List.head?_eq_none_iff.1 hhead] at hmem
    exact absurd hmem List.not_mem_nil
  | some t' =>
    obtain ⟨hlang, -⟩ := eq_of_head? hhead
    have heq := huniq _ hlang (List.take_prefix _ _)
    have hlength := congrArg List.length heq
    rwa [List.length_take, min_eq_left (matchLength_le _)] at hlength

end

/-! ### Greedy parts -/

theorem head?_rests_alt {r r' : Regex} {s t : List Char} (h : (rests (alt r r') s).head? = some t) :
    (rests r s).head? = some t ∨ (rests r' s).head? = some t := by
  rw [rests, List.head?_append] at h
  cases hr : (rests r s).head? with
  | some t' =>
    rw [hr, Option.some_or] at h
    exact .inl h
  | none =>
    rw [hr, Option.none_or] at h
    exact .inr h

theorem head?_rests_oneOf {rs : List Regex} {s t : List Char}
    (h : (rests (oneOf rs) s).head? = some t) : ∃ r ∈ rs, (rests r s).head? = some t := by
  induction rs with
  | nil => cases h
  | cons r rs ih =>
    rcases head?_rests_alt h with h | h
    · exact ⟨r, List.mem_cons_self, h⟩
    · obtain ⟨r', hr', h⟩ := ih h
      exact ⟨r', List.mem_cons_of_mem r hr', h⟩

/-- In a sequence, the first match of the second part after some match of the first. -/
theorem head?_rests_seq {r r' : Regex} {s t : List Char} (h : (rests (seq r r') s).head? = some t) :
    ∃ w ∈ r.lang, ∃ s', w ++ s' = s ∧ (rests r' s').head? = some t := by
  have hflat : ∀ l : List (List Char), (l.flatMap (rests r')).head? = some t →
      ∃ s' ∈ l, (rests r' s').head? = some t := by
    intro l
    induction l with
    | nil => exact nofun
    | cons s' l ih =>
      intro hl
      rw [List.flatMap_cons, List.head?_append] at hl
      cases hs' : (rests r' s').head? with
      | some t' =>
        rw [hs', Option.some_or] at hl
        exact ⟨s', List.mem_cons_self, hs'.trans hl⟩
      | none =>
        rw [hs', Option.none_or] at hl
        obtain ⟨s₂, hs₂, h₂⟩ := ih hl
        exact ⟨s₂, List.mem_cons_of_mem s' hs₂, h₂⟩
  obtain ⟨s', hs', ht⟩ := hflat _ h
  obtain ⟨w, hw, rfl⟩ := mem_rests.1 hs'
  exact ⟨w, hw, s', rfl, ht⟩

theorem head?_manyRests_cls (p : Char → Bool) {n : ℕ} {s : List Char} (hn : s.length ≤ n) :
    (manyRests (rests (cls p)) n s).head? = some (s.dropWhile p) := by
  induction n generalizing s with
  | zero =>
    rw [List.eq_nil_of_length_eq_zero (Nat.le_zero.1 hn)]
    rfl
  | succ n ih =>
    cases s with
    | nil => rfl
    | cons c s =>
      rw [manyRests, rests]
      by_cases hc : p c = true
      · rw [if_pos hc, List.filter_cons_of_pos (by simp), List.filter_nil, List.flatMap_cons,
          List.flatMap_nil, List.append_nil, List.head?_append,
          ih (Nat.le_of_succ_le_succ hn), Option.some_or, List.dropWhile_cons_of_pos hc]
      · rw [if_neg hc, List.filter_nil, List.flatMap_nil, List.nil_append, List.head?_cons,
          List.dropWhile_cons_of_neg hc]

/-- A repetition of a class takes all it can. -/
theorem head?_rests_plus_cls {p : Char → Bool} {s t : List Char}
    (h : (rests (plus (cls p)) s).head? = some t) :
    ∃ w, w ≠ [] ∧ (∀ c ∈ w, p c = true) ∧ w ++ t = s ∧ ∀ c ∈ t.head?, p c = false := by
  obtain ⟨w, ⟨c, hc, rfl⟩, s', rfl, hstar⟩ := head?_rests_seq h
  have ht : t = s'.dropWhile p :=
    (Option.some.inj ((head?_manyRests_cls p le_rfl).symm.trans hstar)).symm
  refine ⟨c :: s'.takeWhile p, List.cons_ne_nil _ _, ?_, ?_, ?_⟩
  · exact List.forall_mem_cons.2 ⟨hc, fun d hd => List.mem_takeWhile_imp hd⟩
  · rw [ht, List.cons_append, List.takeWhile_append_dropWhile]
    rfl
  · intro d hd
    have hnot := List.head?_dropWhile_not p s'
    rw [← ht, Option.mem_def.1 hd] at hnot
    exact hnot

/-! ## Search and replace -/

/-- The search from left to right, with a number of characters of the last match still to be passed
over. -/
def replaceFrom (r : Regex) (format : List Char → List Char) : ℕ → List Char → List Char
  | _, [] => []
  | n + 1, _ :: s => replaceFrom r format n s
  | 0, c :: s =>
    match matchLength r (c :: s) with
    | 0 => c :: replaceFrom r format 0 s
    | n + 1 => format ((c :: s).take (n + 1)) ++ replaceFrom r format n s

/-- `regex_replace(s, r, format)`: each match is formatted, and what lies between is copied. -/
def replaceAll (r : Regex) (format : List Char → List Char) (s : List Char) : List Char :=
  replaceFrom r format 0 s

section

variable {r : Regex} {format : List Char → List Char}

theorem replaceFrom_eq (n : ℕ) (s : List Char) :
    replaceFrom r format n s = replaceAll r format (s.drop n) := by
  induction n generalizing s with
  | zero => rfl
  | succ n ih =>
    cases s with
    | nil => rfl
    | cons c s => exact ih s

@[simp] theorem replaceAll_nil : replaceAll r format [] = [] := rfl

/-- A character where no match begins is copied. -/
theorem replaceAll_cons {c : Char} {s : List Char} (h : matchLength r (c :: s) = 0) :
    replaceAll r format (c :: s) = c :: replaceAll r format s := by
  rw [replaceAll, replaceFrom, h]
  rfl

/-- A match is formatted, and the search goes on behind it. -/
theorem replaceAll_match {s : List Char} (h : 0 < matchLength r s) :
    replaceAll r format s =
      format (s.take (matchLength r s)) ++ replaceAll r format (s.drop (matchLength r s)) := by
  cases s with
  | nil => exact absurd (matchLength_le []) (not_le.2 h)
  | cons c s =>
    obtain ⟨n, hn⟩ := Nat.exists_eq_succ_of_ne_zero h.ne'
    rw [hn, replaceAll, replaceFrom, hn]
    show _ ++ replaceFrom r format n s = _
    rw [replaceFrom_eq]
    rfl

/-- Characters where no match begins are copied. -/
theorem replaceAll_append {x s : List Char}
    (h : ∀ u v, x = u ++ v → v ≠ [] → matchLength r (v ++ s) = 0) :
    replaceAll r format (x ++ s) = x ++ replaceAll r format s := by
  induction x with
  | nil => rfl
  | cons c x ih =>
    have hnone : matchLength r (c :: (x ++ s)) = 0 := h [] (c :: x) rfl (List.cons_ne_nil c x)
    rw [List.cons_append, replaceAll_cons hnone,
      ih fun u v huv hv => h (c :: u) v (congrArg (c :: ·) huv) hv, List.cons_append]

/-! ### Where the search looks for a match -/

/-- The search of a text comes to this rest of it, with no match pending. -/
inductive Reaches (r : Regex) : List Char → List Char → Prop
  | here (s : List Char) : Reaches r s s
  | skip {c : Char} {s t : List Char} (hnone : matchLength r (c :: s) = 0) (h : Reaches r s t) :
      Reaches r (c :: s) t
  | jump {s t : List Char} (hmatch : 0 < matchLength r s)
      (h : Reaches r (s.drop (matchLength r s)) t) : Reaches r s t

/-- In the search of `s` a match is found that has taken `u` where `v` begins, and goes on. -/
def Covers (r : Regex) (s u v : List Char) : Prop :=
  Reaches r s (u ++ v) ∧ u.length < matchLength r (u ++ v)

theorem Reaches.trans {s t v : List Char} (h : Reaches r s t) (h' : Reaches r t v) :
    Reaches r s v := by
  induction h with
  | here => exact h'
  | skip hnone _ ih => exact .skip hnone (ih h')
  | jump hmatch _ ih => exact .jump hmatch (ih h')

/-- Over characters where no match begins. -/
theorem Reaches.append {x s : List Char}
    (h : ∀ u v, x = u ++ v → v ≠ [] → matchLength r (v ++ s) = 0) : Reaches r (x ++ s) s := by
  induction x with
  | nil => exact .here s
  | cons c x ih =>
    exact .skip (h [] (c :: x) rfl (List.cons_ne_nil c x))
      (ih fun u v huv hv => h (c :: u) v (congrArg (c :: ·) huv) hv)

theorem Reaches.suffix {s t : List Char} (h : Reaches r s t) : t <:+ s := by
  induction h with
  | here s => exact List.suffix_rfl
  | skip _ _ ih => exact ih.trans (List.suffix_cons _ _)
  | jump _ _ ih => exact ih.trans (List.drop_suffix _ _)

/-- The search passes a rest of the text at most once: of two that it comes to, one is behind the
other. -/
theorem Reaches.linear {s t t' : List Char} (h : Reaches r s t) (h' : Reaches r s t') :
    Reaches r t t' ∨ Reaches r t' t := by
  induction h with
  | here => exact .inl h'
  | skip hnone h ih =>
    cases h' with
    | here => exact .inr (.skip hnone h)
    | skip _ h' => exact ih h'
    | jump hmatch _ => exact absurd hnone hmatch.ne'
  | jump hmatch h ih =>
    cases h' with
    | here => exact .inr (.jump hmatch h)
    | skip hnone _ => exact absurd hnone hmatch.ne'
    | jump _ h' => exact ih h'

/-- A rest that lies behind another one lies behind the match there. -/
theorem Reaches.length_le {t v : List Char} (h : Reaches r t v) (hne : v.length < t.length) :
    v.length + matchLength r t ≤ t.length := by
  cases h with
  | here => exact absurd hne (lt_irrefl _)
  | skip hnone h =>
    rw [hnone]
    exact hne.le
  | jump hmatch h =>
    have hle := h.suffix.length_le
    rw [List.length_drop] at hle
    have hmatch' := matchLength_le (r := r) t
    omega

/-- A place lies in one match at most. -/
theorem Covers.unique {s u u' v : List Char} (h : Covers r s u v) (h' : Covers r s u' v) :
    u = u' := by
  have hle : ∀ {a b : List Char}, Reaches r (a ++ v) (b ++ v) →
      a.length < matchLength r (a ++ v) → a.length ≤ b.length := by
    intro a b hreach hlt
    by_contra hnot
    have hlength := hreach.length_le (by simp only [List.length_append]; omega)
    simp only [List.length_append] at hlength
    omega
  have hge : ∀ {a b : List Char}, Reaches r (a ++ v) (b ++ v) → b.length ≤ a.length := by
    intro a b hreach
    have hlength := hreach.suffix.length_le
    simp only [List.length_append] at hlength
    omega
  have heq : ∀ {a b : List Char}, Reaches r (a ++ v) (b ++ v) →
      a.length < matchLength r (a ++ v) → a = b := by
    intro a b hreach hlt
    have hlength : b.length = a.length := (hge hreach).antisymm (hle hreach hlt)
    have hsame := hreach.suffix.eq_of_length (by simp [hlength])
    exact (List.append_cancel_right hsame).symm
  rcases h.1.linear h'.1 with hreach | hreach
  · exact heq hreach h.2
  · exact (heq hreach h'.2).symm

/-- A place to which the search comes lies in no match that began before it. -/
theorem Covers.eq_nil {s u v : List Char} (h : Covers r s u v) (hreach : Reaches r s v) :
    u = [] := by
  by_contra hne
  have hpos : 0 < u.length := List.length_pos_iff.2 hne
  have hlength : (u ++ v).length = u.length + v.length := List.length_append
  rcases h.1.linear hreach with hr | hr
  · have hle := hr.length_le (by omega)
    have hlt := h.2
    omega
  · have hle := hr.suffix.length_le
    omega

/-! ### Two texts that are searched alike -/

/-- The expression does not see how two texts differ. -/
def Blind (R : List Char → List Char → Prop) (r : Regex) : Prop :=
  ∀ s s', R s s' → List.Forall₂ R (rests r s) (rests r s')

end

namespace Blind

variable {R : List Char → List Char → Prop} {r r' : Regex}

theorem empty : Blind R empty := fun _ _ _ => .nil

theorem eps : Blind R eps := fun _ _ h => .cons h .nil

theorem alt (h : Blind R r) (h' : Blind R r') : Blind R (alt r r') :=
  fun s s' hs => List.rel_append (h s s' hs) (h' s s' hs)

theorem oneOf {rs : List Regex} (h : ∀ r ∈ rs, Blind R r) : Blind R (oneOf rs) := by
  induction rs with
  | nil => exact empty
  | cons r rs ih =>
    exact alt (h r List.mem_cons_self) (ih fun r' hr' => h r' (List.mem_cons_of_mem r hr'))

theorem opt (h : Blind R r) : Blind R (opt r) := alt h eps

theorem seq (h : Blind R r) (h' : Blind R r') : Blind R (seq r r') :=
  fun s s' hs => List.rel_flatMap (h s s' hs) fun t t' ht => h' t t' ht

theorem times (h : Blind R r) (n : ℕ) : Blind R (times n r) := by
  induction n with
  | zero => exact eps
  | succ n ih => exact seq h ih

theorem upTo (h : Blind R r) (n : ℕ) : Blind R (upTo n r) := by
  induction n with
  | zero => exact eps
  | succ n ih => exact opt (seq h ih)

theorem between (h : Blind R r) (lo hi : ℕ) : Blind R (between lo hi r) :=
  seq (times h lo) (upTo h (hi - lo))

theorem star (hlength : ∀ s s', R s s' → s.length = s'.length) (h : Blind R r) :
    Blind R (star r) := by
  have hmany : ∀ n s s', R s s' →
      List.Forall₂ R (manyRests (rests r) n s) (manyRests (rests r) n s') := by
    intro n
    induction n with
    | zero => exact fun s s' hs => .cons hs .nil
    | succ n ih =>
      intro s s' hs
      refine List.rel_append (List.rel_flatMap ?_ fun t t' ht => ih t t' ht) (.cons hs .nil)
      refine List.rel_filter (fun t t' ht => ?_) (h s s' hs)
      show decide (t.length < s.length) = true ↔ decide (t'.length < s'.length) = true
      rw [hlength s s' hs, hlength t t' ht]
  intro s s' hs
  rw [rests, rests, hlength s s' hs]
  exact hmany s'.length s s' hs

theorem plus (hlength : ∀ s s', R s s' → s.length = s'.length) (h : Blind R r) :
    Blind R (plus r) := seq h (star hlength h)

theorem matchLength_eq (hlength : ∀ s s', R s s' → s.length = s'.length) (h : Blind R r)
    {s s' : List Char} (hs : R s s') : matchLength r s = matchLength r s' := by
  have hrests := h s s' hs
  rw [matchLength, matchLength]
  generalize rests r s = l, rests r s' = l' at hrests
  cases hrests with
  | nil => rfl
  | @cons t t' _ _ ht _ =>
    show s.length - t.length = s'.length - t'.length
    rw [hlength s s' hs, hlength t t' ht]

end Blind

/-- **The same beginning of two texts.** Where all matches that begin in it have the same length in
both, the search does the same in it: it comes to the end of it, or finds a match that goes on. -/
theorem replaceAll_append_alike {r : Regex} (format : List Char → List Char) {v v' : List Char}
    (halike : ∀ q, matchLength r (q ++ v) = matchLength r (q ++ v')) (q : List Char) :
    (∃ x, Reaches r (q ++ v) v ∧ Reaches r (q ++ v') v' ∧
      replaceAll r format (q ++ v) = x ++ replaceAll r format v ∧
      replaceAll r format (q ++ v') = x ++ replaceAll r format v') ∨
    ∃ q₀ q₁ x, q = q₀ ++ q₁ ∧ q₁ ≠ [] ∧ Reaches r (q ++ v) (q₁ ++ v) ∧
      Reaches r (q ++ v') (q₁ ++ v') ∧ q₁.length < matchLength r (q₁ ++ v) ∧
      replaceAll r format (q ++ v) = x ++ replaceAll r format (q₁ ++ v) ∧
      replaceAll r format (q ++ v') = x ++ replaceAll r format (q₁ ++ v') := by
  induction hn : q.length using Nat.strong_induction_on generalizing q with
  | _ n ih =>
    subst hn
    cases q with
    | nil => exact .inl ⟨[], .here v, .here v', rfl, rfl⟩
    | cons c q =>
      by_cases hnone : matchLength r (c :: q ++ v) = 0
      · -- No match: the character is copied.
        have hnone' := (halike (c :: q)).symm.trans hnone
        rw [List.cons_append] at hnone hnone' ⊢
        rw [List.cons_append, replaceAll_cons hnone, replaceAll_cons hnone']
        rcases ih q.length (Nat.lt_succ_self _) q rfl with
          ⟨x, h, h', hx, hx'⟩ | ⟨q₀, q₁, x, rfl, hne, h, h', hlt, hx, hx'⟩
        · refine .inl ⟨c :: x, .skip hnone h, .skip hnone' h', ?_, ?_⟩
          · rw [hx, List.cons_append]
          · rw [hx', List.cons_append]
        · refine .inr ⟨c :: q₀, q₁, c :: x, rfl, hne, .skip hnone h, .skip hnone' h', hlt, ?_, ?_⟩
          · rw [hx, List.cons_append]
          · rw [hx', List.cons_append]
      · have hpos := Nat.pos_of_ne_zero hnone
        by_cases hlt : (c :: q).length < matchLength r (c :: q ++ v)
        · exact .inr ⟨[], c :: q, [], rfl, List.cons_ne_nil c q, .here _, .here _, hlt, rfl, rfl⟩
        · -- A match within the common beginning.
          have hle := not_lt.1 hlt
          have hpos' := halike (c :: q) ▸ hpos
          have hsame := halike (c :: q)
          rw [replaceAll_match hpos, replaceAll_match hpos', ← hsame,
            List.take_append_of_le_length hle, List.drop_append_of_le_length hle,
            List.take_append_of_le_length hle, List.drop_append_of_le_length hle]
          set m := format ((c :: q).take (matchLength r (c :: q ++ v)))
          have hshort : ((c :: q).drop (matchLength r (c :: q ++ v))).length < (c :: q).length := by
            rw [List.length_drop]
            omega
          have hjump : ∀ {t}, Reaches r ((c :: q).drop (matchLength r (c :: q ++ v)) ++ v) t →
              Reaches r (c :: q ++ v) t := fun h =>
            .jump hpos (by rwa [List.drop_append_of_le_length hle])
          have hjump' : ∀ {t}, Reaches r ((c :: q).drop (matchLength r (c :: q ++ v)) ++ v') t →
              Reaches r (c :: q ++ v') t := fun h =>
            .jump hpos' (by rwa [← hsame, List.drop_append_of_le_length hle])
          rcases ih _ hshort _ rfl with
            ⟨x, h, h', hx, hx'⟩ | ⟨q₀, q₁, x, hq, hne, h, h', hlt, hx, hx'⟩
          · refine .inl ⟨m ++ x, hjump h, hjump' h', ?_, ?_⟩
            · rw [hx, List.append_assoc]
            · rw [hx', List.append_assoc]
          · refine .inr ⟨(c :: q).take (matchLength r (c :: q ++ v)) ++ q₀, q₁, m ++ x, ?_, hne,
              hjump h, hjump' h', hlt, ?_, ?_⟩
            · rw [List.append_assoc, ← hq, List.take_append_drop]
            · rw [hx, List.append_assoc]
            · rw [hx', List.append_assoc]

end Regex

end Lib
