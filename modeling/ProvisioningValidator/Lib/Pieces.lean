import Mathlib
import ProvisioningValidator.Lib.Regex

/-!
# Texts made of pieces

A text with a separator in it is the list of its pieces. `[c].intercalate ps` puts pieces together,
and as long as none of them has the separator in it, they are determined by the text
(`pieces_unique`).

Repetitions in a regular expression are lists of texts here (`mem_lang_times`, `mem_lang_upTo`), and
repetitions of an expression with a separator behind it are lists of pieces
(`mem_lang_star_pieces`, `mem_lang_times_pieces`).
-/

namespace Lib

variable {α : Type}

/-! ## Putting pieces together -/

theorem intercalate_append {c : α} {ps qs : List (List α)} (hps : ps ≠ []) (hqs : qs ≠ []) :
    [c].intercalate (ps ++ qs) = [c].intercalate ps ++ c :: [c].intercalate qs := by
  induction ps with
  | nil => exact absurd rfl hps
  | cons p ps ih =>
    cases ps with
    | nil =>
      rw [List.singleton_append, List.intercalate_cons_of_ne_nil hqs, List.intercalate_singleton,
        List.append_assoc, List.singleton_append]
    | cons p' ps =>
      have hrest := ih (List.cons_ne_nil p' ps)
      rw [List.cons_append, List.intercalate_cons_of_ne_nil (by simp), hrest,
        List.intercalate_cons_of_ne_nil (List.cons_ne_nil p' ps)]
      simp only [List.append_assoc]

/-- Pieces with a separator behind each, and more of them. -/
theorem flatMap_append_intercalate (c : α) (ps : List (List α)) {qs : List (List α)}
    (hqs : qs ≠ []) :
    ps.flatMap (· ++ [c]) ++ [c].intercalate qs = [c].intercalate (ps ++ qs) := by
  induction ps with
  | nil => rfl
  | cons p ps ih =>
    rw [List.flatMap_cons, List.append_assoc, ih, List.cons_append,
      List.intercalate_cons_of_ne_nil (by simp [hqs])]

theorem flatMap_append_eq_intercalate (c : α) (ps : List (List α)) (q : List α) :
    ps.flatMap (· ++ [c]) ++ q = [c].intercalate (ps ++ [q]) := by
  rw [← flatMap_append_intercalate c ps (List.cons_ne_nil q []), List.intercalate_singleton]

/-- What is in the text is in a piece, or is the separator. -/
theorem mem_intercalate {c d : α} {ps : List (List α)} (h : d ∈ [c].intercalate ps) :
    d = c ∨ ∃ p ∈ ps, d ∈ p := by
  induction ps with
  | nil => simp at h
  | cons p ps ih =>
    cases ps with
    | nil =>
      rw [List.intercalate_singleton] at h
      exact Or.inr ⟨p, List.mem_cons_self, h⟩
    | cons p' ps =>
      rw [List.intercalate_cons_cons, List.append_assoc] at h
      rcases List.mem_append.1 h with h | h
      · exact Or.inr ⟨p, List.mem_cons_self, h⟩
      · rcases List.mem_cons.1 h with h | h
        · exact Or.inl h
        · rcases ih h with h | ⟨q, hq, hd⟩
          · exact Or.inl h
          · exact Or.inr ⟨q, List.mem_cons_of_mem p hq, hd⟩

/-- **Pieces are determined by the text** when the separator is in none of them. -/
theorem pieces_unique [DecidableEq α] {c : α} {ps qs : List (List α)} (hps : ps ≠ [])
    (hqs : qs ≠ []) (hp : ∀ p ∈ ps, c ∉ p) (hq : ∀ q ∈ qs, c ∉ q)
    (h : [c].intercalate ps = [c].intercalate qs) : ps = qs := by
  rw [← List.splitOn_intercalate c hp hps, h, List.splitOn_intercalate c hq hqs]

namespace Regex

/-! ## Repetitions as lists -/

theorem mem_lang_times {n : ℕ} {r : Regex} {w : List Char} :
    w ∈ (times n r).lang ↔ ∃ ws : List (List Char), ws.length = n ∧ (∀ x ∈ ws, x ∈ r.lang) ∧ w = ws.flatten := by
  induction n generalizing w with
  | zero =>
    rw [times, lang_eps, Language.mem_one]
    constructor
    · intro h
      exact ⟨[], rfl, by simp, h⟩
    · intro h
      obtain ⟨ws, hlen, -, rfl⟩ := h
      rw [List.length_eq_zero_iff.1 hlen]
      rfl
  | succ n ih =>
    rw [times, mem_lang_seq]
    constructor
    · intro h
      obtain ⟨a, ha, b, hb, rfl⟩ := h
      obtain ⟨ws, hlen, hws, rfl⟩ := ih.1 hb
      refine ⟨a :: ws, by rw [List.length_cons, hlen], ?_, rfl⟩
      exact List.forall_mem_cons.2 ⟨ha, hws⟩
    · intro h
      obtain ⟨ws, hlen, hws, rfl⟩ := h
      cases ws with
      | nil => cases hlen
      | cons a ws =>
        obtain ⟨ha, hrest⟩ := List.forall_mem_cons.1 hws
        exact ⟨a, ha, ws.flatten, ih.2 ⟨ws, Nat.succ.inj hlen, hrest, rfl⟩, rfl⟩

theorem mem_lang_upTo {n : ℕ} {r : Regex} {w : List Char} :
    w ∈ (upTo n r).lang ↔ ∃ ws : List (List Char), ws.length ≤ n ∧ (∀ x ∈ ws, x ∈ r.lang) ∧ w = ws.flatten := by
  induction n generalizing w with
  | zero =>
    rw [upTo, lang_eps, Language.mem_one]
    constructor
    · intro h
      exact ⟨[], le_rfl, by simp, h⟩
    · intro h
      obtain ⟨ws, hlen, -, rfl⟩ := h
      rw [List.length_eq_zero_iff.1 (Nat.le_zero.1 hlen)]
      rfl
  | succ n ih =>
    rw [upTo, mem_lang_opt, mem_lang_seq]
    constructor
    · intro h
      rcases h with ⟨a, ha, b, hb, rfl⟩ | rfl
      · obtain ⟨ws, hlen, hws, rfl⟩ := ih.1 hb
        refine ⟨a :: ws, by rw [List.length_cons]; omega, ?_, rfl⟩
        exact List.forall_mem_cons.2 ⟨ha, hws⟩
      · exact ⟨[], Nat.zero_le _, by simp, rfl⟩
    · intro h
      obtain ⟨ws, hlen, hws, rfl⟩ := h
      cases ws with
      | nil => exact Or.inr rfl
      | cons a ws =>
        obtain ⟨ha, hrest⟩ := List.forall_mem_cons.1 hws
        have hshort : ws.length ≤ n := by
          rw [List.length_cons] at hlen
          omega
        exact Or.inl ⟨a, ha, ws.flatten, ih.2 ⟨ws, hshort, hrest, rfl⟩, rfl⟩

theorem mem_lang_upTo_iff_times {n : ℕ} {r : Regex} {w : List Char} :
    w ∈ (upTo n r).lang ↔ ∃ k ≤ n, w ∈ (times k r).lang := by
  simp only [mem_lang_upTo, mem_lang_times]
  constructor
  · intro h
    obtain ⟨ws, hlen, hws, hw⟩ := h
    exact ⟨ws.length, hlen, ws, rfl, hws, hw⟩
  · intro h
    obtain ⟨k, hk, ws, rfl, hws, hw⟩ := h
    exact ⟨ws, hk, hws, hw⟩

/-- Texts of an expression with a separator behind each. -/
theorem exists_pieces_iff {r : Regex} {c : Char} {Q : ℕ → Prop} {w : List Char} :
    (∃ ws : List (List Char), Q ws.length ∧ (∀ x ∈ ws, x ∈ (seq r (char c)).lang) ∧ w = ws.flatten) ↔
      ∃ ps : List (List Char), Q ps.length ∧ (∀ p ∈ ps, p ∈ r.lang) ∧ w = ps.flatMap (· ++ [c]) := by
  constructor
  · intro h
    obtain ⟨ws, hlen, hws, rfl⟩ := h
    have hsplit : ∃ ps : List (List Char), ps.length = ws.length ∧ (∀ p ∈ ps, p ∈ r.lang) ∧
        ws.flatten = ps.flatMap (· ++ [c]) := by
      clear hlen
      induction ws with
      | nil => exact ⟨[], rfl, by simp, rfl⟩
      | cons x ws ih =>
        obtain ⟨hx, hrest⟩ := List.forall_mem_cons.1 hws
        obtain ⟨ps, hlen, hps, hflat⟩ := ih hrest
        obtain ⟨p, hp, s, hs, rfl⟩ := mem_lang_seq.1 hx
        obtain rfl := mem_lang_char.1 hs
        refine ⟨p :: ps, by rw [List.length_cons, List.length_cons, hlen],
          List.forall_mem_cons.2 ⟨hp, hps⟩, ?_⟩
        rw [List.flatten_cons, List.flatMap_cons, hflat]
    obtain ⟨ps, hlength, hps, hflat⟩ := hsplit
    exact ⟨ps, hlength ▸ hlen, hps, hflat⟩
  · intro h
    obtain ⟨ps, hlen, hps, rfl⟩ := h
    refine ⟨ps.map (· ++ [c]), by rwa [List.length_map], ?_, rfl⟩
    rw [List.forall_mem_map]
    intro p hp
    exact mem_lang_seq.2 ⟨p, hps p hp, [c], mem_lang_char.2 rfl, rfl⟩

/-- `(r c)*r`: one piece or more. -/
theorem mem_lang_star_pieces {r : Regex} {c : Char} {w : List Char} :
    w ∈ (seq (star (seq r (char c))) r).lang ↔
      ∃ ps : List (List Char), ps ≠ [] ∧ (∀ p ∈ ps, p ∈ r.lang) ∧ w = [c].intercalate ps := by
  have hstar : ∀ a, a ∈ (star (seq r (char c))).lang ↔
      ∃ ps : List (List Char), True ∧ (∀ p ∈ ps, p ∈ r.lang) ∧ a = ps.flatMap (· ++ [c]) := by
    intro a
    rw [← exists_pieces_iff (Q := fun _ => True)]
    refine Language.mem_kstar.trans (exists_congr fun ws => ?_)
    exact ⟨fun h => ⟨trivial, h.2, h.1⟩, fun h => ⟨h.2.2, h.2.1⟩⟩
  rw [mem_lang_seq]
  constructor
  · intro h
    obtain ⟨a, ha, q, hq, rfl⟩ := h
    obtain ⟨ps, -, hps, rfl⟩ := (hstar a).1 ha
    refine ⟨ps ++ [q], by simp, ?_, flatMap_append_eq_intercalate c ps q⟩
    exact List.forall_mem_append.2 ⟨hps, List.forall_mem_singleton.2 hq⟩
  · intro h
    obtain ⟨ps, hne, hps, rfl⟩ := h
    have hsplit : ps.dropLast ++ [ps.getLast hne] = ps := List.dropLast_append_getLast hne
    refine ⟨ps.dropLast.flatMap (· ++ [c]), (hstar _).2 ⟨ps.dropLast, trivial, ?_, rfl⟩,
      ps.getLast hne, hps _ (List.getLast_mem hne), ?_⟩
    · exact fun p hp => hps p (List.mem_of_mem_dropLast hp)
    · rw [flatMap_append_eq_intercalate, hsplit]

/-- `(r c){n}r`: `n + 1` pieces. -/
theorem mem_lang_times_pieces {n : ℕ} {r : Regex} {c : Char} {w : List Char} :
    w ∈ (seq (times n (seq r (char c))) r).lang ↔
      ∃ ps : List (List Char), ps.length = n + 1 ∧ (∀ p ∈ ps, p ∈ r.lang) ∧ w = [c].intercalate ps := by
  rw [mem_lang_seq]
  simp only [mem_lang_times]
  constructor
  · intro h
    obtain ⟨a, ha, q, hq, rfl⟩ := h
    obtain ⟨ps, hlen, hps, rfl⟩ := (exists_pieces_iff (Q := (· = n))).1 ha
    refine ⟨ps ++ [q], by rw [List.length_append, hlen]; rfl, ?_,
      flatMap_append_eq_intercalate c ps q⟩
    exact List.forall_mem_append.2 ⟨hps, List.forall_mem_singleton.2 hq⟩
  · intro h
    obtain ⟨ps, hlen, hps, rfl⟩ := h
    have hne : ps ≠ [] := fun he => by simp [he] at hlen
    have hsplit : ps.dropLast ++ [ps.getLast hne] = ps := List.dropLast_append_getLast hne
    have hshort : ps.dropLast.length = n := by rw [List.length_dropLast, hlen]; rfl
    refine ⟨ps.dropLast.flatMap (· ++ [c]), (exists_pieces_iff (Q := (· = n))).2
      ⟨ps.dropLast, hshort, ?_, rfl⟩, ps.getLast hne, hps _ (List.getLast_mem hne), ?_⟩
    · exact fun p hp => hps p (List.mem_of_mem_dropLast hp)
    · rw [flatMap_append_eq_intercalate, hsplit]

/-- `(r c){0,n}`: up to `n` pieces, with a separator behind each. -/
theorem mem_lang_upTo_pieces {n : ℕ} {r : Regex} {c : Char} {w : List Char} :
    w ∈ (upTo n (seq r (char c))).lang ↔
      ∃ ps : List (List Char), ps.length ≤ n ∧ (∀ p ∈ ps, p ∈ r.lang) ∧ w = ps.flatMap (· ++ [c]) := by
  rw [mem_lang_upTo]
  exact exists_pieces_iff (Q := (· ≤ n))

end Regex

end Lib
