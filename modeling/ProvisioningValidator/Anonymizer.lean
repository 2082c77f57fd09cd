import Mathlib
import ProvisioningValidator.Lib.Search

/-!
# The anonymizer of the log

`anonymizeJson` is applied to a body before it is logged. It replaces identities in two passes: the
first one looks for `imsi-..`, `nai-..` and the like anywhere in the text, the second one for JSON
members with a digit string. In what a pass finds every other character is masked.

A text is the list of its bytes. A repetition of the expressions takes as much as it can.
-/

namespace ProvisioningValidator

open Lib Lib.Regex

/-! ## The expressions -/

/-- `isspace` -/
def isSpace (c : Char) : Bool := c.isWhitespace || c == '\x0b' || c == '\x0c'

theorem mem_of_isSpace {c : Char} (h : isSpace c = true) :
    c ∈ [' ', '\t', '\r', '\n', '\x0b', '\x0c'] := by
  simp only [isSpace, Char.isWhitespace, Bool.or_eq_true, decide_eq_true_eq, beq_iff_eq] at h
  simp only [List.mem_cons, List.not_mem_nil, or_false]
  tauto

/-- White space is neither a letter nor a digit. -/
theorem not_alphanum_of_isSpace {c : Char} (h : isSpace c = true) : c.isAlphanum = false := by
  have hmem := mem_of_isSpace h
  simp only [List.mem_cons, List.not_mem_nil, or_false] at hmem
  rcases hmem with rfl | rfl | rfl | rfl | rfl | rfl <;> rfl

theorem isSpace_of_isWhitespace {c : Char} (h : c.isWhitespace = true) : isSpace c = true := by
  simp [isSpace, h]

theorem isSpace_digit {c : Char} (h : c.isDigit = true) : isSpace c = false := by
  by_contra hne
  have halphanum := not_alphanum_of_isSpace (Bool.eq_true_of_not_eq_false hne)
  simp [Char.isAlphanum, h] at halphanum

/-- `\S` -/
def nonSpace : Regex := cls fun c => !isSpace c

/-- `(a|b)-r` -/
def dashed (names : List String) (r : Regex) : Regex :=
  seq (oneOf (names.map lit)) (seq (lit "-") r)

/-- `nai-.+` -/
def naiRegExp : Regex := seq (lit "nai-") (plus any)

/-- `(suci-(0-[0-9]{3}-[0-9]{2,3}|[1-7]-.+)-[0-9]{1,4}-(0-0-\S+))` -/
def suciRegExp : Regex :=
  seq (lit "suci-") <|
  seq (oneOf [
    seq (lit "0-") (seq (times 3 digit) (seq (lit "-") (between 2 3 digit))),
    seq (range '1' '7') (seq (lit "-") (plus any))]) <|
  seq (lit "-") (seq (between 1 4 digit) (seq (lit "-") (seq (lit "0-0-") (plus nonSpace))))

def userRegExp : Regex := oneOf [
  dashed ["msisdn", "MSISDN"] (between 5 15 digit),
  dashed ["imei", "IMEI"] (times 15 digit),
  dashed ["impi", "IMPI"] (between 5 15 digit),
  oneOf [
    dashed ["imeisv", "IMEISV"] (times 16 digit),
    dashed ["imsi", "IMSI"] (between 5 15 digit),
    naiRegExp],
  suciRegExp]

/-- `("(a|b)" *: *r)` -/
def jsonMember (names : List String) (r : Regex) : Regex :=
  seq (lit "\"") <| seq (oneOf (names.map lit)) <| seq (lit "\"") <|
  seq (star (char ' ')) <| seq (lit ":") <| seq (star (char ' ')) r

/-- `"r"` -/
def inQuotes (r : Regex) : Regex := seq (lit "\"") (seq r (lit "\""))

/-- `[a-zA-Z0-9]` -/
def alphanumeric : Regex := cls Char.isAlphanum

/-- `("[0-9]*",? ?)` -/
def trafficIdElement : Regex :=
  seq (inQuotes (star digit)) (seq (opt (lit ",")) (opt (lit " ")))

def userJsonRegExp : Regex := oneOf [
  jsonMember ["msisdn", "MSISDN"] (inQuotes (between 5 15 digit)),
  jsonMember ["imei", "IMEI"] (inQuotes (times 15 digit)),
  jsonMember ["imeisv", "IMEISV"] (inQuotes (times 16 digit)),
  jsonMember ["imsi", "IMSI"] (inQuotes (between 5 15 digit)),
  jsonMember ["impi", "IMPI"] (inQuotes (between 5 15 digit)),
  jsonMember ["username", "USERNAME"] (inQuotes (star alphanumeric)),
  jsonMember ["TrafficId"] (inQuotes (star alphanumeric)),
  jsonMember ["trafficIdList"] (seq (lit "[") (seq (star trafficIdElement) (lit "]"))),
  jsonMember ["suci", "SUCI"]
    (inQuotes (seq (lit "0-") (seq (times 3 digit) (seq (lit "-") (between 2 3 digit)))))]

/-! ## The formatters -/

/-- Every other character becomes `*`, the first one included if `idx` is even. -/
def mask (idx : ℕ) (s : List Char) : List Char :=
  s.mapIdx fun i c => if (idx + i) % 2 = 0 then '*' else c

/-- `Formatter`: the pieces between hyphens are masked, but for the first one. -/
def formatter (orig : List Char) : List Char :=
  match orig.splitOn '-' with
  | [] => []
  | first :: strs => first ++ strs.flatMap fun it => '-' :: mask 0 it

/-- `erase`, as long as the character is found. -/
def eraseAll (c : Char) (s : List Char) : List Char := s.filter (· != c)

/-- `JsonFormatter`: the same for the pieces between colons, without spaces, and without quotes but
those that are put around a piece. -/
def jsonFormatter (orig : List Char) : List Char :=
  match (orig.splitOn ':').map (eraseAll ' ') with
  | [] => []
  | first :: strs =>
    first ++ strs.flatMap fun it => ':' :: '"' :: (mask 0 (eraseAll '"' it) ++ ['"'])

/-! ## The two passes -/

def anonymizeString (str : List Char) : List Char := replaceAll userRegExp formatter str

def anonymizeJson (str : List Char) : List Char :=
  replaceAll userJsonRegExp jsonFormatter (anonymizeString str)

example : anonymizeString "imsi-123456789012345".toList = "imsi-*2*4*6*8*0*2*4*".toList := by
  decide +kernel

example : anonymizeJson "\"imsi\" : \"123456789012345\"".toList =
    "\"imsi\":\"*2*4*6*8*0*2*4*\"".toList := by decide +kernel

example : anonymizeJson "\"SUCI\":\"0-123-12\"".toList = "\"SUCI\":\"*-*2*-*2\"".toList := by
  decide +kernel

/-! ## What the first pass finds -/

/-- An identity with its digits: letters, a hyphen, digits. -/
theorem mem_dashed {names : List String} {r : Regex} {w : List Char} :
    w ∈ (dashed names r).lang ↔ ∃ name ∈ names, ∃ v ∈ r.lang, w = name.toList ++ '-' :: v := by
  rw [dashed, mem_lang_seq]
  constructor
  · intro h
    obtain ⟨a, ha, b, hb, rfl⟩ := h
    obtain ⟨r', hr', ha⟩ := mem_lang_oneOf.1 ha
    obtain ⟨name, hname, rfl⟩ := List.mem_map.1 hr'
    obtain ⟨c, hc, v, hv, rfl⟩ := mem_lang_seq.1 hb
    rw [mem_lang_lit.1 ha, mem_lang_lit.1 hc]
    exact ⟨name, hname, v, hv, rfl⟩
  · intro h
    obtain ⟨name, hname, v, hv, rfl⟩ := h
    refine ⟨name.toList, mem_lang_oneOf.2 ⟨_, List.mem_map_of_mem hname, mem_lang_lit.2 rfl⟩,
      '-' :: v, mem_lang_seq.2 ⟨['-'], mem_lang_lit.2 rfl, v, hv, rfl⟩, rfl⟩

/-- The alternatives with a name and digits. -/
def dashedAlternatives : List Regex := [
  dashed ["msisdn", "MSISDN"] (between 5 15 digit),
  dashed ["imei", "IMEI"] (times 15 digit),
  dashed ["impi", "IMPI"] (between 5 15 digit),
  dashed ["imeisv", "IMEISV"] (times 16 digit),
  dashed ["imsi", "IMSI"] (between 5 15 digit)]

/-- The first match comes from one of the alternatives. -/
theorem head?_userRegExp {s t : List Char} (h : (rests userRegExp s).head? = some t) :
    (∃ r ∈ dashedAlternatives, (rests r s).head? = some t) ∨
      (rests naiRegExp s).head? = some t ∨ (rests suciRegExp s).head? = some t := by
  obtain ⟨r, hr, h⟩ := head?_rests_oneOf h
  simp only [List.mem_cons, List.not_mem_nil, or_false] at hr
  rcases hr with rfl | rfl | rfl | rfl | rfl
  · exact .inl ⟨_, by simp [dashedAlternatives], h⟩
  · exact .inl ⟨_, by simp [dashedAlternatives], h⟩
  · exact .inl ⟨_, by simp [dashedAlternatives], h⟩
  · obtain ⟨r, hr, h⟩ := head?_rests_oneOf h
    simp only [List.mem_cons, List.not_mem_nil, or_false] at hr
    rcases hr with rfl | rfl | rfl
    · exact .inl ⟨_, by simp [dashedAlternatives], h⟩
    · exact .inl ⟨_, by simp [dashedAlternatives], h⟩
    · exact .inr (.inl h)
  · exact .inr (.inr h)

theorem alpha_of_dashed {r : Regex} (hr : r ∈ dashedAlternatives) {w : List Char}
    (hw : w ∈ r.lang) : ∃ a b, w = a ++ '-' :: b ∧ (∀ c ∈ a, c.isAlpha = true) ∧
      ∀ c ∈ b, c.isDigit = true := by
  simp only [dashedAlternatives, List.mem_cons, List.not_mem_nil, or_false] at hr
  have hbetween : ∀ v ∈ (between 5 15 digit).lang, ∀ c ∈ v, c.isDigit = true := fun v hv =>
    ((mem_lang_between_cls (by decide)).1 hv).2.2
  have htimes : ∀ n, ∀ v ∈ (times n digit).lang, ∀ c ∈ v, c.isDigit = true := fun n v hv =>
    (mem_lang_times_cls.1 hv).2
  have hword : ∀ {names : List String} {q : Regex}, w ∈ (dashed names q).lang →
      (∀ name ∈ names, ∀ c ∈ name.toList, c.isAlpha = true) →
      (∀ v ∈ q.lang, ∀ c ∈ v, c.isDigit = true) →
      ∃ a b, w = a ++ '-' :: b ∧ (∀ c ∈ a, c.isAlpha = true) ∧ ∀ c ∈ b, c.isDigit = true := by
    intro names q hw hnames hq
    obtain ⟨name, hname, v, hv, rfl⟩ := mem_dashed.1 hw
    exact ⟨name.toList, v, rfl, hnames name hname, hq v hv⟩
  rcases hr with rfl | rfl | rfl | rfl | rfl
  · exact hword hw (by simp) hbetween
  · exact hword hw (by simp) (htimes 15)
  · exact hword hw (by simp) hbetween
  · exact hword hw (by simp) (htimes 16)
  · exact hword hw (by simp) hbetween

/-- The end of a text, or a place before white space and not behind it. -/
def EndsAtSpace (w t : List Char) : Prop :=
  t = [] ∨ (∃ c ∈ t.head?, isSpace c = true) ∧ ∃ c ∈ w.getLast?, isSpace c = false

theorem nai_match {s t : List Char} (h : (rests naiRegExp s).head? = some t) :
    ∃ w, w ++ t = s ∧ (∃ a b, w = a ++ '-' :: b ∧ ∀ c ∈ a, c.isAlpha = true) ∧ t = [] := by
  obtain ⟨a, ha, s', rfl, hplus⟩ := head?_rests_seq h
  obtain ⟨v, -, -, rfl, hend⟩ := head?_rests_plus_cls hplus
  rw [mem_lang_lit.1 ha]
  refine ⟨"nai-".toList ++ v, List.append_assoc _ _ _,
    ⟨"nai".toList, v, rfl, by simp⟩, ?_⟩
  cases t with
  | nil => rfl
  | cons c t => exact absurd (hend c rfl) (by simp)

theorem suci_match {s t : List Char} (h : (rests suciRegExp s).head? = some t) :
    ∃ w, w ++ t = s ∧ (∃ a b, w = a ++ '-' :: b ∧ ∀ c ∈ a, c.isAlpha = true) ∧
      EndsAtSpace w t := by
  obtain ⟨a, ha, s₁, rfl, h₁⟩ := head?_rests_seq h
  obtain ⟨b, -, s₂, rfl, h₂⟩ := head?_rests_seq h₁
  obtain ⟨c, -, s₃, rfl, h₃⟩ := head?_rests_seq h₂
  obtain ⟨d, -, s₄, rfl, h₄⟩ := head?_rests_seq h₃
  obtain ⟨e, -, s₅, rfl, h₅⟩ := head?_rests_seq h₄
  obtain ⟨f, -, s₆, rfl, h₆⟩ := head?_rests_seq h₅
  obtain ⟨v, hne, hv, rfl, hend⟩ := head?_rests_plus_cls h₆
  rw [mem_lang_lit.1 ha]
  refine ⟨"suci-".toList ++ (b ++ (c ++ (d ++ (e ++ (f ++ v))))), by simp only [List.append_assoc],
    ⟨"suci".toList, _, rfl, by simp⟩, ?_⟩
  cases t with
  | nil => exact .inl rfl
  | cons x t =>
    refine .inr ⟨⟨x, rfl, by simpa using hend x rfl⟩, v.getLast hne, ?_, ?_⟩
    · simp only [← List.append_assoc]
      rw [List.getLast?_append_of_ne_nil _ hne]
      exact List.getLast?_eq_some_getLast hne
    · simpa using hv _ (List.getLast_mem hne)

/-- **What the first pass finds**: letters, and then a hyphen. It consists of letters, digits and
hyphens, or goes on to the end of the text or to white space. -/
theorem user_match {s : List Char} (h : 0 < matchLength userRegExp s) :
    (∃ a b, s.take (matchLength userRegExp s) = a ++ '-' :: b ∧ ∀ c ∈ a, c.isAlpha = true) ∧
    ((∀ c ∈ s.take (matchLength userRegExp s), c.isAlphanum = true ∨ c = '-') ∨
      EndsAtSpace (s.take (matchLength userRegExp s)) (s.drop (matchLength userRegExp s))) := by
  have hhead := head?_of_matchLength_pos h
  have htake : ∀ {w}, w ++ s.drop (matchLength userRegExp s) = s →
      s.take (matchLength userRegExp s) = w := fun hw =>
    List.append_cancel_right ((List.take_append_drop _ s).trans hw.symm)
  rcases head?_userRegExp hhead with ⟨r, hr, hhead⟩ | hhead | hhead
  · obtain ⟨w, hw, hws⟩ := mem_rests.1 (List.mem_of_mem_head? hhead)
    obtain ⟨a, b, hab, ha, hb⟩ := alpha_of_dashed hr hw
    rw [htake hws]
    refine ⟨⟨a, b, hab, ha⟩, .inl fun c hc => ?_⟩
    rw [hab, List.mem_append, List.mem_cons] at hc
    rcases hc with hc | hc | hc
    · exact .inl (by simp [Char.isAlphanum, ha c hc])
    · exact .inr hc
    · exact .inl (by simp [Char.isAlphanum, hb c hc])
  · obtain ⟨w, hws, hw, hnil⟩ := nai_match hhead
    rw [htake hws]
    exact ⟨hw, .inr (.inl hnil)⟩
  · obtain ⟨w, hws, hw, hend⟩ := suci_match hhead
    rw [htake hws]
    exact ⟨hw, .inr hend⟩

/-! ## What the second pass finds -/

theorem mem_lang_star_space {w : List Char} :
    w ∈ (star (char ' ')).lang ↔ ∀ c ∈ w, c = ' ' := by
  rw [char, mem_lang_star_cls]
  simp

theorem mem_inQuotes {r : Regex} {w : List Char} :
    w ∈ (inQuotes r).lang ↔ ∃ v ∈ r.lang, w = '"' :: (v ++ ['"']) := by
  rw [inQuotes, mem_lang_seq]
  constructor
  · intro h
    obtain ⟨a, ha, b, hb, rfl⟩ := h
    obtain ⟨v, hv, c, hc, rfl⟩ := mem_lang_seq.1 hb
    rw [mem_lang_lit.1 ha, mem_lang_lit.1 hc]
    exact ⟨v, hv, rfl⟩
  · intro h
    obtain ⟨v, hv, rfl⟩ := h
    exact ⟨['"'], mem_lang_lit.2 rfl, v ++ ['"'],
      mem_lang_seq.2 ⟨v, hv, ['"'], mem_lang_lit.2 rfl, rfl⟩, rfl⟩

/-- A member of an object, as the second pass looks for it. -/
theorem mem_jsonMember {names : List String} {r : Regex} {w : List Char} :
    w ∈ (jsonMember names r).lang ↔ ∃ name ∈ names, ∃ sp sp' v, (∀ c ∈ sp, c = ' ') ∧
      (∀ c ∈ sp', c = ' ') ∧ v ∈ r.lang ∧
      w = '"' :: (name.toList ++ '"' :: (sp ++ ':' :: (sp' ++ v))) := by
  constructor
  · intro h
    obtain ⟨a, ha, w₁, h₁, rfl⟩ := mem_lang_seq.1 h
    obtain ⟨b, hb, w₂, h₂, rfl⟩ := mem_lang_seq.1 h₁
    obtain ⟨c, hc, w₃, h₃, rfl⟩ := mem_lang_seq.1 h₂
    obtain ⟨sp, hsp, w₄, h₄, rfl⟩ := mem_lang_seq.1 h₃
    obtain ⟨d, hd, w₅, h₅, rfl⟩ := mem_lang_seq.1 h₄
    obtain ⟨sp', hsp', v, hv, rfl⟩ := mem_lang_seq.1 h₅
    obtain ⟨r', hr', hb⟩ := mem_lang_oneOf.1 hb
    obtain ⟨name, hname, rfl⟩ := List.mem_map.1 hr'
    rw [mem_lang_lit.1 ha, mem_lang_lit.1 hb, mem_lang_lit.1 hc, mem_lang_lit.1 hd]
    exact ⟨name, hname, sp, sp', v, mem_lang_star_space.1 hsp, mem_lang_star_space.1 hsp', hv, rfl⟩
  · intro h
    obtain ⟨name, hname, sp, sp', v, hsp, hsp', hv, rfl⟩ := h
    have hnames : name.toList ∈ (oneOf (names.map lit)).lang :=
      mem_lang_oneOf.2 ⟨_, List.mem_map_of_mem hname, mem_lang_lit.2 rfl⟩
    exact mem_lang_seq.2 ⟨['"'], mem_lang_lit.2 rfl, _, mem_lang_seq.2 ⟨_, hnames, _,
      mem_lang_seq.2 ⟨['"'], mem_lang_lit.2 rfl, _, mem_lang_seq.2 ⟨sp, mem_lang_star_space.2 hsp, _,
        mem_lang_seq.2 ⟨[':'], mem_lang_lit.2 rfl, _, mem_lang_seq.2 ⟨sp',
          mem_lang_star_space.2 hsp', v, hv, rfl⟩, rfl⟩, rfl⟩, rfl⟩, rfl⟩, rfl⟩

/-- An element of a list of traffic ids. -/
theorem mem_trafficIdElement {w : List Char} (h : w ∈ trafficIdElement.lang) :
    ∃ v comma space, (∀ c ∈ v, c.isDigit = true) ∧ (comma = [','] ∨ comma = []) ∧
      (space = [' '] ∨ space = []) ∧ w = '"' :: (v ++ '"' :: (comma ++ space)) := by
  obtain ⟨a, ha, b, hb, rfl⟩ := mem_lang_seq.1 h
  obtain ⟨v, hv, rfl⟩ := mem_inQuotes.1 ha
  obtain ⟨comma, hcomma, space, hspace, rfl⟩ := mem_lang_seq.1 hb
  refine ⟨v, comma, space, mem_lang_star_cls.1 hv, ?_, ?_, by simp⟩
  · exact (mem_lang_opt.1 hcomma).imp_left fun h => mem_lang_lit.1 h
  · exact (mem_lang_opt.1 hspace).imp_left fun h => mem_lang_lit.1 h

/-- The values that the second pass looks for. -/
inductive JsonValue : List Char → Prop
  | text {v : List Char} (hv : ∀ c ∈ v, c.isAlphanum = true ∨ c = '-') :
      JsonValue ('"' :: (v ++ ['"']))
  | list {l : List (List Char)} (hl : ∀ x ∈ l, x ∈ trafficIdElement.lang) :
      JsonValue ('[' :: (l.flatten ++ [']']))

/-- **What the second pass finds**: a name of letters, a colon with spaces around it, and a value. -/
theorem json_word {w : List Char} (hw : w ∈ userJsonRegExp.lang) :
    ∃ c name sp sp' v, (∀ d ∈ c :: name, d.isAlpha = true) ∧ (∀ d ∈ sp, d = ' ') ∧
      (∀ d ∈ sp', d = ' ') ∧ JsonValue v ∧
      w = '"' :: (c :: name ++ '"' :: (sp ++ ':' :: (sp' ++ v))) := by
  have hmember : ∀ {names : List String} {r : Regex}, w ∈ (jsonMember names r).lang →
      (∀ name ∈ names, name.toList ≠ [] ∧ ∀ d ∈ name.toList, d.isAlpha = true) →
      (∀ v ∈ r.lang, JsonValue v) →
      ∃ c name sp sp' v, (∀ d ∈ c :: name, d.isAlpha = true) ∧ (∀ d ∈ sp, d = ' ') ∧
        (∀ d ∈ sp', d = ' ') ∧ JsonValue v ∧
        w = '"' :: (c :: name ++ '"' :: (sp ++ ':' :: (sp' ++ v))) := by
    intro names r hw hnames hr
    obtain ⟨name, hname, sp, sp', v, hsp, hsp', hv, rfl⟩ := mem_jsonMember.1 hw
    obtain ⟨hne, halpha⟩ := hnames name hname
    obtain ⟨c, l, hcl⟩ := List.exists_cons_of_ne_nil hne
    exact ⟨c, l, sp, sp', v, hcl ▸ halpha, hsp, hsp', hr v hv, by rw [hcl]⟩
  have hdigits : ∀ {c : Char}, c.isDigit = true → c.isAlphanum = true ∨ c = '-' := fun h =>
    .inl (by simp [Char.isAlphanum, h])
  have htext : ∀ {r : Regex}, (∀ v ∈ r.lang, ∀ c ∈ v, c.isAlphanum = true ∨ c = '-') →
      ∀ v ∈ (inQuotes r).lang, JsonValue v := by
    intro r hr v hv
    obtain ⟨v', hv', rfl⟩ := mem_inQuotes.1 hv
    exact .text (hr v' hv')
  have hbetween : ∀ v ∈ (inQuotes (between 5 15 digit)).lang, JsonValue v :=
    htext fun v hv c hc => hdigits (((mem_lang_between_cls (by decide)).1 hv).2.2 c hc)
  have htimes : ∀ n, ∀ v ∈ (inQuotes (times n digit)).lang, JsonValue v := fun n =>
    htext fun v hv c hc => hdigits ((mem_lang_times_cls.1 hv).2 c hc)
  have hstar : ∀ v ∈ (inQuotes (star alphanumeric)).lang, JsonValue v :=
    htext fun v hv c hc => .inl (mem_lang_star_cls.1 hv c hc)
  obtain ⟨r, hr, hw⟩ := mem_lang_oneOf.1 hw
  simp only [List.mem_cons, List.not_mem_nil, or_false] at hr
  rcases hr with rfl | rfl | rfl | rfl | rfl | rfl | rfl | rfl | rfl
  · exact hmember hw (by simp) hbetween
  · exact hmember hw (by simp) (htimes 15)
  · exact hmember hw (by simp) (htimes 16)
  · exact hmember hw (by simp) hbetween
  · exact hmember hw (by simp) hbetween
  · exact hmember hw (by simp) hstar
  · exact hmember hw (by simp) hstar
  · refine hmember hw (by simp) fun v hv => ?_
    obtain ⟨a, ha, b, hb, rfl⟩ := mem_lang_seq.1 hv
    obtain ⟨g, hg, c, hc, rfl⟩ := mem_lang_seq.1 hb
    obtain ⟨l, rfl, hl⟩ := Language.mem_kstar.1 hg
    rw [mem_lang_lit.1 ha, mem_lang_lit.1 hc]
    exact .list hl
  · refine hmember hw (by simp) (htext fun v hv c hc => ?_)
    obtain ⟨a, ha, v₁, h₁, rfl⟩ := mem_lang_seq.1 hv
    obtain ⟨b, hb, v₂, h₂, rfl⟩ := mem_lang_seq.1 h₁
    obtain ⟨d, hd, e, he, rfl⟩ := mem_lang_seq.1 h₂
    rw [mem_lang_lit.1 ha, mem_lang_lit.1 hd] at hc
    simp only [List.mem_append] at hc
    rcases hc with hc | hc | hc | hc
    · revert c
      simp
    · exact hdigits ((mem_lang_times_cls.1 hb).2 c hc)
    · revert c
      simp
    · exact hdigits (((mem_lang_between_cls (by decide)).1 he).2.2 c hc)

end ProvisioningValidator
