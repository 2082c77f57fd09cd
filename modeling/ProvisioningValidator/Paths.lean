import Mathlib
import ProvisioningValidator.Constants
import ProvisioningValidator.Lib.Regex

/-!
# Resource paths

What kind of resource a path names is decided in three ways: the rules match the whole path with
a regular expression (`isUdmStaticData`, ..), the parser and the encoder look for a keyword in it
(`Lib.contains`), and the parser of related resources looks at its end (`Lib.endsWith`). This
module holds the definitions and the relations between the three that hold for every path.

`getMscId` is a search, not a match: an anchor also holds at a line break inside the text, and
the identifier is the shortest one that completes a match.
-/

namespace ProvisioningValidator

open Lib

/-! ## The regular expressions -/

/-- `^/subscribers/(.*?)/udmSubscription/udmStaticAndRegistrationData/udmStaticData$` -/
def mscidUdmStaticDataRegexp : Regex :=
  .seq (.lit "/subscribers/")
    (.seq (.star .any) (.lit "/udmSubscription/udmStaticAndRegistrationData/udmStaticData"))

/-- `^/subscribers/(.*?)/smsSubscription/smsStaticAndRegistrationData/smsStaticData$` -/
def mscidSmsStaticDataRegexp : Regex :=
  .seq (.lit "/subscribers/")
    (.seq (.star .any) (.lit "/smsSubscription/smsStaticAndRegistrationData/smsStaticData"))

/-- `^/profiles/udmProfiles/udmSliceProfiles/(.*?)` -/
def udmSliceProfileRegexp : Regex :=
  .seq (.lit "/profiles/udmProfiles/udmSliceProfiles/") (.star .any)

/-- `^/profiles/udmProfiles/udmRoamingAreas/(.*?)` -/
def udmRoamingAreasRegexp : Regex :=
  .seq (.lit "/profiles/udmProfiles/udmRoamingAreas/") (.star .any)

def isUdmStaticData (resourcePath : String) : Bool :=
  mscidUdmStaticDataRegexp.isMatch (cstr resourcePath)

def isSmsSubscription (resourcePath : String) : Bool :=
  mscidSmsStaticDataRegexp.isMatch (cstr resourcePath)

def isUdmSliceProfile (resourcePath : String) : Bool :=
  udmSliceProfileRegexp.isMatch (cstr resourcePath)

def isUdmRoamingArea (resourcePath : String) : Bool :=
  udmRoamingAreasRegexp.isMatch (cstr resourcePath)

theorem isUdmStaticData_iff {p : String} : isUdmStaticData p = true ↔ ∃ m, (cstr p).toList =
    "/subscribers/".toList ++ m ++
      "/udmSubscription/udmStaticAndRegistrationData/udmStaticData".toList :=
  Regex.isMatch_lit_any_lit

theorem isSmsSubscription_iff {p : String} : isSmsSubscription p = true ↔ ∃ m, (cstr p).toList =
    "/subscribers/".toList ++ m ++
      "/smsSubscription/smsStaticAndRegistrationData/smsStaticData".toList :=
  Regex.isMatch_lit_any_lit

theorem isUdmSliceProfile_eq (p : String) :
    isUdmSliceProfile p = startsWith (cstr p) "/profiles/udmProfiles/udmSliceProfiles/" :=
  Regex.isMatch_lit_any

theorem isUdmRoamingArea_eq (p : String) :
    isUdmRoamingArea p = startsWith (cstr p) "/profiles/udmProfiles/udmRoamingAreas/" :=
  Regex.isMatch_lit_any

/-! ## Kinds of resources -/

/-- The four kinds of resources that rules are for. -/
inductive ResourceKind where
  | udmStaticData
  | udmSliceProfile
  | udmRoamingArea
  | smsStaticData
  deriving DecidableEq

namespace ResourceKind

/-- The regular expression of the rules for a kind. -/
def routes : ResourceKind → String → Bool
  | udmStaticData => isUdmStaticData
  | udmSliceProfile => isUdmSliceProfile
  | udmRoamingArea => isUdmRoamingArea
  | smsStaticData => isSmsSubscription

/-- The word that the parser and the encoder look for. -/
def keyword : ResourceKind → String
  | udmStaticData => jsonUdmStaticData
  | udmSliceProfile => jsonUdmSliceProfiles
  | udmRoamingArea => jsonUdmRoamingAreas
  | smsStaticData => jsonSmsStaticData

/-- A text that every path of the kind begins with. -/
def root : ResourceKind → String
  | udmStaticData => "/subscribers/"
  | udmSliceProfile => "/profiles/udmProfiles/udmSliceProfiles/"
  | udmRoamingArea => "/profiles/udmProfiles/udmRoamingAreas/"
  | smsStaticData => "/subscribers/"

theorem root_of_routes {k : ResourceKind} {p : String} (h : k.routes p = true) :
    k.root.toList <+: (cstr p).toList := by
  cases k with
  | udmStaticData =>
    obtain ⟨m, hm⟩ := isUdmStaticData_iff.1 h
    exact ⟨m ++ _, by rw [hm, List.append_assoc]; rfl⟩
  | udmSliceProfile => exact startsWith_iff.1 ((isUdmSliceProfile_eq p).symm.trans h)
  | udmRoamingArea => exact startsWith_iff.1 ((isUdmRoamingArea_eq p).symm.trans h)
  | smsStaticData =>
    obtain ⟨m, hm⟩ := isSmsSubscription_iff.1 h
    exact ⟨m ++ _, by rw [hm, List.append_assoc]; rfl⟩

/-- **A path that the rules route to a kind has the keyword of the kind in it.** -/
theorem contains_keyword (k : ResourceKind) {p : String} (h : k.routes p = true) :
    contains p k.keyword = true := by
  have hcstr : (cstr p).toList <:+: p.toList := (cstr_isPrefix p).isInfix
  have hend : ∀ {l m : List Char} {suf w : String}, (cstr p).toList = l ++ m ++ suf.toList →
      w.toList <:+ suf.toList → contains p w = true := by
    intro l m suf w heq hw
    refine contains_iff.2 (List.IsInfix.trans ?_ hcstr)
    rw [heq]
    exact (hw.trans (List.suffix_append _ _)).isInfix
  cases k with
  | udmStaticData =>
    obtain ⟨m, hm⟩ := isUdmStaticData_iff.1 h
    exact hend hm (by decide +kernel)
  | udmSliceProfile =>
    refine contains_iff.2 (List.IsInfix.trans ?_ ((root_of_routes h).isInfix.trans hcstr))
    decide +kernel
  | udmRoamingArea =>
    refine contains_iff.2 (List.IsInfix.trans ?_ ((root_of_routes h).isInfix.trans hcstr))
    decide +kernel
  | smsStaticData =>
    obtain ⟨m, hm⟩ := isSmsSubscription_iff.1 h
    exact hend hm (by decide +kernel)

theorem not_static_and_sms {p : String} (h : isUdmStaticData p = true) :
    isSmsSubscription p = false := by
  rw [Bool.eq_false_iff]
  intro h'
  obtain ⟨m, hm⟩ := isUdmStaticData_iff.1 h
  obtain ⟨m', hm'⟩ := isSmsSubscription_iff.1 h'
  -- the two texts differ in the letter before `StaticData`
  have hs : "mStaticData".toList <:+ (cstr p).toList := by
    have hsuf : "mStaticData".toList <:+
        "/udmSubscription/udmStaticAndRegistrationData/udmStaticData".toList := by decide +kernel
    rw [hm]
    exact hsuf.trans (List.suffix_append _ _)
  have hs' : "sStaticData".toList <:+ (cstr p).toList := by
    have hsuf : "sStaticData".toList <:+
        "/smsSubscription/smsStaticAndRegistrationData/smsStaticData".toList := by decide +kernel
    rw [hm']
    exact hsuf.trans (List.suffix_append _ _)
  exact absurd (List.suffix_or_suffix_of_suffix hs hs') (by decide +kernel)

theorem root_incomparable (k k' : ResourceKind) : k.root ≠ k'.root →
    ¬ (k.root.toList <+: k'.root.toList ∨ k'.root.toList <+: k.root.toList) := by
  cases k <;> cases k' <;> decide +kernel

theorem eq_of_root_eq (k k' : ResourceKind) : k.root = k'.root → k = k' ∨
    k = udmStaticData ∧ k' = smsStaticData ∨ k = smsStaticData ∧ k' = udmStaticData := by
  cases k <;> cases k' <;> decide +kernel

/-- **No path is routed to two kinds.** -/
theorem eq_of_routes (k k' : ResourceKind) {p : String} (h : k.routes p = true)
    (h' : k'.routes p = true) : k = k' := by
  by_cases hroot : k.root = k'.root
  · rcases eq_of_root_eq k k' hroot with heq | ⟨rfl, rfl⟩ | ⟨rfl, rfl⟩
    · exact heq
    · exact absurd h' (Bool.eq_false_iff.1 (not_static_and_sms h))
    · exact absurd h (Bool.eq_false_iff.1 (not_static_and_sms h'))
  · exact absurd ( List.prefix_or_prefix_of_prefix (root_of_routes h) (root_of_routes h'))
      (root_incomparable k k' hroot)

end ResourceKind

/-! ## The identifier of a subscriber -/

/-- The characters that end a line. -/
def isSeparator (c : Char) : Bool := c == '\n' || c == '\r' || c == '\x0c'

/-- `^` holds between `before` and `rest`: at the start of the text, or behind a separator that
is not the first half of `\r\n`. -/
def startOfLine (before : Option Char) (rest : List Char) : Bool :=
  match before with
  | none => true
  | some c => isSeparator c && !(c == '\r' && rest.head? == some '\n')

/-- `$` holds between `before` and `rest`: at the end of the text, or in front of a separator
that is not the second half of `\r\n`. -/
def endOfLine (before : Option Char) (rest : List Char) : Bool :=
  match rest with
  | [] => true
  | c :: _ => isSeparator c && !(before == some '\r' && c == '\n')

/-- `(.*?)suf$`: the shortest text in front of `suf` and an end of line. -/
def lazyMatch (suf : List Char) : List Char → Option (List Char)
  | [] => if suf == [] then some [] else none
  | c :: cs =>
    if suf.isPrefixOf (c :: cs) && endOfLine suf.getLast? ((c :: cs).drop suf.length) then some []
    else (lazyMatch suf cs).map (c :: ·)

/-- `boost::regex_search` for `^pre(.*?)suf$`: what the group holds in the leftmost match. -/
def searchLine (pre suf : List Char) (before : Option Char) : List Char → Option (List Char)
  | [] => none
  | c :: cs =>
    let here :=
      if startOfLine before (c :: cs) && pre.isPrefixOf (c :: cs) then
        lazyMatch suf ((c :: cs).drop pre.length)
      else none
    here.or (searchLine pre suf (some c) cs)

/-- What the group of `^pre(.*?)suf$` holds, or the empty text. -/
def findMscId (pre suf resourcePath : String) : String :=
  String.ofList ((searchLine pre.toList suf.toList none resourcePath.toList).getD [])

def getMscId (resourcePath : String) : String :=
  findMscId "/subscribers/" "/udmSubscription/udmStaticAndRegistrationData/udmStaticData"
    resourcePath

def getSmsStaticDataMscId (resourcePath : String) : String :=
  findMscId "/subscribers/" "/smsSubscription/smsStaticAndRegistrationData/smsStaticData"
    resourcePath

def buildProvJournalResourcePathFromMscId (mscId : String) : String :=
  "/subscribers/" ++ mscId ++ "/journal/provJournal"

example : getMscId
    "/subscribers/a/udmSubscription/udmStaticAndRegistrationData/udmStaticData" = "a" := by
  decide +kernel

end ProvisioningValidator
