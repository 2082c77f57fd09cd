import Mathlib
import ProvisioningValidator.ReaderOutcomes
import ProvisioningValidator.SliceRoundTrip

/-!
# What is read can be stored

What a reader makes of a blank entity is written without loss again, if it is `Complete`: the
encoder leaves out empty texts and lists, and some of them the readers ask for. Nothing else gets in
the way, neither a flag without its value nor a value without its flag, since each step of a reader
puts both at once.

The steps of a reader are followed one by one from the blank entity. Each of them puts values of
which something is known (`Puts`), and at the end the entity is there with all of them.
-/

namespace ProvisioningValidator

open Lib Lib.Run

variable {A B E V : Type} {val : Json → V}

/-! ## Values -/

theorem nulFree_empty : NulFree "" := by decide

theorem storedInt_some {n : Int} (h : Json.Int32 n) : StoredInt true (some n) :=
  ⟨rfl, fun _ hm => Option.some.inj hm ▸ h⟩

theorem nulFree_asString (v : Json) : ∀ s ∈ asString v, NulFree s := by
  intro s hs
  cases v with
  | str t => exact Option.some.inj hs ▸ nulFree_cstr t
  | _ => cases hs

theorem int32_asInt (v : Json) : ∀ n ∈ asInt v, Json.Int32 n := by
  intro n hn
  cases v with
  | int m =>
    rw [asInt] at hn
    split_ifs at hn with hm
    · exact Option.some.inj hn ▸ hm
    · cases hn
  | _ => cases hn

theorem gives_stringElement {p key : String} : Gives (Reader.stringElement p key) NulFree := by
  intro v s hrun
  rw [Reader.stringElement] at hrun
  cases hv : asString v with
  | some t =>
    rw [hv, yields_pure, Option.some.injEq] at hrun
    exact hrun ▸ nulFree_asString v t hv
  | none =>
    rw [hv] at hrun
    obtain ⟨u, hreport, -⟩ := yields_bind.1 hrun
    exact absurd hreport not_quiet_addError

/-! ## What a step puts -/

/-- From `e` the reader leads to `put a` for a value `a` with the property, unless it records an
error. -/
def Puts (e : E) (r : Reader E) (put : A → E) (P : A → Prop) : Prop :=
  Leads (· = e) r fun e' => ∃ a, P a ∧ e' = put a

namespace Puts

variable {e : E} {r : Reader E} {rs : List (Reader E)} {put : A → E} {P : A → Prop} {J : E → Prop}

/-- A step, and then the others from whatever it has put. -/
theorem step (h : Puts e r put P) (hs : ∀ a, P a → Leads (· = put a) (Reader.inOrder rs) J) :
    Leads (· = e) (Reader.inOrder (r :: rs)) J := by
  refine .cons h fun v e₁ e' he₁ hrun => ?_
  obtain ⟨a, ha, heq⟩ := he₁
  exact hs a ha v e₁ e' heq hrun

/-- After the last step. -/
theorem done (h : J e) : Leads (· = e) (Reader.inOrder []) J := by
  intro v e₁ e' he hrun
  rw [yields_inOrder_nil.1 hrun, he]
  exact h

/-- The members that are vendor-specific. -/
theorem vendor {get : E → VendorSpecific V} {set : VendorSpecific V → E → E} :
    Puts e (Reader.into get set (getVendorSpecific val)) (fun m => set m e) fun _ => True := by
  refine .part fun m e₁ he => ?_
  rw [he]
  exact ⟨m, trivial, rfl⟩

/-- A part of the entity that is read. -/
theorem into {get : E → A} {set : A → E → E} {r : Reader A} (h : Leads (· = get e) r P) :
    Puts e (Reader.into get set r) (fun a => set a e) P := by
  refine Leads.into h (fun e₁ he => by rw [he]) fun a e₁ he ha => ?_
  rw [he]
  exact ⟨a, ha, rfl⟩

theorem object {p key : String} (h : Puts e r put P) : Puts e (Reader.object p key r) put P :=
  Leads.object h

/-! ### Single values -/

theorem leaf {view : Json → Option A} {p d : String} {set : A → E → E}
    (hview : ∀ v, ∀ a ∈ view v, P a) : Puts e (Reader.leaf view p d set) (fun a => set a e) P := by
  intro v e₁ e' he hrun
  rw [Reader.leaf] at hrun
  cases hv : view v with
  | some a =>
    rw [hv] at hrun
    exact ⟨a, hview v a hv, he ▸ yields_pure.1 hrun⟩
  | none =>
    rw [hv] at hrun
    obtain ⟨u, hreport, -⟩ := yields_bind.1 hrun
    exact absurd hreport not_quiet_addError

theorem string {p key : String} {set : String → E → E} :
    Puts e (Reader.string p key set) (fun s => set s e) NulFree := leaf nulFree_asString

theorem int {p key : String} {set : Int → E → E} :
    Puts e (Reader.int p key set) (fun n => set n e) Json.Int32 := leaf int32_asInt

theorem bool {p key : String} {set : Bool → E → E} :
    Puts e (Reader.bool p key set) (fun b => set b e) fun _ => True := leaf fun _ _ _ => trivial

/-- A text that is not empty, where an empty one is an error. -/
theorem nonEmptyString {p key field : String} {set : String → E → E} :
    Puts e (Reader.nonEmptyString p key field set) (fun s => set s e) MandatoryText := by
  intro v e₁ e' he hrun
  rw [Reader.nonEmptyString] at hrun
  cases hv : asString v with
  | some s =>
    simp only [hv] at hrun
    split_ifs at hrun with hs
    · obtain ⟨u, hreport, -⟩ := yields_bind.1 hrun
      exact absurd hreport not_quiet_addError
    · exact ⟨s, ⟨nulFree_asString v s hv, hs⟩, he ▸ yields_pure.1 hrun⟩
  | none =>
    rw [hv] at hrun
    obtain ⟨u, hreport, -⟩ := yields_bind.1 hrun
    exact absurd hreport not_quiet_addError

theorem array {p key : String} {element : Json → ParserM (Option A)} {set : List A → E → E}
    {Q : A → Prop} (helement : Gives element Q) :
    Puts e (Reader.array p key element set) (fun as => set as e) fun as => ∀ a ∈ as, Q a := by
  refine Leads.array helement fun as e₁ he has => ?_
  rw [he]
  exact ⟨as, has, rfl⟩

/-- An array that is read in place. -/
theorem arrayOr {element : Json → ParserM (Option A)} {set : List A → E → E}
    {other : E → ParserM E} {Q : A → Prop} (helement : Gives element Q)
    (hother : ∀ e', Yields Quiet (other e) e' → ∃ as, (∀ a ∈ as, Q a) ∧ e' = set as e) :
    Puts e (fun v e => match asArray v with
      | some xs => collect element xs >>= fun as => pure (set as e)
      | none => other e) (fun as => set as e) fun as => ∀ a ∈ as, Q a := by
  refine Leads.arrayOr helement (fun as e₁ he has => ?_) fun e₁ e' he hrun => ?_
  · rw [he]
    exact ⟨as, has, rfl⟩
  · rw [he] at hrun
    exact hother e' hrun

theorem strings {p key : String} {set : List String → E → E} :
    Puts e (Reader.strings p key set) (fun ss => set ss e) fun ss => ∀ s ∈ ss, NulFree s :=
  array gives_stringElement

/-! ### Members -/

/-- A member that must be there. -/
theorem demanded {key p d : String} (h : Puts e r put P) :
    Puts e (Reader.ifMember key r (Reader.mandatory p d)) put P :=
  Leads.demanded h

/-- A member that may be missing: then this is as if `a` had been put. -/
theorem optional {key : String} (a : A) (ha : P a) (h : Puts e r put P) (he : put a = e) :
    Puts e (Reader.ifMember key r Reader.skip) put P :=
  Leads.optional h fun _ he₁ => ⟨a, ha, he₁.trans he.symm⟩

/-- A value whose flag is set with it, and cleared without. -/
theorem flagged {key : String} {clear : E → E} {get : B → E} {Q : B → Prop}
    (f : Bool → Option B → E → E) (h : Puts e r get Q) (hget : ∀ b, get b = f true (some b) e)
    (hclear : clear e = f false none e) :
    Puts e (Reader.ifMember key r (Reader.without clear)) (fun x : Option B => f x.isSome x e)
      fun x => ∀ b ∈ x, Q b := by
  refine Leads.flagged (fun v e₁ e' he hrun => ?_) fun e₁ he => ?_
  · obtain ⟨b, hb, heq⟩ := h v e₁ e' he hrun
    exact ⟨some b, fun b' hb' => Option.some.inj hb' ▸ hb, heq.trans (hget b)⟩
  · rw [he]
    exact ⟨none, fun b hb => absurd hb (Option.not_mem_none b), hclear⟩

/-- A part whose flag is set with it, and which is still blank without. -/
theorem flaggedPart {key : String} {clear : E → E} {get : B → E} {Q : B → Prop} {blank : B}
    (f : Bool → B → E → E) (h : Puts e r get Q) (hget : ∀ b, get b = f true b e)
    (hclear : clear e = f false blank e) :
    Puts e (Reader.ifMember key r (Reader.without clear)) (fun x : Bool × B => f x.1 x.2 e)
      fun x => Flagged x.1 Q blank x.2 := by
  refine Leads.flagged (fun v e₁ e' he hrun => ?_) fun e₁ he => ?_
  · obtain ⟨b, hb, heq⟩ := h v e₁ e' he hrun
    exact ⟨(true, b), ⟨fun _ => hb, fun hflag => Bool.noConfusion hflag⟩, heq.trans (hget b)⟩
  · rw [he]
    exact ⟨(false, blank), ⟨fun hflag => Bool.noConfusion hflag, fun _ => rfl⟩, hclear⟩

/-- Nothing is read. -/
theorem mark {set : E → E} : Puts e (Reader.mark set) (fun _ : Unit => set e) fun _ => True := by
  refine Leads.mark fun e₁ he => ?_
  rw [he]
  exact ⟨(), trivial, rfl⟩

/-- A flag that is set before a value is read. -/
theorem marking {set : E → E} (h : Puts (set e) r put P) : Puts e (Reader.marking set r) put P :=
  fun v e₁ e' he hrun => h v (set e₁) e' (by rw [he]) hrun

end Puts

/-- A part that can be stored if it is complete. -/
theorem Flagged.complete {flag : Bool} {C S : A → Prop} {blank a : A}
    (h : Flagged flag (fun a => C a → S a) blank a) (hcomplete : flag = true → C a) :
    Flagged flag S blank a :=
  ⟨fun hflag => h.1 hflag (hcomplete hflag), h.2⟩

/-- A flag that says whether there are elements. -/
theorem flag_eq_not_isEmpty {flag : Bool} {as : List A} (hset : flag = true → as ≠ [])
    (hclear : flag = false → as = []) : flag = !as.isEmpty := by
  cases flag with
  | true => simp [hset rfl]
  | false => simp [hclear rfl]

/-! ## What is left to ask of slice data -/

/-- The texts that the encoder leaves out if they are empty, and the readers ask for. -/
structure Ambr.Complete (e : Ambr V) : Prop where
  uplink : e.uplink ≠ ""
  downlink : e.downlink ≠ ""

structure Arp.Complete (e : Arp V) : Prop where
  preemptCap : e.preemptCap ≠ ""
  preemptVuln : e.preemptVuln ≠ ""

structure DnnData.Complete (e : DnnData V) : Prop where
  allowedSessionTypes : e.fieldExistence.hasAllowedSessionTypes = true →
    e.pduSessionTypes.allowedSessionTypes ≠ []
  sessionAmbr : e.fieldExistence.hasSessionAmbr = true → e.sessionAmbr.Complete
  arp : e.fieldExistence.hasFivegQosProfile = true → e.fivegQosProfile.arp.Complete

structure DnnList.Complete (e : DnnList V) : Prop where
  dnnListId : e.dnnListId ≠ ""
  dnnDataList : ∀ d ∈ e.dnnDataList, d.Complete

structure PlmnIdSets.Complete (isSliceData : Bool) (e : PlmnIdSets V) : Prop where
  plmnIdSetIdentifier : e.plmnIdSetIdentifier ≠ ""
  singleNssais : e.fieldExistenceUdmSliceProfile.hasNssai = true → e.nssai.singleNssais ≠ []
  dnnLists : ∀ l ∈ e.dnnLists, l.Complete
  some_dnnList : isSliceData = false → e.dnnLists ≠ []

def UdmSliceProfile.Complete (e : UdmSliceProfile V) : Prop := ∀ s ∈ e.plmnIdSets, s.Complete false

/-! ## Slice data -/

section

variable {p : String}

theorem storable_getSnssai : Leads (· = {}) (getSnssai val p) Snssai.Storable := by
  refine Puts.step .vendor fun m _ => ?_
  refine Puts.step (.demanded .int) fun sst hsst => ?_
  refine Puts.step (.optional "" nulFree_empty .string rfl) fun sd hsd => ?_
  exact Puts.done ⟨storedInt_some hsst, hsd⟩

theorem storable_getNssaiDetails {key : String} :
    Gives (getNssaiDetails val p key) NssaiDetails.Storable := by
  refine .objectElement (.fresh (I := (· = {})) ?_ rfl)
  refine Puts.step .vendor fun m _ => ?_
  refine Puts.step (.optional "" nulFree_empty .string rfl) fun dnnListId hid => ?_
  refine Puts.step (.optional "" nulFree_empty .string rfl) fun charging hcharging => ?_
  refine Puts.step (.demanded (.object (.into storable_getSnssai))) fun nssai hnssai => ?_
  exact Puts.done ⟨hnssai, hid, hcharging⟩

theorem storable_getSscModes : Leads (· = {}) (getSscModes val p) SscModes.Storable := by
  refine Puts.step .vendor fun m _ => ?_
  refine Puts.step (.optional "" nulFree_empty .string rfl) fun mode hmode => ?_
  refine Puts.step (.optional [] (List.forall_mem_nil _) .strings rfl) fun modes hmodes => ?_
  exact Puts.done ⟨hmode, hmodes⟩

theorem storable_getUpSecurity : Leads (· = {}) (getUpSecurity val p) UpSecurity.Storable := by
  refine Puts.step .vendor fun m _ => ?_
  refine Puts.step (.optional "" nulFree_empty .string rfl) fun integr hintegr => ?_
  refine Puts.step (.optional "" nulFree_empty .string rfl) fun confid hconfid => ?_
  exact Puts.done ⟨hintegr, hconfid⟩

theorem storable_getSessionAmbr :
    Leads (· = {}) (getSessionAmbr val p) fun e => e.Complete → e.Storable := by
  refine Puts.step .vendor fun m _ => ?_
  refine Puts.step (.demanded .string) fun uplink huplink => ?_
  refine Puts.step (.demanded .string) fun downlink hdownlink => ?_
  exact Puts.done fun hcomplete => ⟨⟨huplink, hcomplete.uplink⟩, ⟨hdownlink, hcomplete.downlink⟩⟩

theorem storable_getArp : Leads (· = {}) (getArp val p) fun e => e.Complete → e.Storable := by
  refine Puts.step .vendor fun m _ => ?_
  refine Puts.step (.demanded .int) fun level hlevel => ?_
  refine Puts.step (.demanded .string) fun cap hcap => ?_
  refine Puts.step (.demanded .string) fun vuln hvuln => ?_
  exact Puts.done fun hcomplete =>
    ⟨storedInt_some hlevel, ⟨hcap, hcomplete.preemptCap⟩, ⟨hvuln, hcomplete.preemptVuln⟩⟩

theorem storable_getFivegQosProfile : Leads (· = {}) (getFivegQosProfile val p)
    fun e => e.arp.Complete → e.Storable := by
  refine Puts.step .vendor fun m _ => ?_
  refine Puts.step (.demanded .int) fun fiveqi hfiveqi => ?_
  refine Puts.step (.demanded (.object (.into storable_getArp))) fun arp harp => ?_
  refine Puts.step (.flagged (fun b x e => { e with
    priorityLevel := x, fieldExistence.hasPriorityLevel := b }) (.marking .int) (fun n => rfl) rfl)
    fun level hlevel => ?_
  exact Puts.done fun hcomplete => ⟨storedInt_some hfiveqi, harp hcomplete, ⟨rfl, hlevel⟩⟩

/-- A truth value of a DNN, with its flag. -/
theorem puts_getDnnDataFlag {key : String} {setFlag put : Bool → DnnData V → DnnData V}
    {e : DnnData V} (f : Bool → Option Bool → DnnData V → DnnData V)
    (hsome : ∀ b, put b (setFlag true e) = f true (some b) e)
    (hnone : setFlag false e = f false none e) :
    Puts e (getDnnDataFlag p key setFlag put) (fun x => f x.isSome x e) fun x => ∀ b ∈ x, True :=
  Puts.flagged f (.marking .bool) hsome hnone

/-- The object `pduSessionTypes` with its two flags. -/
def DnnData.setPduSessionTypes (x : Bool × Bool × PduSessionTypes V) (e : DnnData V) : DnnData V :=
  { e with
    fieldExistence.hasPduSessionTypes := x.1
    fieldExistence.hasAllowedSessionTypes := x.2.1
    pduSessionTypes := x.2.2 }

/-- `pduSessionTypes` is read into a part that was not touched before. -/
theorem puts_pduSessionTypes {e : DnnData V}
    (hblank : e.setPduSessionTypes (e.fieldExistence.hasPduSessionTypes, false, {}) = e) :
    Puts e (.ifMember jsonPduSessionTypes
      (.marking (fun e => { e with fieldExistence.hasPduSessionTypes := true }) <|
        .object p jsonPduSessionTypes (getPduSessionTypes val p))
      (Reader.without fun e => { e with fieldExistence.hasPduSessionTypes := false }))
      (fun x => e.setPduSessionTypes x) fun x =>
        Flagged x.1 PduSessionTypes.Storable {} x.2.2 ∧
          (x.2.1 = false → x.2.2.allowedSessionTypes = []) := by
  rw [← hblank]
  generalize e.fieldExistence.hasPduSessionTypes = b
  refine Leads.flagged (Puts.marking (.object ?_)) fun e₁ he₁ => ?_
  · refine Puts.step .vendor fun m _ => ?_
    refine Puts.step (.optional "" nulFree_empty .string rfl) fun s hs => ?_
    refine Puts.step (.flaggedPart (fun b ss e => { e with
      pduSessionTypes.allowedSessionTypes := ss, fieldExistence.hasAllowedSessionTypes := b })
      (.marking .strings) (fun ss => rfl) rfl) fun types htypes => ?_
    have hall : ∀ t ∈ types.2, NulFree t := by
      intro t ht
      cases hflag : types.1 with
      | true => exact htypes.1 hflag t ht
      | false => exact absurd (htypes.2 hflag ▸ ht) List.not_mem_nil
    exact Puts.done ⟨(true, types.1, ⟨s, types.2, m⟩), ⟨⟨fun _ => ⟨hs, hall⟩,
      fun hflag => Bool.noConfusion hflag⟩, htypes.2⟩, rfl⟩
  · rw [he₁]
    exact ⟨(false, false, {}), ⟨⟨fun hflag => Bool.noConfusion hflag, fun _ => rfl⟩, fun _ => rfl⟩,
      rfl⟩

/-- The attributes of a DNN. -/
theorem storable_getDnnData : Leads (· = {}) (getDnnData val p) fun e => e.Complete → e.Storable := by
  refine Puts.step .vendor fun m _ => ?_
  refine Puts.step (.optional "" nulFree_empty .string rfl) fun dnn hdnn => ?_
  refine Puts.step (puts_getDnnDataFlag (fun b x e => { e with
    defaultDnnIndicator := x, fieldExistence.hasDefaultDnnIndicator := b }) (fun b => rfl) rfl)
    fun indicator _ => ?_
  dsimp only
  refine Puts.step (puts_getDnnDataFlag (fun b x e => { e with
    lboRoamingAllowed := x, fieldExistence.hasLboRoamingAllowed := b }) (fun b => rfl) rfl)
    fun lbo _ => ?_
  dsimp only
  refine Puts.step (puts_getDnnDataFlag (fun b x e => { e with
    iwkEpsInd := x, fieldExistence.hasIwkEpsInd := b }) (fun b => rfl) rfl) fun iwk _ => ?_
  dsimp only
  refine Puts.step (puts_getDnnDataFlag (fun b x e => { e with
    ladnIndicator := x, fieldExistence.hasLadnIndicator := b }) (fun b => rfl) rfl) fun ladn _ => ?_
  dsimp only
  refine Puts.step (puts_pduSessionTypes rfl) fun pdu hpdu => ?_
  dsimp only [DnnData.setPduSessionTypes]
  refine Puts.step (.flaggedPart (fun b a e => { e with
    sscModes := a, fieldExistence.hasSscModes := b })
    (.marking (.object (.into storable_getSscModes))) (fun a => rfl) rfl) fun ssc hssc => ?_
  dsimp only
  refine Puts.step (.optional "" nulFree_empty .string rfl) fun charging hcharging => ?_
  dsimp only
  refine Puts.step (.flaggedPart (fun b a e => { e with
    upSecurity := a, fieldExistence.hasUpSecurity := b })
    (.marking (.object (.into storable_getUpSecurity))) (fun a => rfl) rfl) fun up hup => ?_
  dsimp only
  refine Puts.step (.flaggedPart (fun b a e => { e with
    sessionAmbr := a, fieldExistence.hasSessionAmbr := b })
    (.marking (.object (.into storable_getSessionAmbr))) (fun a => rfl) rfl) fun ambr hambr => ?_
  dsimp only
  refine Puts.step (.flaggedPart (fun b ss e => { e with
    smfList := ss, fieldExistence.hasSmfList := b })
    (.marking .strings) (fun ss => rfl) rfl) fun smf hsmf => ?_
  dsimp only
  refine Puts.step (puts_getDnnDataFlag (fun b x e => { e with
    sameSmfInd := x, fieldExistence.hasSameSmfInd := b }) (fun b => rfl) rfl) fun same _ => ?_
  dsimp only
  refine Puts.step (.flaggedPart (fun b a e => { e with
    fivegQosProfile := a, fieldExistence.hasFivegQosProfile := b })
    (.marking (.object (.into storable_getFivegQosProfile))) (fun a => rfl) rfl) fun qos hqos => ?_
  dsimp only
  refine Puts.done fun hcomplete => ?_
  exact {
    dnn := hdnn
    defaultDnnIndicator := rfl
    lboRoamingAllowed := rfl
    iwkEpsInd := rfl
    ladnIndicator := rfl
    pduSessionTypes := hpdu.1
    hasAllowedSessionTypes := flag_eq_not_isEmpty hcomplete.allowedSessionTypes hpdu.2
    sscModes := hssc
    threegppChargingCharacteristics := hcharging
    upSecurity := hup
    sessionAmbr := hambr.complete hcomplete.sessionAmbr
    smfList := hsmf
    sameSmfInd := rfl
    fivegQosProfile := hqos.complete hcomplete.arp }

theorem storable_getDnnList : Leads (· = {}) (getDnnList val p) fun e => e.Complete → e.Storable := by
  have helement : Gives (Reader.objectElement p jsonDnnDataList <|
      Reader.fresh {} (getDnnData val p)) fun d => d.Complete → d.Storable :=
    .objectElement (.fresh storable_getDnnData rfl)
  refine Puts.step .vendor fun m _ => ?_
  refine Puts.step (.demanded .string) fun dnnListId hid => ?_
  refine Puts.step (.optional [] (List.forall_mem_nil _) (.array helement) rfl) fun ds hds => ?_
  exact Puts.done fun hcomplete => ⟨⟨hid, hcomplete.dnnListId⟩, fun d hd =>
    hds d hd (hcomplete.dnnDataList d hd)⟩

/-- The object `nssai` of a set with its two flags. -/
def PlmnIdSets.setNssai (x : Bool × Bool × SliceInfoNssai V) (e : PlmnIdSets V) : PlmnIdSets V :=
  { e with
    nssai := x.2.2
    fieldExistenceUdmSliceProfile.hasAnyNssai := x.1
    fieldExistenceUdmSliceProfile.hasNssai := x.2.1 }

/-- The entries of both lists. -/
def EntriesStorable (a : SliceInfoNssai V) : Prop :=
  (∀ n ∈ a.defaultSingleNssais, n.Storable) ∧ ∀ n ∈ a.singleNssais, n.Storable

theorem puts_nssai {e : PlmnIdSets V} (hblank : e.setNssai (false, false, {}) = e) :
    Puts e (.ifMember jsonNssai
      (.marking (fun e => { e with fieldExistenceUdmSliceProfile.hasAnyNssai := true }) <|
        .object p jsonNssai (getSliceInfoNssai val p)) Reader.skip)
      (fun x => e.setNssai x) fun x =>
        Flagged x.1 EntriesStorable {} x.2.2 ∧ (x.2.1 = false → x.2.2.singleNssais = []) := by
  rw [← hblank]
  refine Leads.optional (Puts.marking (.object ?_)) fun e₁ he₁ => ?_
  · refine Puts.step .vendor fun m _ => ?_
    refine Puts.step (.optional [] (List.forall_mem_nil _) (.array storable_getNssaiDetails) rfl)
      fun defaults hdefaults => ?_
    refine Puts.step (.flaggedPart (fun b ns e => { e with
      nssai.singleNssais := ns, fieldExistenceUdmSliceProfile.hasNssai := b })
      (.marking (.array storable_getNssaiDetails)) (fun ns => rfl) rfl) fun singles hsingles => ?_
    have hall : ∀ n ∈ singles.2, n.Storable := by
      intro n hn
      cases hflag : singles.1 with
      | true => exact hsingles.1 hflag n hn
      | false => exact absurd (hsingles.2 hflag ▸ hn) List.not_mem_nil
    exact Puts.done ⟨(true, singles.1, ⟨defaults, singles.2, m⟩), ⟨⟨fun _ => ⟨hdefaults, hall⟩,
      fun hflag => Bool.noConfusion hflag⟩, hsingles.2⟩, rfl⟩
  · rw [he₁]
    exact ⟨(false, false, {}), ⟨⟨fun hflag => Bool.noConfusion hflag, fun _ => rfl⟩, fun _ => rfl⟩,
      rfl⟩

theorem puts_checkAnyNssai {e : PlmnIdSets V} : Puts e (checkAnyNssai p) (fun _ : Unit => e)
    fun _ => e.fieldExistenceUdmSliceProfile.hasAnyNssai = true →
      e.nssai.defaultSingleNssais ≠ [] := by
  intro v e₁ e' he hrun
  subst he
  rw [checkAnyNssai] at hrun
  split_ifs at hrun with hnone
  · obtain ⟨u, hreport, -⟩ := yields_bind.1 hrun
    exact absurd hreport not_quiet_addError
  · refine ⟨(), fun hany hempty => hnone ⟨hany, by rw [hempty]; rfl⟩, yields_pure.1 hrun⟩

theorem storable_getPlmnIdSet (isSliceData : Bool) : Leads (· = {})
    (getPlmnIdSet val p isSliceData) fun e => e.Complete isSliceData → e.Storable isSliceData := by
  have helement : Gives (Reader.objectElement p jsonDnnLists <|
      Reader.fresh {} (getDnnList val p)) fun l => l.Complete → l.Storable :=
    .objectElement (.fresh storable_getDnnList rfl)
  refine Puts.step .vendor fun m _ => ?_
  refine Puts.step (.demanded .string) fun id hid => ?_
  refine Puts.step (.mark) fun _ _ => ?_
  refine Puts.step (puts_nssai rfl) fun nssai hnssai => ?_
  refine Puts.step puts_checkAnyNssai fun _ hdefault => ?_
  have hlists : Puts (PlmnIdSets.setNssai nssai { plmnIdSetIdentifier := id, vendorSpecific := m })
      (.ifMember jsonDnnLists (.array p jsonDnnLists (Reader.objectElement p jsonDnnLists <|
        Reader.fresh {} (getDnnList val p)) fun as e => { e with dnnLists := e.dnnLists ++ as })
        (if isSliceData then Reader.skip
          else Reader.mandatory p (unfoundMandatoryFieldError jsonDnnLists)))
      (fun ls => { PlmnIdSets.setNssai nssai
        { plmnIdSetIdentifier := id, vendorSpecific := m } with dnnLists := ls })
      fun ls => ∀ l ∈ ls, l.Complete → l.Storable := by
    cases isSliceData with
    | true => exact .optional [] (List.forall_mem_nil _) (.array helement) rfl
    | false => exact .demanded (.array helement)
  refine Puts.step hlists fun ls hls => ?_
  refine Puts.done fun hcomplete => ?_
  exact {
    plmnIdSetIdentifier := ⟨hid, hcomplete.plmnIdSetIdentifier⟩
    nssai := ⟨fun hflag => ⟨(hnssai.1.1 hflag).1, (hnssai.1.1 hflag).2, hdefault hflag⟩,
      hnssai.1.2⟩
    hasNssai := flag_eq_not_isEmpty hcomplete.singleNssais hnssai.2
    dnnLists := fun l hl => hls l hl (hcomplete.dnnLists l hl)
    some_dnnList := hcomplete.some_dnnList }

theorem gives_storablePlmnIdSet (isSliceData : Bool) :
    Gives (Reader.fresh {} (getPlmnIdSet val p isSliceData))
      fun s => s.Complete isSliceData → s.Storable isSliceData :=
  .fresh (storable_getPlmnIdSet isSliceData) rfl

/-- A whole profile. Where `plmnIdSets` is not an array, there are no sets. -/
theorem storable_getUdmSliceProfile :
    Leads (· = {}) (getUdmSliceProfile val p) fun e => e.Complete → e.Storable := by
  refine Puts.step .vendor fun m _ => ?_
  refine Puts.step (.optional "" nulFree_empty .string rfl) fun id hid => ?_
  refine Puts.step (.optional [] (List.forall_mem_nil _) (.arrayOr (gives_storablePlmnIdSet false)
    fun e' hrun => ?_) rfl) fun sets hsets => ?_
  · obtain ⟨u, -, hrest⟩ := yields_bind.1 hrun
    exact ⟨[], List.forall_mem_nil _, yields_pure.1 hrest⟩
  exact Puts.done fun hcomplete => ⟨hid, fun s hs => hsets s hs (hcomplete s hs)⟩

end

end ProvisioningValidator
