import Mathlib
import ProvisioningValidator.KindAgreement
import ProvisioningValidator.ReaderRules
import ProvisioningValidator.Shapes

/-!
# The parser conforms to the shapes

One result for each reader: the reader and the shape of what it reads belong together, in the sense
of `Conforms`. The readers of the four kinds are at the end (`conforms_reader`).
-/

namespace ProvisioningValidator

open Lib Lib.Run Lib.Shape

variable {E V : Type} {val : Json → V} (p : String)

/-! ## Slice data -/

theorem reads_getSnssai (e : Snssai V) :
    ReadsWith val (getSnssai val p · e) snssaiFields [jsonSst] :=
  .vendor (.demand (.mandatory .int) <| .step (.optional .string) .nil) e

theorem conforms_snssai {key : String} {get : E → Snssai V} {put : Snssai V → E → E} (e : E) :
    Conforms val (Reader.object p key (.into get put (getSnssai val p)) · e) snssaiShape :=
  .objectWith (.into (reads_getSnssai p)) (by simp) e

theorem conforms_getNssaiDetails (key : String) :
    Conforms val (getNssaiDetails val p key) nssaiDetailsShape := by
  refine .objectElement (.fresh (.vendor ?_ ({} : NssaiDetails V))) (describes_must (by simp))
  exact .step (.optional .string) <| .step (.optional .string) <|
    .demand (.mandatory (conforms_snssai p)) .nil

theorem reads_getSliceInfoNssai (e : PlmnIdSets V) :
    ReadsFields val (getSliceInfoNssai val p · e) sliceInfoNssaiFields := by
  refine .vendor (.step (.optional (.array ?_)) <| .step (.flagged (.marking (.array ?_))) .nil) e
  · exact conforms_getNssaiDetails p jsonDefaultSingleNssais
  · exact conforms_getNssaiDetails p jsonSingleNssais

theorem reads_getPduSessionTypes (e : DnnData V) :
    ReadsFields val (getPduSessionTypes val p · e) pduSessionTypesFields :=
  .vendor (.step (.optional .string) <| .step (.flagged (.marking .strings)) .nil) e

theorem reads_getSscModes (e : SscModes V) :
    ReadsFields val (getSscModes val p · e) sscModesFields :=
  .vendor (.step (.optional .string) <| .step (.optional .strings) .nil) e

theorem reads_getUpSecurity (e : UpSecurity V) :
    ReadsFields val (getUpSecurity val p · e) upSecurityFields :=
  .vendor (.step (.optional .string) <| .step (.optional .string) .nil) e

theorem reads_getSessionAmbr (e : Ambr V) : ReadsWith val (getSessionAmbr val p · e)
    sessionAmbrFields [jsonUplink, jsonDownlink] :=
  .vendor (.demand (.mandatory .string) <| .demand (.mandatory .string) .nil) e

theorem reads_getArp (e : Arp V) : ReadsWith val (getArp val p · e) arpFields
    [jsonPriorityLevel, jsonPreemptcap, jsonPreemptvuln] :=
  .vendor (.demand (.mandatory .int) <| .demand (.mandatory .string) <|
    .demand (.mandatory .string) .nil) e

theorem reads_getFivegQosProfile (e : FivegQosProfile V) : ReadsWith val
    (getFivegQosProfile val p · e) fivegQosProfileFields [json5qi, jsonArp] := by
  refine .vendor (.demand (.mandatory .int) <| .demand (.mandatory ?_) <|
    .step (.flagged (.marking .int)) .nil) e
  exact .objectWith (.into (reads_getArp p)) (by simp)

theorem reads_getDnnDataFlag {key : String} {setFlag put : Bool → DnnData V → DnnData V}
    (e : DnnData V) : ReadsFields val (getDnnDataFlag p key setFlag put · e) [(key, boolean)] :=
  .flagged (.marking .bool) e

theorem reads_getDnnData (e : DnnData V) :
    ReadsFields val (getDnnData val p · e) dnnDataFields := by
  refine .vendor (.step (.optional .string) <| .step (reads_getDnnDataFlag p) <|
    .step (reads_getDnnDataFlag p) <| .step (reads_getDnnDataFlag p) <|
    .step (reads_getDnnDataFlag p) <| .step (.flagged (.marking (.object ?_))) <|
    .step (.flagged (.marking (.object ?_))) <| .step (.optional .string) <|
    .step (.flagged (.marking (.object ?_))) <| .step (.flagged (.marking ?_)) <|
    .step (.flagged (.marking .strings)) <| .step (reads_getDnnDataFlag p) <|
    .step (.flagged (.marking ?_)) .nil) e
  · exact reads_getPduSessionTypes p
  · exact .into (reads_getSscModes p)
  · exact .into (reads_getUpSecurity p)
  · exact .objectWith (.into (reads_getSessionAmbr p)) (by simp)
  · exact .objectWith (.into (reads_getFivegQosProfile p)) (by simp)

theorem reads_getDnnList (e : DnnList V) :
    ReadsWith val (getDnnList val p · e) dnnListFields [jsonDnnListId] := by
  refine .vendor (.demand (.mandatory .string) <| .step (.optional (.array ?_)) .nil) e
  exact .objectElement (.fresh (reads_getDnnData p {})) describes_object

/-! ### The check of a set -/

/-- A list element that is read without an error gives an S-NSSAI. -/
theorem some_of_getNssaiDetails {key : String} {x : Json} {o : Option (NssaiDetails V)}
    (h : Yields Quiet (getNssaiDetails val p key x) o) : ∃ a, o = some a := by
  rw [getNssaiDetails, Reader.objectElement] at h
  split_ifs at h
  · obtain ⟨a, -, ha⟩ := yields_bind.1 h
    exact ⟨a, yields_pure.1 ha⟩
  · simp at h

/-- Where no error is recorded, the default S-NSSAIs are there exactly if the array has elements. -/
theorem getSliceInfoNssai_defaults {v : Json} {e e' : PlmnIdSets V}
    (h : Yields Quiet (getSliceInfoNssai val p v e) e') (he : e.nssai.defaultSingleNssais = []) :
    (e'.nssai.defaultSingleNssais ≠ [] ↔ hasDefaultSingleNssais v = true) ∧
      e'.fieldExistenceUdmSliceProfile.hasAnyNssai = e.fieldExistenceUdmSliceProfile.hasAnyNssai := by
  rw [getSliceInfoNssai] at h
  obtain ⟨e₁, hvendor, h⟩ := yields_inOrder_cons.1 h
  obtain ⟨e₂, hlist, h⟩ := yields_inOrder_cons.1 h
  obtain ⟨e₃, hsingle, h⟩ := yields_inOrder_cons.1 h
  obtain rfl := yields_inOrder_nil.1 h
  -- the first and the last step leave the default S-NSSAIs and the flag
  have hlast : e'.nssai.defaultSingleNssais = e₂.nssai.defaultSingleNssais ∧
      e'.fieldExistenceUdmSliceProfile.hasAnyNssai =
        e₂.fieldExistenceUdmSliceProfile.hasAnyNssai := by
    refine Keeps.ifMember (I := fun e₃ => e₃.nssai.defaultSingleNssais =
      e₂.nssai.defaultSingleNssais ∧ e₃.fieldExistenceUdmSliceProfile.hasAnyNssai =
        e₂.fieldExistenceUdmSliceProfile.hasAnyNssai) (.marking ?_ (.array ?_)) (.without ?_)
      v e₂ e' ⟨rfl, rfl⟩ hsingle
    · exact fun e h => h
    · exact fun as e h => h
    · exact fun e h => h
  obtain ⟨m, -, hput⟩ := yields_bind.1 hvendor
  obtain rfl := yields_pure.1 hput
  rw [hlast.1, hlast.2]
  obtain ⟨o, ho, hrun⟩ := yields_bind.1 hlist
  rw [hasDefaultSingleNssais, Json.member?_of_findMember (yields_lift.1 ho)]
  cases o with
  | none =>
    obtain rfl := yields_pure.1 hrun
    simp [he]
  | some w =>
    cases hw : asArray w with
    | none => simp [Reader.array, hw] at hrun
    | some xs =>
      simp only [Reader.array, hw] at hrun
      obtain ⟨as, has, hput⟩ := yields_bind.1 hrun
      obtain rfl := yields_pure.1 hput
      have hnil := has.collect_eq_nil_iff fun x o => some_of_getNssaiDetails p
      simp [he, hw, hnil]

/-- The member `nssai` of a set, and after it the check that there is a default S-NSSAI. -/
theorem reads_nssai (e : PlmnIdSets V)
    (hflag : e.fieldExistenceUdmSliceProfile.hasAnyNssai = false)
    (hdefaults : e.nssai.defaultSingleNssais = []) :
    ReadsFields val (fun v => Reader.ifMember jsonNssai
      (.marking (fun e => { e with fieldExistenceUdmSliceProfile.hasAnyNssai := true }) <|
        .object p jsonNssai (getSliceInfoNssai val p)) Reader.skip v e >>= checkAnyNssai p v)
      [(jsonNssai, sliceInfoNssaiShape)] := by
  have hbind : (fun v => Reader.ifMember jsonNssai
      (.marking (fun e => { e with fieldExistenceUdmSliceProfile.hasAnyNssai := true }) <|
        .object p jsonNssai (getSliceInfoNssai val p)) Reader.skip v e >>= checkAnyNssai p v) =
      fun v => lift (v.findMember jsonNssai) >>= fun o => o.elim (pure e) (fun w =>
        Reader.object p jsonNssai (getSliceInfoNssai val p) w
          { e with fieldExistenceUdmSliceProfile.hasAnyNssai := true }) >>=
        checkAnyNssai p .null := by
    funext v
    rw [Reader.ifMember, bind_assoc]
    refine congrArg _ (funext fun o => ?_)
    cases o <;> rfl
  rw [hbind]
  refine .findMember ⟨?_, ?_⟩ ?_ (by simp)
  · intro mode w
    refine (((Conforms.object (reads_getSliceInfoNssai p) _).returns mode w).bind
      fun e' he' => ?_).congr ((passes_demanding.trans and_comm).symm)
    rw [checkAnyNssai]
    by_cases hquiet : mode.quiet = true
    · have hread : Yields Quiet (getSliceInfoNssai val p w
          { e with fieldExistenceUdmSliceProfile.hasAnyNssai := true }) e' := by
        have hread := he'.mono (allowed_of_quiet hquiet)
        rw [Reader.object] at hread
        split_ifs at hread
        · exact hread
        · simp at hread
      obtain ⟨hiff, hflag'⟩ := getSliceInfoNssai_defaults p hread hdefaults
      rw [forall_prop_of_true hquiet, ← hiff]
      split_ifs with hnone
      · have hnil := List.length_eq_zero_iff.1 hnone.2
        exact (returnsIff_report _ _ _).congr (by simp [hquiet, hnil])
      · refine (returnsIff_pure _).congr (iff_of_true trivial fun hnil => hnone ⟨hflag', ?_⟩)
        exact List.length_eq_zero_iff.2 hnil
    · rw [forall_prop_of_false hquiet]
      split_ifs
      · exact (returnsIff_report _ _ _).congr (by simpa using hquiet)
      · exact returnsIff_pure _
  · intro hval v w hvw
    exact ((Conforms.object (reads_getSliceInfoNssai p) _).stable hval v w hvw).bind
      fun _ => same_refl _
  · intro mode
    rw [Option.elim_none, pure_bind, checkAnyNssai, if_neg (by simp [hflag])]
    exact (returnsIff_pure e).congr (by simp)

theorem reads_plmnIdSetFields (isSliceData : Bool) :
    ReadsWith val (getPlmnIdSet val p isSliceData · {}) plmnIdSetFields
      (plmnIdSetMust isSliceData) := by
  have hlists : ∀ e : PlmnIdSets V, ReadsWith val (Reader.inOrder [
      .ifMember jsonDnnLists
        (.array p jsonDnnLists (Reader.objectElement p jsonDnnLists <|
          Reader.fresh {} (getDnnList val p)) fun as e => { e with dnnLists := e.dnnLists ++ as })
        (if isSliceData then Reader.skip
          else Reader.mandatory p (unfoundMandatoryFieldError jsonDnnLists))] · e)
      [(jsonDnnLists, array dnnListShape)] (if isSliceData then [] else [jsonDnnLists]) := by
    have helement : Conforms val (Reader.objectElement p jsonDnnLists <|
        Reader.fresh {} (getDnnList val p)) dnnListShape :=
      .objectElement (.fresh (reads_getDnnList p {})) (describes_must (by simp))
    cases isSliceData with
    | true => exact .step (.optional (.array helement)) .nil
    | false => exact .demand (.mandatory (.array helement)) .nil
  -- up to the member nssai, a fresh set has no default S-NSSAIs
  show ReadsWith val (fun v => Reader.inOrder (_ :: _ :: _ :: _ :: _ :: _) v _)
    ([] ++ ([(jsonPlmnIdSetIdentifier, string)] ++ ([] ++
      ([(jsonNssai, sliceInfoNssaiShape)] ++ [(jsonDnnLists, array dnnListShape)]))))
    ([] ++ ([jsonPlmnIdSetIdentifier] ++ ([] ++ ([] ++ if isSliceData then [] else [jsonDnnLists]))))
  have hvendor : ∀ v e', Yields (fun _ => True) (Reader.into (E := PlmnIdSets V)
      (·.vendorSpecific) (fun m e => { e with vendorSpecific := m }) (getVendorSpecific val) v {})
      e' → e'.nssai.defaultSingleNssais = [] := fun v e' h => by
    refine Keeps.into (I := fun e : PlmnIdSets V => e.nssai.defaultSingleNssais = []) ?_ v {} e'
      rfl h
    exact fun m e he => he
  refine .cons_of (.into reads_getVendorSpecific _) hvendor fun e he =>
    .cons_of (I := fun e => e.nssai.defaultSingleNssais = []) (.mandatory .string e)
      (fun v e' h => ?_) fun e he => .cons_of (I := fun e => e.nssai.defaultSingleNssais = [] ∧
        e.fieldExistenceUdmSliceProfile.hasAnyNssai = false) (.mark e) (fun v e' h => ?_)
        fun e he => ?_
  · refine Keeps.ifMember (I := fun e : PlmnIdSets V => e.nssai.defaultSingleNssais = [])
      (.leaf ?_) .mandatory v e e' he h
    exact fun s e he => he
  · obtain rfl := yields_pure.1 h
    exact ⟨he, rfl⟩
  · have hread := (@reads_nssai V val p e he.2 he.1).bind hlists
    simp only [bind_assoc] at hread
    exact hread

theorem conforms_getPlmnIdSet (isSliceData : Bool) : Conforms val
    (Reader.fresh {} (getPlmnIdSet val p isSliceData))
    (demanding (has (plmnIdSetMust isSliceData)) (object false [] plmnIdSetFields)) := by
  have hconf : Conforms val (getPlmnIdSet val p isSliceData · {})
      (demanding (has (plmnIdSetMust isSliceData)) (object false [] plmnIdSetFields)) :=
    .vendor (reads_plmnIdSetFields p isSliceData) (describes_must (by simp [plmnIdSetMust]))
  exact hconf.map some

theorem conforms_getUdmSliceProfile (e : UdmSliceProfile V) :
    Conforms val (getUdmSliceProfile val p · e) udmSliceProfileShape := by
  refine .vendor (.vendor (.step (.optional .string) <| .step (.optional fun e => ?_) .nil) e)
    describes_object
  exact .laxArray (conforms_getPlmnIdSet p false)
    (((returnsIff_emit_iff _).bind fun _ _ => returnsIff_pure e).congr (and_iff_left trivial))

/-! ## Static data -/

theorem reads_getSubscribedUeAmbr (e : Ambr V) :
    ReadsWith val (getSubscribedUeAmbr val p · e) subscribedUeAmbrFields
      [jsonUplink, jsonDownlink] :=
  .vendor (.demand (.mandatory .nonEmptyString) <| .demand (.mandatory .nonEmptyString) .nil) e

theorem reads_getUdmSliceProfileId (e : UdmSliceProfileId V) :
    ReadsWith val (getUdmSliceProfileId val p · e) [(jsonId, nonEmptyText)] [jsonId] :=
  .vendor (.demand (.mandatory .nonEmptyString) .nil) e

/-- What is done with the member `id` of a reference to an area. -/
theorem reads_getUdmRoamingAreaReference (parent : String) :
    ReadsWith val (getUdmRoamingAreaReference val p parent) [(jsonId, string)] [jsonId] := by
  refine .bind (reads_getVendorSpecific ∅) fun vendorSpecific => .findMember ?_ ?_ (by simp)
  · refine .asString p (notStringFieldError jsonId) none
      (fun id => returnsIff_pure (some ({ id, vendorSpecific } : UdmRoamingAreaReference V)))
      fun v => ?_
    dsimp only
    cases asString v <;> rfl
  · exact (returnsIff_report _ _ _).congr (by simp)

theorem conforms_forbiddenArea : Conforms val
    (getUdmRoamingAreaReference val p jsonForbiddenAreas) (areaReferenceShape false) := by
  refine .untested (reads_getUdmRoamingAreaReference p jsonForbiddenAreas)
    (describes_must (by simp)) fun v hv => ?_
  rw [getUdmRoamingAreaReference, getVendorSpecific_of_not_isObject hv]
  rfl

theorem reads_getServiceAreaRestriction (e : UdmStaticData V) :
    ReadsFields val (getServiceAreaRestriction val p · e) serviceAreaRestrictionFields := by
  refine .vendor (.step (.optional .string) <| .step (.optional (.array ?_)) <|
    .step (.flagged .int) <| .silent .mark .nil) e
  exact .objectElement (reads_getUdmRoamingAreaReference p jsonAreas) (describes_must (by simp))

theorem conforms_getUdmSliceData (e : UdmSliceData V) :
    Conforms val (getUdmSliceData val p · e) udmSliceDataShape := by
  refine .vendor (.vendor (.step (.optional fun e => ?_) .nil) e) describes_object
  exact .arrayOr (conforms_getPlmnIdSet p true)
    (((returnsIff_emit_iff _).bind fun _ _ => returnsIff_pure e).congr (and_iff_left trivial))

/-! ## Static addresses -/

theorem conforms_getIp (key : String) (ipType : IpAddrType) (vendorSpecific : VendorSpecific V) :
    Conforms val (getIp p key ipType vendorSpecific) string := by
  refine .asString p (notStringFieldError key) none
    (fun ip => returnsIff_pure (some ({ ip, ipType, vendorSpecific } : IpAddr V))) fun v => ?_
  rw [getIp]
  cases asString v <;> rfl

theorem conforms_getIpAddr : Conforms val (getIpAddr val p) ipAddrShape := by
  refine .untested (.after (reads_getVendorSpecific ∅) fun vendorSpecific =>
    (Reads.firstMember ?_ fun _ => returnsIff_pure none).congr fun _ _ =>
      and_iff_left fun _ => trivial) describes_choice fun v hv => ?_
  · exact .cons ⟨rfl, conforms_getIp p _ _ _⟩ <| .cons ⟨rfl, conforms_getIp p _ _ _⟩ <|
      .cons ⟨rfl, conforms_getIp p _ _ _⟩ .nil
  · rw [getIpAddr, getVendorSpecific_of_not_isObject hv]
    rfl

theorem reads_getDnnIps (dnn : String) :
    ReadsFields val (getDnnIps val p dnn) dnnIpsFields :=
  .step (.optional .string) (.step (.optional (.array (conforms_getIpAddr p))) <|
    .silent (.into reads_getVendorSpecific) .nil) _

/-- One turn of the loop over `dnnIpList`: the last `dnn` and the list so far. -/
def dnnIpListStep (val : Json → V) (st : String × List (DnnIps V)) (w : Json) :
    ParserM (String × List (DnnIps V)) :=
  if w.IsObject then
    getDnnIps val p st.1 w >>= fun dnnIps => pure (dnnIps.dnn, st.2 ++ [dnnIps])
  else addError p (notObjectFieldError jsonDnnIpList) >>= fun _ => pure st

theorem getDnnIpList_eq (ws : List Json) (dnn : String) (ddnlist : List (DnnIps V)) :
    getDnnIpList val p dnn ddnlist ws =
      Prod.snd <$> ws.foldlM (dnnIpListStep p val) (dnn, ddnlist) := by
  induction ws generalizing dnn ddnlist with
  | nil => simp [getDnnIpList]
  | cons w ws ih =>
    rw [getDnnIpList, List.foldlM_cons, dnnIpListStep]
    split_ifs
    · simp only [ih, bind_assoc, pure_bind, map_bind]
    · simp only [ih, bind_assoc, pure_bind, map_bind]

theorem conforms_dnnIpListStep (st : String × List (DnnIps V)) :
    Conforms val (dnnIpListStep p val st) (object true [] dnnIpsFields) :=
  .tested ((reads_getDnnIps p st.1).map _) describes_object

theorem conforms_getDnnIpLists (ddnlist : List (DnnIps V)) :
    Conforms val (getDnnIpLists val p · ddnlist) (array (object true [] dnnIpsFields)) := by
  have hother : ∀ {mode}, ReturnsIff (Allowed mode) (Run.emit (.error (mkError
      "ConstraintViolation" p (notArrayFieldError jsonDnnIpList))) >>=
        fun _ => (pure ddnlist : ParserM _)) (mode.quiet = false) :=
    ((returnsIff_emit_iff _).bind fun _ _ => returnsIff_pure _).congr (and_iff_left trivial)
  refine .arrayFold (conforms_dnnIpListStep p) ("", ddnlist) Prod.snd hother fun v => ?_
  rw [getDnnIpLists]
  cases asArray v with
  | some ws => exact getDnnIpList_eq p ws "" ddnlist
  | none => rfl

/-- A member of an element of `nssaiDnnIpLists` conforms to the shape of its name. -/
theorem conforms_getNssaiDnnIpsMember (e : NssaiDnnIps V) {name : String} {f : String × Shape}
    (hf : f ∈ nssaiDnnIpsFields) (hname : cstr name = f.1) :
    Conforms val (fun w => getNssaiDnnIpsMember val p e (name, w)) f.2 := by
  rcases List.mem_cons.1 hf with rfl | hf
  · have heq : (fun w => getNssaiDnnIpsMember val p e (name, w)) =
        (Reader.into (·.snssai) (fun a e => { e with snssai := a })
          (.object p jsonNssai (getSnssai val p)) · e) := by
      funext w
      rw [getNssaiDnnIpsMember, if_pos hname]
    rw [heq]
    exact .into (.objectWith (reads_getSnssai p) (by simp)) e
  · rw [List.mem_singleton] at hf
    subst hf
    have hne : ¬ cstr name = jsonNssai := by
      rw [hname]
      decide
    have heq : (fun w => getNssaiDnnIpsMember val p e (name, w)) =
        (Reader.into (·.dnnIpList) (fun as e => { e with dnnIpList := as })
          (getDnnIpLists val p) · e) := by
      funext w
      rw [getNssaiDnnIpsMember, if_neg hne, if_pos hname]
    rw [heq]
    exact .into (conforms_getDnnIpLists p) e

/-- A member of another name is passed over. -/
theorem getNssaiDnnIpsMember_of_other (e : NssaiDnnIps V) {m : String × Json}
    (h : ∀ f ∈ nssaiDnnIpsFields, cstr m.1 ≠ f.1) : getNssaiDnnIpsMember val p e m = pure e := by
  have hnssai := h _ List.mem_cons_self
  have hlist := h _ (List.mem_cons_of_mem _ List.mem_cons_self)
  rw [getNssaiDnnIpsMember, if_neg hnssai, if_neg hlist]

/-- Members of different names can be read in either order. -/
theorem getNssaiDnnIpsMember_comm (e : NssaiDnnIps V) (m n : String × Json)
    (h : cstr m.1 ≠ cstr n.1) :
    Same (getNssaiDnnIpsMember val p e m >>= fun e => getNssaiDnnIpsMember val p e n)
      (getNssaiDnnIpsMember val p e n >>= fun e => getNssaiDnnIpsMember val p e m) := by
  have hne : jsonDnnIpList ≠ jsonNssai := by decide
  by_cases hm : cstr m.1 = jsonNssai
  · have hn : ¬ cstr n.1 = jsonNssai := fun hn => h (hm.trans hn.symm)
    by_cases hn' : cstr n.1 = jsonDnnIpList
    · simp only [getNssaiDnnIpsMember, if_pos hm, if_neg hn, if_pos hn', Reader.into, bind_assoc,
        pure_bind]
      exact sim_comm _ _ fun a as => { e with snssai := a, dnnIpList := as }
    · simp only [getNssaiDnnIpsMember, if_neg hn, if_neg hn', bind_pure, pure_bind]
      exact same_refl _
  · by_cases hm' : cstr m.1 = jsonDnnIpList
    · by_cases hn : cstr n.1 = jsonNssai
      · simp only [getNssaiDnnIpsMember, if_neg hm, if_pos hm', if_pos hn, Reader.into, bind_assoc,
          pure_bind]
        exact sim_comm _ _ fun as a => { e with snssai := a, dnnIpList := as }
      · have hn' : ¬ cstr n.1 = jsonDnnIpList := fun hn' => h (hm'.trans hn'.symm)
        simp only [getNssaiDnnIpsMember, if_neg hn, if_neg hn', bind_pure, pure_bind]
        exact same_refl _
    · simp only [getNssaiDnnIpsMember, if_neg hm, if_neg hm', bind_pure, pure_bind]
      exact same_refl _

theorem memberLoop_getNssaiDnnIpsMember :
    MemberLoop val (getNssaiDnnIpsMember val p) nssaiDnnIpsFields where
  named e _ _ hf hname := conforms_getNssaiDnnIpsMember p e hf hname
  other e _ h := getNssaiDnnIpsMember_of_other p e h
  comm e m n h := getNssaiDnnIpsMember_comm p e m n h

theorem conforms_getNssaiDnnIps : Conforms val (getNssaiDnnIps val p) nssaiDnnIpsShape := by
  have hfirst : ReadsFields val (fun v => getVendorSpecific val v ∅ >>= fun vendorSpecific =>
      pure ({ vendorSpecific } : NssaiDnnIps V)) [] := (reads_getVendorSpecific ∅).map _
  have hloop := (Conforms.loop (memberLoop_getNssaiDnnIpsMember p) hfirst fun v hv => by
    rw [getVendorSpecific_of_not_isObject hv]
    rfl).map some
  have heq : getNssaiDnnIps val p = fun v => ((getVendorSpecific val v ∅ >>= fun vendorSpecific =>
      (pure { vendorSpecific } : ParserM (NssaiDnnIps V))) >>= fun e => lift v.members >>=
      fun members => members.foldlM (getNssaiDnnIpsMember val p) e) >>= fun e => pure (some e) := by
    funext v
    simp only [getNssaiDnnIps, bind_assoc, pure_bind]
  rw [heq]
  exact hloop

theorem reads_getStaticIpAddress (e : StaticIpAddress V) :
    Reads val (getStaticIpAddress val p · e)
      (fun mode v => (v.member? jsonNssAiDnnIpLists).isSome = true ∧
        FieldsMet [(jsonNssAiDnnIpLists, array nssaiDnnIpsShape)] [] mode v) :=
  .after (.into reads_getVendorSpecific e) fun e =>
    (Reads.index (.array (conforms_getNssaiDnnIps p) e)).map id

theorem conforms_getStaticIpAddress (e : StaticIpAddress V) :
    Conforms val (getStaticIpAddress val p · e) staticIpAddressShape := by
  refine .vendor (reads_getStaticIpAddress p e) ⟨fun mode v hv => ?_, fun mode v hv => ?_⟩
  · rw [fieldsMet_nil_iff]
    simp [Passes, staticIpAddressShape, everywhere_object, Met, Usable, KindOk, Demanded, Regular,
      hv]
  · simp [Passes, staticIpAddressShape, everywhere_object, Met, Usable, hv]

theorem conforms_getUdmStaticData (e : UdmStaticData V) :
    Conforms val (getUdmStaticData val p · e) udmStaticDataShape := by
  refine .vendor (.vendor (.step (.flagged (.marking ?_)) <| .step (.optional .strings) <|
    .step (.optional (.array (conforms_forbiddenArea p))) <| .step (.flagged (.object ?_)) <|
    .step (.optional .strings) <| .step (.flagged .bool) <| .step (.flagged .bool) <|
    .step (.flagged .int) <| .step (.flagged .bool) <| .demand (.mandatory ?_) <|
    .step (.flagged (.marking (.into (conforms_getStaticIpAddress p)))) <|
    .step (.optional .nonEmptyString) <| .step (.flagged .int) <| .step (.flagged .int) <|
    .step (.flagged .int) <|
    .step (.flagged (.marking (.into (conforms_getUdmSliceData p)))) .nil) e)
    (describes_must (by simp))
  · exact .objectWith (.into (reads_getSubscribedUeAmbr p)) (by simp)
  · exact reads_getServiceAreaRestriction p
  · exact .objectWith (.into (reads_getUdmSliceProfileId p)) (by simp)

/-! ## Roaming areas -/

theorem reads_getAreaList (e : AreaList V) :
    Reads val (getAreaList val p · e) (fun mode v => FirstMet areaFields mode v ∧
      (mode.quiet = true → (pick areaFields v).isSome = true)) := by
  refine .after (.into reads_getVendorSpecific e) fun e => .congr (.map (.firstMember ?_
    fun _ => returnsIff_report _ _ e) id) fun mode v => and_congr_right fun _ => ?_
  · refine .cons ⟨rfl, ?_⟩ (.cons ⟨rfl, ?_⟩ .nil)
    · dsimp only
      exact .string e
    · dsimp only
      exact .strings e
  · show (pick areaFields v = none → mode.quiet = false) ↔ _
    cases pick areaFields v <;> simp

theorem conforms_areaElement : Conforms val (Reader.objectElement p jsonAreaList
    (Reader.fresh {} (getAreaList val p))) areaShape :=
  .objectElement (.fresh (reads_getAreaList p {})) (describes_choice.demanding fun v hv => by
    rw [pick_of_not_isObject hv]
    rfl)

theorem conforms_getUdmRoamingAreas (e : UdmRoamingArea V) :
    Conforms val (getUdmRoamingAreas val p · e) udmRoamingAreaShape :=
  .vendor (.vendor (.step (.optional .string) <|
    .step (.optional (.array (conforms_areaElement p))) .nil) e) describes_object

/-! ## SMS subscriptions -/

theorem reads_setOptionalBooleanField {fieldName : String}
    {setFlag put : Bool → SmsStaticData V → SmsStaticData V} (e : SmsStaticData V) :
    ReadsFields val (setOptionalBooleanField p fieldName setFlag put · e)
      [(fieldName, boolean)] := by
  refine .flagged (fun e => .asBool p (notBoolFieldError fieldName) (setFlag false e)
    (fun b => returnsIff_pure (setFlag true (put b e))) fun v => ?_) e
  cases asBool v <;> rfl

theorem reads_getSmsSubscriptionDataObject (e : SmsStaticData V) :
    ReadsFields val (getSmsSubscriptionDataObject val p · e) smsSubscriptionDataFields :=
  .step (reads_setOptionalBooleanField p) (.silent (.into reads_getVendorSpecific) .nil) e

theorem reads_getSmsManagementSubscriptionDataObject (e : SmsStaticData V) :
    ReadsFields val (getSmsManagementSubscriptionDataObject val p · e)
      smsManagementSubscriptionDataFields :=
  .step (reads_setOptionalBooleanField p) (.step (reads_setOptionalBooleanField p) <|
    .step (reads_setOptionalBooleanField p) <| .step (reads_setOptionalBooleanField p) <|
    .step (reads_setOptionalBooleanField p) <| .step (reads_setOptionalBooleanField p) <|
    .silent (.into reads_getVendorSpecific) .nil) e

theorem reads_getSmsObject {key : String} {setFlag : Bool → SmsStaticData V → SmsStaticData V}
    {r : Reader (SmsStaticData V)} {fields : List (String × Shape)}
    (h : ∀ e, ReadsFields val (r · e) fields) (e : SmsStaticData V) :
    ReadsFields val (getSmsObject p key setFlag r · e) [(key, object true [] fields)] :=
  .flagged (fun e => .tested ((h e).map (setFlag true)) describes_object) e

theorem conforms_getOptionalSmsStaticData (e : SmsStaticData V) :
    Conforms val (getOptionalSmsStaticData val p · e) smsStaticDataShape :=
  .vendor (.vendor (.step (reads_getSmsObject p (reads_getSmsSubscriptionDataObject p)) <|
    .step (reads_getSmsObject p (reads_getSmsManagementSubscriptionDataObject p)) .nil) e)
    describes_object

/-! ## All kinds -/

/-- **The reader of a kind conforms to the shape of the kind.** It returns exactly on the values
that are safe, and without an error or a text for the flag of the parser exactly on those that pass
in the mode; and it does not depend on the order of members. -/
theorem conforms_reader (k : ResourceKind) (e : k.Entity V) :
    Conforms val (k.reader val p · e) k.shape := by
  cases k with
  | udmStaticData => exact conforms_getUdmStaticData p e
  | udmSliceProfile => exact conforms_getUdmSliceProfile p e
  | udmRoamingArea => exact conforms_getUdmRoamingAreas p e
  | smsStaticData => exact conforms_getOptionalSmsStaticData p e

end ProvisioningValidator
