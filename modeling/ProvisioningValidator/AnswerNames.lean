import Mathlib
import ProvisioningValidator.AnswerRoundTrip
import ProvisioningValidator.ErrorPaths

/-!
# Answers without repeated names

An answer is put together from members of fixed names and from vendor-specific members, which are
copied from the request. The copies come out of a map, and their names are of a kind that no fixed name
is of.

**Theorem (`answer_names_distinct`).** No object in the body of an answer has two members of one
name, unless it was copied with a vendor-specific member. The status does not matter.

What the encoder writes for an entity is known from reading it back (`Holds`); here it is only used
that the names of an object are distinct and that nothing else is in it.
-/

namespace ProvisioningValidator

open Lib Lib.Run Lib.Json

/-! ## What is written -/

@[simp] theorem forall_given {P : Json → Prop} {flag : Bool} {w : Json} :
    (∀ v, given flag w = some v → P v) ↔ (flag = true → P w) := by
  cases flag <;> simp

@[simp] theorem distinctNames_stringsToJson (ss : List String) :
    (stringsToJson ss).DistinctNames vendorName := by
  simp [stringsToJson]

/-- An object that is written with distinct names in everything but the copies. -/
theorem distinctNames_of_written {v : Json} {m : VendorSpecific Json}
    {ms : List (String × Option Json)} (h : ∃ os, v = .obj os ∧ Holds os m ms)
    (hvalues : ∀ n ∈ ms, ∀ w, n.2 = some w → w.DistinctNames vendorName) :
    v.DistinctNames vendorName := by
  obtain ⟨os, rfl, hos⟩ := h
  refine .obj hos.names fun o ho hname => ?_
  exact hvalues _ (hos.nothingElse o ho hname) o.2 rfl

section

variable (ind : Indeterminate)

/-! ### Slice data -/

@[simp] theorem distinctNames_snssaiToJson (e : Snssai Json) :
    (snssaiToJson ind e).DistinctNames vendorName := by
  apply distinctNames_of_written (written_snssai ind e)
  simp

@[simp] theorem distinctNames_nssaiDetailsToJson (e : NssaiDetails Json) :
    (nssaiDetailsToJson ind e).DistinctNames vendorName := by
  apply distinctNames_of_written (written_nssaiDetails ind e)
  simp

@[simp] theorem distinctNames_pduSessionTypesToJson (e : PduSessionTypes Json) :
    (pduSessionTypesToJson e).DistinctNames vendorName := by
  apply distinctNames_of_written (written_pduSessionTypes e)
  simp

@[simp] theorem distinctNames_sscModesToJson (e : SscModes Json) :
    (sscModesToJson e).DistinctNames vendorName := by
  apply distinctNames_of_written (written_sscModes e)
  simp

@[simp] theorem distinctNames_upSecurityToJson (e : UpSecurity Json) :
    (upSecurityToJson e).DistinctNames vendorName := by
  apply distinctNames_of_written (written_upSecurity e)
  simp

@[simp] theorem distinctNames_sessionAmbrToJson (e : Ambr Json) :
    (sessionAmbrToJson e).DistinctNames vendorName := by
  apply distinctNames_of_written (written_sessionAmbr e)
  simp

@[simp] theorem distinctNames_arpToJson (e : Arp Json) :
    (arpToJson ind e).DistinctNames vendorName := by
  apply distinctNames_of_written (written_arp ind e)
  simp

@[simp] theorem distinctNames_fivegQosProfileToJson (e : FivegQosProfile Json) :
    (fivegQosProfileToJson ind e).DistinctNames vendorName := by
  apply distinctNames_of_written (written_fivegQosProfile ind e)
  simp

@[simp] theorem distinctNames_dnnDataToJson (e : DnnData Json) :
    (dnnDataToJson ind e).DistinctNames vendorName := by
  apply distinctNames_of_written (written_dnnData ind e)
  simp

@[simp] theorem distinctNames_dnnListToJson (e : DnnList Json) :
    (dnnListToJson ind e).DistinctNames vendorName := by
  apply distinctNames_of_written (written_dnnList ind e)
  simp

@[simp] theorem distinctNames_sliceInfoNssaiToJson (e : PlmnIdSets Json) :
    (sliceInfoNssaiToJson ind e).DistinctNames vendorName := by
  apply distinctNames_of_written (written_sliceInfoNssai ind e)
  simp

@[simp] theorem distinctNames_plmnIdSetToJson (e : PlmnIdSets Json) :
    (plmnIdSetToJson ind e).DistinctNames vendorName := by
  apply distinctNames_of_written (written_plmnIdSet ind e)
  simp

@[simp] theorem distinctNames_udmSliceProfileToJson (e : UdmSliceProfile Json) :
    (udmSliceProfileToJson ind e).DistinctNames vendorName := by
  apply distinctNames_of_written (written_udmSliceProfile ind e)
  simp

/-! ### Static data -/

@[simp] theorem distinctNames_udmRoamingAreaReferenceToJson (e : UdmRoamingAreaReference Json) :
    (udmRoamingAreaReferenceToJson e).DistinctNames vendorName := by
  apply distinctNames_of_written (written_udmRoamingAreaReference e)
  simp

@[simp] theorem distinctNames_udmSliceProfileIdToJson (e : UdmSliceProfileId Json) :
    (udmSliceProfileIdToJson e).DistinctNames vendorName := by
  apply distinctNames_of_written (written_udmSliceProfileId e)
  simp

@[simp] theorem distinctNames_subscribedUeAmbrToJson (e : Ambr Json) :
    (subscribedUeAmbrToJson e).DistinctNames vendorName := by
  apply distinctNames_of_written (written_subscribedUeAmbr e)
  simp

@[simp] theorem distinctNames_serviceAreaRestrictionToJson (e : UdmStaticData Json) :
    (serviceAreaRestrictionToJson ind e).DistinctNames vendorName := by
  apply distinctNames_of_written (written_serviceAreaRestriction ind e)
  simp

@[simp] theorem distinctNames_ipAddrToJson (e : IpAddr Json) :
    (ipAddrToJson e).DistinctNames vendorName := by
  apply distinctNames_of_written (written_ipAddr e)
  simp

@[simp] theorem distinctNames_dnnIpsToJson (e : DnnIps Json) :
    (dnnIpsToJson e).DistinctNames vendorName := by
  apply distinctNames_of_written (written_dnnIps e)
  simp

@[simp] theorem distinctNames_staticSnssaiToJson (e : Snssai Json) :
    (staticSnssaiToJson ind e).DistinctNames vendorName := by
  apply distinctNames_of_written (written_staticSnssai ind e)
  simp

@[simp] theorem distinctNames_nssaiDnnIpsToJson (e : NssaiDnnIps Json) :
    (nssaiDnnIpsToJson ind e).DistinctNames vendorName := by
  apply distinctNames_of_written (written_nssaiDnnIps ind e)
  simp

@[simp] theorem distinctNames_staticIpAddressToJson (e : StaticIpAddress Json) :
    (staticIpAddressToJson ind e).DistinctNames vendorName := by
  apply distinctNames_of_written (written_staticIpAddress ind e)
  simp

@[simp] theorem distinctNames_udmSliceDataToJson (e : UdmSliceData Json) :
    (udmSliceDataToJson ind e).DistinctNames vendorName := by
  apply distinctNames_of_written (written_udmSliceData ind e)
  simp

@[simp] theorem distinctNames_udmStaticDataToJson (e : UdmStaticData Json) :
    (udmStaticDataToJson ind e).DistinctNames vendorName := by
  apply distinctNames_of_written (written_udmStaticData ind e)
  simp

/-! ### Roaming areas and SMS subscriptions -/

@[simp] theorem distinctNames_areaListToJson (e : AreaList Json) :
    (areaListToJson e).DistinctNames vendorName := by
  apply distinctNames_of_written (written_areaList e)
  obtain ⟨area, vendorSpecific⟩ := e
  cases area <;> simp [Area.writtenCode, Area.writtenTacs]

@[simp] theorem distinctNames_udmRoamingAreaToJson (e : UdmRoamingArea Json) :
    (udmRoamingAreaToJson e).DistinctNames vendorName := by
  apply distinctNames_of_written (written_udmRoamingArea e)
  simp

@[simp] theorem distinctNames_smsSubscriptionDataToJson (e : SmsStaticData Json) :
    (smsSubscriptionDataToJson ind e).DistinctNames vendorName := by
  apply distinctNames_of_written (written_smsSubscriptionDataObject ind e)
  simp

@[simp] theorem distinctNames_smsManagementSubscriptionDataToJson (e : SmsStaticData Json) :
    (smsManagementSubscriptionDataToJson ind e).DistinctNames vendorName := by
  apply distinctNames_of_written (written_smsManagementSubscriptionDataObject ind e)
  simp

@[simp] theorem distinctNames_smsStaticDataToJson (e : SmsStaticData Json) :
    (smsStaticDataToJson ind e).DistinctNames vendorName := by
  apply distinctNames_of_written (written_smsStaticData ind e)
  simp

/-! ## Bodies -/

/-- An object with these names that is written without copies. -/
theorem distinctNames_obj {ms : List (String × Json)} (names : List String)
    (hnames : ms.map Prod.fst = names) (hnodup : names.Nodup)
    (hvalues : ∀ m ∈ ms, m.2.DistinctNames vendorName) : (Json.obj ms).DistinctNames vendorName :=
  .obj (hnames ▸ hnodup) fun m hm _ => hvalues m hm

theorem distinctNames_empty : (Json.obj []).DistinctNames vendorName :=
  distinctNames_obj [] rfl List.nodup_nil fun _ hm => absurd hm List.not_mem_nil

theorem distinctNames_changeDataToJson (c : Change Json) :
    (changeDataToJson ind c).DistinctNames vendorName := by
  unfold changeDataToJson
  split_ifs
  · exact distinctNames_udmStaticDataToJson ind _
  · exact distinctNames_udmSliceProfileToJson ind _
  · exact distinctNames_udmRoamingAreaToJson _
  · exact distinctNames_smsStaticDataToJson ind _
  · exact distinctNames_empty

theorem distinctNames_changeToJson (c : Change Json) :
    (changeToJson ind c).DistinctNames vendorName := by
  unfold changeToJson
  cases c.operation != jsonOperationDelete with
  | true =>
    apply distinctNames_obj [jsonOperation, jsonResourcePath, jsonData] rfl (by decide)
    simp [whenFlag, distinctNames_changeDataToJson]
  | false =>
    apply distinctNames_obj [jsonOperation, jsonResourcePath] rfl (by decide)
    simp [whenFlag]

theorem distinctNames_changes {response : Response Json} (h : response.errors = []) :
    (validatorResponseToJson ind response).DistinctNames vendorName := by
  rw [validatorResponseToJson, if_pos h, listToJson]
  split_ifs
  · exact distinctNames_empty
  · apply distinctNames_obj [jsonChanges] rfl (by decide)
    rw [List.forall_mem_singleton, distinctNames_arr_map]
    exact fun c _ => distinctNames_changeToJson ind c

theorem distinctNames_errorToJson {path : String} {e : Error} (h : e.About path) :
    (errorToJson e).DistinctNames vendorName := by
  obtain ⟨message, -, description, rfl⟩ := h
  rw [errorToJson_mkError]
  have hdetails : (Json.obj [("description", .str (cstr description)),
      (jsonResourcePath, .str (cstr path))]).DistinctNames vendorName := by
    apply distinctNames_obj ["description", jsonResourcePath] rfl (by decide)
    simp
  apply distinctNames_obj [jsonErrorMessage, jsonErrorDetails] rfl (by decide)
  simp [hdetails]

/-- The error of a request or a response that does not pass the check has one detail. -/
theorem distinctNames_composeError (message reason : String) :
    (errorToJson (composeError message reason)).DistinctNames vendorName := by
  have hdetails : (Json.obj [(cstr "description", .str (cstr reason))]).DistinctNames
      vendorName := by
    apply distinctNames_obj [cstr "description"] rfl (List.nodup_singleton _)
    simp
  apply distinctNames_obj [jsonErrorMessage, jsonErrorDetails] rfl (by decide)
  rw [List.forall_mem_cons, List.forall_mem_singleton]
  exact ⟨.str _, hdetails⟩

theorem distinctNames_errors {response : Response Json} (hne : response.errors ≠ [])
    (h : ∀ e ∈ response.errors, ∃ path, e.About path) :
    (validatorResponseToJson ind response).DistinctNames vendorName := by
  rw [validatorResponseToJson, if_neg hne]
  apply distinctNames_obj [jsonErrors] rfl (by decide)
  rw [List.forall_mem_singleton, distinctNames_arr_map]
  intro e he
  obtain ⟨path, hpath⟩ := h e he
  exact distinctNames_errorToJson hpath

end

/-! ## Answers -/

variable {oai : OaiValidator} {ind : Indeterminate}

/-- The check of the response may put an error in the place of the body. -/
theorem distinctNames_sendResponse (status : Nat) {json : Json}
    (h : json.DistinctNames vendorName) :
    (sendResponse oai status json).body.DistinctNames vendorName := by
  unfold sendResponse
  cases oai.validateResponse status json with
  | none => exact h
  | some reason => exact distinctNames_composeError _ reason

/-- What is answered once the parser has read the request. -/
theorem distinctNames_answerParsed {doc : Json} {data : ValidationData Json}
    {events : List Event} {a : Answer} (hread : getValidationData id doc = .ret data events)
    (h : answerParsed oai ind data events = some a) : a.body.DistinctNames vendorName := by
  unfold answerParsed at h
  split_ifs at h with hret herrors
  · obtain rfl := Option.some.inj h
    exact distinctNames_sendResponse _ (distinctNames_composeError _ _)
  · obtain rfl := Option.some.inj h
    refine distinctNames_sendResponse _ (distinctNames_errors ind herrors fun e he => ?_)
    obtain ⟨path, -, habout⟩ := about_recordedErrors hread e he
    exact ⟨path, habout⟩
  · obtain ⟨st, hst, hsent⟩ := Option.bind_eq_some_iff.1 h
    obtain rfl := Option.some.inj hsent
    have hrun : RulesRun ind doc data events st :=
      ⟨hread, by simpa using hret, by simpa using herrors, hst⟩
    apply distinctNames_sendResponse
    by_cases hnone : st.response.errors = []
    · exact distinctNames_changes ind hnone
    · refine distinctNames_errors ind hnone fun e he => ?_
      obtain ⟨path, -, habout⟩ := about_errors hrun e he
      exact ⟨path, habout⟩

/-- **No answer repeats a name**, whatever the request was. -/
theorem answer_names_distinct {requestBody : Option Json} {a : Answer}
    (h : handleHttp2Request oai ind requestBody = some a) :
    a.body.DistinctNames vendorName := by
  unfold handleHttp2Request at h
  cases hreq : oai.validateRequest requestBody with
  | some reason =>
    rw [hreq] at h
    obtain rfl := Option.some.inj h
    exact distinctNames_composeError _ reason
  | none =>
    rw [hreq] at h
    cases requestBody with
    | none =>
      obtain rfl := Option.some.inj h
      exact distinctNames_sendResponse _ (distinctNames_composeError _ _)
    | some doc =>
      have hparse : parse id (some doc) = getValidationData id doc := rfl
      simp only [hparse] at h
      cases hread : getValidationData id doc with
      | abort =>
        rw [hread] at h
        cases h
      | ret data events =>
        rw [hread] at h
        exact distinctNames_answerParsed hread h

/-- The answer to an update of an area that is not there. -/
theorem answer_names_distinct_area_update : ∃ a, handleHttp2Request passAll ⟨0, false⟩
      (some (oneChange "UPDATE" "/profiles/udmProfiles/udmRoamingAreas/a" (.obj []))) = some a ∧
    a.body.DistinctNames vendorName :=
  ⟨_, rfl, @answer_names_distinct passAll ⟨0, false⟩
    (some (oneChange "UPDATE" "/profiles/udmProfiles/udmRoamingAreas/a" (.obj []))) _ rfl⟩

end ProvisioningValidator
