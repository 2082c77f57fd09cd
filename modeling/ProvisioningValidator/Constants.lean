import Mathlib

/-!
# The names of the interface

The member names and the enumerated values that requests and responses are written with, and
the HTTP codes of the answers. `simp` replaces each of them by its text.
-/

namespace ProvisioningValidator

/-! ## Request -/

@[simp] abbrev jsonChanges : String := "changes"
@[simp] abbrev jsonRelatedResources : String := "relatedResources"
@[simp] abbrev jsonOperation : String := "operation"
@[simp] abbrev jsonResourcePath : String := "resource_path"
@[simp] abbrev jsonData : String := "data"
@[simp] abbrev jsonOperationCreate : String := "CREATE"
@[simp] abbrev jsonOperationUpdate : String := "UPDATE"
@[simp] abbrev jsonOperationDelete : String := "DELETE"

/-! ## Response -/

@[simp] abbrev jsonErrors : String := "errors"
@[simp] abbrev jsonErrorMessage : String := "errorMessage"
@[simp] abbrev jsonErrorDetails : String := "errorDetails"

/-! ## UdmStaticData -/

@[simp] abbrev jsonUdmStaticData : String := "udmStaticData"
@[simp] abbrev jsonSubscribedUeAmbr : String := "subscribedUeAmbr"
@[simp] abbrev jsonRatRestrictions : String := "ratRestrictions"
@[simp] abbrev jsonUplink : String := "uplink"
@[simp] abbrev jsonDownlink : String := "downlink"
@[simp] abbrev jsonForbiddenAreas : String := "forbiddenAreas"
@[simp] abbrev jsonId : String := "id"
@[simp] abbrev jsonServiceAreaRestriction : String := "serviceAreaRestriction"
@[simp] abbrev jsonRestrictionType : String := "restrictionType"
@[simp] abbrev jsonAreas : String := "areas"
@[simp] abbrev jsonMaxNumOfTas : String := "maxNumOfTAs"
@[simp] abbrev jsonCoreNetworkTypeRestrictions : String := "coreNetworkTypeRestrictions"
@[simp] abbrev jsonMpsPriority : String := "mpsPriority"
@[simp] abbrev jsonMcsPriority : String := "mcsPriority"
@[simp] abbrev jsonDlPacketCount : String := "dlPacketCount"
@[simp] abbrev jsonMicoAllowed : String := "micoAllowed"
@[simp] abbrev jsonUdmSliceProfileId : String := "udmSliceProfileId"
@[simp] abbrev jsonStaticIpAddress : String := "staticIpAddress"
@[simp] abbrev jsonNssAiDnnIpLists : String := "nssaiDnnIpLists"
@[simp] abbrev jsonNssai : String := "nssai"
@[simp] abbrev jsonDnnIpList : String := "dnnIpList"
@[simp] abbrev jsonSst : String := "sst"
@[simp] abbrev jsonSd : String := "sd"
@[simp] abbrev jsonDnn : String := "dnn"
@[simp] abbrev jsonIpaddress : String := "ipAddress"
@[simp] abbrev jsonIpv4Addr : String := "ipv4Addr"
@[simp] abbrev jsonIpv6Addr : String := "ipv6Addr"
@[simp] abbrev jsonIpv6Prefix : String := "ipv6Prefix"
@[simp] abbrev jsonRoamingOdb : String := "roamingOdb"
@[simp] abbrev jsonUeUsageType : String := "ueUsageType"
@[simp] abbrev jsonRfsIndex : String := "rfspIndex"
@[simp] abbrev jsonSubsRegTimer : String := "subsRegTimer"
@[simp] abbrev jsonNotAllowedAreas : String := "NOT_ALLOWED_AREAS"
@[simp] abbrev jsonAllowedAreas : String := "ALLOWED_AREAS"
@[simp] abbrev jsonNr : String := "NR"
@[simp] abbrev jsonEutra : String := "EUTRA"
@[simp] abbrev jsonWlan : String := "WLAN"
@[simp] abbrev jsonVirtual : String := "VIRTUAL"
@[simp] abbrev json5gc : String := "5GC"
@[simp] abbrev jsonEpc : String := "EPC"
@[simp] abbrev jsonOutsideHomePlmn : String := "OUTSIDE_HOME_PLMN"
@[simp] abbrev jsonOutsideHomePlmnCountry : String := "OUTSIDE_HOME_PLMN_COUNTRY"
@[simp] abbrev jsonUdmSliceData : String := "udmSliceData"

/-! ## ProvJournal -/

@[simp] abbrev jsonProvJournal : String := "provJournal"
@[simp] abbrev jsonNotifRef : String := "notifRef"
@[simp] abbrev jsonImsi : String := "imsi"
@[simp] abbrev jsonImsiMask : String := "imsiMask"
@[simp] abbrev jsonImsiExtMask : String := "imsiExtMask"
@[simp] abbrev jsonMsisdn : String := "msisdn"
@[simp] abbrev jsonMsisdnMask : String := "msisdnMask"
@[simp] abbrev jsonMsisdnExtMask : String := "msisdnExtMask"
@[simp] abbrev jsonImsiAux : String := "imsiAux"
@[simp] abbrev jsonImsiAuxMask : String := "imsiAuxMask"
@[simp] abbrev jsonImsiAuxExtMask : String := "imsiAuxExtMask"
@[simp] abbrev jsonImpi : String := "impi"
@[simp] abbrev jsonImpiMask : String := "impiMask"
@[simp] abbrev jsonImpiExtMask : String := "impiExtMask"
@[simp] abbrev jsonSecImpi : String := "secImpi"
@[simp] abbrev jsonImpiAux : String := "impiAux"
@[simp] abbrev jsonUsername : String := "username"
@[simp] abbrev jsonUsernameMask : String := "usernameMask"
@[simp] abbrev jsonUsernameExtMask : String := "usernameExtMask"
@[simp] abbrev jsonImsichoStatus : String := "imsiChoStatus"
@[simp] abbrev jsonImsiExpiryDate : String := "imsiExpiryDate"
@[simp] abbrev jsonImsichoExec : String := "imsiChoExec"
@[simp] abbrev jsonImpuchoIds : String := "impuChoIds"
@[simp] abbrev jsonMscIdAux : String := "mscIdAux"
@[simp] abbrev jsonNotifInfo : String := "notifInfo"
@[simp] abbrev jsonUeFunctionMask : String := "ueFunctionMask"
@[simp] abbrev jsonExtIdList : String := "extIdList"
@[simp] abbrev jsonNai : String := "nai"
@[simp] abbrev jsonNaiMask : String := "naiMask"
@[simp] abbrev jsonNaiExtMask : String := "naiExtMask"
@[simp] abbrev jsonSubsIdList : String := "subsIdList"
@[simp] abbrev jsonSubsId : String := "id"
@[simp] abbrev jsonSubsPrefix : String := "prefix"

/-! ## UdmSliceProfile -/

@[simp] abbrev jsonUdmSliceProfiles : String := "udmSliceProfiles"
@[simp] abbrev jsonPlmnIdSets : String := "plmnIdSets"
@[simp] abbrev jsonPlmnIdSetIdentifier : String := "plmnIdSetIdentifier"
@[simp] abbrev jsonDefaultSingleNssais : String := "defaultSingleNssais"
@[simp] abbrev jsonDnnListId : String := "dnnListId"
@[simp] abbrev jsonSingleNssais : String := "singleNssais"
@[simp] abbrev jsonDnnLists : String := "dnnLists"
@[simp] abbrev jsonDnnDataList : String := "dnnDataList"
@[simp] abbrev jsonDefaultDnnIndicator : String := "defaultDnnIndicator"
@[simp] abbrev jsonLboRoamingAllowed : String := "lboRoamingAllowed"
@[simp] abbrev jsonIwkEpsInd : String := "iwkEpsInd"
@[simp] abbrev jsonLadnIndicator : String := "ladnIndicator"
@[simp] abbrev jsonPduSessionTypes : String := "pduSessionTypes"
@[simp] abbrev jsonDefaultSessionType : String := "defaultSessionType"
@[simp] abbrev jsonAllowedSessionTypes : String := "allowedSessionTypes"
@[simp] abbrev jsonSscModes : String := "sscModes"
@[simp] abbrev jsonDefaultSscMode : String := "defaultSscMode"
@[simp] abbrev jsonAllowedSscModes : String := "allowedSscModes"
@[simp] abbrev json5gQosProfile : String := "5gQosProfile"
@[simp] abbrev json5qi : String := "5qi"
@[simp] abbrev jsonArp : String := "arp"
@[simp] abbrev jsonPriorityLevel : String := "priorityLevel"
@[simp] abbrev jsonPreemptcap : String := "preemptCap"
@[simp] abbrev jsonPreemptvuln : String := "preemptVuln"
@[simp] abbrev jsonSessionAmbr : String := "sessionAmbr"
@[simp] abbrev json3gppChargingCharacteristics : String := "3gppChargingCharacteristics"
@[simp] abbrev jsonUpSecurity : String := "upSecurity"
@[simp] abbrev jsonUpIntegr : String := "upIntegr"
@[simp] abbrev jsonUpConfid : String := "upConfid"
@[simp] abbrev jsonSscMode1 : String := "SSC_MODE_1"
@[simp] abbrev jsonSscMode2 : String := "SSC_MODE_2"
@[simp] abbrev jsonSscMode3 : String := "SSC_MODE_3"
@[simp] abbrev jsonIpv4 : String := "IPV4"
@[simp] abbrev jsonIpv6 : String := "IPV6"
@[simp] abbrev jsonIpv4V6 : String := "IPV4V6"
@[simp] abbrev jsonUnstructured : String := "UNSTRUCTURED"
@[simp] abbrev jsonEthernet : String := "ETHERNET"
@[simp] abbrev jsonNotPreempt : String := "NOT_PREEMPT"
@[simp] abbrev jsonMayPreempt : String := "MAY_PREEMPT"
@[simp] abbrev jsonNotPreemptable : String := "NOT_PREEMPTABLE"
@[simp] abbrev jsonPreemptable : String := "PREEMPTABLE"
@[simp] abbrev jsonRequired : String := "REQUIRED"
@[simp] abbrev jsonPreferred : String := "PREFERRED"
@[simp] abbrev jsonNotNeeded : String := "NOT_NEEDED"
@[simp] abbrev jsonSmfList : String := "smfList"
@[simp] abbrev jsonSameSmfInd : String := "sameSmfInd"

/-! ## UdmRoamingArea -/

@[simp] abbrev jsonUdmRoamingAreas : String := "udmRoamingAreas"
@[simp] abbrev jsonUdmRoamingAreaId : String := "udmRoamingAreaId"
@[simp] abbrev jsonAreaList : String := "areaList"
@[simp] abbrev jsonTacs : String := "tacs"
@[simp] abbrev jsonAreaCode : String := "areaCodes"

/-! ## SmsSubscription -/

@[simp] abbrev jsonSmsStaticData : String := "smsStaticData"
@[simp] abbrev jsonSmsSubscriptionData : String := "smsSubscriptionData"
@[simp] abbrev jsonSmsManagementSubscriptionData : String := "smsManagementSubscriptionData"
@[simp] abbrev jsonSmsSubscribed : String := "smsSubscribed"
@[simp] abbrev jsonMtSmsSubscribed : String := "mtSmsSubscribed"
@[simp] abbrev jsonMtSmsBarringAll : String := "mtSmsBarringAll"
@[simp] abbrev jsonMtSmsBarringRoaming : String := "mtSmsBarringRoaming"
@[simp] abbrev jsonMoSmsSubscribed : String := "moSmsSubscribed"
@[simp] abbrev jsonMoSmsBarringAll : String := "moSmsBarringAll"
@[simp] abbrev jsonMoSmsBarringRoaming : String := "moSmsBarringRoaming"

/-! ## HTTP codes -/

@[simp] abbrev httpOk : Nat := 200
@[simp] abbrev httpBadRequest : Nat := 400
@[simp] abbrev httpConflict : Nat := 409
@[simp] abbrev httpUnprocessableEntity : Nat := 422
@[simp] abbrev httpInternalServerError : Nat := 500

end ProvisioningValidator
