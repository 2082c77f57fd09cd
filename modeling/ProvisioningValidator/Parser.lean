import Mathlib
import ProvisioningValidator.Paths
import ProvisioningValidator.StaticReaders

/-!
# The parser

`ValidatorRapidJsonParser`, from the remaining readers of resources up to `getValidationData`. The
loop over the members of a change interprets each member as it meets it: `data` is read under the
`resource_path` met so far, by every reader whose keyword that path contains.
-/

namespace ProvisioningValidator

open Lib

variable {V : Type} (val : Json → V) (resourcePath : String)

/-! ## Roaming areas -/

/-- An element of `areaList`, once it is known to be an object: `areaCodes` if it is there, `tacs`
otherwise. -/
def getAreaList : Reader (AreaList V) := .inOrder [
  .into (·.vendorSpecific) (fun m e => { e with vendorSpecific := m }) (getVendorSpecific val),
  fun v e => Reader.firstMember
    (Reader.mandatory resourcePath
      ("Mandatory fields:[" ++ jsonAreaCode ++ "] or [" ++ jsonTacs ++ "] not found") e) [
    (jsonAreaCode,
      (Reader.string resourcePath jsonAreaCode (fun s e => { e with area := .areaCode s }) · e)),
    (jsonTacs,
      (Reader.strings resourcePath jsonTacs (fun ss e => { e with area := .tacs ss }) · e))] v]

/-- `getUdmRoamingAreas`. -/
def getUdmRoamingAreas : Reader (UdmRoamingArea V) := .inOrder [
  .into (·.vendorSpecific) (fun m e => { e with vendorSpecific := m }) (getVendorSpecific val),
  .ifMember jsonUdmRoamingAreaId
    (.string resourcePath jsonUdmRoamingAreaId fun s e => { e with udmRoamingAreaId := s })
    Reader.skip,
  .ifMember jsonAreaList
    (.array resourcePath jsonAreaList
      (Reader.objectElement resourcePath jsonAreaList <|
        Reader.fresh {} (getAreaList val resourcePath))
      fun as e => { e with areaList := as }) Reader.skip]

/-! ## SMS subscriptions -/

/-- `setOptionalBooleanField`: whether the flag is set says whether a truth value was there. -/
def setOptionalBooleanField (fieldName : String) (setFlag : Bool → SmsStaticData V → SmsStaticData V)
    (put : Bool → SmsStaticData V → SmsStaticData V) : Reader (SmsStaticData V) :=
  .ifMember fieldName
    (fun v e =>
      match asBool v with
      | some b => return setFlag true (put b e)
      | none => do
        addError resourcePath (notBoolFieldError fieldName)
        return setFlag false e)
    (Reader.without (setFlag false))

/-- The object of `getSmsSubscriptionData`, once it is known to be one. -/
def getSmsSubscriptionDataObject : Reader (SmsStaticData V) := .inOrder [
  setOptionalBooleanField resourcePath jsonSmsSubscribed
    (fun b e => { e with fieldExistenceSmsStaticData.hasSmsSubscribed := b })
    (fun b e => { e with smsSubscriptionData.smsSubscribed := some b }),
  .into (·.smsSubscriptionData.vendorSpecific)
    (fun m e => { e with smsSubscriptionData.vendorSpecific := m }) (getVendorSpecific val)]

/-- The object of `getSmsManagementSubscriptionData`, once it is known to be one. -/
def getSmsManagementSubscriptionDataObject : Reader (SmsStaticData V) := .inOrder [
  setOptionalBooleanField resourcePath jsonMtSmsSubscribed
    (fun b e => { e with fieldExistenceSmsStaticData.hasMtSmsSubscribed := b })
    (fun b e => { e with smsManagementSubscriptionData.mtSmsSubscribed := some b }),
  setOptionalBooleanField resourcePath jsonMtSmsBarringAll
    (fun b e => { e with fieldExistenceSmsStaticData.hasMtSmsBarringAll := b })
    (fun b e => { e with smsManagementSubscriptionData.mtSmsBarringAll := some b }),
  setOptionalBooleanField resourcePath jsonMtSmsBarringRoaming
    (fun b e => { e with fieldExistenceSmsStaticData.hasMtSmsBarringRoaming := b })
    (fun b e => { e with smsManagementSubscriptionData.mtSmsBarringRoaming := some b }),
  setOptionalBooleanField resourcePath jsonMoSmsSubscribed
    (fun b e => { e with fieldExistenceSmsStaticData.hasMoSmsSubscribed := b })
    (fun b e => { e with smsManagementSubscriptionData.moSmsSubscribed := some b }),
  setOptionalBooleanField resourcePath jsonMoSmsBarringAll
    (fun b e => { e with fieldExistenceSmsStaticData.hasMoSmsBarringAll := b })
    (fun b e => { e with smsManagementSubscriptionData.moSmsBarringAll := some b }),
  setOptionalBooleanField resourcePath jsonMoSmsBarringRoaming
    (fun b e => { e with fieldExistenceSmsStaticData.hasMoSmsBarringRoaming := b })
    (fun b e => { e with smsManagementSubscriptionData.moSmsBarringRoaming := some b }),
  .into (·.smsManagementSubscriptionData.vendorSpecific)
    (fun m e => { e with smsManagementSubscriptionData.vendorSpecific := m })
    (getVendorSpecific val)]

/-- `getSmsSubscriptionData` and `getSmsManagementSubscriptionData`, with the assignment of what
they return: an optional object whose flag is set if it was there and was an object. -/
def getSmsObject (key : String) (setFlag : Bool → SmsStaticData V → SmsStaticData V)
    (r : Reader (SmsStaticData V)) : Reader (SmsStaticData V) :=
  .ifMember key
    (fun v e =>
      if v.IsObject then do
        let e ← r v e
        return setFlag true e
      else do
        addError resourcePath (notObjectFieldError key)
        return setFlag false e)
    (Reader.without (setFlag false))

/-- `getOptionalSmsStaticData`. -/
def getOptionalSmsStaticData : Reader (SmsStaticData V) := .inOrder [
  .into (·.vendorSpecific) (fun m e => { e with vendorSpecific := m }) (getVendorSpecific val),
  getSmsObject resourcePath jsonSmsSubscriptionData
    (fun b e => { e with fieldExistenceSmsStaticData.hasSmsSubscriptionData := b })
    (getSmsSubscriptionDataObject val resourcePath),
  getSmsObject resourcePath jsonSmsManagementSubscriptionData
    (fun b e => { e with fieldExistenceSmsStaticData.hasSmsManagementSubscriptionData := b })
    (getSmsManagementSubscriptionDataObject val resourcePath)]

/-! ## The provisioning journal -/

/-- `getString`: the text of a member, empty if there is none of that kind. -/
def getString (attrData : Json) (key : String) : ParserM String := do
  match ← Run.lift (attrData.findMember key) with
  | some w => return (asString w).getD ""
  | none => return ""

/-- `provJournal.field = getString(attrData, key)` -/
def journalString (key : String) (put : String → ProvJournal → ProvJournal) :
    Reader ProvJournal := fun attrData e => do
  let s ← getString attrData key
  return put s e

/-- A list of texts; what is not a text is passed over. -/
def journalStrings (key : String) (put : List String → ProvJournal → ProvJournal) :
    Reader ProvJournal :=
  .ifMember key
    (fun v e =>
      match asArray v with
      | some xs => return put (xs.filterMap asString) e
      | none => return e) Reader.skip

/-- `subsId.field = itr->value.GetString()`, without a test. -/
def getSubsIdMember (key : String) (put : String → SubscriberIdentitiesId → SubscriberIdentitiesId) :
    Reader SubscriberIdentitiesId :=
  .ifMember key
    (fun v e => do
      let s ← Run.lift v.getString
      return put s e) Reader.skip

/-- An element of `subsIdList`; what is not an object is passed over. -/
def getSubsId (v : Json) : ParserM (Option SubscriberIdentitiesId) :=
  if v.IsObject then
    Reader.fresh {} (.inOrder [
      getSubsIdMember jsonSubsId fun s e => { e with id := s },
      getSubsIdMember jsonSubsPrefix fun s e => { e with subsPrefix := s }]) v
  else return none

/-- `getProvJournal`. -/
def getProvJournal : Reader ProvJournal := .inOrder [
  journalString jsonNotifRef fun s e => { e with notifRef := s },
  journalString jsonImsi fun s e => { e with imsi := s },
  journalString jsonImsiMask fun s e => { e with imsiMask := s },
  journalString jsonImsiExtMask fun s e => { e with imsiExtMask := s },
  journalString jsonMsisdn fun s e => { e with msisdn := s },
  journalString jsonMsisdnMask fun s e => { e with msisdnMask := s },
  journalString jsonMsisdnExtMask fun s e => { e with msisdnExtMask := s },
  journalString jsonImsiAux fun s e => { e with imsiAux := s },
  journalString jsonImsiAuxMask fun s e => { e with imsiAuxMask := s },
  journalString jsonImsiAuxExtMask fun s e => { e with imsiAuxExtMask := s },
  journalString jsonImpi fun s e => { e with impi := s },
  journalString jsonImpiMask fun s e => { e with impiMask := s },
  journalString jsonImpiExtMask fun s e => { e with impiExtMask := s },
  journalString jsonSecImpi fun s e => { e with secImpi := s },
  journalString jsonImpiAux fun s e => { e with impiAux := s },
  journalString jsonUsername fun s e => { e with username := s },
  journalString jsonUsernameMask fun s e => { e with usernameMask := s },
  journalString jsonUsernameExtMask fun s e => { e with usernameExtMask := s },
  .ifMember jsonImsichoStatus
    (fun v e =>
      match asInt v with
      | some n => return { e with imsiChoStatus := some n }
      | none => return e) Reader.skip,
  journalString jsonImsiExpiryDate fun s e => { e with imsiExpiryDate := s },
  journalString jsonImsichoExec fun s e => { e with imsiChoExec := s },
  journalStrings jsonImpuchoIds fun ss e => { e with impuChoIds := e.impuChoIds ++ ss },
  journalString jsonMscIdAux fun s e => { e with mscIdAux := s },
  journalString jsonNotifInfo fun s e => { e with notifInfo := s },
  journalString jsonUeFunctionMask fun s e => { e with ueFunctionMask := s },
  journalStrings jsonExtIdList fun ss e => { e with extIdList := e.extIdList ++ ss },
  journalString jsonNai fun s e => { e with nai := s },
  journalString jsonNaiMask fun s e => { e with naiMask := s },
  journalString jsonNaiExtMask fun s e => { e with naiExtMask := s },
  .ifMember jsonSubsIdList
    (fun v e =>
      match asArray v with
      | some xs => do
        let ids ← Run.collect getSubsId xs
        return { e with subsIdList := e.subsIdList ++ ids }
      | none => return e) Reader.skip]

/-! ## Related resources -/

/-- One member of `relatedResources`: the last segment of its path decides before a keyword
anywhere in it does. A path with none of them is passed over. -/
def getRelatedResource (resourcePath : String) (value : Json) : ParserM (Option (Resource V)) :=
  if endsWith resourcePath jsonUdmStaticData = true then do
    let e ← getUdmStaticData val resourcePath value {}
    return some (.udmStaticData e)
  else if endsWith resourcePath jsonProvJournal = true then do
    let e ← getProvJournal value {}
    return some (.provJournal e)
  else if contains resourcePath jsonUdmSliceProfiles = true then do
    let e ← getUdmSliceProfile val resourcePath value {}
    return some (.udmSliceProfile e)
  else if contains resourcePath jsonUdmRoamingAreas = true then do
    let e ← getUdmRoamingAreas val resourcePath value {}
    return some (.udmRoamingArea e)
  else if contains resourcePath jsonSmsStaticData = true then do
    let e ← getOptionalSmsStaticData val resourcePath value {}
    return some (.smsStaticData e)
  else return none

/-- A member of `relatedResources` under the path it is kept by. -/
def getRelatedMember (it : String × Json) : ParserM (Option (String × Resource V)) := do
  let resource ← getRelatedResource val (cstr it.1) it.2
  return resource.map (cstr it.1, ·)

/-- `getRelatedResources`. `insert` leaves a path that is there already. -/
def getRelatedResources (rJsonDoc : Json) : ParserM (RelatedResources V) := do
  match ← Run.lift (rJsonDoc.findMember jsonRelatedResources) with
  | some resourcesList => do
    let members ← Run.lift resourcesList.members
    let resources ← Run.collect (getRelatedMember val) members
    return OrdMap.emplaceAll ∅ resources
  | none => return ∅

/-! ## Changes -/

/-- `if (resourcePath.find(keyword) != npos) { get..(attrData, change.entity, ..) }` -/
def getIfNamed {E : Type} (keyword : String) (get : Change V → E) (put : E → Change V → Change V)
    (reader : String → Reader E) (attrData : Json) (change : Change V) : ParserM (Change V) :=
  if contains change.resourcePath keyword = true then do
    let e ← reader change.resourcePath attrData (get change)
    return put e change
  else pure change

/-- The member `data` of a change, read by every reader that the path so far calls for. -/
def getChangeData (attrData : Json) (change : Change V) : ParserM (Change V) := do
  let change ← getIfNamed jsonSmsStaticData (·.smsStaticData)
    (fun e c => { c with smsStaticData := e }) (getOptionalSmsStaticData val) attrData change
  let change ← getIfNamed jsonUdmStaticData (·.udmStaticData)
    (fun e c => { c with udmStaticData := e }) (getUdmStaticData val) attrData change
  let change ← getIfNamed jsonUdmSliceProfiles (·.udmSliceProfile)
    (fun e c => { c with udmSliceProfile := e }) (getUdmSliceProfile val) attrData change
  getIfNamed jsonUdmRoamingAreas (·.udmRoamingArea)
    (fun e c => { c with udmRoamingArea := e }) (getUdmRoamingAreas val) attrData change

/-- What `operation` is set to, unless the parser gives up. -/
def getOperation (value : Json) : ParserM (Option String) :=
  match asString value with
  | some operation =>
    if operation = "" then do
      setParsingError (emptyFieldError jsonOperation)
      return none
    else if operation ≠ jsonOperationCreate ∧ operation ≠ jsonOperationUpdate ∧
        operation ≠ jsonOperationDelete then do
      setParsingError
        "operation value is not allowed. It should be either: CREATE, UPDATE or DELETE"
      return none
    else return some operation
  | none => do
    setParsingError (jsonOperation ++ " is not string")
    return none

/-- What `resourcePath` is set to, unless the parser gives up. -/
def getResourcePath (value : Json) : ParserM (Option String) :=
  match asString value with
  | some path =>
    if path = "" then do
      setParsingError (emptyFieldError jsonResourcePath)
      return none
    else return some path
  | none => do
    setParsingError (jsonResourcePath ++ " is not string")
    return none

/-- The members of one change, from the one on whose predecessors have left `change`. There is no
change when the parser gives up. -/
def getChange (change : Change V) : List (String × Json) → ParserM (Option (Change V))
  | [] => pure (some change)
  | (name, value) :: members =>
    if cstr name = jsonOperation then do
      match ← getOperation value with
      | some operation => getChange { change with operation } members
      | none => return none
    else if cstr name = jsonResourcePath then do
      match ← getResourcePath value with
      | some resourcePath => getChange { change with resourcePath } members
      | none => return none
    else if cstr name = jsonData then
      if value.IsObject then do
        let change ← getChangeData val value change
        getChange change members
      else do
        setParsingError (jsonData ++ " is not an object")
        return none
    else getChange change members

/-- The elements of `changes`: whether all were read, and those that were. -/
def getChanges : List Json → ParserM (Bool × List (Change V))
  | [] => pure (true, [])
  | .obj members :: rest => do
    match ← getChange val {} members with
    | some change => do
      let r ← getChanges rest
      return (r.1, change :: r.2)
    | none => return (false, [])
  | _ :: _ => do
    setParsingError "change is not an object"
    return (false, [])

/-- `getChangesToValidate`. -/
def getChangesToValidate (rJsonDoc : Json) : ParserM (Bool × List (Change V)) := do
  match ← Run.lift (rJsonDoc.findMember jsonChanges) with
  | some changesList =>
    match asArray changesList with
    | some changes => getChanges val changes
    | none => do
      setParsingError (jsonChanges ++ " is not a list")
      return (false, [])
  | none => return (true, [])

/-! ## The whole request -/

/-- What `getValidationData` leaves behind besides the recorded events: its result, the changes
and the related resources. -/
structure ValidationData (V : Type) where
  ret : Bool
  changes : List (Change V) := []
  relatedResources : RelatedResources V := ∅

/-- `getValidationData`, on a document that was well-formed JSON. -/
def getValidationData (rJsonDoc : Json) : ParserM (ValidationData V) := do
  let (ok, changes) ← getChangesToValidate val rJsonDoc
  if ok = true then do
    let relatedResources ← getRelatedResources val rJsonDoc
    return { ret := true, changes, relatedResources }
  else return { ret := false, changes }

/-- The parser of a request body, `none` where it is not well-formed JSON: its constructor, and then
`getValidationData`. -/
def parse : Option Json → ParserM (ValidationData V)
  | none => do
    setParsingError "wrong json format"
    return { ret := false }
  | some rJsonDoc => getValidationData val rJsonDoc

/-- `errorString()`: what went to the flag last. -/
def errorString (events : List Event) : String :=
  events.foldl (fun s event =>
    match event with
    | .parsingError err => err
    | .error _ => s) ""

/-- `response.errors` after the parser is done. -/
def recordedErrors (events : List Event) : List Error :=
  events.filterMap fun
    | .error e => some e
    | .parsingError _ => none

end ProvisioningValidator
