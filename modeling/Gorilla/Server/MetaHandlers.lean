import Gorilla.Server.UniServer

/-!
# The handlers of the metadata service
-/

namespace Gorilla

open HandLock Handler

/-- The addresses of the named servers; the first id without an address throws, and what was
collected before it stays in the reply. -/
def collectAddrs (metaServerIDToAddr : AList fun _ : Int => String) (missing : Stop) :
    List ResponsibleMetaServer → List String → List String × Option Stop
  | [], addrs => (addrs, none)
  | it :: rest, addrs =>
    match metaServerIDToAddr.lookup it.m_metaServerID with
    | none => (addrs, some missing)
    | some addr => collectAddrs metaServerIDToAddr missing rest (addrs ++ [addr])

def DHTManager.addAddrs (m : DHTManager) (datawrapperList : List MetaAddrWrapper) : DHTManager :=
  { m with
    metaServerIDToAddr :=
      datawrapperList.foldl (fun addrs w => addrs.insert w.m_index w.m_addr)
        m.metaServerIDToAddr }

def updateDHT (datawrapperList : List MetaAddrWrapper) : Handler Int Unit := do
  modifyServer fun s => { s with m_dhtManager := s.m_dhtManager.addAddrs datawrapperList }
  respond 0

def getAllServerAddr : Handler (List MetaAddrWrapper) Unit := do
  let adrList := (← getServer).m_addrManager.m_endPointsLists.zipIdx.map fun it =>
    MetaAddrWrapper.mk it.2 it.1
  respond adrList

/-- The address is read before the mutex of the position is taken. -/
def AddrManager.getByRRobin : EStateM Stop AddrManager String := do
  let m ← get
  match m.m_endPointsLists[m.m_rrobinValue.toNat]? with
  | none => throw (.undefined "index past the end of m_endPointsLists")
  | some serverAddr =>
    set { m with m_rrobinValue :=
      (m.m_rrobinValue + 1) % UInt64.ofNat m.m_endPointsLists.length }
    return serverAddr

/-- Only the master hands out addresses, but nothing returns after the first reply. -/
def getaddrbyrrb : Handler String Unit := do
  if (← getServer).m_addrManager.ifMaster = false then
    respond "NOTMASTER"
  let serverAddr ← onServer
    (zoom UniServer.m_addrManager (fun m s => { s with m_addrManager := m })
      AddrManager.getByRRobin)
  respond serverAddr

/-- The answer to a client that is about to put: where the bytes go and which servers take the
descriptor. The memory is looked at and not set aside. -/
def getinfoForput (objSize : UInt64) (bbxdim : Nat) (indexlb indexub : Array3 Int) :
    Handler InfoForPut Unit := do
  let s ← getServer
  let putMethod := if s.m_schedulerManager.oktoPutMem objSize then RDMAPUT else FILEPUT
  let BBXQuery ← BBX.ofIndex bbxdim indexlb indexub
  let metaserverList ← s.m_dhtManager.getMetaServerID BBXQuery
  let (destAddrs, missing) := collectAddrs s.m_dhtManager.metaServerIDToAddr
    (.runtime_error "faild to get the coresponding server id in dhtManager") metaserverList []
  respond { m_putMethod := putMethod, m_metaServerList := destAddrs }
  if let some e := missing then
    throw e

/-- Both the normal path and the exception reply with the list as far as it was built. -/
def getmetaServerList (dims : Nat) (indexlb indexub : Array3 Int) :
    Handler (List String) Unit := do
  let s ← getServer
  match BBX.ofIndex dims indexlb indexub >>= s.m_dhtManager.getMetaServerID with
  | .error (.runtime_error _) => respond []
  | .error e => throw e
  | .ok metaserverList =>
    let (metaServerAddr, _) := collectAddrs s.m_dhtManager.metaServerIDToAddr
      (.runtime_error ("faild to get the coresponding server id in dhtManager for " ++
        "getmetaServerList")) metaserverList []
    respond metaServerAddr

/-- The reply of `getBlockDescriptorList` once the descriptors and the own box are read. -/
def respondOwnPart (step : Nat) (varName : String) (BBXQuery : BBX)
    (rdeplist : List BlockDescriptor) (own : BBX) : Handler (List BlockDescriptor) Unit := do
  match ← getOverlapBBX BBXQuery own with
  | none =>
    respond []
    throw (.runtime_error ("dht error, there should overlap between queried bbx and current " ++
      "metadata partition\n"))
  | some overlap =>
    let ifcover ← MetaDataManager.ifCovered rdeplist overlap
    if ifcover = false then
      respond []
    else
      let blockDescriptorList ←
        onMetaManager (MetaDataManager.getOverlapEndpoints step varName BBXQuery)
      respond blockDescriptorList

/-- The try block of `getBlockDescriptorList`. -/
def getBlockDescriptorListBody (step : Nat) (varName : String) (dims : Nat)
    (indexlb indexub : Array3 Int) : Handler (List BlockDescriptor) Unit := do
  let BBXQuery ← BBX.ofIndex dims indexlb indexub
  let rdeplist ← onMetaManager (MetaDataManager.getRawEndpoints step varName)
  let s ← getServer
  match s.m_dhtManager.metaServerIDToBBX.lookup s.globalRank with
  | none => throw (.undefined "null box of the own rank")
  | some own => respondOwnPart step varName BBXQuery rdeplist own

/-- A list is given out only when the registered blocks cover the server's own part of the
query. -/
def getBlockDescriptorList (step : Nat) (varName : String) (dims : Nat)
    (indexlb indexub : Array3 Int) : Handler (List BlockDescriptor) Unit :=
  catchException (getBlockDescriptorListBody step varName dims indexlb indexub) (respond [])

/-- The trigger of a new descriptor runs on the pool, after the reply or before it. An exception
while it is set up is dropped. -/
def putmetadata (step : Nat) (varName : String) (rde : BlockDescriptor) : Handler Int Unit := do
  let addTrigger := (← getServer).gloablSettings.addTrigger
  let rde := if addTrigger then { rde with m_metaStatus := .BEFOREPROCESS } else rde
  let stored ← catchException
    (do
      onMetaManager (MetaDataManager.updateMetaData step varName rde)
      return true)
    (do
      respond (-1)
      return false)
  if stored then
    if addTrigger then
      catchException (onServer (UniServer.startTimer (rde.m_rawDataID ++ "_wait"))) (return ())
    respond 0

def deleteMetaStep (out : Outside) (step : Nat) : Handler Int Unit := do
  onMetaManager (MetaDataManager.forceEraseMetaAndRawManually out.eraseRawData step)
  respond 0

/-- Nothing in the table update throws, so its handler never replies with `-1`. -/
def putTriggerInfo (triggerName : String) (dti : DynamicTriggerInfo) : Handler Int Unit := do
  modifyServer fun s => { s with m_dtmanager := s.m_dtmanager.updateTrigger triggerName dti }
  respond 0

def getEvent (triggerName : String) : Handler EventWrapper Unit := do
  let (event, m_dtmanager) := (← getServer).m_dtmanager.getEvent triggerName
  modifyServer fun s => { s with m_dtmanager := m_dtmanager }
  respond event

def watcherSetMutex : Mutex UniServer where
  held s := s.m_dtmanager.m_watcherSetMutex
  put b s := { s with m_dtmanager := { s.m_dtmanager with m_watcherSetMutex := b } }
  held_put _ _ := rfl
  put_put _ _ _ := rfl
  put_held _ := rfl

/-- `m_registeredWatcherSet.insert(watcherAddr)` -/
def insertWatcher (watcherAddr : String) (s : UniServer) : UniServer :=
  { s with m_dtmanager := { s.m_dtmanager with
      m_registeredWatcherSet := s.m_dtmanager.m_registeredWatcherSet.insert watcherAddr } }

/-- The watcher is looked up, and cached among the servers. -/
def addWatcher (out : Outside) (watcherAddr : String) : EStateM Stop UniServer Unit := do
  modify (insertWatcher watcherAddr)
  let endpoint ← raise (out.lookup watcherAddr)
  modify fun s =>
    { s with clientStaging := s.clientStaging.cacheEndpoint watcherAddr endpoint }

def watch (out : Outside) (watcherAddr triggerName : String) : EStateM Stop UniServer Unit := do
  if ((← get).m_dtmanager.m_dynamicTrigger.lookup triggerName).isSome then
    region watcherSetMutex (.blocked "m_watcherSetMutex") (addWatcher out watcherAddr)

/-- A trigger that is not registered is skipped. -/
def registerWatcher (out : Outside) (watcherAddr : String) (triggerNames : List String) :
    Handler Int Unit := do
  onServer (triggerNames.forM (watch out watcherAddr))
  respond 0

end Gorilla
