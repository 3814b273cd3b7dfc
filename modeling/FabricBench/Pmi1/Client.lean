import FabricBench.Lib.Stdio
import FabricBench.Pmi1.Keyvals
import FabricBench.Pmi1.Wire

/-!
The client of the process manager, `simple_pmi.c`, and `pmi_wrapper.c` on top of it.

Owns: the statics of both files, and their functions as programs that write requests,
wait for replies and look values up in them. The arrays that a function declares are
taken as empty until something is copied into them.

Does not own: connecting to the process manager through `PMI_PORT`, and the processes
and sockets that a singleton starts; of `PMII_singinit` there is what the parent does on
the connection it has accepted.
-/

namespace FabricBench.Pmi1

open FabricBench.Lib
open FabricBench.Lib.Stdio (Arg sprintf scanDec)

/-- `PMIState`. -/
inductive PmiState where
  | uninitialized
  | singletonInitButNoPm
  | normalInitWithPm
  | singletonInitWithPm
deriving DecidableEq, Repr

/-- `PMI_initialized > SINGLETON_INIT_BUT_NO_PM`. -/
def PmiState.hasPm (state : PmiState) : Bool :=
  state = .normalInitWithPm || state = .singletonInitWithPm

/-- The variables that `PMI_Init` reads. -/
structure Env where
  pmiFd : Option (List Char)
  pmiSize : Option (List Char)
  pmiRank : Option (List Char)
  pmiTotalview : Option (List Char)
deriving DecidableEq, Repr

/-- The statics of `simple_pmi.c` and `pmi_wrapper.c`, the process's own number, and the
connection that a singleton accepts. -/
structure Statics where
  fd : Int
  size : Int
  rank : Int
  initialized : PmiState
  kvsnameMax : Int
  keylenMax : Int
  vallenMax : Int
  totalview : Int
  cachedKey : List Char
  cachedVal : List Char
  firstcall : Bool
  singinitKvsname : List Char
  name : List Char
  pid : BitVec 32
  accepts : Option Int
deriving DecidableEq, Repr

/-- With the connection and the table of `simple_pmiutil.c`, and whether the descriptor of
the connection has been closed. No other file takes its number then. -/
structure Client where
  wire : Wire
  keyvalTab : KeyvalTab
  statics : Statics
  closed : Bool
deriving DecidableEq, Repr

/-- The statics as they are initialised. -/
def Statics.start (pid : BitVec 32) (accepts : Option Int) : Statics where
  fd := -1
  size := 1
  rank := 0
  initialized := .uninitialized
  kvsnameMax := 0
  keylenMax := 0
  vallenMax := 0
  totalview := 0
  cachedKey := []
  cachedVal := []
  firstcall := true
  singinitKvsname := []
  name := []
  pid := pid
  accepts := accepts

def Client.channel : Channel Client Char where
  heard c := c.wire.heard
  said c := c.wire.sent

def getStatic {α : Type} (read : Statics → α) : Io Client α := Io.gets fun c => read c.statics

def setStatics (change : Statics → Statics) : Io Client Unit :=
  Io.modify fun c => { c with statics := change c.statics }

def pmiFail : Int := -1

def atoi (text : List Char) : Int :=
  match scanDec text with
  | some (v, _) => v.toInt
  | none => 0

/-- `snprintf(buf, size, format, ...)`. -/
def snprintf (size : Nat) (format : String) (args : List Arg) : List Char :=
  (sprintf format args).take (size - 1)

/-! ## Lines and pairs -/

/-- On a closed descriptor `read` and `write` fail with `EBADF`, and what was to come in
does not. -/
def Client.onClosed {α : Type} (program : Io Wire α) (c : Client) : Outcome Client α :=
  let kept (wire : Wire) : Client :=
    { c with wire := { wire with reads := c.wire.reads, writes := c.wire.writes } }
  match program { c.wire with reads := [.error .other], writes := [.error .other] } with
  | .done value wire => .done value (kept wire)
  | .blocked wire => .blocked (kept wire)
  | .undefined => .undefined

def onWire {α : Type} (program : Io Wire α) : Io Client α := fun c =>
  if c.closed then c.onClosed program
  else
    match program c.wire with
    | .done value wire => .done value { c with wire := wire }
    | .blocked wire => .blocked { c with wire := wire }
    | .undefined => .undefined

/-- `shutdown` and `close` of `PMI_fd`. -/
def closeFd : Io Client Unit := Io.modify fun c => { c with closed := true }

def writeline (buf : List Char) : Io Client Int := onWire (pmiuWriteline buf)

def readline : Io Client (Int × List Char) := fun c =>
  onWire (pmiuReadline c.statics.fd pmiuMaxline []) c

def parseKeyvals (st : List Char) : Io Client Int := fun c =>
  match pmiuParseKeyvals st with
  | none => .undefined
  | some (rc, tab) => .done rc { c with keyvalTab := tab }

def getval (keystr : String) (valstr : List Char) (vallen : Nat) : Io Client (Bool × List Char) :=
  Io.gets fun c => pmiuGetval c.keyvalTab keystr.toList valstr vallen

/-- `getval` into an array of a line's length. -/
def getvalLine (keystr : String) : Io Client (Bool × List Char) := getval keystr [] pmiuMaxline

/-- The checks of `GetResponse` on the pairs of the reply. -/
def checkResponse (expectedCmd : String) (checkRc : Bool) : Io Client Int := do
  let (found, cmdName) ← getvalLine "cmd"
  if !found then pure pmiFail
  else if expectedCmd.toList ≠ cmdName then pure pmiFail
  else if checkRc then do
    let (found, rc) ← getvalLine "rc"
    if found ∧ rc ≠ "0".toList then pure pmiFail else pure 0
  else pure 0

def getResponse (request : List Char) (expectedCmd : String) (checkRc : Bool) : Io Client Int := do
  let err ← writeline request
  if err ≠ 0 then pure err
  else do
    let (n, recvbuf) ← readline
    if n ≤ 0 then pure pmiFail
    else do
      let err ← parseKeyvals recvbuf
      if err ≠ 0 then pure err else checkResponse expectedCmd checkRc

/-! ## `PMI_Init` -/

/-- It returns. -/
def pmiAbort (exitCode : BitVec 32) : Io Client Int := do
  let _ ← getResponse (snprintf pmiuMaxline "cmd=abort exitcode=%d\n" [.int exitCode]) "" false
  pure (-1)

/-- The reply to the initialisation: a reply of another kind or version aborts the job. -/
def checkInit : Io Client Unit := do
  let (_, cmd) ← getvalLine "cmd"
  if cmd ≠ "response_to_init".toList then do
    let _ ← pmiAbort (-1)
  else do
    let (_, rc) ← getvalLine "rc"
    if rc ≠ "0".toList then do
      let _ ← pmiAbort (-1)
    else pure ()

/-- The rest of `PMII_getmaxes` after the handshake. -/
def askMaxes : Io Client Int := do
  let err ← getResponse "cmd=get_maxes\n".toList "maxes" false
  if err = 0 then do
    let (_, kvsnameMax) ← getvalLine "kvsname_max"
    let (_, keylenMax) ← getvalLine "keylen_max"
    let (_, vallenMax) ← getvalLine "vallen_max"
    setStatics fun v => { v with
      kvsnameMax := atoi kvsnameMax, keylenMax := atoi keylenMax, vallenMax := atoi vallenMax }
    pure err
  else pure err

def pmiiGetmaxes : Io Client Int := do
  let rc ← writeline (snprintf pmiuMaxline "cmd=init pmi_version=%d pmi_subversion=%d\n"
    [.int 1, .int 1])
  if rc ≠ 0 then pure pmiFail
  else do
    let (err, buf) ← readline
    let _ ← if err < 0 then pmiAbort (-1) else pure 0
    let _ ← parseKeyvals buf
    checkInit
    askMaxes

/-- `getPMIFD` without `PMI_PORT`. -/
def getPmiFd (env : Env) : Int :=
  match env.pmiFd with
  | some p => atoi p
  | none => -1

/-- A debugger is waited for before the handshake. -/
def waitTotalview : Io Client Int := do
  let totalview ← getStatic Statics.totalview
  if totalview ≠ 0 then do
    let (_, buf) ← readline
    let _ ← parseKeyvals buf
    let (_, cmd) ← getvalLine "cmd"
    if cmd ≠ "tv_ready".toList then pure pmiFail else pure 0
  else pure 0

def pmiInit (env : Env) : Io Client Int := do
  setStatics fun v => { v with initialized := .uninitialized, fd := getPmiFd env }
  let fd ← getStatic Statics.fd
  if fd = -1 then do
    setStatics fun v => { v with
      size := 1, rank := 0, initialized := .singletonInitButNoPm,
      kvsnameMax := 256, keylenMax := 256, vallenMax := 256 }
    pure 0
  else do
    setStatics fun v => { v with
      size := (env.pmiSize.map atoi).getD 1
      rank := (env.pmiRank.map atoi).getD 0
      totalview := (env.pmiTotalview.map atoi).getD v.totalview }
    let err ← waitTotalview
    if err ≠ 0 then pure err
    else do
      let _ ← pmiiGetmaxes
      setStatics fun v => { v with initialized := .normalInitWithPm }
      pure 0

def pmiGetSize : Io Client Int :=
  getStatic fun v => if v.initialized = .uninitialized then 1 else v.size

def pmiGetRank : Io Client Int :=
  getStatic fun v => if v.initialized = .uninitialized then 0 else v.rank

/-! ## Barriers and the key-value space -/

def pmiBarrier : Io Client Int := do
  let initialized ← getStatic Statics.initialized
  if initialized.hasPm then getResponse "cmd=barrier_in\n".toList "barrier_out" false else pure 0

/-- The connection is closed afterwards, whatever the reply. -/
def pmiFinalize : Io Client Int := do
  let initialized ← getStatic Statics.initialized
  if initialized.hasPm then do
    let err ← getResponse "cmd=finalize\n".toList "finalize_ack" false
    closeFd
    pure err
  else pure 0

def pmiKvsGetMyName (kvsname : List Char) (length : Nat) : Io Client (Int × List Char) := do
  let initialized ← getStatic Statics.initialized
  if initialized = .singletonInitButNoPm then do
    let pid ← getStatic Statics.pid
    pure (0, snprintf length "singinit_kvs_%d_0" [.int pid])
  else do
    let err ← getResponse "cmd=get_my_kvsname\n".toList "my_kvsname" false
    if err = 0 then do
      let (_, kvsname) ← getval "kvsname" kvsname length
      pure (err, kvsname)
    else pure (err, kvsname)

/-- A singleton keeps what it has put last. -/
def cachePut (key value : List Char) : Io Client Int := do
  let v ← getStatic id
  let copiedKey := mpiuStrncpy v.cachedKey key v.keylenMax.toNat
  setStatics fun v => { v with cachedKey := copiedKey.2 }
  if copiedKey.1 ≠ 0 then pure pmiFail
  else do
    let copiedVal := mpiuStrncpy v.cachedVal value v.vallenMax.toNat
    setStatics fun v => { v with cachedVal := copiedVal.2 }
    if copiedVal.1 ≠ 0 then pure pmiFail else pure 0

def putRequest (kvsname key value : List Char) : List Char :=
  snprintf pmiuMaxline "cmd=put kvsname=%s key=%s value=%s\n" [.str kvsname, .str key, .str value]

def getRequest (kvsname key : List Char) : List Char :=
  snprintf pmiuMaxline "cmd=get kvsname=%s key=%s\n" [.str kvsname, .str key]

def pmiKvsPut (kvsname key value : List Char) : Io Client Int := do
  let initialized ← getStatic Statics.initialized
  if initialized = .singletonInitButNoPm then cachePut key value
  else getResponse (putRequest kvsname key value) "put_result" true

/-- The parent's side of `PMII_singinit`, from the connection it has accepted on. -/
def singinitHandshake : Io Client Int := do
  let (_, buf) ← readline
  let _ ← parseKeyvals buf
  let (_, cmd) ← getvalLine "cmd"
  if cmd ≠ "singinit".toList then pure pmiFail
  else do
    let (found, authtype) ← getvalLine "authtype"
    if found ∧ authtype ≠ "none".toList then pure pmiFail
    else do
      let rc ← getResponse (snprintf pmiuMaxline
        "cmd=singinit pmi_version=%d pmi_subversion=%d stdio=yes authtype=none\n" [.int 1, .int 1])
        "singinit_info" false
      if rc ≠ 0 then pure pmiFail
      else do
        let (found, versionok) ← getvalLine "versionok"
        if found ∧ versionok ≠ "yes".toList then pure pmiFail
        else do
          let singinitKvsname ← getStatic Statics.singinitKvsname
          let (_, kvsname) ← getval "kvsname" singinitKvsname 256
          setStatics fun v => { v with singinitKvsname := kvsname }
          pure 0

def pmiiSinginit : Io Client Int := do
  let accepts ← getStatic Statics.accepts
  match accepts with
  | none => Io.block
  | some fd => do
      Io.modify fun c => { c with statics := { c.statics with fd := fd }, closed := false }
      if fd < 0 then pure pmiFail else singinitHandshake

def pmiiInitIfSingleton : Io Client Int := do
  let v ← getStatic id
  if v.initialized ≠ .singletonInitButNoPm ∨ !v.firstcall then pure 0
  else do
    setStatics fun v => { v with firstcall := false }
    let rc ← pmiiSinginit
    if rc < 0 then pure (-1)
    else do
      setStatics fun v => { v with initialized := .singletonInitWithPm, size := 1, rank := 0 }
      let _ ← pmiiGetmaxes
      let v ← getStatic id
      let _ ← pmiKvsPut v.singinitKvsname v.cachedKey v.cachedVal
      pure 0

/-- The rest of `PMI_KVS_Get` after the reply. A value that is longer than `length` allows
is cut off; `PMIU_getval` prints a line on `stderr` about it, and no error is returned. -/
def getResult (value : List Char) (length : Nat) : Io Client (Int × List Char) := do
  let (_, rc) ← getvalLine "rc"
  if atoi rc = 0 then do
    let (_, value) ← getval "value" value length
    pure (0, value)
  else pure (-1, value)

def pmiKvsGet (kvsname key value : List Char) (length : Nat) : Io Client (Int × List Char) := do
  let rc ← pmiiInitIfSingleton
  if rc ≠ 0 then pure (-1, value)
  else do
    let err ← getResponse (getRequest kvsname key) "get_result" false
    if err = 0 then getResult value length else pure (err, value)

/-! ## `pmi_wrapper.c` -/

/-- The length that is passed for `name` and for values. -/
def wrapperLength : Nat := 255

def pmiMasterInit (env : Env) : Io Client Unit := do
  let _ ← pmiInit env
  let name ← getStatic Statics.name
  let (_, name) ← pmiKvsGetMyName name wrapperLength
  setStatics fun v => { v with name := name }

/-- Every put is followed by a barrier. -/
def pmiPut (key value : List Char) : Io Client Unit := do
  let name ← getStatic Statics.name
  let _ ← pmiKvsPut name key value
  let _ ← pmiBarrier
  pure ()

/-- What is left in `value`. -/
def pmiGet (key value : List Char) : Io Client (List Char) := do
  let name ← getStatic Statics.name
  let (_, value) ← pmiKvsGet name key value wrapperLength
  pure value

end FabricBench.Pmi1
