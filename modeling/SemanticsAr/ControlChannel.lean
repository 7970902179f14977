import SemanticsAr.Exemption

/-!
# Control writes

The way of a setting from the elevated channel of the user interface to the driver and of the
answer back: `ElevatedControlChannel`, the elevation host's control object, the client library
`control_client.c`, the service's `control.c` and `commclient.c`, and the driver's message
handler.  Each layer maps the result codes of the one below; `result`, which says what the
service and the driver made of the request, is looked at for additions to the whitelist only.
-/

namespace SemanticsAr

/-! ### The driver -/

/-- The answers of `SarCommMessageNotify` to control messages. -/
inductive NotifyStatus where
  | success
  | invalidDeviceState
  | invalidParameter
  | unsuccessful
deriving DecidableEq, Repr

def SEMANTICS_AR_MODE_AUDIT : UInt32 := 0
def SEMANTICS_AR_MODE_ENFORCE : UInt32 := 1

/-- What the control messages read and change: whether the handshake is complete, the tamper
    counter, the mode, the preserve store if there is one, and the exemptions. -/
structure DriverPort where
  authenticated : Bool
  tamper : Nat
  mode : UInt32
  preserve : Option Preserve
  exemptions : DriverState

variable {D : DriverPort}

inductive ControlMessage where
  | setMode (mode : UInt32)
  | setBudget (retention100ns capacityBytes : UInt64)
  | whitelistAdd (id : SarIdentity) (now : UInt64)
  | whitelistRemove (id : SarIdentity)

/-- `sar_mode_set` and `SarStateModeSet`. -/
def sarStateModeSet (D : DriverPort) (requested : UInt32) : Bool × DriverPort :=
  if requested ≠ SEMANTICS_AR_MODE_AUDIT ∧ requested ≠ SEMANTICS_AR_MODE_ENFORCE then (false, D)
  else (true, { D with mode := requested })

/-- The control messages of `SarCommMessageNotify`; each one asks for the handshake first.
    `SarPreserveSetBudget` returns nothing, so a budget is always answered with success. -/
def sarCommMessageNotify (D : DriverPort) (msg : ControlMessage) : NotifyStatus × DriverPort :=
  if D.authenticated = false then (.invalidDeviceState, { D with tamper := D.tamper + 1 })
  else
    match msg with
    | .setBudget retention100ns capacityBytes =>
      (.success,
        { D with preserve := D.preserve.map (sarPreserveSetBudget retention100ns capacityBytes) })
    | .setMode mode =>
      let r := sarStateModeSet D mode
      (if r.1 then .success else .invalidParameter, r.2)
    | .whitelistAdd id now =>
      let r := sarWhitelistAdd D.exemptions.whitelist id now
      (if r.1 = .ok then .success else .unsuccessful, { D with exemptions.whitelist := r.2 })
    | .whitelistRemove id =>
      let r := sarWhitelistRemove D.exemptions.whitelist id
      (if r.1 = .ok then .success else .unsuccessful, { D with exemptions.whitelist := r.2 })

/-! ### The service -/

/-- `sar_identity_verdict_t`. -/
inductive IdentityVerdict where
  | verified
  | unsigned
  | hashFailed
  | pathFailed
  | error
deriving DecidableEq, Repr

/-- The answers of `sar_comm_send` and of the checks in front of it. -/
inductive CommStatus where
  | ok
  | protocol
  | transport
deriving DecidableEq, Repr

def CommStatus.code : CommStatus → Int32
  | .ok => 0
  | .protocol => 5
  | .transport => 6

def SAR_CTL_RESULT_INTERPRETER : Int32 := -100

/-- The commands of `sar_control_command_t` that write. -/
inductive WriteCommand where
  | setMode (mode : UInt32)
  | setBudget (arg0 arg1 : UInt64)
  | whitelistAdd (imagePath : ImagePath)
  | whitelistRemove (imagePath : ImagePath)

variable {cmd : WriteCommand}

/-- `sar_control_reply_t`, as far as control writes fill it in. -/
structure ControlReply where
  result : Int32
  verdict : IdentityVerdict
deriving DecidableEq, Repr

def emptyReply : ControlReply := ⟨-1, .error⟩

/-- `sarapi_result_t`. -/
inductive SarapiResult where
  | ok
  | invalidArg
  | pipeUnavailable
  | accessDenied
  | serverUntrusted
  | versionMismatch
  | transportError
deriving DecidableEq, Repr

/-- The outcomes on the way: the caller check of the host, opening the pipe and looking at its
    owner, writing the command and reading the reply, the service's read, its check for an
    administrator, and its message to the driver; `evaluate` is `sar_identity_evaluate`. -/
structure ChannelEnv where
  callerValid : Bool
  pipe : SarapiResult
  server : SarapiResult
  written : Bool
  answered : Bool
  received : Bool
  admin : Bool
  port : Bool
  evaluate : List UInt16 → IdentityVerdict × SarIdentity
  now : UInt64

variable {env : ChannelEnv}

/-- `sar_comm_send`: a status of the driver that is no success fails the call. -/
def sarCommSend (env : ChannelEnv) (D : DriverPort) (msg : ControlMessage) :
    CommStatus × DriverPort :=
  if env.port = false then (.transport, D)
  else
    let r := sarCommMessageNotify D msg
    (if r.1 = .success then .ok else .transport, r.2)

def sarControlSendMode (env : ChannelEnv) (D : DriverPort) (mode : UInt32) :
    CommStatus × DriverPort :=
  if mode ≠ SEMANTICS_AR_MODE_AUDIT ∧ mode ≠ SEMANTICS_AR_MODE_ENFORCE then (.protocol, D)
  else sarCommSend env D (.setMode mode)

def commandPath (imagePath : ImagePath) : List UInt16 :=
  (imageText imagePath).take (SEMANTICS_AR_PROTO_PATH_MAX - 1)

/-- The commands of `sar_control_apply` that write. -/
def sarControlApply (env : ChannelEnv) (D : DriverPort) (cmd : WriteCommand) :
    ControlReply × DriverPort :=
  match cmd with
  | .setMode mode =>
    let r := sarControlSendMode env D mode
    (⟨r.1.code, .verified⟩, r.2)
  | .setBudget arg0 arg1 =>
    let r := sarCommSend env D (.setBudget arg0 arg1)
    (⟨r.1.code, .verified⟩, r.2)
  | .whitelistAdd imagePath =>
    let eval := env.evaluate (commandPath imagePath)
    if eval.1 ≠ .verified then (⟨-1, eval.1⟩, D)
    else if sarIdentityIsInterpreter eval.2.imagePath then
      (⟨SAR_CTL_RESULT_INTERPRETER, eval.1⟩, D)
    else
      let r := sarCommSend env D (.whitelistAdd eval.2 env.now)
      (⟨r.1.code, eval.1⟩, r.2)
  | .whitelistRemove imagePath =>
    let eval := env.evaluate (commandPath imagePath)
    if eval.1 ≠ .verified then (⟨-1, eval.1⟩, D)
    else
      let r := sarCommSend env D (.whitelistRemove eval.2)
      (⟨r.1.code, eval.1⟩, r.2)

def sarControlServe (env : ChannelEnv) (D : DriverPort) (cmd : WriteCommand) :
    ControlReply × DriverPort :=
  if env.received = false then (emptyReply, D)
  else if env.admin = false then (emptyReply, D)
  else sarControlApply env D cmd

/-! ### The client library, the host and the channel -/

/-- `control_txn`, and the functions of the library around it: they hand on `result`. -/
def controlTxn (env : ChannelEnv) (D : DriverPort) (cmd : WriteCommand) :
    SarapiResult × ControlReply × DriverPort :=
  if env.pipe ≠ .ok then (env.pipe, emptyReply, D)
  else if env.server ≠ .ok then (env.server, emptyReply, D)
  else if env.written = false then (.transportError, emptyReply, D)
  else
    let r := sarControlServe env D cmd
    if env.answered = false then (.transportError, emptyReply, r.2) else (.ok, r)

def S_OK : Int32 := 0
def E_INVALIDARG : Int32 := (0x80070057 : UInt32).toInt32
def E_ACCESSDENIED : Int32 := (0x80070005 : UInt32).toInt32
def SAR_E_PIPE_UNAVAILABLE : Int32 := (0x80040201 : UInt32).toInt32
def SAR_E_SERVER_UNTRUSTED : Int32 := (0x80040202 : UInt32).toInt32
def SAR_E_VERSION_MISMATCH : Int32 := (0x80040203 : UInt32).toInt32
def SAR_E_TRANSPORT : Int32 := (0x80040204 : UInt32).toInt32

def mapResult : SarapiResult → Int32
  | .ok => S_OK
  | .invalidArg => E_INVALIDARG
  | .accessDenied => E_ACCESSDENIED
  | .serverUntrusted => SAR_E_SERVER_UNTRUSTED
  | .versionMismatch => SAR_E_VERSION_MISMATCH
  | .pipeUnavailable => SAR_E_PIPE_UNAVAILABLE
  | .transportError => SAR_E_TRANSPORT

/-- A method of the control object: its `HRESULT`, and beside it the reply. -/
def hostCall (env : ChannelEnv) (D : DriverPort) (cmd : WriteCommand) :
    Int32 × ControlReply × DriverPort :=
  if env.callerValid = false then (E_ACCESSDENIED, emptyReply, D)
  else
    let r := controlTxn env D cmd
    (mapResult r.1, r.2)

inductive ElevatedError where
  | none
  | accessDenied
  | pipeUnavailable
  | serverUntrusted
  | versionMismatch
  | transport
  | unknown
deriving DecidableEq, Repr

/-- `ElevatedErrors.FromHResult`. -/
def fromHResult (hr : Int32) : ElevatedError :=
  if hr = 0 then .none
  else if hr = E_ACCESSDENIED then .accessDenied
  else if hr = SAR_E_PIPE_UNAVAILABLE then .pipeUnavailable
  else if hr = SAR_E_SERVER_UNTRUSTED then .serverUntrusted
  else if hr = SAR_E_VERSION_MISMATCH then .versionMismatch
  else if hr = SAR_E_TRANSPORT then .transport
  else if hr < 0 then .unknown
  else .none

/-- The writes of `ElevatedControlChannel` that report an error or none. -/
inductive ControlRequest where
  | setMode (mode : UInt32)
  | setBudget (retention100ns capacityBytes : UInt64)
  | whitelistRemove (imagePath : List UInt16)

/-- The command of a request; paths are cut to the buffer (`copy_path_in`). -/
def ControlRequest.command : ControlRequest → WriteCommand
  | .setMode mode => .setMode mode
  | .setBudget retention100ns capacityBytes => .setBudget retention100ns capacityBytes
  | .whitelistRemove imagePath => .whitelistRemove (copyWide _ imagePath)

/-- `SetMode`, `SetBudget` and `WhitelistRemove` of the channel: the error is made of the
    `HRESULT` alone. -/
def channelWrite (env : ChannelEnv) (D : DriverPort) (req : ControlRequest) :
    ElevatedError × DriverPort :=
  let r := hostCall env D req.command
  (fromHResult r.1, r.2.2)

inductive ExemptionAddResult where
  | added
  | refusedInterpreter
  | notVerified
  | channelError
deriving DecidableEq, Repr

/-- `WhitelistAdd` of the channel, which looks at the result. -/
def channelWhitelistAdd (env : ChannelEnv) (D : DriverPort) (imagePath : List UInt16) :
    ExemptionAddResult × DriverPort :=
  let r := hostCall env D (.whitelistAdd (copyWide _ imagePath))
  (if fromHResult r.1 ≠ .none then .channelError
    else if r.2.1.result = 0 then .added
    else if r.2.1.result = SAR_CTL_RESULT_INTERPRETER then .refusedInterpreter
    else if r.2.1.result = -1 then .notVerified
    else .channelError, r.2.2)

/-! ### What the driver makes of a message -/

def CarriesOut (D : DriverPort) (msg : ControlMessage) : Prop :=
  D.authenticated = true ∧
    match msg with
    | .setMode mode => mode = SEMANTICS_AR_MODE_AUDIT ∨ mode = SEMANTICS_AR_MODE_ENFORCE
    | .setBudget retention100ns capacityBytes =>
      D.preserve.isSome = true ∧ retention100ns ≠ 0 ∧ capacityBytes ≠ 0
    | .whitelistAdd id _ =>
      sarIdentityIsInterpreter id.imagePath = false ∧ D.exemptions.whitelist.lists id = false ∧
        D.exemptions.whitelist.entries.length < SAR_WHITELIST_CAPACITY
    | .whitelistRemove id => D.exemptions.whitelist.lists id = true

/-- The driver's state becomes `D'`: the one setting that the message is about is what it asks
    for, and everything else is as it was. -/
def Changed (D : DriverPort) (msg : ControlMessage) (D' : DriverPort) : Prop :=
  match msg with
  | .setMode mode => D' = { D with mode := mode }
  | .setBudget retention100ns capacityBytes =>
    D' = { D with
      preserve := D.preserve.map fun P =>
        { P with retention100ns := retention100ns, capacityBytes := capacityBytes } }
  | .whitelistAdd id now =>
    ∃ wl, wl.entries = D.exemptions.whitelist.entries ++ [⟨id, now⟩] ∧
      D' = { D with exemptions.whitelist := wl }
  | .whitelistRemove id =>
    ∃ wl, wl.entries =
        (D.exemptions.whitelist.entries.filter fun e => !identityEqual e.identity id) ∧
      D' = { D with exemptions.whitelist := wl }

section

variable {msg : ControlMessage}

theorem notify_carriedOut (h : CarriesOut D msg) :
    (sarCommMessageNotify D msg).1 = .success ∧ Changed D msg (sarCommMessageNotify D msg).2 := by
  obtain ⟨hauth, hmsg⟩ := h
  have hpass : ¬ D.authenticated = false := by simp [hauth]
  cases msg with
  | setMode mode =>
    have hvalid : ¬ (mode ≠ SEMANTICS_AR_MODE_AUDIT ∧ mode ≠ SEMANTICS_AR_MODE_ENFORCE) := by
      tauto
    simp [sarCommMessageNotify, hauth, sarStateModeSet, hvalid, Changed]
  | setBudget retention100ns capacityBytes =>
    obtain ⟨-, hretention, hcapacity⟩ := hmsg
    have hset : sarPreserveSetBudget retention100ns capacityBytes = fun P =>
        { P with retention100ns := retention100ns, capacityBytes := capacityBytes } := by
      funext P
      simp [sarPreserveSetBudget, hretention, hcapacity]
    simp [sarCommMessageNotify, hauth, Changed, hset]
  | whitelistAdd id now =>
    obtain ⟨hplain, hnew, hroom⟩ := hmsg
    simp only [sarCommMessageNotify, if_neg hpass]
    refine ⟨?_, _, ?_, rfl⟩ <;> simp [sarWhitelistAdd, hplain, hnew, Nat.not_le.mpr hroom]
  | whitelistRemove id =>
    have hlisted : D.exemptions.whitelist.lists id = true := hmsg
    have hentries := sarWhitelistRemove_entries D.exemptions.whitelist id
    simp only [sarCommMessageNotify, if_neg hpass]
    exact ⟨by simp [sarWhitelistRemove, hlisted], _, hentries, rfl⟩

theorem notify_refused (h : ¬ CarriesOut D msg) : (sarCommMessageNotify D msg).2 = D ∨
      (sarCommMessageNotify D msg).2 = { D with tamper := D.tamper + 1 } := by
  cases hauth : D.authenticated with
  | false => exact .inr (by simp [sarCommMessageNotify, hauth])
  | true =>
    have hpass : ¬ D.authenticated = false := by simp [hauth]
    left
    cases msg with
    | setMode mode =>
      have hvalid : mode ≠ SEMANTICS_AR_MODE_AUDIT ∧ mode ≠ SEMANTICS_AR_MODE_ENFORCE := by
        simpa [CarriesOut, hauth] using h
      simp [sarCommMessageNotify, hauth, sarStateModeSet, hvalid]
    | setBudget retention100ns capacityBytes =>
      have hignored : D.preserve.map (sarPreserveSetBudget retention100ns capacityBytes) =
          D.preserve := by
        cases hstore : D.preserve with
        | none => rfl
        | some P =>
          have hzero : retention100ns = 0 ∨ capacityBytes = 0 := by
            by_contra hnot
            simp only [not_or] at hnot
            exact h ⟨hauth, by rw [hstore]; rfl, hnot⟩
          simp [sarPreserveSetBudget, hzero]
      simp only [sarCommMessageNotify, if_neg hpass, hignored]
    | whitelistAdd id now =>
      rcases sarWhitelistAdd_cases now with ⟨-, hadds⟩ | ⟨-, hsame⟩
      · exact absurd ⟨hauth, hadds⟩ h
      · simp only [sarCommMessageNotify, if_neg hpass, hsame]
    | whitelistRemove id =>
      have hlisted : D.exemptions.whitelist.lists id = false := by
        simpa [CarriesOut, hauth] using h
      simp only [sarCommMessageNotify, if_neg hpass, sarWhitelistRemove, hlisted]
      rfl

end

/-! ### From end to end -/

def requestMessage (env : ChannelEnv) : ControlRequest → Option ControlMessage
  | .setMode mode =>
    if mode ≠ SEMANTICS_AR_MODE_AUDIT ∧ mode ≠ SEMANTICS_AR_MODE_ENFORCE then none
    else some (.setMode mode)
  | .setBudget retention100ns capacityBytes => some (.setBudget retention100ns capacityBytes)
  | .whitelistRemove imagePath =>
    let eval := env.evaluate (commandPath (copyWide _ imagePath))
    if eval.1 ≠ .verified then none else some (.whitelistRemove eval.2)

structure Answers (env : ChannelEnv) : Prop where
  callerValid : env.callerValid = true
  pipe : env.pipe = .ok
  server : env.server = .ok
  written : env.written = true
  answered : env.answered = true

/-- The service accepts the request and its message reaches the driver, which does what it
    asks for. -/
structure Accepted (env : ChannelEnv) (D : DriverPort) (req : ControlRequest)
    (msg : ControlMessage) : Prop where
  received : env.received = true
  admin : env.admin = true
  port : env.port = true
  message : requestMessage env req = some msg
  carriesOut : CarriesOut D msg

def Applied (env : ChannelEnv) (D : DriverPort) (req : ControlRequest) (D' : DriverPort) : Prop :=
  ∃ msg, Accepted env D req msg ∧ Changed D msg D'

section

variable {req : ControlRequest}

theorem fromHResult_mapResult (r : SarapiResult) : fromHResult (mapResult r) = .none ↔ r = .ok := by
  cases r <;> decide

theorem hostCall_answered (h : Answers env) :
    hostCall env D cmd = (S_OK, sarControlServe env D cmd) := by
  simp [hostCall, h.callerValid, controlTxn, h.pipe, h.server, h.written, h.answered, mapResult]

/-- The `HRESULT` is no error exactly if there is an answer, whatever the answer is. -/
theorem hostCall_none_iff : fromHResult (hostCall env D cmd).1 = .none ↔ Answers env := by
  constructor
  · intro h
    simp only [hostCall] at h
    by_cases hcaller : env.callerValid = false
    · rw [if_pos hcaller] at h
      cases h
    rw [if_neg hcaller, fromHResult_mapResult] at h
    simp only [controlTxn] at h
    by_cases hpipe : env.pipe = .ok
    · by_cases hserver : env.server = .ok
      · cases hwritten : env.written with
        | false => simp [hpipe, hserver, hwritten] at h
        | true =>
          cases hanswered : env.answered with
          | false => simp [hpipe, hserver, hwritten, hanswered] at h
          | true => exact ⟨by simpa using hcaller, hpipe, hserver, hwritten, hanswered⟩
      · simp [hpipe, hserver] at h
    · simp [hpipe] at h
  · intro h
    rw [hostCall_answered h]
    rfl

theorem serve_accepted {msg : ControlMessage} (h : Accepted env D req msg) :
    Changed D msg (sarControlServe env D req.command).2 := by
  have hsend : ∀ msg, CarriesOut D msg → Changed D msg (sarCommSend env D msg).2 := by
    intro msg hcarries
    simpa [sarCommSend, h.port] using (notify_carriedOut hcarries).2
  have hmessage := h.message
  simp only [sarControlServe, h.received, h.admin, Bool.true_eq_false, if_false]
  cases req with
  | setMode mode =>
    simp only [requestMessage] at hmessage
    split at hmessage
    · cases hmessage
    next hvalid =>
      cases hmessage
      simp only [ControlRequest.command, sarControlApply, sarControlSendMode, if_neg hvalid]
      exact hsend _ h.carriesOut
  | setBudget retention100ns capacityBytes =>
    cases hmessage
    exact hsend _ h.carriesOut
  | whitelistRemove imagePath =>
    simp only [requestMessage] at hmessage
    split at hmessage
    · cases hmessage
    next hverified =>
      cases hmessage
      simp only [ControlRequest.command, sarControlApply, if_neg hverified]
      exact hsend _ h.carriesOut

def Untouched (D D' : DriverPort) : Prop := D' = D ∨ D' = { D with tamper := D.tamper + 1 }

theorem serve_refused (h : ∀ msg, ¬ Accepted env D req msg) :
    Untouched D (sarControlServe env D req.command).2 := by
  simp only [sarControlServe]
  split
  · exact .inl rfl
  split
  · exact .inl rfl
  rename_i hreceived hadmin
  have hsend : ∀ msg, requestMessage env req = some msg →
      Untouched D (sarCommSend env D msg).2 := by
    intro msg hmessage
    simp only [sarCommSend]
    split
    · exact .inl rfl
    next hport =>
      exact notify_refused fun hcarries => h msg
        ⟨by simpa using hreceived, by simpa using hadmin, by simpa using hport, hmessage, hcarries⟩
  cases req with
  | setMode mode =>
    simp only [ControlRequest.command, sarControlApply, sarControlSendMode]
    split
    · exact .inl rfl
    next hvalid =>
      exact hsend _ (if_neg hvalid)
  | setBudget retention100ns capacityBytes => exact hsend _ rfl
  | whitelistRemove imagePath =>
    simp only [ControlRequest.command, sarControlApply]
    split
    · exact .inl rfl
    next hverified =>
      exact hsend _ (if_neg hverified)

/-- **When control writes report the truth.**  A write that is reported as done has been applied as
    it was asked for, exactly if the service accepts the request and the driver carries it out
    whenever an answer comes back.  Otherwise the settings are what they were. -/
theorem control_write_truthful_iff (env : ChannelEnv) (D : DriverPort) (req : ControlRequest) :
    (((channelWrite env D req).1 = .none → Applied env D req (channelWrite env D req).2) ↔
      (Answers env → ∃ msg, Accepted env D req msg)) ∧
    (Answers env → (∀ msg, ¬ Accepted env D req msg) →
      Untouched D (channelWrite env D req).2) := by
  simp only [channelWrite, hostCall_none_iff]
  refine ⟨⟨fun htruth hanswers => ?_, fun haccepts hanswers => ?_⟩, fun hanswers hrefused => ?_⟩
  · obtain ⟨msg, haccepted, -⟩ := htruth hanswers
    exact ⟨msg, haccepted⟩
  · obtain ⟨msg, haccepted⟩ := haccepts hanswers
    rw [hostCall_answered hanswers]
    exact ⟨msg, haccepted, serve_accepted haccepted⟩
  · rw [hostCall_answered hanswers]
    exact serve_refused hrefused

def workingEnv : ChannelEnv where
  callerValid := true
  pipe := .ok
  server := .ok
  written := true
  answered := true
  received := true
  admin := true
  port := true
  evaluate path := (.verified, ⟨copyWide _ path, Vector.replicate _ 1, Vector.replicate _ 1⟩)
  now := 0

def newPort : DriverPort := ⟨true, 0, 0, none, ⟨sarWhitelistInit, sarStateCreate⟩⟩

/-- Without any failure on the way, a mode that the service rejects, a budget that the driver
    ignores, the removal of an exemption that is not listed, and a mode before the handshake are all
    reported as done. -/
theorem control_write_untruthful :
    (∀ req ∈ [ControlRequest.setMode 7, .setBudget 1 1, .whitelistRemove [97]],
      (channelWrite workingEnv newPort req).1 = .none ∧
        ¬ Applied workingEnv newPort req (channelWrite workingEnv newPort req).2) ∧
    let port := { newPort with authenticated := false }
    (channelWrite workingEnv port (.setMode 1)).1 = .none ∧
      ¬ Applied workingEnv port (.setMode 1) (channelWrite workingEnv port (.setMode 1)).2 := by
  have hanswers : Answers workingEnv := ⟨rfl, rfl, rfl, rfl, rfl⟩
  have hnone : ∀ D req, (channelWrite workingEnv D req).1 = .none := by
    intro D req
    simp only [channelWrite, hostCall_answered hanswers]
    rfl
  refine ⟨fun req hreq => ⟨hnone _ _, ?_⟩, hnone _ _, ?_⟩
  · rintro ⟨msg, haccepted, -⟩
    have hmessage := haccepted.message
    simp only [List.mem_cons, List.not_mem_nil, or_false] at hreq
    rcases hreq with rfl | rfl | rfl
    · cases hmessage
    · cases hmessage
      cases haccepted.carriesOut.2.1
    · cases hmessage
      cases haccepted.carriesOut.2
  · rintro ⟨msg, haccepted, -⟩
    cases haccepted.carriesOut.1

theorem sarCommSend_zero {msg : ControlMessage} (h : (sarCommSend env D msg).1.code = 0) :
    sarCommSend env D msg = (.ok, (sarCommMessageNotify D msg).2) ∧
      (sarCommMessageNotify D msg).1 = .success := by
  revert h
  fun_cases sarCommSend env D msg with
  | case1 => intro h; cases h
  | case2 hport r =>
    dsimp only [r]
    split
    next hsuccess => exact fun _ => ⟨rfl, hsuccess⟩
    · intro h; cases h

/-- **An exemption that is reported as added** is that of a verified image, and the driver has
    entered it: its list is the old one with the identity at the end, and nothing else of its
    state has changed. -/
theorem channelWhitelistAdd_added {imagePath : List UInt16}
    (h : (channelWhitelistAdd env D imagePath).1 = .added) :
    ∃ id, env.evaluate (commandPath (copyWide _ imagePath)) = (.verified, id) ∧
      CarriesOut D (.whitelistAdd id env.now) ∧
      ∃ wl, wl.entries = D.exemptions.whitelist.entries ++ [⟨id, env.now⟩] ∧
        (channelWhitelistAdd env D imagePath).2 = { D with exemptions.whitelist := wl } := by
  have hanswers : Answers env := by
    by_contra hnot
    simp [channelWhitelistAdd, mt hostCall_none_iff.mp hnot] at h
  have hresult : (sarControlServe env D (.whitelistAdd (copyWide _ imagePath))).1.result = 0 := by
    by_contra hne
    simp only [channelWhitelistAdd, hostCall_answered hanswers, if_neg hne] at h
    repeat' split at h
    all_goals cases h
  simp only [channelWhitelistAdd, hostCall_answered hanswers]
  revert hresult
  fun_cases sarControlServe env D (.whitelistAdd (copyWide _ imagePath)) with
  | case1 | case2 => intro h; cases h
  | case3 =>
    rw [sarControlApply]
    dsimp only
    split
    · intro h; cases h
    next hverified =>
    split
    · intro h; cases h
    intro hresult
    obtain ⟨hsend, hsuccess⟩ := sarCommSend_zero hresult
    refine ⟨_, Prod.ext (not_not.mp hverified) rfl, ?_⟩
    have hcarries : CarriesOut D (.whitelistAdd
        (env.evaluate (commandPath (copyWide _ imagePath))).2 env.now) := by
      simp only [sarCommMessageNotify] at hsuccess
      split at hsuccess
      · cases hsuccess
      next hauth =>
        rcases sarWhitelistAdd_cases env.now with ⟨-, hadds⟩ | ⟨hno, -⟩
        · exact ⟨by simpa using hauth, hadds⟩
        · simp only [if_neg hno] at hsuccess
          cases hsuccess
    rw [hsend]
    exact ⟨hcarries, (notify_carriedOut hcarries).2⟩

/-- `a` is added to an empty list. -/
theorem channelWhitelistAdd_added_first :
    ∃ id wl, workingEnv.evaluate (commandPath (copyWide _ [97])) = (.verified, id) ∧
      wl.entries = [⟨id, 0⟩] ∧
        (channelWhitelistAdd workingEnv newPort [97]).2 =
          { newPort with exemptions.whitelist := wl } := by
  have hadded : (channelWhitelistAdd workingEnv newPort [97]).1 = .added := by decide +kernel
  obtain ⟨id, heval, -, wl, hdone⟩ := channelWhitelistAdd_added hadded
  exact ⟨id, wl, heval, hdone⟩

end

end SemanticsAr
