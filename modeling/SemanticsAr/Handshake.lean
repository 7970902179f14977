import SemanticsAr.ByteCodec
import SemanticsAr.Runs

/-!
# The handshake of the control port

`control/src/handshake.c` and the callbacks of `driver/commport.c`: a connection is accepted, a
queued work item sends it a random nonce, and its answer has to carry a signature of the nonce
before any command is carried out.  The filter manager admits one connection at a time; the work
item of a connection may run late, when there is another one.
-/

namespace SemanticsAr

def SEMANTICS_AR_PROTOCOL_VERSION : UInt32 := 2
def SEMANTICS_AR_MSG_CONNECT_RESPONSE : UInt32 := 9
def SEMANTICS_AR_HS_SIG_MAX : UInt32 := 512
def SAR_HS_NONCE_SIZE : Nat := 32

/-- The other messages that `SarCommMessageNotify` knows. -/
def commandTypes : List UInt32 := [7, 2, 11, 13, 15, 18, 17, 4, 5, 6, 21, 23, 20]

/-- `sar_hs_phase_t`. -/
inductive HsPhase where
  | init
  | challengeIssued
  | authenticated
  | versioned
  | rejected
deriving DecidableEq, Repr

/-- `sar_handshake_t`. -/
structure Handshake where
  phase : HsPhase
  nonce : List UInt8
  versionLocal : UInt32
  versionPeer : UInt32

def sarHandshakeInit (version : UInt32) : Handshake :=
  ⟨.init, List.replicate SAR_HS_NONCE_SIZE 0, version, 0⟩

def sarHandshakeIssueChallenge (hs : Handshake) (random : List UInt8) : Handshake :=
  if random.length ≠ SAR_HS_NONCE_SIZE then hs
  else if hs.phase ≠ .init then hs
  else { hs with nonce := random, phase := .challengeIssued }

def sarHandshakeVerifyResponse (verify : List UInt8 → List UInt8 → Bool) (hs : Handshake)
    (signature : List UInt8) : Bool × Handshake :=
  if hs.phase ≠ .challengeIssued then (false, hs)
  else if verify hs.nonce signature then (true, { hs with phase := .authenticated })
  else (false, { hs with phase := .rejected })

def sarHandshakeCheckVersion (hs : Handshake) (peer : UInt32) : Bool × Handshake :=
  if hs.phase ≠ .authenticated then (false, hs)
  else if peer ≠ hs.versionLocal then
    (false, { hs with versionPeer := peer, phase := .rejected })
  else (true, { hs with versionPeer := peer, phase := .versioned })

def sarHandshakeTimeout (hs : Handshake) : Handshake :=
  if hs.phase ≠ .versioned then { hs with phase := .rejected } else hs

/-! ### Messages -/

def headerWord (buf : List UInt8) (off : Nat) : UInt32 := FixedCodec.u32.get ((buf.drop off).take 4)

/-- `sar_msg_validate`: the type of a message whose header is right. -/
def sarMsgValidate (expectedLength : UInt32 → UInt32) (buf : List UInt8) : Option UInt32 :=
  if buf.length < 12 then none
  else if headerWord buf 0 ≠ SEMANTICS_AR_PROTOCOL_VERSION then none
  else
    let type := headerWord buf 4
    let expected := expectedLength type
    if expected = 0 ∨ headerWord buf 8 ≠ expected ∨ buf.length ≠ expected.toNat then none
    else some type

def signatureOf (buf : List UInt8) : List UInt8 := (buf.drop 16).take (headerWord buf 12).toNat

structure PortReply where
  accepted : Bool
  data : List UInt8

/-- `expectedLength` is `sar_msg_expected_length`, `verify` is `SarHandshakeVerify`, and `act` is
    what the driver does with a command once it has been admitted. -/
structure PortEnv (σ : Type) where
  expectedLength : UInt32 → UInt32
  verify : List UInt8 → List UInt8 → Bool
  act : UInt32 → List UInt8 → σ → PortReply × σ

/-- `SAR_COMM` with the state of the driver; `workers` are the queued work items. -/
structure CommPort (σ : Type) where
  connected : Bool
  handshake : Handshake
  workers : Nat
  tamper : Nat
  driver : σ

variable {σ : Type} (env : PortEnv σ)

def sarHandleConnectResponse (S : CommPort σ) (buf : List UInt8) : Bool × CommPort σ :=
  if headerWord buf 12 > SEMANTICS_AR_HS_SIG_MAX then (false, S)
  else
    let v := sarHandshakeVerifyResponse env.verify S.handshake (signatureOf buf)
    let c := sarHandshakeCheckVersion v.2 (headerWord buf 0)
    if v.1 = false then (false, { S with handshake := v.2, tamper := S.tamper + 1 })
    else if c.1 = false then (false, { S with handshake := c.2, tamper := S.tamper + 1 })
    else (true, { S with handshake := c.2 })

/-- `SarCommMessageNotify`. -/
def CommPort.notify (S : CommPort σ) (buf : List UInt8) : PortReply × CommPort σ :=
  match sarMsgValidate env.expectedLength buf with
  | none => (⟨false, []⟩, { S with tamper := S.tamper + 1 })
  | some type =>
    if type = SEMANTICS_AR_MSG_CONNECT_RESPONSE then
      let r := sarHandleConnectResponse env S buf
      (⟨r.1, []⟩, r.2)
    else if type ∈ commandTypes ∧ S.handshake.phase = .versioned then
      let r := env.act type buf S.driver
      (r.1, { S with driver := r.2 })
    else (⟨false, []⟩, { S with tamper := S.tamper + 1 })

/-- A connection attempt (whether the image is allowed and the work item can be queued), the end
    of the connection, a run of a work item with its random nonce, and a message. -/
inductive PortEvent where
  | connect (allowed queued : Bool)
  | disconnect
  | challenge (nonce : Option (Vector UInt8 SAR_HS_NONCE_SIZE))
  | message (buf : List UInt8)

structure PortRun (σ : Type) where
  port : CommPort σ
  session : List PortEvent

def PortRun.step (R : PortRun σ) (e : PortEvent) : PortRun σ :=
  let S := R.port
  match e with
  | .connect allowed queued =>
    if S.connected = true ∨ allowed = false then R
    else
      ⟨{ S with
        connected := queued
        handshake := sarHandshakeInit SEMANTICS_AR_PROTOCOL_VERSION
        workers := if queued then S.workers + 1 else S.workers }, []⟩
  | .disconnect =>
    if S.connected then
      ⟨{ S with connected := false, handshake := sarHandshakeTimeout S.handshake }, []⟩
    else R
  | .challenge nonce =>
    if S.workers = 0 then R
    else
      ⟨{ S with
        workers := S.workers - 1
        handshake :=
          match S.connected, nonce with
          | true, some n => sarHandshakeIssueChallenge S.handshake n.toList
          | _, _ => S.handshake }, R.session ++ [e]⟩
  | .message buf =>
    if S.connected then ⟨(S.notify env buf).2, R.session ++ [e]⟩ else R

/-- `SarCommPortCreate`. -/
def portCreated (d : σ) : PortRun σ :=
  ⟨⟨false, sarHandshakeInit SEMANTICS_AR_PROTOCOL_VERSION, 0, 0, d⟩, []⟩

/-! ### What the phase says about the connection -/

def AnswersNonce (nonce : Vector UInt8 SAR_HS_NONCE_SIZE) (buf : List UInt8) : Prop :=
  sarMsgValidate env.expectedLength buf = some SEMANTICS_AR_MSG_CONNECT_RESPONSE ∧
    env.verify nonce.toList (signatureOf buf) = true ∧
    headerWord buf 0 = SEMANTICS_AR_PROTOCOL_VERSION

def Verified (session : List PortEvent) : Prop :=
  ∃ before nonce between buf after,
    session = before ++ .challenge (some nonce) :: (between ++ .message buf :: after) ∧
      AnswersNonce env nonce buf

structure SessionInv (R : PortRun σ) : Prop where
  version : R.port.handshake.versionLocal = SEMANTICS_AR_PROTOCOL_VERSION
  settled : R.port.handshake.phase ≠ .authenticated
  issued : R.port.handshake.phase = .challengeIssued → ∃ before nonce after,
    R.session = before ++ .challenge (some nonce) :: after ∧
      R.port.handshake.nonce = nonce.toList
  verified : R.port.connected = true → R.port.handshake.phase = .versioned →
    Verified env R.session

variable {env} {S : CommPort σ} {R : PortRun σ} {buf : List UInt8}

theorem version_of_validate {type : UInt32}
    (h : sarMsgValidate env.expectedLength buf = some type) :
    headerWord buf 0 = SEMANTICS_AR_PROTOCOL_VERSION := by
  by_contra hne
  simp [sarMsgValidate, hne] at h

theorem connectResponse_cases (hversion : headerWord buf 0 = S.handshake.versionLocal) :
    (∃ tamper, sarHandleConnectResponse env S buf = (false, { S with tamper := tamper })) ∨
      S.handshake.phase = .challengeIssued ∧
        (sarHandleConnectResponse env S buf =
          (false, { S with
            handshake := { S.handshake with phase := .rejected }
            tamper := S.tamper + 1 }) ∨
        env.verify S.handshake.nonce (signatureOf buf) = true ∧
          sarHandleConnectResponse env S buf =
            (true, { S with handshake :=
              { S.handshake with versionPeer := headerWord buf 0, phase := .versioned } })) := by
  unfold sarHandleConnectResponse
  split
  · exact .inl ⟨_, rfl⟩
  · by_cases hphase : S.handshake.phase = .challengeIssued
    · refine .inr ⟨hphase, ?_⟩
      cases hverify : env.verify S.handshake.nonce (signatureOf buf) with
      | false => exact .inl (by simp [sarHandshakeVerifyResponse, hphase, hverify])
      | true =>
        exact .inr ⟨rfl, by
          simp [sarHandshakeVerifyResponse, sarHandshakeCheckVersion, hphase, hverify, hversion]⟩
    · exact .inl ⟨S.tamper + 1, by simp [sarHandshakeVerifyResponse, hphase]⟩

theorem Verified.snoc {session : List PortEvent} (h : Verified env session) (e : PortEvent) :
    Verified env (session ++ [e]) := by
  obtain ⟨before, nonce, between, buf, after, rfl, hanswers⟩ := h
  exact ⟨before, nonce, between, buf, after ++ [e], by simp, hanswers⟩

theorem SessionInv.goesOn (h : SessionInv env R) (hs : S.handshake = R.port.handshake)
    (hconnected : S.connected = R.port.connected) (e : PortEvent) :
    SessionInv env ⟨S, R.session ++ [e]⟩ := by
  refine ⟨hs ▸ h.version, hs ▸ h.settled, ?_, ?_⟩
  · intro hphase
    obtain ⟨before, nonce, after, hsession, hnonce⟩ := h.issued (hs ▸ hphase)
    exact ⟨before, nonce, after ++ [e], by simp [hsession], by rw [← hnonce, hs]⟩
  · intro hc hphase
    exact (h.verified (hconnected ▸ hc) (hs ▸ hphase)).snoc e

theorem SessionInv.message (h : SessionInv env R) :
    SessionInv env ⟨(R.port.notify env buf).2, R.session ++ [.message buf]⟩ := by
  unfold CommPort.notify
  split
  · apply h.goesOn <;> rfl
  · rename_i type hvalid
    split
    · rename_i htype
      subst htype
      have hversion := version_of_validate hvalid
      rcases @connectResponse_cases σ env R.port buf (hversion.trans h.version.symm) with
        ⟨tamper, hsame⟩ | ⟨hphase, hrejected | ⟨hverify, hdone⟩⟩
      · simp only [hsame]
        apply h.goesOn <;> rfl
      · simp only [hrejected]
        exact ⟨h.version, by simp, by simp, by simp⟩
      · simp only [hdone]
        obtain ⟨before, nonce, after, hsession, hnonce⟩ := h.issued hphase
        refine ⟨h.version, by simp, by simp, fun _ _ => ⟨before, nonce, after, buf, [], ?_⟩⟩
        exact ⟨by simp [hsession], hvalid, hnonce ▸ hverify, hversion⟩
    split
    · apply h.goesOn <;> rfl
    · apply h.goesOn <;> rfl

theorem SessionInv.step (h : SessionInv env R) (e : PortEvent) : SessionInv env (R.step env e) := by
  cases e with
  | connect allowed queued =>
    simp only [PortRun.step]
    split
    · exact h
    · exact ⟨rfl, by simp [sarHandshakeInit], by simp [sarHandshakeInit],
        by simp [sarHandshakeInit]⟩
  | disconnect =>
    simp only [PortRun.step, sarHandshakeTimeout]
    split
    · split
      · exact ⟨h.version, by simp, by simp, by simp⟩
      · rename_i hphase
        exact ⟨h.version, h.settled, by simp_all, by simp⟩
    · exact h
  | challenge nonce =>
    simp only [PortRun.step]
    split
    · exact h
    · split
      · rename_i n hconnected
        unfold sarHandshakeIssueChallenge
        split
        · apply h.goesOn <;> rfl
        split
        · apply h.goesOn <;> rfl
        · exact ⟨h.version, by simp, fun _ => ⟨R.session, n, [], rfl, rfl⟩, by simp⟩
      · apply h.goesOn <;> rfl
  | message buf =>
    simp only [PortRun.step]
    split
    · exact h.message
    · exact h

theorem rejected_step {e : PortEvent} (he : ∀ queued, e ≠ .connect true queued)
    (h : R.port.handshake.phase = .rejected) : (R.step env e).port.handshake.phase = .rejected := by
  cases e with
  | connect allowed queued =>
    cases allowed with
    | false => simpa [PortRun.step] using h
    | true => exact absurd rfl (he queued)
  | disconnect =>
    simp only [PortRun.step, sarHandshakeTimeout, h]
    split <;> simp [h]
  | challenge nonce =>
    simp only [PortRun.step, sarHandshakeIssueChallenge, h]
    split
    · exact h
    · split <;> simp [h]
  | message buf =>
    simp only [PortRun.step]
    split
    · simp only [CommPort.notify, sarHandleConnectResponse, sarHandshakeVerifyResponse, h]
      split
      · exact h
      · split
        · split <;> exact h
        · split <;> exact h
    · exact h

theorem commPort_refused
    (hnot : sarMsgValidate env.expectedLength buf ≠ some SEMANTICS_AR_MSG_CONNECT_RESPONSE)
    (hphase : ∀ type ∈ commandTypes, sarMsgValidate env.expectedLength buf = some type →
      S.handshake.phase ≠ .versioned) :
    S.notify env buf = (⟨false, []⟩, { S with tamper := S.tamper + 1 }) := by
  unfold CommPort.notify
  split
  · rfl
  · rename_i type hvalid
    have hne : type ≠ SEMANTICS_AR_MSG_CONNECT_RESPONSE := fun h => hnot (h ▸ hvalid)
    rw [if_neg hne, if_neg fun h => hphase type h.1 hvalid h.2]

def HandshakeOnly (S : CommPort σ) (r : PortReply × CommPort σ) : Prop :=
  r.1.data = [] ∧ r.2.driver = S.driver ∧ (r.1.accepted = false → ∃ phase tamper,
    r.2 = { S with handshake := { S.handshake with phase := phase }, tamper := tamper })

theorem commPort_response (hversion : S.handshake.versionLocal = SEMANTICS_AR_PROTOCOL_VERSION)
    (hvalid : sarMsgValidate env.expectedLength buf = some SEMANTICS_AR_MSG_CONNECT_RESPONSE) :
    HandshakeOnly S (S.notify env buf) := by
  unfold CommPort.notify HandshakeOnly
  simp only [hvalid, if_true]
  rcases @connectResponse_cases σ env S buf ((version_of_validate hvalid).trans hversion.symm) with
    ⟨tamper, hsame⟩ | ⟨hphase, hrejected | ⟨hverify, hdone⟩⟩
  · rw [hsame]
    exact ⟨trivial, rfl, fun _ => ⟨S.handshake.phase, tamper, rfl⟩⟩
  · rw [hrejected]
    exact ⟨trivial, rfl, fun _ => ⟨_, _, rfl⟩⟩
  · rw [hdone]
    exact ⟨trivial, rfl, fun h => by cases h⟩

end SemanticsAr
