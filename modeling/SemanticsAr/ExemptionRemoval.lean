import SemanticsAr.ControlChannel

/-!
# Removing an exemption

The listing shows the entries of the driver's whitelist by their paths, and the remove
operation of the user interface sends such a path down the control channel.  The service
makes an identity of the file that is at the path now and the driver removes the entry of
that identity; the identity table is not looked at.
-/

namespace SemanticsAr

def WhitelistEntry.path (e : WhitelistEntry) : List UInt16 := imageText e.identity.imagePath

def removeRequest (e : WhitelistEntry) : ControlRequest := .whitelistRemove e.path

/-- A running process is exempt because of an identity: its entry is exempt and not
    protected, and holds an identity with this hash and signer. -/
def ExemptThrough (identities : UInt64 → SarIdentity) (D : DriverPort) (id : SarIdentity) : Prop :=
  ∃ processId p, sarIdentityFindLocked D.exemptions.table processId = some p ∧
    p.idState = .exempt ∧ p.protectedTrusted = false ∧
      identityEqual (identities processId) id = true

/-- Nothing is left of an exemption: no entry with its path and no process that it exempts. -/
structure Gone (identities : UInt64 → SarIdentity) (D : DriverPort) (e : WhitelistEntry) :
    Prop where
  entries : ∀ e' ∈ D.exemptions.whitelist.entries, e'.path ≠ e.path
  processes : ¬ ExemptThrough identities D e.identity

def Removable (evaluate : List UInt16 → IdentityVerdict × SarIdentity) (D : DriverPort)
    (e : WhitelistEntry) : Prop :=
  ∃ env : ChannelEnv, env.evaluate = evaluate ∧
    e ∉ (channelWrite env D (removeRequest e)).2.exemptions.whitelist.entries

section

variable {env : ChannelEnv} {D : DriverPort} {e : WhitelistEntry} {req : ControlRequest}
  {evaluate : List UInt16 → IdentityVerdict × SarIdentity} {identities : UInt64 → SarIdentity}

theorem removal_cases (env : ChannelEnv) (D : DriverPort) (e : WhitelistEntry) :
    (∃ id, Accepted env D (removeRequest e) (.whitelistRemove id) ∧
        Changed D (.whitelistRemove id) (sarControlServe env D (removeRequest e).command).2) ∨
      ((∀ msg, ¬ Accepted env D (removeRequest e) msg) ∧
        (sarControlServe env D (removeRequest e).command).2.exemptions = D.exemptions) := by
  by_cases haccepted : ∃ msg, Accepted env D (removeRequest e) msg
  · obtain ⟨msg, haccepted⟩ := haccepted
    have hmessage := haccepted.message
    simp only [removeRequest, requestMessage] at hmessage
    split at hmessage
    · cases hmessage
    · cases hmessage
      exact .inl ⟨_, haccepted, serve_accepted haccepted⟩
  · have hnone : ∀ msg, ¬ Accepted env D (removeRequest e) msg :=
      fun msg h => haccepted ⟨msg, h⟩
    refine Or.inr ⟨hnone, ?_⟩
    rcases serve_refused hnone with hsame | hsame <;> rw [hsame]

theorem Accepted.evaluated {id : SarIdentity}
    (h : Accepted env D (removeRequest e) (.whitelistRemove id)) :
    env.evaluate (commandPath (copyWide _ e.path)) = (.verified, id) := by
  have hmessage := h.message
  simp only [removeRequest, requestMessage] at hmessage
  split at hmessage
  · cases hmessage
  next hverified =>
    cases hmessage
    exact Prod.ext (not_not.mp hverified) rfl

theorem Changed.mem_removed_iff {D' : DriverPort} {id : SarIdentity} {e' : WhitelistEntry}
    (h : Changed D (.whitelistRemove id) D') :
    e' ∈ D'.exemptions.whitelist.entries ↔
      e' ∈ D.exemptions.whitelist.entries ∧ identityEqual e'.identity id = false := by
  obtain ⟨wl, hentries, rfl⟩ := h
  simp [hentries]

/-- **When a removal that is reported as done is one.** -/
theorem removal_gone_iff
    (he : e ∈ D.exemptions.whitelist.entries) :
    ((channelWrite env D (removeRequest e)).1 = .none →
        Gone identities (channelWrite env D (removeRequest e)).2 e) ↔
      (Answers env → (∃ id, Accepted env D (removeRequest e) (.whitelistRemove id) ∧
          ∀ e' ∈ D.exemptions.whitelist.entries, e'.path = e.path →
            identityEqual e'.identity id = true) ∧
        ¬ ExemptThrough identities D e.identity) := by
  simp only [channelWrite, hostCall_none_iff]
  refine imp_congr_right fun hanswers => ?_
  rw [hostCall_answered hanswers]
  rcases removal_cases env D e with ⟨id, haccepted, hdriver⟩ | ⟨hnone, hsame⟩
  · have hprocess : ExemptThrough identities (sarControlServe env D (removeRequest e).command).2
        e.identity ↔ ExemptThrough identities D e.identity := by
      obtain ⟨wl, -, hsame⟩ := hdriver
      rw [hsame]
      rfl
    constructor
    · intro hgone
      refine ⟨⟨id, haccepted, fun e' hmem hpath => ?_⟩, mt hprocess.mpr hgone.processes⟩
      by_contra hother
      exact hgone.entries e' (hdriver.mem_removed_iff.mpr ⟨hmem, Bool.eq_false_iff.mpr hother⟩)
        hpath
    · rintro ⟨⟨id', haccepted', hall⟩, hprocesses⟩
      have hid : id' = id := by
        have heval := haccepted'.evaluated.symm.trans haccepted.evaluated
        exact congrArg Prod.snd heval
      subst hid
      refine ⟨fun e' hmem hpath => ?_, mt hprocess.mp hprocesses⟩
      obtain ⟨hold, hother⟩ := hdriver.mem_removed_iff.mp hmem
      rw [hall e' hold hpath] at hother
      cases hother
  · constructor
    · intro hgone
      refine absurd rfl (hgone.entries e ?_)
      simp only [hsame]
      exact he
    · rintro ⟨⟨id, haccepted, -⟩, -⟩
      exact absurd haccepted (hnone _)

theorem channelWrite_driver_cases : (channelWrite env D req).2 = D ∨
      (channelWrite env D req).2 = (sarControlServe env D req.command).2 := by
  simp only [channelWrite, hostCall, controlTxn]
  repeat' split
  all_goals first
    | exact .inl rfl
    | exact .inr rfl

/-- **When a listed exemption can be removed.** -/
theorem removable_iff
    (he : e ∈ D.exemptions.whitelist.entries) :
    Removable evaluate D e ↔ D.authenticated = true ∧ ∃ id,
        evaluate (commandPath (copyWide _ e.path)) = (.verified, id) ∧
          identityEqual e.identity id = true := by
  constructor
  · rintro ⟨env, rfl, hgone⟩
    rcases channelWrite_driver_cases with hsame | hserved
    · rw [hsame] at hgone
      exact absurd he hgone
    rw [hserved] at hgone
    rcases removal_cases env D e with ⟨id, haccepted, hdriver⟩ | ⟨-, hsame⟩
    · refine ⟨haccepted.carriesOut.1, id, haccepted.evaluated, ?_⟩
      by_contra hother
      apply hgone
      exact hdriver.mem_removed_iff.mpr ⟨he, Bool.eq_false_iff.mpr hother⟩
    · rw [hsame] at hgone
      exact absurd he hgone
  · rintro ⟨hauth, id, heval, heq⟩
    have hanswers : Answers { workingEnv with evaluate := evaluate } := ⟨rfl, rfl, rfl, rfl, rfl⟩
    have haccepted : Accepted { workingEnv with evaluate := evaluate } D (removeRequest e)
        (.whitelistRemove id) := by
      refine ⟨rfl, rfl, rfl, ?_, hauth, lists_eq_true.mpr ⟨e, he, heq⟩⟩
      simp [removeRequest, requestMessage, heval]
    refine ⟨{ workingEnv with evaluate := evaluate }, rfl, ?_⟩
    simp only [channelWrite, hostCall_answered hanswers]
    intro hmem
    have hother := ((serve_accepted haccepted).mem_removed_iff.mp hmem).2
    rw [heq] at hother
    cases hother

/-- **Removing an exemption.**  A removal reported as done leaves no entry with the path and no
    process that it exempts exactly if, whenever an answer comes back, the file now at the path has
    the identity of every entry with that path and no process is exempt because of it.  It can be
    removed at all exactly if the file now at the path is verified with the listed identity. -/
theorem exemption_removal_iff (identities : UInt64 → SarIdentity) (env : ChannelEnv)
    (he : e ∈ D.exemptions.whitelist.entries) :
    (((channelWrite env D (removeRequest e)).1 = .none →
        Gone identities (channelWrite env D (removeRequest e)).2 e) ↔
      (Answers env →
        (∃ id, Accepted env D (removeRequest e) (.whitelistRemove id) ∧
          ∀ e' ∈ D.exemptions.whitelist.entries, e'.path = e.path →
            identityEqual e'.identity id = true) ∧
        ¬ ExemptThrough identities D e.identity)) ∧
    (Removable env.evaluate D e ↔
      D.authenticated = true ∧ ∃ id,
        env.evaluate (commandPath (copyWide _ e.path)) = (.verified, id) ∧
          identityEqual e.identity id = true) :=
  ⟨removal_gone_iff he, removable_iff he⟩

end

/-- The exemption of the file that `workingEnv` finds at a path. -/
def oneExemption : WhitelistEntry :=
  ⟨⟨copyWide _ [97], Vector.replicate _ 1, Vector.replicate _ 1⟩, 0⟩

theorem oneExemption_fits : [oneExemption].length ≤ SAR_WHITELIST_CAPACITY := by decide

theorem oneExemption_plain : ∀ e ∈ [oneExemption],
    sarIdentityIsInterpreter e.identity.imagePath = false := by
  intro e hmem
  rw [List.mem_singleton.mp hmem]
  decide +kernel

def oneEntryList : Whitelist where
  entries := [oneExemption]
  fits := oneExemption_fits
  distinct := List.pairwise_singleton _ _
  plain := oneExemption_plain

def listingPort : DriverPort := { newPort with exemptions.whitelist := oneEntryList }

/-- The file is as it was when the exemption was made, and no process has used it. -/
theorem exemption_removal_unchanged_file :
    Gone (fun _ => oneExemption.identity) (channelWrite workingEnv listingPort
        (removeRequest oneExemption)).2 oneExemption ∧
      Removable workingEnv.evaluate listingPort oneExemption := by
  have hequal : identityEqual oneExemption.identity
      (workingEnv.evaluate (commandPath (copyWide _ oneExemption.path))).2 = true := by
    decide +kernel
  obtain ⟨hgone, hremovable⟩ := exemption_removal_iff (fun _ => oneExemption.identity) workingEnv
    (show oneExemption ∈ listingPort.exemptions.whitelist.entries from List.mem_cons_self)
  refine ⟨hgone.mpr ?_ rfl, hremovable.mpr ⟨rfl, _, rfl, hequal⟩⟩
  intro _
  refine ⟨⟨_, ⟨rfl, rfl, rfl, rfl, rfl, lists_eq_true.mpr ⟨_, List.mem_cons_self, hequal⟩⟩, ?_⟩, ?_⟩
  · intro e hmem _
    rw [List.mem_singleton.mp hmem]
    exact hequal
  · rintro ⟨processId, p, hfound, -⟩
    cases (sarStateCreate_find processId).symm.trans hfound

def exemptingPort : DriverPort :=
  { newPort with
    exemptions := ((⟨oneEntryList, sarStateCreate⟩ : DriverState).createProcess 8 5 none false
      true).applyVerdict 8 5 oneExemption.identity }

def deletedEnv : ChannelEnv :=
  { workingEnv with evaluate := fun _ => (.pathFailed, ExemptionLog.blankIdentity) }

/-- The file has been deleted since: the removal is reported as done, the entry stays, and no call
    can remove it.  With the file in place the entry goes, but the process stays exempt. -/
theorem exemption_outlives_removal :
    ((channelWrite deletedEnv exemptingPort (removeRequest oneExemption)).1 = .none ∧
      oneExemption ∈ (channelWrite deletedEnv exemptingPort
        (removeRequest oneExemption)).2.exemptions.whitelist.entries ∧
      ¬ Removable deletedEnv.evaluate exemptingPort oneExemption) ∧
    (channelWrite workingEnv exemptingPort (removeRequest oneExemption)).1 = .none ∧
      ExemptThrough (fun _ => oneExemption.identity)
        (channelWrite workingEnv exemptingPort (removeRequest oneExemption)).2
        oneExemption.identity := by
  refine ⟨⟨rfl, List.mem_cons_self, ?_⟩, rfl, ?_⟩
  · rw [removable_iff (List.mem_cons_self : oneExemption ∈ oneEntryList.entries)]
    rintro ⟨-, id, heval, -⟩
    cases heval
  · have hfind : (sarIdentityFindLocked (channelWrite workingEnv exemptingPort
        (removeRequest oneExemption)).2.exemptions.table 8).any (fun p =>
          decide (p.idState = .exempt) && !p.protectedTrusted) = true := by decide +kernel
    obtain ⟨p, hp, hexempt⟩ := (Option.any_eq_true _ _).mp hfind
    simp only [Bool.and_eq_true, decide_eq_true_eq, Bool.not_eq_eq_eq_not, Bool.not_true]
      at hexempt
    exact ⟨8, p, hp, hexempt.1, hexempt.2, identityEqual_iff.mpr ⟨rfl, rfl⟩⟩

end SemanticsAr
