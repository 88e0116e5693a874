/-
Calls of `Vault::create` on one path in any interleaving of their steps.

# Steps

A call first derives what it will write, without a file
(`CreateCall.prepare`). `persist_vault` then claims the path, serialises,
creates, writes and syncs a temporary file, renames it over its claim and
syncs the directory; where a step fails it removes the temporary file and
then, if the claim was its own, the path. `Creation.step` is one such step
of one call, and a call whose steps nothing interrupts is `create`
(`Creation.alone`).

# Who made a file

`owner` records which call a file came from: whoever's step made it
appear.

# The claim

Seen at the path, the calls are processes on a claimed cell
(`ClaimCell.Step`), so a call that has claimed the path has it alone until
it ends. What a call does elsewhere is at its own temporary path.

The cleanup of a call that fails removes the path only if the call claimed
it, but its temporary path in any case, also where the call could not create
a file there because there was one. So a call removes no file but its own
exactly where no file bears a call's temporary name at the start
(`create_exclusive_iff`, `create_removes_foreign`).
-/
import MeissnerSeal.Lib.ClaimCell
import MeissnerSeal.Vault.History

namespace MeissnerSeal

open ByteCodec ExceptRules

/-- One call of `Vault::create`, and its environment. -/
structure CreateCall where
  draws : CreateDraws
  password : Bytes
  io : IoFaults

/-- How far one call has come. -/
inductive CreatePhase where
  | ready
  | prepared (recordId : U8Array 16) (vaultBytes : Res Bytes)
  | claimed (recordId : U8Array 16) (vaultBytes : Res Bytes)
  | created (recordId : U8Array 16) (bytes : Bytes)
  | written (recordId : U8Array 16) (bytes : Bytes)
  | synced (recordId : U8Array 16) (bytes : Bytes)
  | renamed (recordId : U8Array 16) (bytes : Bytes)
  | parentOpened (recordId : U8Array 16) (bytes : Bytes)
  | failed (recordId : U8Array 16) (targetClaimed : Bool) (e : CoreError)
  | tmpRemoved (e : CoreError)
  | done (r : Res Unit)

/-- The files, who made each, and the phase of each call. -/
structure Creation where
  fs : Fs
  owner : Path → Option Nat
  phase : Nat → CreatePhase

/-- Before any call: what is there is nobody's. -/
def Creation.start (fs : Fs) : Creation where
  fs := fs
  owner _ := none
  phase _ := .ready

/-- Call `k` moves on. A file that was not there before is its own. -/
def Creation.move (s : Creation) (k : Nat) (phase : CreatePhase) (fs : Fs) : Creation where
  fs := fs
  owner p := if (fs p).isNone then none else if (s.fs p).isNone then some k else s.owner p
  phase := Function.update s.phase k phase

/-- After a system call. -/
def Creation.after (s : Creation) (k : Nat) (outcome : Res Unit × Fs) (next : CreatePhase)
    (fail : CoreError → CreatePhase) : Creation :=
  match outcome with
  | (.ok (), fs) => s.move k next fs
  | (.error e, fs) => s.move k (fail e) fs

section Steps

variable (platform : Platform) (path : Path) (calls : Nat → CreateCall)

/-- `Vault::create` up to `persist_vault`: the record id and what is to be
serialised. -/
def CreateCall.prepare (call : CreateCall) : Res (U8Array 16 × Res Bytes) := do
  rejectIf (call.password = []) (.invalidState "empty password")
  let vaultId ← okOr call.draws.vaultId .panic
  let recordId ← okOr call.draws.recordId .panic
  let revisionId ← okOr call.draws.revisionId .panic
  let headerNonce ← okOr call.draws.headerNonce .panic
  let aad := buildAad vaultId formatVersion schemaMeissnerRecordsV2 1 1 0 recordId revisionId
    recordKindWrappedRootKey
  let kdfParams := canonicalArgon2idV1
  let aeadProfile ← AeadProfileId.new aeadXchacha20Poly1305V1
  let (keys, wrkCiphertext, wrkNonce) ← createSessionKeys platform call.draws.rootKey
    call.draws.wrkNonce call.password vaultId headerNonce aeadProfile kdfParams aad
  return (recordId, createdVaultBytes platform call.draws vaultId headerNonce kdfParams recordId
    revisionId wrkCiphertext wrkNonce aad keys.metadataKey)

/-- The next step of call `k`. -/
def Creation.step (s : Creation) (k : Nat) : Creation :=
  let io := (calls k).io
  match s.phase k with
  | .ready =>
      match (calls k).prepare platform with
      | .error e => s.move k (.done (.error e)) s.fs
      | .ok (recordId, vaultBytes) => s.move k (.prepared recordId vaultBytes) s.fs
  | .prepared recordId vaultBytes =>
      s.after k (createNewFile io.claim path s.fs) (.claimed recordId vaultBytes)
        (.failed recordId false)
  | .claimed recordId (.error e) =>
      -- a panic unwinds past the cleanup
      s.move k (if e = .panic then .done (.error e) else .failed recordId true e) s.fs
  | .claimed recordId (.ok bytes) =>
      s.after k (createNewFile io.tmpCreate (uniqueTmpPath path recordId) s.fs)
        (.created recordId bytes) (.failed recordId true)
  | .created recordId bytes =>
      s.after k (writeAll io.tmpWrite (uniqueTmpPath path recordId) bytes s.fs)
        (.written recordId bytes) (.failed recordId true)
  | .written recordId bytes =>
      s.after k (syncCall io.tmpSync s.fs) (.synced recordId bytes) (.failed recordId true)
  | .synced recordId bytes =>
      s.after k (renameFile io.rename (uniqueTmpPath path recordId) path s.fs)
        (.renamed recordId bytes) (.failed recordId true)
  | .renamed recordId bytes =>
      s.after k (syncCall io.parentOpen s.fs) (.parentOpened recordId bytes) (.failed recordId true)
  | .parentOpened recordId _ =>
      s.after k (syncCall io.parentSync s.fs) (.done (.ok ())) (.failed recordId true)
  | .failed recordId targetClaimed e =>
      s.move k (if targetClaimed then .tmpRemoved e else .done (.error e))
        (removeFile io.tmpRemove (uniqueTmpPath path recordId) s.fs).2
  | .tmpRemoved e => s.move k (.done (.error e)) (removeFile io.targetRemove path s.fs).2
  | .done _ => s

/-- The steps a schedule names, in order. -/
def Creation.run (s : Creation) (schedule : List Nat) : Creation :=
  schedule.foldl (Creation.step platform path calls) s

end Steps

variable {platform : Platform} {path : Path} {calls : Nat → CreateCall}

@[simp] theorem Creation.move_phase_self (s : Creation) (k : Nat) (phase : CreatePhase) (fs : Fs) :
    (s.move k phase fs).phase k = phase := Function.update_self ..

@[simp] theorem Creation.move_phase_of_ne (s : Creation) {k j : Nat} (phase : CreatePhase) (fs : Fs)
    (h : j ≠ k) : (s.move k phase fs).phase j = s.phase j := Function.update_of_ne h ..

@[simp] theorem Creation.move_fs (s : Creation) (k : Nat) (phase : CreatePhase) (fs : Fs) :
    (s.move k phase fs).fs = fs := rfl

@[simp] theorem Creation.run_cons (s : Creation) (k : Nat) (schedule : List Nat) :
    s.run platform path calls (k :: schedule)
      = (s.step platform path calls k).run platform path calls schedule := rfl

@[simp] theorem Creation.run_nil (s : Creation) : s.run platform path calls [] = s := rfl

theorem Creation.run_append (s : Creation) (schedule schedule' : List Nat) :
    s.run platform path calls (schedule ++ schedule')
      = (s.run platform path calls schedule).run platform path calls schedule' :=
  List.foldl_append ..

@[simp] theorem Creation.start_fs (fs : Fs) : (Creation.start fs).fs = fs := rfl

/-- A step moves its own call only. -/
theorem Creation.step_phase_of_ne (s : Creation) {k j : Nat} (h : j ≠ k) :
    (s.step platform path calls k).phase j = s.phase j := by
  have hmove : ∀ phase fs, (s.move k phase fs).phase j = s.phase j :=
    fun phase fs => Creation.move_phase_of_ne s phase fs h
  have hafter : ∀ outcome next fail, (s.after k outcome next fail).phase j = s.phase j := by
    intro outcome next fail
    obtain ⟨r, fs⟩ := outcome
    cases r with
    | ok u => exact hmove _ _
    | error e => exact hmove _ _
  unfold Creation.step
  cases s.phase k with
  | ready =>
      cases (calls k).prepare platform with
      | error e => exact hmove _ _
      | ok prepared => exact hmove _ _
  | claimed recordId vaultBytes =>
      cases vaultBytes with
      | error e => exact hmove _ _
      | ok bytes => exact hafter _ _ _
  | prepared | created | written | synced | renamed | parentOpened => exact hafter _ _ _
  | failed | tmpRemoved => exact hmove _ _
  | done r => rfl

/-- A call that is not scheduled stays where it is. -/
theorem Creation.run_phase_of_not_mem (s : Creation) {schedule : List Nat} {j : Nat}
    (h : j ∉ schedule) : (s.run platform path calls schedule).phase j = s.phase j := by
  induction schedule generalizing s with
  | nil => rfl
  | cons k schedule ih =>
      obtain ⟨hne, hrest⟩ := not_or.mp (mt List.mem_cons.mpr h)
      rw [Creation.run_cons, ih _ hrest, Creation.step_phase_of_ne s hne]

-- ------------------------------------------------------------ single steps

section Steps

variable {s : Creation} {k : Nat} {recordId : U8Array 16} {vaultBytes : Res Bytes} {fs : Fs}

/-- What a call does next, phase by phase, where nothing of it fails or
just this does. -/
theorem Creation.step_of_ready (h : s.phase k = .ready)
    (hprepare : (calls k).prepare platform = .ok (recordId, vaultBytes)) :
    s.step platform path calls k = s.move k (.prepared recordId vaultBytes) s.fs := by
  simp only [Creation.step, h, hprepare]

theorem Creation.step_of_claim (h : s.phase k = .prepared recordId vaultBytes)
    (hclaim : createNewFile (calls k).io.claim path s.fs = (.ok (), fs)) :
    s.step platform path calls k = s.move k (.claimed recordId vaultBytes) fs := by
  simp only [Creation.step, h, hclaim, Creation.after]

theorem Creation.step_of_lost_claim {e : CoreError} (h : s.phase k = .prepared recordId vaultBytes)
    (hclaim : createNewFile (calls k).io.claim path s.fs = (.error e, fs)) :
    s.step platform path calls k = s.move k (.failed recordId false e) fs := by
  simp only [Creation.step, h, hclaim, Creation.after]

theorem Creation.step_of_failed {targetClaimed : Bool} {e : CoreError}
    (h : s.phase k = .failed recordId targetClaimed e) :
    s.step platform path calls k
      = s.move k (if targetClaimed then .tmpRemoved e else .done (.error e))
        (removeFile (calls k).io.tmpRemove (uniqueTmpPath path recordId) s.fs).2 := by
  simp only [Creation.step, h]

theorem Creation.step_of_tmpRemoved {e : CoreError} (h : s.phase k = .tmpRemoved e) :
    s.step platform path calls k
      = s.move k (.done (.error e)) (removeFile (calls k).io.targetRemove path s.fs).2 := by
  simp only [Creation.step, h]

end Steps

-- ================================================================== alone

/-- After some number of steps of its own, call `k` has ended so. -/
def Creation.Ends (platform : Platform) (path : Path) (calls : Nat → CreateCall) (s : Creation)
    (k : Nat) (outcome : Res Unit × Fs) : Prop :=
  ∃ n, (s.run platform path calls (List.replicate n k)).phase k = .done outcome.1
    ∧ (s.run platform path calls (List.replicate n k)).fs = outcome.2

/-- A call that ends so after a step of its own ends so. -/
theorem Creation.Ends.of_step {s : Creation} {k : Nat} {outcome : Res Unit × Fs}
    (h : (s.step platform path calls k).Ends platform path calls k outcome) :
    s.Ends platform path calls k outcome := by
  obtain ⟨n, hphase, hfs⟩ := h
  exact ⟨n + 1, hphase, hfs⟩

theorem Creation.ends_of_done {s : Creation} {k : Nat} {r : Res Unit} (h : s.phase k = .done r) :
    s.Ends platform path calls k (r, s.fs) := ⟨0, h, rfl⟩

theorem FsM.lift_bind {α β γ : Type} (x : Res α) (f : α → Res β) (g : β → FsM γ) :
    (FsM.lift (x >>= f) >>= g) = FsM.lift x >>= fun a => FsM.lift (f a) >>= g := by
  funext fs
  cases x with
  | error e => rfl
  | ok a => rfl

/-- `create` derives what it writes before it touches a file. -/
theorem create_eq_prepare (call : CreateCall) :
    create platform call.io call.draws path call.password
      = FsM.lift (call.prepare platform) >>= fun prepared =>
          persistVault call.io path prepared.1 prepared.2 := by
  unfold create CreateCall.prepare
  simp only [FsM.lift_bind]
  rfl

/-- A call that fails after a claim of its own ends with its cleanup done. -/
theorem Creation.ends_of_failed {s : Creation} {k : Nat} {recordId : U8Array 16} {e : CoreError}
    (h : s.phase k = .failed recordId true e) :
    s.Ends platform path calls k (.error e, (removeFile (calls k).io.targetRemove path
      (removeFile (calls k).io.tmpRemove (uniqueTmpPath path recordId) s.fs).2).2) := by
  refine .of_step (.of_step ?_)
  have hfirst : s.step platform path calls k = s.move k (.tmpRemoved e)
      (removeFile (calls k).io.tmpRemove (uniqueTmpPath path recordId) s.fs).2 := by
    simp only [Creation.step, h, if_true]
  rw [hfirst]
  simp only [Creation.step, Creation.move_phase_self, Creation.move_fs]
  exact Creation.ends_of_done (Creation.move_phase_self ..)

/-- The order in which a program is put together does not matter. -/
theorem FsM.bind_assoc {α β γ : Type} (m : FsM α) (f : α → FsM β) (g : β → FsM γ) :
    (m >>= f) >>= g = m >>= fun a => f a >>= g := by
  funext fs
  simp only [FsM.bind_apply]
  rcases m fs with ⟨r, fs'⟩
  cases r with
  | error e => rfl
  | ok a => rfl

/-- What a call does when a step fails after its claim. -/
def CreateCall.cleanup (call : CreateCall) (path : Path) (recordId : U8Array 16) :
    FsM Unit := fun fs =>
  removeFile call.io.targetRemove path
    (removeFile call.io.tmpRemove (uniqueTmpPath path recordId) fs).2

/-- A system call of a call that has claimed: the cleanup ends the call
where it fails, and the rest does where it does not. -/
theorem Creation.Ends.of_after {s : Creation} {k : Nat} {recordId : U8Array 16}
    {syscall rest : FsM Unit}
    {next : CreatePhase}
    (hstep : s.step platform path calls k
      = s.after k (syscall s.fs) next (.failed recordId true))
    (hrest : ∀ s' : Creation, s'.phase k = next → s'.Ends platform path calls k
      (rest.onError ((calls k).cleanup path recordId) s'.fs)) :
    s.Ends platform path calls k
      ((syscall >>= fun _ => rest).onError ((calls k).cleanup path recordId) s.fs) := by
  refine .of_step ?_
  rw [hstep]
  simp only [FsM.onError, FsM.bind_apply]
  rcases syscall s.fs with ⟨r, fs⟩
  cases r with
  | error e => exact Creation.ends_of_failed (Creation.move_phase_self ..)
  | ok u => exact hrest (s.move k next fs) (Creation.move_phase_self ..)

/-- The rest of a persist that has claimed the path. -/
theorem Creation.ends_of_claimed {s : Creation} {k : Nat} {recordId : U8Array 16}
    {vaultBytes : Res Bytes} (h : s.phase k = .claimed recordId vaultBytes)
    (hpanic : vaultBytes ≠ .error .panic) :
    s.Ends platform path calls k ((FsM.lift vaultBytes >>= fun vaultBytes =>
      writeTmp (calls k).io (uniqueTmpPath path recordId) vaultBytes >>= fun _ =>
      renameFile (calls k).io.rename (uniqueTmpPath path recordId) path >>= fun _ =>
      fsyncParent (calls k).io).onError ((calls k).cleanup path recordId) s.fs) := by
  cases vaultBytes with
  | error e =>
      refine .of_step ?_
      have hne : e ≠ .panic := fun he => hpanic (congrArg Except.error he)
      have hfail : s.step platform path calls k = s.move k (.failed recordId true e) s.fs := by
        simp only [Creation.step, h, if_neg hne]
      rw [hfail]
      exact Creation.ends_of_failed (Creation.move_phase_self ..)
  | ok bytes =>
      have hlift : ∀ f : Bytes → FsM Unit, FsM.lift (.ok bytes : Res Bytes) >>= f = f bytes :=
        fun _ => rfl
      rw [hlift]
      simp only [writeTmp, fsyncParent, FsM.bind_assoc]
      refine .of_after (by simp only [Creation.step, h]; rfl) fun s₁ h₁ => ?_
      refine .of_after (by simp only [Creation.step, h₁]; rfl) fun s₂ h₂ => ?_
      refine .of_after (by simp only [Creation.step, h₂]; rfl) fun s₃ h₃ => ?_
      refine .of_after (by simp only [Creation.step, h₃]; rfl) fun s₄ h₄ => ?_
      refine .of_after (by simp only [Creation.step, h₄]; rfl) fun s₅ h₅ => ?_
      -- the last step has no rest
      have hend : (syncCall (calls k).io.parentSync : FsM Unit)
          = syncCall (calls k).io.parentSync >>= fun _ => FsM.ok () := by
        funext fs
        simp only [FsM.bind_apply, syncCall]
        split_ifs
        · rfl
        · rfl
      rw [hend]
      refine .of_after (by simp only [Creation.step, h₅]; rfl) fun s₆ h₆ => ?_
      exact Creation.ends_of_done h₆

/-- A call whose steps nothing interrupts is `create`. -/
theorem Creation.alone {s : Creation} {k : Nat} (hready : s.phase k = .ready) :
    s.Ends platform path calls k
      (create platform (calls k).io (calls k).draws path (calls k).password s.fs) := by
  rw [create_eq_prepare]
  simp only [FsM.bind_apply, FsM.lift]
  refine .of_step ?_
  cases hprepare : (calls k).prepare platform with
  | error e =>
      simp only [Creation.step, hready, hprepare]
      exact Creation.ends_of_done (Creation.move_phase_self ..)
  | ok prepared =>
      obtain ⟨recordId, vaultBytes⟩ := prepared
      have hstep : s.step platform path calls k
        = s.move k (.prepared recordId vaultBytes) s.fs := by
        simp only [Creation.step, hready, hprepare]
      rw [hstep]
      refine .of_step ?_
      simp only [Creation.step, Creation.move_phase_self, Creation.move_fs, persistVault]
      rcases createNewFile (calls k).io.claim path s.fs with ⟨r, fs⟩
      cases r with
      | error e =>
          refine .of_step ?_
          simp only [Creation.after, Creation.step, Creation.move_phase_self, Creation.move_fs]
          exact Creation.ends_of_done (Creation.move_phase_self ..)
      | ok u =>
          have hclaimed :=
            Creation.move_phase_self (s.move k (.prepared recordId vaultBytes) s.fs) k
            (.claimed recordId vaultBytes) fs
          dsimp only
          split
          · refine .of_step ?_
            simp only [Creation.after, Creation.step, Creation.move_phase_self, if_true]
            exact Creation.ends_of_done (Creation.move_phase_self ..)
          case h_2 hpanic => exact Creation.ends_of_claimed hclaimed hpanic

-- ======================================================= what a step can do

/-- A write that fails leaves a part of its bytes. -/
theorem writeAll_cases (fault : Option Nat) (p : Path) (bytes : Bytes) (fs : Fs) :
    writeAll fault p bytes fs = (.ok (), fs.set p (some bytes))
      ∨ ∃ part, writeAll fault p bytes fs = (.error .io, fs.set p (some part)) := by
  cases fault with
  | none => exact .inl rfl
  | some n => exact .inr ⟨_, rfl⟩

/-- A sync changes no contents. -/
theorem syncCall_cases (fault : Bool) (fs : Fs) :
    syncCall fault fs = (.ok (), fs) ∨ syncCall fault fs = (.error .io, fs) := by
  cases fault with
  | false => exact .inl rfl
  | true => exact .inr rfl

/-- A rename moves the bytes, or nothing. -/
theorem renameFile_cases (fault : Bool) (source target : Path) (fs : Fs) :
    (∃ bytes, fs source = some bytes
        ∧ renameFile fault source target fs
          = (.ok (), (fs.set source none).set target (some bytes)))
      ∨ renameFile fault source target fs = (.error .io, fs) := by
  unfold renameFile
  cases fault with
  | true => exact .inr rfl
  | false =>
      cases h : fs source with
      | none => exact .inr rfl
      | some bytes => exact .inl ⟨bytes, rfl, rfl⟩

/-- What is known of a call in a phase, and where it stands with the path:
what it writes is what it has derived, and is whole at its temporary path
between the write and the rename. -/
def CreateCall.At (platform : Platform) (path : Path) (call : CreateCall) (fs : Fs) :
    CreatePhase → ClaimStage Bytes → Prop
  | .ready, stage => stage = .outside
  | .prepared recordId vaultBytes, stage =>
      call.prepare platform = .ok (recordId, vaultBytes) ∧ stage = .outside
  | .claimed recordId vaultBytes, stage =>
      call.prepare platform = .ok (recordId, vaultBytes) ∧ stage = .holding []
  | .created recordId bytes, stage =>
      call.prepare platform = .ok (recordId, .ok bytes) ∧ path.HasTmp ∧ stage = .holding []
  | .written recordId bytes, stage | .synced recordId bytes, stage =>
      call.prepare platform = .ok (recordId, .ok bytes) ∧ path.HasTmp
        ∧ fs (uniqueTmpPath path recordId) = some bytes ∧ stage = .holding []
  | .renamed recordId bytes, stage | .parentOpened recordId bytes, stage =>
      call.prepare platform = .ok (recordId, .ok bytes)
        ∧ fs (uniqueTmpPath path recordId) = none ∧ stage = .holding bytes
  | .failed recordId targetClaimed _, stage =>
      (∃ vaultBytes, call.prepare platform = .ok (recordId, vaultBytes))
        ∧ if targetClaimed then ∃ x, stage = .holding x else stage = .outside
  | .tmpRemoved _, stage => ∃ x, stage = .holding x
  | .done (.ok ()), stage => ∃ recordId bytes, call.prepare platform = .ok (recordId, .ok bytes)
      ∧ fs (uniqueTmpPath path recordId) = none ∧ stage = .won bytes
  | .done (.error _), stage => stage = .out

/-- Neither the vault's path nor the call's own temporary one. -/
structure CreateCall.Elsewhere (platform : Platform) (path : Path) (call : CreateCall)
    (p : Path) : Prop where
  target : path.Apart p
  tmp : ∀ recordId vaultBytes, call.prepare platform = .ok (recordId, vaultBytes) →
    (uniqueTmpPath path recordId).Apart p

/-- Call `k` moves on, in a step at the path of the cell, and nowhere but at
paths of its own. -/
def Creation.Advances (platform : Platform) (path : Path) (calls : Nat → CreateCall)
    (s : Creation) (c : ClaimCell Nat Bytes) (k : Nat) : Prop :=
  ∃ phase fs stage, s.step platform path calls k = s.move k phase fs
    ∧ ClaimCell.Step c k (c.move k stage (fs path))
    ∧ (calls k).At platform path fs phase stage
    ∧ ∀ p, (calls k).Elsewhere platform path p → fs p = s.fs p

section StepCases

variable {s : Creation} {c : ClaimCell Nat Bytes} {k : Nat} {recordId : U8Array 16}
  {vaultBytes : Res Bytes} {bytes : Bytes}

/-- A step that keeps what is at the path, and the call's stage. -/
theorem Creation.Advances.stay {phase : CreatePhase} {fs : Fs} {stage : ClaimStage Bytes}
    (hvalue : c.value = s.fs path) (hstage : c.stage k = stage)
    (hstep : s.step platform path calls k = s.move k phase fs) (hsame : fs path = s.fs path)
    (hat : (calls k).At platform path fs phase stage)
    (hframe : ∀ p, (calls k).Elsewhere platform path p → fs p = s.fs p) :
    s.Advances platform path calls c k :=
  ⟨phase, fs, stage, hstep, .stay hstage (hsame.trans hvalue.symm), hat, hframe⟩

/-- A step that changes no file. -/
theorem Creation.Advances.idle {phase : CreatePhase} {stage : ClaimStage Bytes}
    (hvalue : c.value = s.fs path) (hstage : c.stage k = stage)
    (hstep : s.step platform path calls k = s.move k phase s.fs)
    (hat : (calls k).At platform path s.fs phase stage) : s.Advances platform path calls c k :=
  .stay hvalue hstage hstep rfl hat fun _ _ => rfl

/-- What is put at the temporary path is seen neither at the path
nor elsewhere. -/
theorem tmp_frame (htmp : path.HasTmp)
    (hprepare : (calls k).prepare platform = .ok (recordId, vaultBytes)) (fs : Fs)
    (value : Option Bytes) :
    (fs.set (uniqueTmpPath path recordId) value) path = fs path
      ∧ ∀ p, (calls k).Elsewhere platform path p →
        (fs.set (uniqueTmpPath path recordId) value) p = fs p := by
  have hfile : (uniqueTmpPath path recordId).NamesFile := uniqueTmpPath_namesFile_iff.mpr htmp
  exact ⟨Fs.set_of_ne _ _ (uniqueTmpPath_apart path recordId hfile),
    fun p hp => Fs.set_of_ne _ _ (hp.tmp _ _ hprepare hfile)⟩

/-- The draws are made, or the call ends with nothing of it on disk. -/
theorem Creation.advances_of_ready (hphase : s.phase k = .ready) (hvalue : c.value = s.fs path)
    (h : (calls k).At platform path s.fs .ready (c.stage k)) :
    s.Advances platform path calls c k := by
  have hstage : c.stage k = .outside := h
  cases hprepare : (calls k).prepare platform with
  | error e =>
      refine ⟨.done (.error e), s.fs, .out, by simp only [Creation.step, hphase, hprepare], ?_, rfl,
        fun p _ => rfl⟩
      rw [← hvalue]
      exact .leave hstage
  | ok prepared =>
      exact .idle hvalue hstage (by simp only [Creation.step, hphase, hprepare])
        (show (calls k).At platform path s.fs (.prepared prepared.1 prepared.2) .outside from
          ⟨hprepare, rfl⟩)

/-- The claim: the one step at which a file comes to the path of the vault.
It takes a path that is free, so of all calls one at most gets through. -/
theorem Creation.advances_of_prepared (hphase : s.phase k = .prepared recordId vaultBytes)
    (hvalue : c.value = s.fs path)
    (h : (calls k).At platform path s.fs (.prepared recordId vaultBytes) (c.stage k)) :
    s.Advances platform path calls c k := by
  obtain ⟨hprepare, hstage⟩ := h
  rcases createNewFile_cases (calls k).io.claim path s.fs with
    ⟨-, hfile, hnone, hrun⟩ | ⟨-, hrun⟩
  · refine ⟨.claimed recordId vaultBytes, s.fs.set path (some []), .holding [], ?_, ?_,
      ⟨hprepare, rfl⟩, fun p hp => Fs.set_of_ne _ _ (hp.target hfile)⟩
    · simp only [Creation.step, hphase, hrun, Creation.after]
    · rw [Fs.set_self]
      exact .claim [] hstage (hvalue.trans hnone)
  · exact .idle hvalue hstage (by simp only [Creation.step, hphase, hrun, Creation.after])
      (show (calls k).At platform path s.fs (.failed recordId false .io) .outside from
        ⟨⟨vaultBytes, hprepare⟩, rfl⟩)

/-- The temporary file is made, under a name no other call has. A panic
before that leaves the claim behind. -/
theorem Creation.advances_of_claimed (hphase : s.phase k = .claimed recordId vaultBytes)
    (hvalue : c.value = s.fs path)
    (h : (calls k).At platform path s.fs (.claimed recordId vaultBytes) (c.stage k)) :
    s.Advances platform path calls c k := by
  obtain ⟨hprepare, hstage⟩ := h
  cases vaultBytes with
  | error e =>
      by_cases hpanic : e = .panic
      · -- the claim stays, and nobody has it
        refine ⟨.done (.error e), s.fs, .out, by simp only [Creation.step, hphase, if_pos hpanic],
          .giveUp hstage _ (.inr hvalue.symm), rfl, fun p _ => rfl⟩
      · exact .idle hvalue hstage (by simp only [Creation.step, hphase, if_neg hpanic])
          (show (calls k).At platform path s.fs (.failed recordId true e) (.holding []) from
            ⟨⟨_, hprepare⟩, [], rfl⟩)
  | ok bytes =>
      rcases createNewFile_cases (calls k).io.tmpCreate (uniqueTmpPath path recordId) s.fs with
        ⟨-, hfile, -, hrun⟩ | ⟨-, hrun⟩
      · have htmp := uniqueTmpPath_namesFile_iff.mp hfile
        obtain ⟨hsame, hframe⟩ := tmp_frame htmp hprepare s.fs (some [])
        exact .stay hvalue hstage
          (by simp only [Creation.step, hphase, hrun, Creation.after]) hsame
          (show (calls k).At platform path _ (.created recordId bytes) (.holding []) from
            ⟨hprepare, htmp, rfl⟩) hframe
      · exact .idle hvalue hstage (by simp only [Creation.step, hphase, hrun, Creation.after])
          (show (calls k).At platform path s.fs (.failed recordId true .io) (.holding []) from
            ⟨⟨_, hprepare⟩, [], rfl⟩)

/-- The bytes are written, or a part of them. -/
theorem Creation.advances_of_created (hphase : s.phase k = .created recordId bytes)
    (hvalue : c.value = s.fs path)
    (h : (calls k).At platform path s.fs (.created recordId bytes) (c.stage k)) :
    s.Advances platform path calls c k := by
  obtain ⟨hprepare, htmp, hstage⟩ := h
  rcases writeAll_cases (calls k).io.tmpWrite (uniqueTmpPath path recordId) bytes s.fs with
    hrun | ⟨part, hrun⟩
  · obtain ⟨hsame, hframe⟩ := tmp_frame htmp hprepare s.fs (some bytes)
    exact .stay hvalue hstage (by simp only [Creation.step, hphase, hrun, Creation.after])
      hsame (show (calls k).At platform path _ (.written recordId bytes) (.holding []) from
        ⟨hprepare, htmp, Fs.set_self .., rfl⟩) hframe
  · obtain ⟨hsame, hframe⟩ := tmp_frame htmp hprepare s.fs (some part)
    exact .stay hvalue hstage (by simp only [Creation.step, hphase, hrun, Creation.after])
      hsame (show (calls k).At platform path _ (.failed recordId true .io) (.holding []) from
        ⟨⟨_, hprepare⟩, [], rfl⟩) hframe

/-- A sync of a call that has claimed the path. -/
theorem Creation.advances_of_sync {fault : Bool} {next : CreatePhase} {x : Bytes}
    (hstep : s.step platform path calls k
      = s.after k (syncCall fault s.fs) next (.failed recordId true))
    (hvalue : c.value = s.fs path) (hstage : c.stage k = .holding x)
    (hprepare : (calls k).prepare platform = .ok (recordId, vaultBytes))
    (hnext : (calls k).At platform path s.fs next (.holding x)) :
    s.Advances platform path calls c k := by
  rcases syncCall_cases fault s.fs with hrun | hrun
  · exact .idle hvalue hstage (by rw [hstep, hrun]; rfl) hnext
  · exact .idle hvalue hstage (by rw [hstep, hrun]; rfl)
      (show (calls k).At platform path s.fs (.failed recordId true .io) (.holding x) from
        ⟨⟨_, hprepare⟩, x, rfl⟩)

/-- The rename: it replaces the claim, which is this call's own. -/
theorem Creation.advances_of_synced (hphase : s.phase k = .synced recordId bytes)
    (hvalue : c.value = s.fs path)
    (h : (calls k).At platform path s.fs (.synced recordId bytes) (c.stage k)) :
    s.Advances platform path calls c k := by
  obtain ⟨hprepare, htmp, hwritten, hstage⟩ := h
  have hfile : (uniqueTmpPath path recordId).NamesFile := uniqueTmpPath_namesFile_iff.mpr htmp
  have hne : uniqueTmpPath path recordId ≠ path := (uniqueTmpPath_apart path recordId hfile).symm
  rcases renameFile_cases (calls k).io.rename (uniqueTmpPath path recordId) path s.fs with
    ⟨b, hb, hrun⟩ | hrun
  · rw [hwritten, Option.some.injEq] at hb
    subst hb
    refine ⟨.renamed recordId bytes,
      (s.fs.set (uniqueTmpPath path recordId) none).set path (some bytes), .holding bytes, ?_, ?_,
      ⟨hprepare, ?_, rfl⟩, fun p hp => ?_⟩
    · simp only [Creation.step, hphase, hrun, Creation.after]
    · rw [Fs.set_self]
      exact .put bytes hstage
    · rw [Fs.set_of_ne _ _ hne, Fs.set_self]
    · rw [Fs.set_of_ne _ _ (hp.target htmp.1), Fs.set_of_ne _ _ (hp.tmp _ _ hprepare hfile)]
  · exact .idle hvalue hstage (by simp only [Creation.step, hphase, hrun, Creation.after])
      (show (calls k).At platform path s.fs (.failed recordId true .io) (.holding []) from
        ⟨⟨_, hprepare⟩, [], rfl⟩)

/-- The last sync, behind which the call has won or has to clean up. -/
theorem Creation.advances_of_parentOpened (hphase : s.phase k = .parentOpened recordId bytes)
    (hvalue : c.value = s.fs path)
    (h : (calls k).At platform path s.fs (.parentOpened recordId bytes) (c.stage k)) :
    s.Advances platform path calls c k := by
  obtain ⟨hprepare, hgone, hstage⟩ := h
  rcases syncCall_cases (calls k).io.parentSync s.fs with hrun | hrun
  · refine ⟨.done (.ok ()), s.fs, .won bytes, ?_, ?_, ⟨recordId, bytes, hprepare, hgone, rfl⟩,
      fun p _ => rfl⟩
    · simp only [Creation.step, hphase, hrun, Creation.after]
    · rw [← hvalue]
      exact .win hstage
  · exact .idle hvalue hstage (by simp only [Creation.step, hphase, hrun, Creation.after])
      (show (calls k).At platform path s.fs (.failed recordId true .io) (.holding bytes) from
        ⟨⟨_, hprepare⟩, bytes, rfl⟩)

/-- The first half of the cleanup removes what is at the temporary
name, whoever made it. Only a call that claimed the path goes on to
the other half. -/
theorem Creation.advances_of_failed {targetClaimed : Bool} {e : CoreError}
    (hphase : s.phase k = .failed recordId targetClaimed e) (hvalue : c.value = s.fs path)
    (h : (calls k).At platform path s.fs (.failed recordId targetClaimed e) (c.stage k)) :
    s.Advances platform path calls c k := by
  obtain ⟨⟨vaultBytes, hprepare⟩, hstage⟩ := h
  have hsame : (removeFile (calls k).io.tmpRemove (uniqueTmpPath path recordId) s.fs).2 path
      = s.fs path := removeFile_of_apart _ (uniqueTmpPath_apart path recordId)
  have hframe : ∀ p, (calls k).Elsewhere platform path p →
      (removeFile (calls k).io.tmpRemove (uniqueTmpPath path recordId) s.fs).2 p = s.fs p :=
    fun p hp => removeFile_of_apart _ (hp.tmp _ _ hprepare)
  cases targetClaimed with
  | true =>
      obtain ⟨x, hstage⟩ : ∃ x, c.stage k = .holding x := hstage
      exact .stay hvalue hstage (by simp only [Creation.step, hphase, if_true]) hsame
        (show (calls k).At platform path _ (.tmpRemoved e) (.holding x) from ⟨x, rfl⟩) hframe
  | false =>
      have hstage : c.stage k = .outside := hstage
      refine ⟨.done (.error e), _, .out, by simp only [Creation.step, hphase]; rfl, ?_, rfl, hframe⟩
      rw [hsame, ← hvalue]
      exact .leave hstage

/-- The second half removes what is at the path: the claim, or the vault the
call renamed to it. -/
theorem Creation.advances_of_tmpRemoved {e : CoreError} (hphase : s.phase k = .tmpRemoved e)
    (hvalue : c.value = s.fs path)
    (h : (calls k).At platform path s.fs (.tmpRemoved e) (c.stage k)) :
    s.Advances platform path calls c k := by
  obtain ⟨x, hstage⟩ := h
  refine ⟨.done (.error e), (removeFile (calls k).io.targetRemove path s.fs).2, .out,
    by simp only [Creation.step, hphase], .giveUp hstage _ ?_, rfl,
    fun p hp => removeFile_of_apart _ hp.target⟩
  unfold removeFile
  split_ifs
  · exact .inr hvalue.symm
  · exact .inl (Fs.set_self ..)

/-- A step of a call, one phase at a time. A call that has ended
stays as it is. -/
theorem Creation.step_cases (hvalue : c.value = s.fs path)
    (h : (calls k).At platform path s.fs (s.phase k) (c.stage k)) :
    s.step platform path calls k = s ∨ s.Advances platform path calls c k := by
  cases hphase : s.phase k with
  | done r =>
      left
      simp only [Creation.step, hphase]
  | ready =>
      rw [hphase] at h
      exact .inr (Creation.advances_of_ready hphase hvalue h)
  | prepared recordId vaultBytes =>
      rw [hphase] at h
      exact .inr (Creation.advances_of_prepared hphase hvalue h)
  | claimed recordId vaultBytes =>
      rw [hphase] at h
      exact .inr (Creation.advances_of_claimed hphase hvalue h)
  | created recordId bytes =>
      rw [hphase] at h
      exact .inr (Creation.advances_of_created hphase hvalue h)
  | written recordId bytes =>
      rw [hphase] at h
      obtain ⟨hprepare, htmp, hwritten, hstage⟩ := h
      exact .inr (Creation.advances_of_sync (by simp only [Creation.step, hphase]; rfl) hvalue
        hstage hprepare (show (calls k).At platform path s.fs (.synced recordId bytes) _ from
          ⟨hprepare, htmp, hwritten, rfl⟩))
  | synced recordId bytes =>
      rw [hphase] at h
      exact .inr (Creation.advances_of_synced hphase hvalue h)
  | renamed recordId bytes =>
      rw [hphase] at h
      obtain ⟨hprepare, hgone, hstage⟩ := h
      exact .inr (Creation.advances_of_sync (by simp only [Creation.step, hphase]; rfl) hvalue
        hstage hprepare (show (calls k).At platform path s.fs (.parentOpened recordId bytes) _ from
          ⟨hprepare, hgone, rfl⟩))
  | parentOpened recordId bytes =>
      rw [hphase] at h
      exact .inr (Creation.advances_of_parentOpened hphase hvalue h)
  | failed recordId targetClaimed e =>
      rw [hphase] at h
      exact .inr (Creation.advances_of_failed hphase hvalue h)
  | tmpRemoved e =>
      rw [hphase] at h
      exact .inr (Creation.advances_of_tmpRemoved hphase hvalue h)

end StepCases

-- =============================================================== invariant

/-- Calls draw record ids of their own. -/
def DistinctIds (calls : Nat → CreateCall) : Prop :=
  ∀ i j recordId, (calls i).draws.recordId = some recordId →
    (calls j).draws.recordId = some recordId → i = j

/-- A call that is prepared has drawn its record id. -/
theorem recordId_of_prepare {call : CreateCall} {recordId : U8Array 16} {vaultBytes : Res Bytes}
    (h : call.prepare platform = .ok (recordId, vaultBytes)) :
    call.draws.recordId = some recordId := by
  simp only [CreateCall.prepare, bind_eq_ok, okOr_eq_ok, pure_eq_ok, Except.ok.injEq,
    Prod.mk.injEq] at h
  obtain ⟨-, -, -, -, drawn, hdrawn, -, -, -, -, -, -, -, -, rfl, -⟩ := h
  exact hdrawn

/-- The path as a claimed cell, every call where its phase says, and every
file that is of this run its maker's. -/
structure Creation.Inv (platform : Platform) (path : Path) (calls : Nat → CreateCall) (fs₀ : Fs)
    (s : Creation) (c : ClaimCell Nat Bytes) : Prop where
  value : c.value = s.fs path
  phase : ∀ k, (calls k).At platform path s.fs (s.phase k) (c.stage k)
  exclusive : c.Exclusive (fs₀ path)
  ownPath : ∀ k x, c.stage k = .holding x → s.owner path = some k
  ownTmp : ∀ k recordId vaultBytes, (calls k).prepare platform = .ok (recordId, vaultBytes) →
    fs₀ (uniqueTmpPath path recordId) = none → ∀ bytes,
    s.fs (uniqueTmpPath path recordId) = some bytes → s.owner (uniqueTmpPath path recordId) = some k

/-- Nobody has begun, and the path is as it was found. -/
theorem Creation.inv_start (platform : Platform) (path : Path)
    (calls : Nat → CreateCall) (fs₀ : Fs) :
    (Creation.start fs₀).Inv platform path calls fs₀ (.init (fs₀ path)) where
  value := rfl
  phase _ := rfl
  exclusive := ClaimCell.exclusive_init _
  ownPath k x h := nomatch h
  ownTmp k recordId vaultBytes hprepare hfresh bytes hbytes := by
    rw [show (Creation.start fs₀).fs = fs₀ from rfl, hfresh] at hbytes
    cases hbytes

/-- A call looks at no file but that of its own temporary path. -/
theorem CreateCall.At.frame {call : CreateCall} {fs fs' : Fs} {phase : CreatePhase}
    {stage : ClaimStage Bytes} (h : call.At platform path fs phase stage)
    (hsame : ∀ recordId vaultBytes, call.prepare platform = .ok (recordId, vaultBytes) →
      fs' (uniqueTmpPath path recordId) = fs (uniqueTmpPath path recordId)) :
    call.At platform path fs' phase stage := by
  cases phase with
  | ready | prepared | claimed | created | failed | tmpRemoved => exact h
  | written recordId bytes | synced recordId bytes =>
      obtain ⟨hprepare, htmp, hwritten, hstage⟩ := h
      exact ⟨hprepare, htmp, (hsame _ _ hprepare).trans hwritten, hstage⟩
  | renamed recordId bytes | parentOpened recordId bytes =>
      obtain ⟨hprepare, hgone, hstage⟩ := h
      exact ⟨hprepare, (hsame _ _ hprepare).trans hgone, hstage⟩
  | done r =>
      cases r with
      | error e => exact h
      | ok u =>
          obtain ⟨recordId, bytes, hprepare, hgone, hstage⟩ := h
          exact ⟨recordId, bytes, hprepare, (hsame _ _ hprepare).trans hgone, hstage⟩

/-- The temporary path of another call is elsewhere. -/
theorem elsewhere_of_ne (hids : DistinctIds calls) {j k : Nat} {recordId : U8Array 16}
    {vaultBytes : Res Bytes} (hjk : j ≠ k)
    (hprepare : (calls j).prepare platform = .ok (recordId, vaultBytes)) :
    (calls k).Elsewhere platform path (uniqueTmpPath path recordId) where
  target hfile heq := by
    have htmp : (uniqueTmpPath path recordId).NamesFile := by rwa [heq]
    exact uniqueTmpPath_apart path recordId htmp heq.symm
  tmp recordId' vaultBytes' hprepare' := by
    refine uniqueTmpPath_apart_of_ne path fun hsame => hjk ?_
    subst hsame
    exact hids j k recordId (recordId_of_prepare hprepare) (recordId_of_prepare hprepare')

/-- The owner after a step. -/
theorem Creation.owner_move (s : Creation) (k : Nat) (phase : CreatePhase) {fs : Fs} {p : Path}
    {bytes : Bytes} (h : fs p = some bytes) :
    (s.move k phase fs).owner p = if (s.fs p).isNone then some k else s.owner p := by
  show (if (fs p).isNone then none else if (s.fs p).isNone then some k else s.owner p) = _
  rw [h]
  rfl

/-- One step of one call keeps the invariant. The cell moves as the phase
does; the other calls find their files as they were; and a file that is new
is of the call that stepped. -/
theorem Creation.Inv.step {fs₀ : Fs} {s : Creation} {c : ClaimCell Nat Bytes}
    (hids : DistinctIds calls) (hinv : s.Inv platform path calls fs₀ c) (k : Nat) :
    ∃ c', (s.step platform path calls k).Inv platform path calls fs₀ c' := by
  rcases Creation.step_cases hinv.value (hinv.phase k) with
    hstep | ⟨phase, fs, stage, hstep, hcell, hat, hframe⟩
  · rw [hstep]
    exact ⟨c, hinv⟩
  rw [hstep]
  have hexclusive := hcell.exclusive hinv.exclusive
  -- no other call's temporary path is touched
  have hother : ∀ {j : Nat} {recordId : U8Array 16} {vaultBytes : Res Bytes}, j ≠ k →
      (calls j).prepare platform = .ok (recordId, vaultBytes) →
      fs (uniqueTmpPath path recordId) = s.fs (uniqueTmpPath path recordId) :=
    fun hjk hprepare => hframe _ (elsewhere_of_ne hids hjk hprepare)
  refine ⟨c.move k stage (fs path), rfl, fun j => ?_, hexclusive, fun j x hj => ?_, ?_⟩
  · -- each call is where its stage says
    by_cases hjk : j = k
    · subst hjk
      rw [ClaimCell.move_self, Creation.move_phase_self]
      exact hat
    · rw [ClaimCell.move_of_ne _ _ _ hjk, Creation.move_phase_of_ne _ _ _ hjk]
      exact (hinv.phase j).frame fun recordId vaultBytes hprepare => hother hjk hprepare
  · -- whoever holds the path now made it: it held it before, or has just claimed it
    have hvalue : fs path = some x := (hexclusive.value j x (.inl hj)).1
    rw [Creation.owner_move s k phase hvalue]
    cases hbefore : s.fs path with
    | none =>
        have hjk : j = k := by
          by_contra hjk
          rw [ClaimCell.move_of_ne _ _ _ hjk] at hj
          have hheld := (hinv.exclusive.value j x (.inl hj)).1
          rw [hinv.value, hbefore] at hheld
          cases hheld
        rw [hjk]
        rfl
    | some y =>
        have hheld : ∃ z, c.stage j = .holding z := by
          by_cases hjk : j = k
          · subst hjk
            rw [ClaimCell.move_self] at hj
            generalize hnext : c.move j stage (fs path) = next at hcell
            have hstage : next.stage j = .holding x := by
              rw [← hnext, ClaimCell.move_self, hj]
            cases hcell with
            | idle => exact ⟨x, hstage⟩
            | claim z hz hempty =>
                rw [hinv.value, hbefore] at hempty
                cases hempty
            | put z hz => exact ⟨_, hz⟩
            | win hz => exact ⟨_, hz⟩
            | leave hz =>
                rw [ClaimCell.move_self] at hstage
                cases hstage
            | giveUp hz _ _ => exact ⟨_, hz⟩
          · rw [ClaimCell.move_of_ne _ _ _ hjk] at hj
            exact ⟨x, hj⟩
        obtain ⟨z, hz⟩ := hheld
        exact hinv.ownPath j z hz
  · -- and whatever is at a free temporary name was made by its call
    intro j recordId vaultBytes hprepare hfresh bytes hbytes
    have hbytes' : fs (uniqueTmpPath path recordId) = some bytes := hbytes
    rw [Creation.owner_move s k phase hbytes']
    cases hbefore : s.fs (uniqueTmpPath path recordId) with
    | none =>
        have hjk : j = k := by
          by_contra hjk
          rw [hother hjk hprepare, hbefore] at hbytes'
          cases hbytes'
        rw [hjk]
        rfl
    | some y => exact hinv.ownTmp j recordId vaultBytes hprepare hfresh y hbefore

/-- By induction on the schedule. -/
theorem Creation.Inv.run {fs₀ : Fs} {s : Creation} {c : ClaimCell Nat Bytes}
    (hids : DistinctIds calls) (hinv : s.Inv platform path calls fs₀ c) (schedule : List Nat) :
    ∃ c', (s.run platform path calls schedule).Inv platform path calls fs₀ c' := by
  induction schedule generalizing s c with
  | nil => exact ⟨c, hinv⟩
  | cons k schedule ih =>
      obtain ⟨c', hnext⟩ := hinv.step hids k
      exact ih hnext

-- ================================================================= results

/-- A step changes or removes only files its call made, where no file bore
the call's temporary name at the start. -/
theorem Creation.Inv.owner_of_change {fs₀ : Fs} {s : Creation} {c : ClaimCell Nat Bytes} {k : Nat}
    {p : Path} {bytes : Bytes} (hinv : s.Inv platform path calls fs₀ c)
    (hbytes : s.fs p = some bytes)
    (hchange : (s.step platform path calls k).fs p ≠ some bytes)
    (hfresh : ∀ recordId vaultBytes, (calls k).prepare platform = .ok (recordId, vaultBytes) →
      (uniqueTmpPath path recordId).NamesFile → fs₀ (uniqueTmpPath path recordId) = none) :
    s.owner p = some k := by
  rcases Creation.step_cases hinv.value (hinv.phase k) with
    hstep | ⟨phase, fs, stage, hstep, hcell, -, hframe⟩
  · rw [hstep] at hchange
    exact absurd hbytes hchange
  rw [hstep, Creation.move_fs] at hchange
  by_cases hpath : p = path
  · subst hpath
    obtain ⟨y, hy⟩ := hcell.holding_of_change (hinv.value.trans hbytes) hchange
    exact hinv.ownPath k y hy
  by_cases htmp : ∃ recordId vaultBytes, (calls k).prepare platform = .ok (recordId, vaultBytes)
      ∧ (uniqueTmpPath path recordId).NamesFile ∧ p = uniqueTmpPath path recordId
  · obtain ⟨recordId, vaultBytes, hprepare, hfile, rfl⟩ := htmp
    exact hinv.ownTmp k recordId vaultBytes hprepare (hfresh _ _ hprepare hfile) bytes hbytes
  · -- at neither of the two there is no change
    have helsewhere : (calls k).Elsewhere platform path p :=
      ⟨.of_ne hpath, fun recordId vaultBytes hprepare hfile heq =>
        htmp ⟨recordId, vaultBytes, hprepare, hfile, heq⟩⟩
    rw [hframe p helsewhere] at hchange
    exact absurd hbytes hchange

/-- What creation promises of a state and of each next step: a file that was
at the path is as it was; one call at most has succeeded; a step changes or
removes only what its call made; and the bytes of a call that has succeeded
are at the path, its temporary file gone. -/
structure Creation.Exclusive (platform : Platform) (path : Path) (calls : Nat → CreateCall)
    (fs₀ : Fs) (s : Creation) : Prop where
  kept : ∀ bytes, fs₀ path = some bytes → s.fs path = some bytes
  atMostOne : ∀ i j, s.phase i = .done (.ok ()) → s.phase j = .done (.ok ()) → i = j
  ownOnly : ∀ k p bytes, s.fs p = some bytes →
    (s.step platform path calls k).fs p ≠ some bytes → s.owner p = some k
  complete : ∀ k, s.phase k = .done (.ok ()) → ∃ recordId bytes,
    (calls k).prepare platform = .ok (recordId, .ok bytes) ∧ s.fs path = some bytes
      ∧ s.fs (uniqueTmpPath path recordId) = none

/-- At the start no file bears the temporary name of a call that gets as far
as touching files. -/
def TmpNamesFree (platform : Platform) (path : Path) (calls : Nat → CreateCall) (fs₀ : Fs) :
    Prop :=
  ∀ k recordId vaultBytes, (calls k).prepare platform = .ok (recordId, vaultBytes) →
    (uniqueTmpPath path recordId).NamesFile → fs₀ (uniqueTmpPath path recordId) = none

/-- The calls, in another environment. -/
def callsUnder (calls : Nat → CreateCall) (io : Nat → IoFaults) (k : Nat) : CreateCall :=
  { calls k with io := io k }

/-- In any interleaving and with any failures, whatever else there is: a file
that was at the path stays as it was, one call at most succeeds, and the
bytes of one that has are at the path. -/
theorem create_keeps_path (hids : DistinctIds calls) (fs₀ : Fs) (schedule : List Nat)
    {s : Creation} (hrun : (Creation.start fs₀).run platform path calls schedule = s) :
    (∀ bytes, fs₀ path = some bytes → s.fs path = some bytes)
      ∧ (∀ i j, s.phase i = .done (.ok ()) → s.phase j = .done (.ok ()) → i = j)
      ∧ ∀ k, s.phase k = .done (.ok ()) → ∃ recordId bytes,
        (calls k).prepare platform = .ok (recordId, .ok bytes) ∧ s.fs path = some bytes
          ∧ s.fs (uniqueTmpPath path recordId) = none := by
  obtain ⟨c, hinv⟩ := (Creation.inv_start platform path calls fs₀).run hids schedule
  rw [hrun] at hinv
  have hwon : ∀ k, s.phase k = .done (.ok ()) → ∃ recordId bytes,
      (calls k).prepare platform = .ok (recordId, .ok bytes)
        ∧ s.fs (uniqueTmpPath path recordId) = none ∧ c.stage k = .won bytes := by
    intro k hk
    have hphase := hinv.phase k
    rw [hk] at hphase
    exact hphase
  refine ⟨fun bytes hbytes => ?_, fun i j hi hj => ?_, fun k hk => ?_⟩
  · rw [← hinv.value]
    exact hinv.exclusive.kept bytes hbytes
  · obtain ⟨-, x, -, -, hx⟩ := hwon i hi
    obtain ⟨-, y, -, -, hy⟩ := hwon j hj
    exact hinv.exclusive.unique i j x y (.inr hx) (.inr hy)
  · obtain ⟨recordId, bytes, hprepare, htmp, hstage⟩ := hwon k hk
    refine ⟨recordId, bytes, hprepare, ?_, htmp⟩
    rw [← hinv.value]
    exact (hinv.exclusive.value k bytes (.inr hstage)).1

-- ------------------------------------------------- a file that is in the way

/-- A file that is still there has the maker it had. -/
theorem Creation.owner_move_of_some (s : Creation) (k : Nat) (phase : CreatePhase) {fs : Fs}
    {p : Path} {bytes before : Bytes} (h : fs p = some bytes) (hbefore : s.fs p = some before) :
    (s.move k phase fs).owner p = s.owner p := by
  rw [Creation.owner_move s k phase h, hbefore]
  rfl

/-- A call is about to clean up, and at its temporary name is a file
that is nobody's. -/
def Creation.AtCleanup (s : Creation) (path : Path) (k : Nat) (recordId : U8Array 16)
    (foreign : Bytes) : Prop :=
  (∃ targetClaimed e, s.phase k = .failed recordId targetClaimed e)
    ∧ s.fs (uniqueTmpPath path recordId) = some foreign
    ∧ s.owner (uniqueTmpPath path recordId) = none

section Cleanup

variable {fs₀ : Fs} {k : Nat} {recordId : U8Array 16} {vaultBytes : Res Bytes} {foreign : Bytes}

/-- A file at the temporary name of a call stays while the call derives what
it will write. -/
theorem Creation.prepared_beside
    (hprepare : (calls k).prepare platform = .ok (recordId, vaultBytes))
    (hforeign : fs₀ (uniqueTmpPath path recordId) = some foreign) :
    ∃ s, (Creation.start fs₀).run platform path calls [k] = s
      ∧ s.phase k = .prepared recordId vaultBytes ∧ s.fs = fs₀
      ∧ s.owner (uniqueTmpPath path recordId) = none := by
  refine ⟨_, rfl, ?_⟩
  rw [Creation.run_cons, Creation.step_of_ready rfl hprepare, Creation.run_nil,
    Creation.move_phase_self, Creation.move_fs]
  refine ⟨rfl, rfl, ?_⟩
  exact Creation.owner_move_of_some (Creation.start fs₀) k _ hforeign hforeign

/-- The call cleans up where its claim fails, ... -/
theorem Creation.atCleanup_of_claim (hclaim : (calls k).io.claim = true)
    (hprepare : (calls k).prepare platform = .ok (recordId, vaultBytes))
    (hforeign : fs₀ (uniqueTmpPath path recordId) = some foreign) :
    ((Creation.start fs₀).run platform path calls [k, k]).AtCleanup path k recordId foreign := by
  obtain ⟨s, hrun, hphase, hfs, howner⟩ := Creation.prepared_beside hprepare hforeign
  have hlost : createNewFile (calls k).io.claim path s.fs = (.error .io, s.fs) := by
    rw [createNewFile, hclaim, if_pos (.inl rfl)]
  have hthere : s.fs (uniqueTmpPath path recordId) = some foreign := by rw [hfs, hforeign]
  rw [show [k, k] = [k] ++ [k] from rfl, Creation.run_append, hrun, Creation.run_cons,
    Creation.step_of_lost_claim hphase hlost, Creation.run_nil, Creation.AtCleanup,
    Creation.move_phase_self, Creation.move_fs, Creation.owner_move_of_some _ _ _ hthere hthere]
  exact ⟨⟨false, .io, rfl⟩, hthere, howner⟩

/-- ... and where it has claimed the path and finds the name taken. -/
theorem Creation.atCleanup_of_tmp {bytes : Bytes}
    (hclaim : createNewFile (calls k).io.claim path fs₀ = (.ok (), fs₀.set path (some [])))
    (hprepare : (calls k).prepare platform = .ok (recordId, .ok bytes))
    (hfile : (uniqueTmpPath path recordId).NamesFile)
    (hforeign : fs₀ (uniqueTmpPath path recordId) = some foreign) :
    ((Creation.start fs₀).run platform path calls [k, k, k]).AtCleanup path k recordId foreign := by
  obtain ⟨s₁, hrun, hphase₁, hfs₁, howner₁⟩ := Creation.prepared_beside hprepare hforeign
  have hne : uniqueTmpPath path recordId ≠ path := (uniqueTmpPath_apart path recordId hfile).symm
  have hkept : (fs₀.set path (some [])) (uniqueTmpPath path recordId) = some foreign := by
    rw [Fs.set_of_ne _ _ hne, hforeign]
  rw [← hfs₁] at hclaim hforeign hkept
  have hsecond : s₁.step platform path calls k
      = s₁.move k (.claimed recordId (.ok bytes)) (s₁.fs.set path (some [])) :=
    Creation.step_of_claim hphase₁ hclaim
  generalize hs₂ : s₁.move k (.claimed recordId (.ok bytes)) (s₁.fs.set path (some [])) = s₂
    at hsecond
  have hphase₂ : s₂.phase k = .claimed recordId (.ok bytes) := by
    rw [← hs₂, Creation.move_phase_self]
  have hfs₂ : s₂.fs (uniqueTmpPath path recordId) = some foreign := by
    rw [← hs₂, Creation.move_fs, hkept]
  have howner₂ : s₂.owner (uniqueTmpPath path recordId) = none := by
    rw [← hs₂, Creation.owner_move_of_some _ _ _ hkept hforeign, howner₁]
  have hthird : s₂.step platform path calls k = s₂.move k (.failed recordId true .io) s₂.fs := by
    rcases createNewFile_cases (calls k).io.tmpCreate (uniqueTmpPath path recordId) s₂.fs with
      ⟨-, -, hnone, -⟩ | ⟨-, hrun'⟩
    · rw [hfs₂] at hnone
      cases hnone
    · simp only [Creation.step, hphase₂, hrun', Creation.after]
  rw [show [k, k, k] = [k] ++ [k, k] from rfl, Creation.run_append, hrun,
    Creation.run_cons, hsecond, Creation.run_cons, hthird, Creation.run_nil, Creation.AtCleanup,
      Creation.move_phase_self,
    Creation.move_fs, Creation.owner_move_of_some _ _ _ hfs₂ hfs₂]
  exact ⟨⟨true, .io, rfl⟩, hfs₂, howner₂⟩

end Cleanup

/-- The cleanup then removes the file, and the call returns the
error it came to. -/
theorem Creation.removes_foreign {s : Creation} {k : Nat} {recordId : U8Array 16}
    {targetClaimed : Bool} {e : CoreError} {foreign : Bytes}
    (hfile : (uniqueTmpPath path recordId).NamesFile) (hio : (calls k).io.tmpRemove = false)
    (hphase : s.phase k = .failed recordId targetClaimed e)
    (hforeign : s.fs (uniqueTmpPath path recordId) = some foreign) :
    s.step platform path calls k
      = s.move k (if targetClaimed then .tmpRemoved e else .done (.error e))
        (s.fs.set (uniqueTmpPath path recordId) none) := by
  have hfree : ¬ (false = true ∨ ¬ (uniqueTmpPath path recordId).NamesFile
      ∨ (s.fs (uniqueTmpPath path recordId)).isNone = true) := by
    rw [hforeign]
    simp [hfile]
  rw [Creation.step_of_failed hphase, removeFile, hio, if_neg hfree]

/-- Calls of `create` with record ids of their own on one path keep what
creation promises, in every interleaving and whatever fails, exactly when no
file bears the temporary name of one of them at the start: the cleanup of a
call that fails removes that name without asking whether the call made it. -/
theorem create_exclusive_iff (hids : DistinctIds calls) (fs₀ : Fs) :
    (∀ (io : Nat → IoFaults) (schedule : List Nat),
        ((Creation.start fs₀).run platform path (callsUnder calls io) schedule).Exclusive platform
          path (callsUnder calls io) fs₀)
      ↔ TmpNamesFree platform path calls fs₀ := by
  constructor
  · intro h k recordId vaultBytes hprepare hfile
    by_contra hsome
    obtain ⟨foreign, hforeign⟩ := Option.ne_none_iff_exists'.mp hsome
    -- the claim fails, and the cleanup is next
    have hprepare' : (callsUnder calls (fun _ => { claim := true }) k).prepare platform
        = .ok (recordId, vaultBytes) := hprepare
    have hio : (callsUnder calls (fun _ => { claim := true }) k).io.tmpRemove = false := rfl
    obtain ⟨⟨targetClaimed, e, hphase⟩, hthere, howner⟩ :=
      Creation.atCleanup_of_claim rfl hprepare' hforeign
    have hown := (h (fun _ => { claim := true }) [k, k]).ownOnly k _ foreign hthere (by
      rw [Creation.removes_foreign hfile hio hphase hthere, Creation.move_fs, Fs.set_self]
      exact fun h => nomatch h)
    rw [howner] at hown
    cases hown
  · intro hfree io schedule
    have hids' : DistinctIds (callsUnder calls io) := hids
    obtain ⟨hkept, hone, hcomplete⟩ := create_keeps_path hids' fs₀ schedule rfl
    obtain ⟨c, hinv⟩ :=
      (Creation.inv_start platform path (callsUnder calls io) fs₀).run hids' schedule
    exact ⟨hkept, hone, fun k p bytes hbytes hchange =>
      hinv.owner_of_change hbytes hchange (hfree k), hcomplete⟩

-- ============================================================== inhabited

/-- Two calls on one path, and others that draw no id. -/
def sampleCalls : Nat → CreateCall
  | 0 => ⟨sampleCreateDraws, samplePassword, .none⟩
  | 1 => ⟨{ sampleCreateDraws with recordId := some (List.Vector.replicate 16 1) },
      samplePassword, .none⟩
  | _ => ⟨{ sampleCreateDraws with recordId := none }, samplePassword, .none⟩

/-- The two calls draw two record ids. -/
theorem sampleCalls_distinct : DistinctIds sampleCalls := by
  intro i j recordId hi hj
  have hne : (List.Vector.replicate 16 1 : U8Array 16) ≠ zeroId := by decide
  match i, j, hi, hj with
  | 0, 0, _, _ => rfl
  | 1, 1, _, _ => rfl
  | 0, 1, hi, hj => exact absurd ((Option.some.inj hj).trans (Option.some.inj hi).symm) hne
  | 1, 0, hi, hj => exact absurd ((Option.some.inj hi).trans (Option.some.inj hj).symm) hne
  | _ + 2, _, hi, _ => cases hi
  | _, _ + 2, _, hj => cases hj

/-- Of a call that would succeed alone. -/
theorem prepared_of_create {call : CreateCall} {fs fs' : Fs}
    (h : create platform call.io call.draws path call.password fs = (.ok (), fs')) :
    ∃ recordId bytes, call.prepare platform = .ok (recordId, .ok bytes)
      ∧ persistVault call.io path recordId (.ok bytes) fs = (.ok (), fs') := by
  rw [create_eq_prepare] at h
  cases hprepare : call.prepare platform with
  | error e =>
      rw [hprepare] at h
      cases h
  | ok prepared =>
      rw [hprepare] at h
      obtain ⟨recordId, vaultBytes⟩ := prepared
      obtain ⟨bytes, rfl, -⟩ := persistVault_eq_ok h
      exact ⟨recordId, bytes, rfl, h⟩

/-- A call that comes while another has claimed the path fails, cleans up, and
leaves the other where it was. -/
theorem Creation.loser_between {fs₀ : Fs} {i j : Nat} (hij : i ≠ j)
    {recordId recordId' : U8Array 16} {vaultBytes vaultBytes' : Res Bytes}
    (hi : (calls i).prepare platform = .ok (recordId, vaultBytes))
    (hj : (calls j).prepare platform = .ok (recordId', vaultBytes'))
    (hclaim : createNewFile (calls i).io.claim path fs₀ = (.ok (), fs₀.set path (some [])))
    (hclear : (removeFile (calls j).io.tmpRemove (uniqueTmpPath path recordId')
      (fs₀.set path (some []))).2 = fs₀.set path (some [])) :
    ∃ s, (Creation.start fs₀).run platform path calls [i, i, j, j, j] = s
      ∧ s.phase i = .claimed recordId vaultBytes ∧ s.phase j = .done (.error .io)
      ∧ s.fs = fs₀.set path (some []) := by
  have hlost : createNewFile (calls j).io.claim path (fs₀.set path (some []))
      = (.error .io, fs₀.set path (some [])) := by
    rw [createNewFile, if_pos (.inr (.inr (by rw [Fs.set_self]; rfl)))]
  refine ⟨_, rfl, ?_⟩
  rw [Creation.run_cons, Creation.step_of_ready rfl hi, Creation.start_fs, Creation.run_cons,
    Creation.step_of_claim (Creation.move_phase_self ..) hclaim]
  generalize hs : ((Creation.start fs₀).move i (.prepared recordId vaultBytes) fs₀).move i
    (.claimed recordId vaultBytes) (fs₀.set path (some [])) = s
  have hphase : s.phase i = .claimed recordId vaultBytes := by
    rw [← hs, Creation.move_phase_self]
  have hready : s.phase j = .ready := by
    rw [← hs, Creation.move_phase_of_ne _ _ _ hij.symm, Creation.move_phase_of_ne _ _ _ hij.symm]
    rfl
  have hfs : s.fs = fs₀.set path (some []) := by rw [← hs, Creation.move_fs]
  have hlose : (s.move j (.prepared recordId' vaultBytes') (fs₀.set path (some []))).step platform
      path calls j = (s.move j (.prepared recordId' vaultBytes') (fs₀.set path (some []))).move j
        (.failed recordId' false .io) (fs₀.set path (some [])) :=
    Creation.step_of_lost_claim (Creation.move_phase_self ..) hlost
  rw [Creation.run_cons, Creation.step_of_ready hready hj, hfs, Creation.run_cons, hlose,
    Creation.run_cons, Creation.step_of_failed (Creation.move_phase_self ..), Creation.move_fs,
    hclear]
  refine ⟨?_, Creation.move_phase_self .., rfl⟩
  rw [Creation.run_nil, Creation.move_phase_of_ne _ _ _ hij, Creation.move_phase_of_ne _ _ _ hij,
    Creation.move_phase_of_ne _ _ _ hij, hphase]

/-- Each of the two would succeed alone. -/
theorem sampleCalls_create {k : Nat} (hk : k < 2) :
    ∃ recordId bytes fs',
      (sampleCalls k).prepare Platform.transparent = .ok (recordId, .ok bytes)
        ∧ persistVault IoFaults.none samplePath recordId (.ok bytes) noFiles = (.ok (), fs') := by
  obtain ⟨recordId, hrecordId⟩ : ∃ recordId : U8Array 16, (sampleCalls k).draws
      = { sampleCreateDraws with recordId := some recordId } := by
    match k, hk with
    | 0, _ => exact ⟨zeroId, rfl⟩
    | 1, _ => exact ⟨List.Vector.replicate 16 1, rfl⟩
  have hrest : (sampleCalls k).password = samplePassword ∧ (sampleCalls k).io = IoFaults.none := by
    match k, hk with
    | 0, _ => exact ⟨rfl, rfl⟩
    | 1, _ => exact ⟨rfl, rfl⟩
  obtain ⟨fs', hcreate⟩ : ∃ fs', create Platform.transparent (sampleCalls k).io
      (sampleCalls k).draws samplePath (sampleCalls k).password noFiles = (.ok (), fs') := by
    rw [hrecordId, hrest.1, hrest.2]
    exact exists_create Platform.transparent_total ⟨rfl, rfl, rfl, rfl, rfl, rfl, rfl, rfl⟩
      (by decide) rfl rfl (fun _ _ => ⟨rfl, samplePath_tmp _, rfl, rfl, rfl, rfl⟩) rfl
  obtain ⟨recordId, bytes, hprepare, hpersist⟩ := prepared_of_create hcreate
  rw [hrest.2] at hpersist
  exact ⟨recordId, bytes, fs', hprepare, hpersist⟩

/-- The second call comes while the first has claimed the path: it fails, and
the first goes on to succeed, its bytes at the path. -/
theorem create_exclusive_iff_of_two :
    ∃ n s, (Creation.start noFiles).run Platform.transparent samplePath
        (callsUnder sampleCalls fun _ => IoFaults.none) ([0, 0, 1, 1, 1] ++ List.replicate n 0) = s
      ∧ s.phase 0 = .done (.ok ()) ∧ s.phase 1 = .done (.error .io)
      ∧ s.Exclusive Platform.transparent samplePath
        (callsUnder sampleCalls fun _ => IoFaults.none) noFiles := by
  obtain ⟨recordId, bytes, fs', hprepare, hpersist⟩ := sampleCalls_create Nat.zero_lt_two
  obtain ⟨recordId', vaultBytes', -, hprepare', -⟩ := sampleCalls_create Nat.one_lt_two
  have hclaim : createNewFile false samplePath noFiles
      = (.ok (), noFiles.set samplePath (some [])) := rfl
  have hclear : (removeFile false (uniqueTmpPath samplePath recordId')
      (noFiles.set samplePath (some []))).2 = noFiles.set samplePath (some []) := by
    have hgone : (noFiles.set samplePath (some [])) (uniqueTmpPath samplePath recordId') = none :=
      Fs.set_of_ne _ _ (samplePath_tmp_ne recordId')
    rw [removeFile, if_pos (.inr (.inr (by rw [hgone]; rfl)))]
  obtain ⟨s, hrun, hclaimed, hlost, hfs⟩ :
      ∃ s, (Creation.start noFiles).run Platform.transparent samplePath
          (callsUnder sampleCalls fun _ => IoFaults.none) [0, 0, 1, 1, 1] = s
        ∧ s.phase 0 = .claimed recordId (.ok bytes) ∧ s.phase 1 = .done (.error .io)
        ∧ s.fs = noFiles.set samplePath (some []) :=
    Creation.loser_between Nat.zero_ne_one hprepare hprepare' hclaim hclear
  -- the first one's rest is what it would have been alone
  obtain ⟨n, hdone, -⟩ : s.Ends Platform.transparent samplePath
      (callsUnder sampleCalls fun _ => IoFaults.none) 0
      (persistVault IoFaults.none samplePath recordId (.ok bytes) noFiles) := by
    have hends := @Creation.ends_of_claimed Platform.transparent samplePath
      (callsUnder sampleCalls fun _ => IoFaults.none) s 0 recordId (.ok bytes) hclaimed (by simp)
    rw [hfs] at hends
    exact hends
  rw [hpersist] at hdone
  have hall : (Creation.start noFiles).run Platform.transparent samplePath
        (callsUnder sampleCalls fun _ => IoFaults.none) ([0, 0, 1, 1, 1] ++ List.replicate n 0)
      = s.run Platform.transparent samplePath (callsUnder sampleCalls fun _ => IoFaults.none)
        (List.replicate n 0) := by
    rw [Creation.run_append, hrun]
  refine ⟨n, _, hall, hdone, ?_, ?_⟩
  · rw [Creation.run_phase_of_not_mem, hlost]
    exact fun hmem => Nat.one_ne_zero (List.eq_of_mem_replicate hmem)
  · rw [← hall]
    exact (create_exclusive_iff sampleCalls_distinct noFiles).mpr (fun _ _ _ _ _ => rfl)
      (fun _ => IoFaults.none) _

/-- A file is at the temporary name of the first call: the claim succeeds, the
temporary file cannot be made, and the cleanup removes the file that was
there. The call returns an error. -/
theorem create_removes_foreign :
    ∃ (fs₀ : Fs) (schedule : List Nat) (s : Creation) (e : CoreError),
      (Creation.start fs₀).run Platform.transparent samplePath
        (callsUnder sampleCalls fun _ => IoFaults.none) schedule = s
      ∧ fs₀ (uniqueTmpPath samplePath zeroId) = some [1] ∧ s.phase 0 = .done (.error e)
      ∧ s.fs (uniqueTmpPath samplePath zeroId) = none
      ∧ ¬ ∀ (io : Nat → IoFaults) (schedule : List Nat),
        ((Creation.start fs₀).run Platform.transparent samplePath (callsUnder sampleCalls io)
          schedule).Exclusive Platform.transparent samplePath (callsUnder sampleCalls io) fs₀ := by
  obtain ⟨recordId, bytes, fs', hprepare, -⟩ := sampleCalls_create Nat.zero_lt_two
  obtain rfl : zeroId = recordId := Option.some.inj (recordId_of_prepare hprepare)
  have hforeign : (noFiles.set (uniqueTmpPath samplePath zeroId) (some [1]))
      (uniqueTmpPath samplePath zeroId) = some [1] := Fs.set_self ..
  have hprepare' : (callsUnder sampleCalls (fun _ => IoFaults.none) 0).prepare Platform.transparent
      = .ok (zeroId, .ok bytes) := hprepare
  have hclaim : createNewFile false samplePath (noFiles.set (uniqueTmpPath samplePath zeroId)
      (some [1])) = (.ok (),
        (noFiles.set (uniqueTmpPath samplePath zeroId) (some [1])).set samplePath
        (some [])) := rfl
  obtain ⟨⟨targetClaimed, e, hphase⟩, hthere, howner⟩ :=
    Creation.atCleanup_of_tmp hclaim hprepare' (samplePath_tmp zeroId) hforeign
  have hio : (callsUnder sampleCalls (fun _ => IoFaults.none) 0).io.tmpRemove = false := rfl
  have hremoved := @Creation.removes_foreign Platform.transparent _ _ _ _ _ _ _ _
    (samplePath_tmp zeroId) hio hphase hthere
  generalize hs : (Creation.start (noFiles.set (uniqueTmpPath samplePath zeroId) (some [1]))).run
    Platform.transparent samplePath (callsUnder sampleCalls fun _ => IoFaults.none) [0, 0, 0] = s
    at hphase hthere howner hremoved
  have hviolated : ¬ ∀ (io : Nat → IoFaults) (schedule : List Nat),
      ((Creation.start (noFiles.set (uniqueTmpPath samplePath zeroId) (some [1]))).run
        Platform.transparent samplePath (callsUnder sampleCalls io) schedule).Exclusive
          Platform.transparent samplePath (callsUnder sampleCalls io)
          (noFiles.set (uniqueTmpPath samplePath zeroId) (some [1])) := by
    intro h
    have hstate := h (fun _ => IoFaults.none) [0, 0, 0]
    rw [hs] at hstate
    have hown := hstate.ownOnly 0 _ [1] hthere (by
      rw [hremoved, Creation.move_fs, Fs.set_self]
      exact fun h => nomatch h)
    rw [howner] at hown
    cases hown
  cases targetClaimed with
  | false =>
      refine ⟨_, [0, 0, 0] ++ [0], _, e, rfl, hforeign, ?_, ?_, hviolated⟩
      · rw [Creation.run_append, hs, Creation.run_cons, hremoved, Creation.run_nil,
          Creation.move_phase_self]
        rfl
      · rw [Creation.run_append, hs, Creation.run_cons, hremoved, Creation.run_nil,
          Creation.move_fs, Fs.set_self]
  | true =>
      refine ⟨_, [0, 0, 0] ++ [0, 0], _, e, rfl, hforeign, ?_, ?_, hviolated⟩
      · rw [Creation.run_append, hs, Creation.run_cons, hremoved, Creation.run_cons,
          Creation.run_nil, if_pos rfl, Creation.step_of_tmpRemoved (Creation.move_phase_self ..),
          Creation.move_phase_self]
      · rw [Creation.run_append, hs, Creation.run_cons, hremoved, Creation.run_cons,
          Creation.run_nil, if_pos rfl, Creation.step_of_tmpRemoved (Creation.move_phase_self ..),
          Creation.move_fs, removeFile_of_apart _ (.of_ne (samplePath_tmp_ne zeroId)),
          Creation.move_fs, Fs.set_self]

end MeissnerSeal
