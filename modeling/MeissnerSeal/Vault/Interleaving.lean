/-
Mutations of one vault file in any interleaving of their steps.

# Steps

A mutation loads the file, stages its plan (a pure function of what it
loaded), writes a temporary file, renames it over the vault and syncs
the parent directory. `System.step` is one such step of one call;
`step_alone` says that a call whose steps nothing interrupts is
`Mutation.run`. No lock is held between the steps.

# Refinement

Seen through `Stored`, the calls are processes on a shared cell of item
maps (`Cell.Step`): load, then store what the call makes of the loaded
map. The rename is the store.
-/
import MeissnerSeal.Export.Migration
import MeissnerSeal.Lib.ReplaceCell

namespace MeissnerSeal

open ByteCodec ExceptRules

/-- A mutation, the session it is called in and its environment. -/
structure Caller where
  session : UnlockedVault
  env : Env
  call : Mutation

/-- How far one mutation has come. -/
inductive Phase where
  | ready
  | loaded (bytes : Bytes)
  | staged (value : Option ItemId) (out : Bytes) (seed : U8Array 16)
  | written (value : Option ItemId) (out : Bytes) (seed : U8Array 16)
  | renamed (value : Option ItemId) (seed : U8Array 16)
  | done (r : Res (Option ItemId))

/-- The files, the phase of each call, and the calls that have renamed,
oldest first. -/
structure System where
  fs : Fs
  phase : Nat → Phase
  commits : List Nat := []

/-- Before any call. -/
def System.start (fs : Fs) : System where
  fs := fs
  phase _ := .ready

/-- One call moves on, and leaves the files it has made. -/
def System.setPhase (s : System) (k : Nat) (phase : Phase) (fs : Fs) : System :=
  { s with fs, phase := Function.update s.phase k phase }

/-- A failing step of a persist ends the call after its cleanup. -/
def System.fail (s : System) (k : Nat) (io : IoFaults) (tmpPath : Path) (e : CoreError) (fs : Fs) :
    System :=
  s.setPhase k (.done (.error e)) (removeFile io.tmpRemove tmpPath fs).2

section Steps

variable (platform : Platform) (callers : Nat → Caller)

/-- The next step of call `k`. -/
def System.step (s : System) (k : Nat) : System :=
  let session := (callers k).session
  let io := (callers k).env.io
  match s.phase k with
  | .ready =>
      match readFile io.read session.path s.fs with
      | (.ok bytes, fs) => s.setPhase k (.loaded bytes) fs
      | (.error e, fs) => s.setPhase k (.done (.error e)) fs
  | .loaded bytes =>
      match (callers k).call.plan platform (callers k).env.draws session bytes with
      | .ok ⟨value, some (out, seed)⟩ => s.setPhase k (.staged value out seed) s.fs
      | .ok ⟨value, none⟩ => s.setPhase k (.done (.ok value)) s.fs
      | .error e => s.setPhase k (.done (.error e)) s.fs
  | .staged value out seed =>
      match writeTmp io (uniqueTmpPath session.path seed) out s.fs with
      | (.ok (), fs) => s.setPhase k (.written value out seed) fs
      | (.error e, fs) => s.fail k io (uniqueTmpPath session.path seed) e fs
  | .written value _ seed =>
      match renameFile io.rename (uniqueTmpPath session.path seed) session.path s.fs with
      | (.ok (), fs) =>
          { s.setPhase k (.renamed value seed) fs with commits := s.commits ++ [k] }
      | (.error e, fs) => s.fail k io (uniqueTmpPath session.path seed) e fs
  | .renamed value seed =>
      match fsyncParent io s.fs with
      | (.ok (), fs) => s.setPhase k (.done (.ok value)) fs
      | (.error e, fs) => s.fail k io (uniqueTmpPath session.path seed) e fs
  | .done _ => s

/-- The steps a schedule names, in order. -/
def System.run (s : System) (schedule : List Nat) : System :=
  schedule.foldl (System.step platform callers) s

end Steps

variable {β : Type} {platform : Platform} {callers : Nat → Caller}

@[simp] theorem System.setPhase_self (s : System) (k : Nat) (phase : Phase) (fs : Fs) :
    (s.setPhase k phase fs).phase k = phase := Function.update_self ..

@[simp] theorem System.setPhase_of_ne (s : System) {k j : Nat} (phase : Phase) (fs : Fs)
    (h : j ≠ k) : (s.setPhase k phase fs).phase j = s.phase j := Function.update_of_ne h ..

@[simp] theorem System.setPhase_fs (s : System) (k : Nat) (phase : Phase) (fs : Fs) :
    (s.setPhase k phase fs).fs = fs := rfl

@[simp] theorem System.setPhase_commits (s : System) (k : Nat) (phase : Phase) (fs : Fs) :
    (s.setPhase k phase fs).commits = s.commits := rfl

/-- A call that is done takes no more steps. -/
theorem System.run_of_done {s : System} {k : Nat} {r : Res (Option ItemId)}
    (hdone : s.phase k = .done r) (ks : List Nat) (hks : ∀ j ∈ ks, j = k) :
    s.run platform callers ks = s := by
  induction ks with
  | nil => rfl
  | cons j ks ih =>
      obtain ⟨rfl, hks'⟩ := List.forall_mem_cons.mp hks
      have hstep : s.step platform callers j = s := by
        simp only [System.step, hdone]
      show (s.step platform callers j).run platform callers ks = s
      rw [hstep, ih hks']

variable (platform callers) in
/-- From its staged plan, a call alone persists it. -/
theorem System.persist_alone {s : System} {k : Nat} {value : Option ItemId} {out : Bytes}
    {seed : U8Array 16} (hstaged : s.phase k = .staged value out seed) :
    (s.run platform callers [k, k, k]).fs
        = (persistVaultMutationV2 (callers k).env.io (callers k).session.path out seed s.fs).2
      ∧ (s.run platform callers [k, k, k]).phase k
        = .done ((persistVaultMutationV2 (callers k).env.io (callers k).session.path out
          seed s.fs).1.map
            fun _ => value) := by
  have hcons : ∀ (s : System) (ks : List Nat), s.run platform callers (k :: ks)
      = (s.step platform callers k).run platform callers ks := fun _ _ => rfl
  have hfail : ∀ (s : System) (e : CoreError) (fs : Fs) (ks : List Nat), (∀ j ∈ ks, j = k) →
      (s.fail k (callers k).env.io (uniqueTmpPath (callers k).session.path seed) e fs).run
        platform callers ks
        = s.fail k (callers k).env.io (uniqueTmpPath (callers k).session.path seed) e fs :=
    fun s e fs ks => System.run_of_done (s.setPhase_self ..) ks
  simp only [persistVaultMutationV2, FsM.onError, FsM.bind_apply]
  -- its three steps: the temporary file, the rename, the sync of the parent
  rcases hwrite : writeTmp (callers k).env.io (uniqueTmpPath (callers k).session.path seed)
    out s.fs with ⟨r, fs₁⟩
  rw [hcons]
  simp only [System.step, hstaged, hwrite]
  cases r with
  | error e =>
      simp only
      rw [hfail s e fs₁ [k, k] (by simp)]
      exact ⟨rfl, s.setPhase_self ..⟩
  | ok u =>
      rw [hcons]
      simp only [System.step, System.setPhase_self, System.setPhase_fs]
      rcases hrename : renameFile (callers k).env.io.rename
        (uniqueTmpPath (callers k).session.path seed)
        (callers k).session.path fs₁ with ⟨r, fs₂⟩
      cases r with
      | error e =>
          simp only
          rw [hfail _ e fs₂ [k] (by simp)]
          exact ⟨rfl, System.setPhase_self ..⟩
      | ok u =>
          simp only
          rw [hcons]
          simp only [System.step, System.setPhase_self]
          rcases hsync : fsyncParent (callers k).env.io fs₂ with ⟨r, fs₃⟩
          cases r with
          | error e =>
              simp only
              rw [hfail _ e fs₃ [] (by simp)]
              exact ⟨rfl, System.setPhase_self ..⟩
          | ok u =>
              simp only [System.run, List.foldl_nil]
              exact ⟨rfl, System.setPhase_self ..⟩

/-- From what it has loaded, a call alone that nothing stops
replaces the file. -/
theorem System.replace_alone {s : System} {k : Nat} {bytes out : Bytes} {value : Option ItemId}
    {seed : U8Array 16} (hloaded : s.phase k = .loaded bytes)
    (hplan : (callers k).call.plan platform (callers k).env.draws (callers k).session bytes
      = .ok ⟨value, some (out, seed)⟩)
    (hreach : ReachesRename (callers k).env.io s.fs (uniqueTmpPath (callers k).session.path seed))
    (hafter : (callers k).env.io.afterRename = false) :
    (s.run platform callers [k, k, k, k]).fs = s.fs.set (callers k).session.path (some out)
      ∧ (s.run platform callers [k, k, k, k]).phase k = .done (.ok value) := by
  have hstage : s.step platform callers k = s.setPhase k (.staged value out seed) s.fs := by
    simp only [System.step, hloaded, hplan]
  have hrun : s.run platform callers [k, k, k, k]
      = (s.setPhase k (.staged value out seed) s.fs).run platform callers [k, k, k] := by
    rw [← hstage]
    rfl
  obtain ⟨hfs, hphase⟩ := System.persist_alone platform callers
    (s.setPhase_self k (.staged value out seed) s.fs)
  rw [hrun, hfs, hphase, System.setPhase_fs, persistVaultMutationV2_of_reachesRename hreach, hafter]
  exact ⟨rfl, rfl⟩

/-- Five steps with nothing in between are the call itself. -/
theorem System.step_alone {s : System} {k : Nat} (hready : s.phase k = .ready) :
    (s.run platform callers [k, k, k, k, k]).fs
        = ((callers k).call.run platform (callers k).env (callers k).session s.fs).2
      ∧ (s.run platform callers [k, k, k, k, k]).phase k
        = .done ((callers k).call.run platform (callers k).env (callers k).session s.fs).1 := by
  have hcons : ∀ (s : System) (ks : List Nat), s.run platform callers (k :: ks)
      = (s.step platform callers k).run platform callers ks := fun _ _ => rfl
  have hdone : ∀ (s : System) (r : Res (Option ItemId)) (fs : Fs) (ks : List Nat),
      (∀ j ∈ ks, j = k) →
      (s.setPhase k (.done r) fs).run platform callers ks = s.setPhase k (.done r) fs :=
    fun s r fs ks => System.run_of_done (s.setPhase_self ..) ks
  rw [Mutation.run_eq_mutate, hcons]
  simp only [mutate, FsM.bind_apply, FsM.lift, System.step, hready]
  rcases hread : readFile (callers k).env.io.read (callers k).session.path s.fs with ⟨r, fs₁⟩
  cases r with
  | error e =>
      simp only
      rw [hdone s (.error e) fs₁ [k, k, k, k] (by simp)]
      exact ⟨rfl, s.setPhase_self ..⟩
  | ok bytes =>
      simp only
      rw [hcons]
      simp only [System.step, System.setPhase_self, System.setPhase_fs]
      cases hplan : (callers k).call.plan platform (callers k).env.draws
        (callers k).session bytes with
      | error e =>
          simp only
          rw [hdone _ (.error e) fs₁ [k, k, k] (by simp)]
          exact ⟨rfl, System.setPhase_self ..⟩
      | ok planned =>
          obtain ⟨value, write⟩ := planned
          cases write with
          | none =>
              simp only [FsM.pure_apply]
              rw [hdone _ (.ok value) fs₁ [k, k, k] (by simp)]
              exact ⟨rfl, System.setPhase_self ..⟩
          | some written =>
              obtain ⟨out, seed⟩ := written
              simp only
              obtain ⟨hfs, hphase⟩ :=
                System.persist_alone platform callers
                  (System.setPhase_self (s.setPhase k (.loaded bytes) fs₁) k
                    (.staged value out seed) fs₁)
              rw [hfs, hphase]
              simp only [System.setPhase_fs, FsM.bind_apply]
              rcases hrun : persistVaultMutationV2 (callers k).env.io
                (callers k).session.path out seed fs₁
                with ⟨r, fs₂⟩
              cases r with
              | error e => exact ⟨rfl, rfl⟩
              | ok u => exact ⟨rfl, rfl⟩

-- ================================================== what a step can do

/-- The phases of one call in order, the rename apart. -/
inductive Phase.Follows (platform : Platform) (caller : Caller) : Phase → Phase → Prop where
  | load {bytes : Bytes} : Follows platform caller .ready (.loaded bytes)
  | stage {bytes out : Bytes} {value : Option ItemId} {seed : U8Array 16} :
      Follows platform caller (.loaded bytes) (.staged value out seed)
  | noop {bytes : Bytes} {value : Option ItemId}
      (hplan : caller.call.plan platform caller.env.draws caller.session bytes
        = .ok ⟨value, none⟩) :
      Follows platform caller (.loaded bytes) (.done (.ok value))
  | write {value : Option ItemId} {out : Bytes} {seed : U8Array 16} :
      Follows platform caller (.staged value out seed) (.written value out seed)
  | sync {value : Option ItemId} {seed : U8Array 16} :
      Follows platform caller (.renamed value seed) (.done (.ok value))
  | fail {phase : Phase} {e : CoreError} : Follows platform caller phase (.done (.error e))

variable (platform callers)

/-- A step moves its call one phase on, commits it, or finds it done. -/
theorem System.step_cases (s : System) (k : Nat) :
    (∃ phase fs, s.step platform callers k = s.setPhase k phase fs
        ∧ Phase.Follows platform (callers k) (s.phase k) phase)
      ∨ (∃ value out seed bytes fs, s.phase k = .written value out seed
        ∧ s.fs (uniqueTmpPath (callers k).session.path seed) = some bytes
        ∧ s.step platform callers k
          = { s.setPhase k (.renamed value seed) fs with commits := s.commits ++ [k] }
        ∧ fs (callers k).session.path = some bytes)
      ∨ (∃ r, s.phase k = .done r ∧ s.step platform callers k = s) := by
  cases hphase : s.phase k with
  -- reads the file
  | ready =>
      left
      simp only [System.step, hphase]
      rcases readFile (callers k).env.io.read (callers k).session.path s.fs with ⟨r, fs⟩
      cases r with
      | error e => exact ⟨_, fs, rfl, .fail⟩
      | ok bytes => exact ⟨_, fs, rfl, .load⟩
  -- plans: an error, nothing to write, or bytes to stage
  | loaded bytes =>
      left
      simp only [System.step, hphase]
      cases hplan : (callers k).call.plan platform (callers k).env.draws
        (callers k).session bytes with
      | error e => exact ⟨_, s.fs, rfl, .fail⟩
      | ok planned =>
          obtain ⟨value, write⟩ := planned
          cases write with
          | none => exact ⟨_, s.fs, rfl, .noop hplan⟩
          | some written =>
              obtain ⟨out, seed⟩ := written
              exact ⟨_, s.fs, rfl, .stage⟩
  | staged value out seed =>
      left
      simp only [System.step, hphase]
      rcases writeTmp (callers k).env.io (uniqueTmpPath (callers k).session.path seed) out s.fs with
        ⟨r, fs⟩
      cases r with
      | error e => exact ⟨_, _, rfl, .fail⟩
      | ok u => exact ⟨_, fs, rfl, .write⟩
  -- renames: the one step that changes the file at the path
  | written value out seed =>
      simp only [System.step, hphase, renameFile]
      cases htmp : s.fs (uniqueTmpPath (callers k).session.path seed) with
      | none =>
          left
          cases (callers k).env.io.rename with
          | true => exact ⟨_, _, rfl, .fail⟩
          | false => exact ⟨_, _, rfl, .fail⟩
      | some bytes =>
          cases (callers k).env.io.rename with
          | true =>
              left
              exact ⟨_, _, rfl, .fail⟩
          | false =>
              right
              left
              exact ⟨value, out, seed, bytes, _, rfl, htmp, rfl, Fs.set_self ..⟩
  | renamed value seed =>
      left
      simp only [System.step, hphase]
      rcases fsyncParent (callers k).env.io s.fs with ⟨r, fs⟩
      cases r with
      | error e => exact ⟨_, _, rfl, .fail⟩
      | ok u => exact ⟨_, fs, rfl, .sync⟩
  | done r =>
      right
      right
      exact ⟨r, rfl, by simp only [System.step, hphase]⟩

/-- A step adds at most the caller itself to the list of those that renamed. -/
theorem System.commits_step (s : System) (k : Nat) :
    ∃ new, (s.step platform callers k).commits = s.commits ++ new ∧ ∀ j ∈ new, j = k := by
  rcases System.step_cases platform callers s k with
    ⟨phase, fs, hstep, -⟩ | ⟨value, out, seed, bytes, fs, -, -, hstep, -⟩ | ⟨r, -, hstep⟩
  · rw [hstep]
    exact ⟨[], (List.append_nil _).symm, fun j hj => nomatch hj⟩
  · rw [hstep]
    exact ⟨[k], rfl, fun j hj => List.mem_singleton.mp hj⟩
  · rw [hstep]
    exact ⟨[], (List.append_nil _).symm, fun j hj => nomatch hj⟩

/-- A schedule commits no call but its own. -/
theorem System.commits_run (schedule : List Nat) (s : System) :
    ∃ new, (s.run platform callers schedule).commits = s.commits ++ new
      ∧ ∀ j ∈ new, j ∈ schedule := by
  induction schedule generalizing s with
  | nil => exact ⟨[], (List.append_nil _).symm, fun j hj => hj⟩
  | cons k schedule ih =>
      obtain ⟨rest, hrest, hin⟩ := ih (s.step platform callers k)
      obtain ⟨new, hnew, hk⟩ := System.commits_step platform callers s k
      refine ⟨new ++ rest, ?_, fun j hj => ?_⟩
      · rw [← List.append_assoc, ← hnew]
        exact hrest
      · rcases List.mem_append.mp hj with hj | hj
        · rw [hk j hj]
          exact List.mem_cons_self ..
        · exact List.mem_cons_of_mem _ (hin j hj)

/-- A step of one call leaves the phase of another. -/
theorem System.phase_step_of_ne (s : System) {j k : Nat} (h : j ≠ k) :
    (s.step platform callers k).phase j = s.phase j := by
  rcases System.step_cases platform callers s k with
    ⟨phase, fs, hstep, -⟩ | ⟨value, out, seed, bytes, fs, -, -, hstep, -⟩ | ⟨r, -, hstep⟩
  · rw [hstep, System.setPhase_of_ne _ _ _ h]
  · rw [hstep]
    exact s.setPhase_of_ne (.renamed value seed) fs h
  · rw [hstep]

/-- A schedule without a call leaves its phase. -/
theorem System.phase_run_of_not_mem {k : Nat} (schedule : List Nat) (s : System)
    (h : k ∉ schedule) : (s.run platform callers schedule).phase k = s.phase k := by
  induction schedule generalizing s with
  | nil => rfl
  | cons j schedule ih =>
      have hj : k ≠ j := List.ne_of_not_mem_cons h
      have hrest : k ∉ schedule := List.not_mem_of_not_mem_cons h
      have htail := ih (s.step platform callers j) hrest
      rw [System.phase_step_of_ne platform callers s hj] at htail
      exact htail

/-- A call that is done stays done. -/
theorem System.phase_run_of_done {k : Nat} {r : Res (Option ItemId)} (schedule : List Nat)
    {s : System} (h : s.phase k = .done r) :
    (s.run platform callers schedule).phase k = .done r := by
  induction schedule generalizing s with
  | nil => exact h
  | cons j schedule ih =>
      refine ih ?_
      by_cases hj : k = j
      · subst hj
        simp only [System.step, h]
      · rw [System.phase_step_of_ne platform callers s hj, h]

variable {platform callers}

/-- What a call that has loaded `bytes` can still come to. -/
def Outcome (platform : Platform) (callers : Nat → Caller) (k : Nat) (bytes : Bytes) (s : System) :
    Prop :=
  match s.phase k with
  | .ready => False
  | .loaded loaded => loaded = bytes
  | .staged _ _ _ => True
  | .written _ _ _ => True
  | .renamed _ _ => k ∈ s.commits
  | .done (.ok value) => k ∈ s.commits
      ∨ (callers k).call.plan platform (callers k).env.draws (callers k).session bytes
        = .ok ⟨value, none⟩
  | .done (.error _) => True

/-- A step of another caller changes nothing of what this one has loaded or
staged; its own steps go by `System.step_cases`. -/
theorem Outcome.step {s : System} {k : Nat} {bytes : Bytes} (h : Outcome platform callers k bytes s)
    (j : Nat) : Outcome platform callers k bytes (s.step platform callers j) := by
  obtain ⟨new, hnew, -⟩ := System.commits_step platform callers s j
  have hmono : k ∈ s.commits → k ∈ (s.step platform callers j).commits := by
    intro hk
    rw [hnew]
    exact List.mem_append_left _ hk
  by_cases hj : k = j
  case neg =>
    rw [Outcome, System.phase_step_of_ne platform callers s hj]
    rw [Outcome] at h
    split at h
    case h_5 => exact hmono h
    case h_6 => exact h.imp_left hmono
    all_goals exact h
  case pos =>
    subst hj
    rcases System.step_cases platform callers s k with
      ⟨phase, fs, hstep, hfollows⟩ | ⟨value, out, seed, _, fs, -, -, hstep, -⟩ | ⟨r, hdone, hstep⟩
    · rw [hstep, Outcome, System.setPhase_self]
      rw [Outcome] at h
      generalize s.phase k = old at h hfollows
      cases hfollows with
      | load => exact h.elim
      | stage => exact trivial
      | noop hplan =>
          have hsame : _ = bytes := h
          rw [hsame] at hplan
          exact .inr hplan
      | write => exact trivial
      | sync => exact .inl h
      | fail => exact trivial
    · have hphase : (s.step platform callers k).phase k = .renamed value seed := by
        rw [hstep]
        exact s.setPhase_self k (.renamed value seed) fs
      rw [Outcome, hphase]
      show k ∈ (s.step platform callers k).commits
      rw [hstep]
      exact List.mem_append_right _ (List.mem_singleton_self k)
    · rw [hstep]
      exact h

/-- By induction on the schedule. -/
theorem Outcome.run {s : System} {k : Nat} {bytes : Bytes} (h : Outcome platform callers k bytes s)
    (schedule : List Nat) : Outcome platform callers k bytes (s.run platform callers schedule) := by
  induction schedule generalizing s with
  | nil => exact h
  | cons j schedule ih => exact ih (h.step j)

end MeissnerSeal
