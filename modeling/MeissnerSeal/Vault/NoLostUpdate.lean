/-
Which mutations survive the interleaving.

# The simulation

Every step of the system is a step of a shared cell of item maps
(`Sim.step`), as long as no two calls draw one id or one temporary-file
seed. What a call sees of the cell is the map of the file it loaded.

# The result

A call that returned `Ok` shows in the final file unless a later rename
is by a call that had loaded before (`no_lost_update`). Nothing in the
store prevents that: `overlapping_adds_lose_one`.
-/
import MeissnerSeal.Vault.Interleaving

namespace MeissnerSeal

open ByteCodec ExceptRules

variable {β : Type} {platform : Platform} {v : VaultIdentity platform} {path : Path}
  {callers : Nat → Caller} {ids : List ItemId} {s : System} {c : Cell Nat ItemMap}

/-- The id an `add` draws. -/
def Caller.drawn (caller : Caller) : Option ItemId :=
  match caller.call with
  | .add _ => caller.env.draws.recordId
  | .update _ _ => none
  | .delete _ => none

/-- The id an `update` or a `delete` is about. -/
def Caller.overwrites (caller : Caller) : Option ItemId :=
  match caller.call with
  | .add _ => none
  | .update id _ => some id
  | .delete id => some id

/-- No two calls draw one id, or one seed, and no drawn id is an old one. -/
structure DistinctDraws (callers : Nat → Caller) (ids : List ItemId) : Prop where
  new : ∀ k id, (callers k).drawn = some id → id ∉ ids
  ids : ∀ j k id, (callers j).drawn = some id → (callers k).drawn = some id → j = k
  seeds : ∀ j k seed, (callers j).env.draws.uniqueSeed = some seed →
    (callers k).env.draws.uniqueSeed = some seed → j = k

/-- What a call may make of the map it has loaded. -/
def Writes (callers : Nat → Caller) (k : Nat) (m m' : ItemMap) : Prop :=
  (callers k).call.Ready (callers k).env.draws m
    ∧ m' = (callers k).call.apply (callers k).env.draws m

/-- An old id, or one drawn by a call that has renamed. -/
def Known (callers : Nat → Caller) (ids : List ItemId) (commits : List Nat) (id : ItemId) : Prop :=
  id ∈ ids ∨ ∃ k ∈ commits, (callers k).drawn = some id

/-- The phase of a call, and what it holds of the cell. -/
inductive PhaseSim (v : VaultIdentity platform) (path : Path) (callers : Nat → Caller)
    (ids : List ItemId) (fs : Fs) (commits : List Nat) (k : Nat) : Phase → CellStage ItemMap → Prop
    where
  | ready (hnot : k ∉ commits) : PhaseSim v path callers ids fs commits k .ready .ready
  | loaded {bytes : Bytes} {m : ItemMap} (hnot : k ∉ commits) (hstored : Stored v m bytes)
      (hknown : ∀ id ∈ m.keys, Known callers ids commits id) :
      PhaseSim v path callers ids fs commits k (.loaded bytes) (.holding m)
  | staged {value : Option ItemId} {out : Bytes} {seed : U8Array 16} {m m' : ItemMap}
      (hnot : k ∉ commits) (hwrites : Writes callers k m m') (hstored : Stored v m' out)
      (hknown : ∀ id ∈ m.keys, Known callers ids commits id)
      (hseed : (callers k).env.draws.uniqueSeed = some seed) :
      PhaseSim v path callers ids fs commits k (.staged value out seed) (.holding m)
  | written {value : Option ItemId} {out : Bytes} {seed : U8Array 16} {m m' : ItemMap}
      (hnot : k ∉ commits) (hwrites : Writes callers k m m') (hstored : Stored v m' out)
      (hknown : ∀ id ∈ m.keys, Known callers ids commits id)
      (hseed : (callers k).env.draws.uniqueSeed = some seed)
      (hfile : (uniqueTmpPath path seed).NamesFile)
      (htmp : fs (uniqueTmpPath path seed) = some out) :
      PhaseSim v path callers ids fs commits k (.written value out seed) (.holding m)
  | renamed {value : Option ItemId} {seed : U8Array 16}
      (hseed : (callers k).env.draws.uniqueSeed = some seed) :
      PhaseSim v path callers ids fs commits k (.renamed value seed) .finished
  | done {r : Res (Option ItemId)} : PhaseSim v path callers ids fs commits k (.done r) .finished

/-- The system and the cell it implements. -/
structure Sim (v : VaultIdentity platform) (path : Path) (callers : Nat → Caller)
    (ids : List ItemId) (s : System) (c : Cell Nat ItemMap) : Prop where
  value : ∃ bytes, s.fs path = some bytes ∧ Stored v c.value bytes
  commits : c.commits = s.commits
  known : ∀ id ∈ c.value.keys, Known callers ids s.commits id
  phase : ∀ k, PhaseSim v path callers ids s.fs s.commits k (s.phase k) (c.stage k)

/-- What is known stays known when more calls have committed. -/
theorem Known.mono {commits new : List Nat} {id : ItemId} (h : Known callers ids commits id) :
    Known callers ids (commits ++ new) id := by
  rcases h with hold | ⟨k, hk, hdrawn⟩
  · exact .inl hold
  · exact .inr ⟨k, List.mem_append_left _ hk, hdrawn⟩

/-- A call that has renamed holds nothing of the cell any more. -/
theorem PhaseSim.finished {fs : Fs} {commits : List Nat} {k : Nat} {phase : Phase}
    {stage : CellStage ItemMap} (h : PhaseSim v path callers ids fs commits k phase stage)
    (hk : k ∈ commits) : stage = .finished := by
  cases h with
  | ready hnot => exact absurd hk hnot
  | loaded hnot _ _ => exact absurd hk hnot
  | staged hnot _ _ _ _ => exact absurd hk hnot
  | written hnot _ _ _ _ _ _ => exact absurd hk hnot
  | renamed _ => rfl
  | done => rfl

/-- A step of another call leaves a call in its phase. -/
theorem PhaseSim.frame {fs fs' : Fs} {commits new : List Nat} {k : Nat} {phase : Phase}
    {stage : CellStage ItemMap} (h : PhaseSim v path callers ids fs commits k phase stage)
    (hnew : k ∉ new)
    (hfs : ∀ seed, (callers k).env.draws.uniqueSeed = some seed →
      (uniqueTmpPath path seed).NamesFile →
      fs' (uniqueTmpPath path seed) = fs (uniqueTmpPath path seed)) :
    PhaseSim v path callers ids fs' (commits ++ new) k phase stage := by
  have hnot : k ∉ commits → k ∉ commits ++ new := by
    intro hold hmem
    rcases List.mem_append.mp hmem with hmem | hmem
    · exact hold hmem
    · exact hnew hmem
  cases h with
  | ready h => exact .ready (hnot h)
  | loaded h hstored hknown =>
      exact .loaded (hnot h) hstored fun id hid => (hknown id hid).mono
  | staged h hwrites hstored hknown hseed =>
      exact .staged (hnot h) hwrites hstored (fun id hid => (hknown id hid).mono) hseed
  | written h hwrites hstored hknown hseed hfile htmp =>
      exact .written (hnot h) hwrites hstored (fun id hid => (hknown id hid).mono) hseed hfile
        ((hfs _ hseed hfile).trans htmp)
  | renamed hseed => exact .renamed hseed
  | done => exact .done

/-- A step that moves call `k` only, in the cell and in the system. -/
theorem Sim.setPhase {k : Nat} {phase : Phase} {stage : CellStage ItemMap} {fs : Fs}
    (h : Sim v path callers ids s c) (hpath : fs path = s.fs path)
    (hother : ∀ j seed, j ≠ k → (callers j).env.draws.uniqueSeed = some seed →
      (uniqueTmpPath path seed).NamesFile →
      fs (uniqueTmpPath path seed) = s.fs (uniqueTmpPath path seed))
    (hphase : PhaseSim v path callers ids fs s.commits k phase stage) :
    Sim v path callers ids (s.setPhase k phase fs) (c.setStage k stage) := by
  refine ⟨?_, h.commits, h.known, fun j => ?_⟩
  · obtain ⟨bytes, hbytes, hstored⟩ := h.value
    exact ⟨bytes, hpath.trans hbytes, hstored⟩
  · by_cases hj : j = k
    · subst hj
      rw [System.setPhase_self, Cell.setStage_self]
      exact hphase
    · rw [System.setPhase_of_ne _ _ _ hj, Cell.setStage_of_ne _ _ hj]
      have hframe := (h.phase j).frame (List.not_mem_nil : j ∉ ([] : List Nat))
        fun seed hseed hfile => hother j seed hj hseed hfile
      rw [List.append_nil] at hframe
      exact hframe

/-- The fresh id of an `add` that has not renamed has no record in
what it loaded. -/
theorem DistinctDraws.fresh {commits : List Nat} {k : Nat} {m : ItemMap}
    (hdraws : DistinctDraws callers ids) (hnot : k ∉ commits)
    (hknown : ∀ id ∈ m.keys, Known callers ids commits id) :
    (callers k).call.Fresh (callers k).env.draws m := by
  cases hcall : (callers k).call with
  | add item =>
      intro id hid hmem
      have hdrawn : (callers k).drawn = some id := by
        rw [Caller.drawn, hcall]
        exact hid
      rcases hknown id hmem with hold | ⟨j, hj, hother⟩
      · exact hdraws.new k id hdrawn hold
      · rw [hdraws.ids j k id hother hdrawn] at hj
        exact hnot hj
  | update id item => exact trivial
  | delete id => exact trivial

/-- The ids after a call are those before and the one it draws. -/
theorem Known.of_apply {commits : List Nat} {k : Nat} {m : ItemMap} {id : ItemId}
    (hknown : ∀ id ∈ m.keys, Known callers ids commits id)
    (hid : id ∈ ((callers k).call.apply (callers k).env.draws m).keys) :
    Known callers ids (commits ++ [k]) id := by
  rcases Mutation.mem_keys_apply _ hid with hmem | ⟨item, hcall, hdraw⟩
  · exact (hknown id hmem).mono
  · refine .inr ⟨k, List.mem_append_right _ (List.mem_singleton_self k), ?_⟩
    rw [Caller.drawn, hcall]
    exact hdraw

/-- Two calls write to two temporary files, so the one never finds the bytes
of the other. -/
theorem DistinctDraws.seed_ne {j k : Nat} {seed seed' : U8Array 16}
    (hdraws : DistinctDraws callers ids) (hj : j ≠ k)
    (hseed' : (callers j).env.draws.uniqueSeed = some seed')
    (hseed : (callers k).env.draws.uniqueSeed = some seed) : seed' ≠ seed := by
  rintro rfl
  exact hj (hdraws.seeds j k seed' hseed' hseed)

/-- A step that ends call `k` with an error, after its cleanup. -/
theorem Sim.fail {k : Nat} {seed : U8Array 16} {e : CoreError} {fs : Fs}
    (h : Sim v path callers ids s c) (hdraws : DistinctDraws callers ids)
    (hseed : (callers k).env.draws.uniqueSeed = some seed)
    (hfs : ∀ p, (uniqueTmpPath path seed).Apart p → fs p = s.fs p) :
    Sim v path callers ids (s.fail k (callers k).env.io (uniqueTmpPath path seed) e fs)
      (c.setStage k .finished) := by
  have hpath := uniqueTmpPath_apart path seed
  refine h.setPhase ?_ (fun j seed' hj hseed' _ => ?_) .done
  · rw [removeFile_of_apart _ hpath, hfs _ hpath]
  · have hapart := uniqueTmpPath_apart_of_ne path (hdraws.seed_ne hj hseed' hseed)
    rw [removeFile_of_apart _ hapart, hfs _ hapart]

/-- The rename of call `k` stores what it has written. -/
theorem Sim.commit {k : Nat} {value : Option ItemId} {out : Bytes} {seed : U8Array 16}
    {m m' : ItemMap} (h : Sim v path callers ids s c) (hdraws : DistinctDraws callers ids)
    (hknown : ∀ id ∈ m.keys, Known callers ids s.commits id) (hwrites : Writes callers k m m')
    (hstored : Stored v m' out) (hseed : (callers k).env.draws.uniqueSeed = some seed) :
    Sim v path callers ids
      { s.setPhase k (.renamed value seed)
          ((s.fs.set (uniqueTmpPath path seed) none).set path (some out)) with
        commits := s.commits ++ [k] }
      { c.setStage k .finished with value := m', commits := c.commits ++ [k] } := by
  refine ⟨⟨out, Fs.set_self .., hstored⟩, ?_, ?_, fun j => ?_⟩
  · show c.commits ++ [k] = s.commits ++ [k]
    rw [h.commits]
  · intro id hid
    have hid' : id ∈ m'.keys := hid
    rw [hwrites.2] at hid'
    exact Known.of_apply hknown hid'
  · show PhaseSim v path callers ids _ _ j
      ((s.setPhase k (.renamed value seed) s.fs).phase j) ((c.setStage k .finished).stage j)
    by_cases hj : j = k
    · subst hj
      rw [System.setPhase_self, Cell.setStage_self]
      exact .renamed hseed
    · rw [System.setPhase_of_ne _ _ _ hj, Cell.setStage_of_ne _ _ hj]
      refine (h.phase j).frame (fun hmem => hj (List.mem_singleton.mp hmem))
        fun seed' hseed' hfile => ?_
      have hpath := uniqueTmpPath_apart path seed' hfile
      have hne := uniqueTmpPath_apart_of_ne path (hdraws.seed_ne hj hseed' hseed).symm hfile
      show Fs.set _ path (some out) _ = _
      rw [Fs.set_of_ne _ _ hpath.symm, Fs.set_of_ne _ _ hne.symm]

/-- Every step of the system is a step of the cell. -/
theorem Sim.step (h : Sim v path callers ids s c) (hdraws : DistinctDraws callers ids)
    (hsessions : ∀ k, (callers k).session = v.session path) (k : Nat) :
    ∃ c', Cell.Step (Writes callers) c k c' ∧ Sim v path callers ids
      (s.step platform callers k) c' := by
  have hkeep : ∀ j seed, j ≠ k → (callers j).env.draws.uniqueSeed = some seed →
      (uniqueTmpPath path seed).NamesFile →
      s.fs (uniqueTmpPath path seed) = s.fs (uniqueTmpPath path seed) := fun _ _ _ _ _ => rfl
  have hsim := h.phase k
  obtain ⟨bytes, hbytes, hstored⟩ := h.value
  have hkeys : (v.session path).keys = v.keys := rfl
  have hpath : (v.session path).path = path := rfl
  simp only [System.step, hsessions k, hpath]
  generalize hphase : s.phase k = phase at hsim
  generalize hstage : c.stage k = stage at hsim
  cases hsim with
  -- loads the file, and with it the map of the cell
  | ready hnot =>
      rw [readFile_of_some hbytes]
      cases hread : (callers k).env.io.read with
      | true => exact ⟨_, .quit, h.setPhase rfl hkeep .done⟩
      | false => exact ⟨_, .load hstage, h.setPhase rfl hkeep (.loaded hnot hstored h.known)⟩
  -- plans: what is staged is what the call makes of the map it loaded
  | @loaded bytes' m hnot hstored' hknown =>
      simp only
      by_cases hready : (callers k).call.Ready (callers k).env.draws m
      · obtain ⟨seed, out, hseed, hplan, hout⟩ := hstored'.plan_of_ready hkeys hready
        have hout' := hout (hdraws.fresh hnot hknown)
        rw [hplan]
        refine ⟨c, .idle, ?_⟩
        rw [← Cell.setStage_eq hstage]
        exact h.setPhase rfl hkeep (.staged hnot ⟨hready, rfl⟩ hout' hknown hseed)
      · rcases hstored'.plan_of_not_ready hkeys hready with ⟨e, hplan⟩ | ⟨hplan, -⟩
        · rw [hplan]
          exact ⟨_, .quit, h.setPhase rfl hkeep .done⟩
        · rw [hplan]
          exact ⟨_, .quit, h.setPhase rfl hkeep .done⟩
  -- writes its temporary file, where no other call reads or writes
  | @staged value out seed m m' hnot hwrites hstored' hknown hseed =>
      simp only
      rcases writeTmp_cases (callers k).env.io s.fs (uniqueTmpPath path seed) out with
        ⟨-, hfile, -, -, -, hwrite⟩ | ⟨-, fs', hwrite, hfs⟩
      · rw [hwrite]
        refine ⟨c, .idle, ?_⟩
        rw [← Cell.setStage_eq hstage]
        refine h.setPhase ?_ (fun j seed' hj hseed' _ => ?_)
          (.written hnot hwrites hstored' hknown hseed hfile (Fs.set_self ..))
        · exact Fs.set_of_ne s.fs _ (uniqueTmpPath_apart path seed hfile)
        · exact Fs.set_of_ne s.fs _
            (uniqueTmpPath_apart_of_ne path (hdraws.seed_ne hj hseed' hseed) hfile)
      · rw [hwrite]
        exact ⟨_, .quit, h.fail hdraws hseed hfs⟩
  -- renames: here the cell takes the map
  | @written value out seed m m' hnot hwrites hstored' hknown hseed hfile htmp =>
      simp only [renameFile, htmp]
      cases hrename : (callers k).env.io.rename with
      | true => exact ⟨_, .quit, h.fail hdraws hseed fun p _ => rfl⟩
      | false =>
          exact ⟨_, .store hstage hwrites, h.commit hdraws hknown hwrites hstored' hseed⟩
  -- syncs the parent, which changes what it returns and nothing else
  | @renamed value seed hseed =>
      simp only [fsyncParent_eq]
      cases hafter : (callers k).env.io.afterRename with
      | true => exact ⟨_, .quit, h.fail hdraws hseed fun p _ => rfl⟩
      | false => exact ⟨_, .quit, h.setPhase rfl hkeep .done⟩
  | done => exact ⟨c, .idle, h⟩

/-- By induction on the schedule. -/
theorem Sim.run (h : Sim v path callers ids s c) (hdraws : DistinctDraws callers ids)
    (hsessions : ∀ k, (callers k).session = v.session path) (schedule : List Nat) :
    ∃ c', Cell.Run (Writes callers) c schedule c'
      ∧ Sim v path callers ids (s.run platform callers schedule) c' := by
  induction schedule generalizing s c with
  | nil => exact ⟨c, .nil c, h⟩
  | cons k schedule ih =>
      obtain ⟨c₁, hstep, h₁⟩ := h.step hdraws hsessions k
      obtain ⟨c', hrest, h'⟩ := ih h₁
      exact ⟨c', .cons hstep hrest, h'⟩

/-- Before any call, the cell is the stored map. -/
theorem Sim.start {m : ItemMap} {bytes : Bytes} {fs : Fs} (hfs : fs path = some bytes)
    (hstored : Stored v m bytes) (hkeys : ∀ id ∈ m.keys, id ∈ ids) :
    Sim v path callers ids (System.start fs) ⟨m, fun _ => .ready, []⟩ where
  value := ⟨bytes, hfs, hstored⟩
  commits := rfl
  known id hid := .inl (hkeys id hid)
  phase _ := .ready List.not_mem_nil

-- ========================================================= what is kept

/-- No mutation takes an id out of the map; `delete` leaves a tombstone. -/
theorem Mutation.mem_keys_of_mem {draws : Draws} {m : ItemMap} {id : ItemId} (call : Mutation)
    (h : id ∈ m.keys) : id ∈ (call.apply draws m).keys := by
  cases call with
  | add item =>
      rw [Mutation.apply]
      cases draws.recordId with
      | none => exact h
      | some j =>
          simp only [TombstoneMap.insert]
          split
          · rw [TombstoneMap.keys_push]
            exact List.mem_append_left _ h
          · exact h
  | update j item =>
      rw [Mutation.apply, TombstoneMap.keys_assign]
      exact h
  | delete j =>
      rw [Mutation.apply, TombstoneMap.keys_assign]
      exact h

/-- A call that is not about a known id keeps what the id holds. -/
theorem Writes.status_eq {k : Nat} {m m' : ItemMap} {id : ItemId} (h : Writes callers k m m')
    (hid : id ∈ m.keys) (hover : (callers k).overwrites ≠ some id) :
    m'.status id = m.status id := by
  obtain ⟨-, rfl⟩ := h
  rw [Caller.overwrites] at hover
  cases hcall : (callers k).call with
  | add item =>
      rw [Mutation.apply]
      cases (callers k).env.draws.recordId with
      | none => rfl
      | some j =>
          simp only [TombstoneMap.insert]
          split
          case isTrue hnew =>
            have hne : id ≠ j := by
              rintro rfl
              exact hnew hid
            rw [TombstoneMap.status_push, if_neg hne]
          case isFalse => rfl
  | update j item =>
      rw [hcall] at hover
      have hne : id ≠ j := by
        rintro rfl
        exact hover rfl
      rw [Mutation.apply, TombstoneMap.status_assign, if_neg hne]
  | delete j =>
      rw [hcall] at hover
      have hne : id ≠ j := by
        rintro rfl
        exact hover rfl
      rw [Mutation.apply, TombstoneMap.status_assign, if_neg hne]

/-- A tombstone is not written over. -/
theorem Writes.status_dead {k : Nat} {m m' : ItemMap} {id : ItemId} (h : Writes callers k m m')
    (hdead : m.status id = some none) : m'.status id = some none := by
  have hid : id ∈ m.keys := by
    by_contra hnot
    rw [TombstoneMap.status_eq_none.mpr hnot] at hdead
    cases hdead
  by_cases hover : (callers k).overwrites = some id
  · obtain ⟨hready, -⟩ := h
    rw [Caller.overwrites] at hover
    cases hcall : (callers k).call with
    | add item =>
        rw [hcall] at hover
        cases hover
    | update j item =>
        rw [hcall] at hover hready
        obtain rfl := Option.some.inj hover
        obtain ⟨-, -, old, hold⟩ := hready
        rw [hdead] at hold
        cases hold
    | delete j =>
        rw [hcall] at hover hready
        obtain rfl := Option.some.inj hover
        obtain ⟨-, old, hold⟩ := hready
        rw [hdead] at hold
        cases hold
  · rw [h.status_eq hid hover, hdead]

/-- The call shows in the map: the item it added or updated is there, with its
content unless `overwritten`; the item it deleted is a tombstone. -/
def Reflected (caller : Caller) (overwritten : ItemId → Prop) (m : ItemMap) : Prop :=
  match caller.call with
  | .add item => ∃ id, caller.env.draws.recordId = some id ∧ id ∈ m.keys
      ∧ (¬ overwritten id → m.status id = some (some item))
  | .update id item => id ∈ m.keys ∧ (¬ overwritten id → m.status id = some (some item))
  | .delete id => m.status id = some none

/-- Right after its rename a call shows: its item is live, or its tombstone
is there, as its kind has it. -/
theorem Reflected.of_writes {k : Nat} {m m' : ItemMap} (h : Writes callers k m m')
    (hfresh : (callers k).call.Fresh (callers k).env.draws m) (overwritten : ItemId → Prop) :
    Reflected (callers k) overwritten m' := by
  obtain ⟨hready, rfl⟩ := h
  rw [Reflected]
  cases hcall : (callers k).call with
  | add item =>
      rw [hcall] at hready hfresh
      obtain ⟨id, hid⟩ := Option.isSome_iff_exists.mp hready.1.recordId
      have hnew := hfresh id hid
      simp only [Mutation.apply, hid, TombstoneMap.insert_of_not_mem item hnew]
      refine ⟨id, rfl, ?_, fun _ => ?_⟩
      · rw [TombstoneMap.keys_push]
        exact List.mem_append_right _ (List.mem_singleton_self id)
      · rw [TombstoneMap.status_push, if_pos rfl]
  | update id item =>
      rw [hcall] at hready
      obtain ⟨-, -, old, hold⟩ := hready
      have hstatus : (m.assign id (some item)).status id = some (some item) := by
        rw [TombstoneMap.status_assign, if_pos rfl, hold]
        rfl
      refine ⟨?_, fun _ => hstatus⟩
      by_contra hnot
      rw [Mutation.apply] at hnot
      rw [TombstoneMap.status_eq_none.mpr hnot] at hstatus
      cases hstatus
  | delete id =>
      rw [hcall] at hready
      obtain ⟨-, old, hold⟩ := hready
      show (m.assign id none).status id = some none
      rw [TombstoneMap.status_assign, if_pos rfl, hold]
      rfl

/-- What a call shows survives the writes of others, those of the
same id excepted. -/
theorem Reflected.preserved {caller : Caller} {overwritten : ItemId → Prop} {k : Nat}
    {m m' : ItemMap} (h : Reflected caller overwritten m) (hwrites : Writes callers k m m')
    (hover : ∀ id, (callers k).overwrites = some id → overwritten id) :
    Reflected caller overwritten m' := by
  have hkeys : ∀ id ∈ m.keys, id ∈ m'.keys := by
    intro id hid
    rw [hwrites.2]
    exact Mutation.mem_keys_of_mem _ hid
  rw [Reflected] at h ⊢
  cases hcall : caller.call with
  | add item =>
      rw [hcall] at h
      obtain ⟨id, hid, hmem, hstatus⟩ := h
      refine ⟨id, hid, hkeys id hmem, fun hnot => ?_⟩
      rw [hwrites.status_eq hmem fun heq => hnot (hover id heq), hstatus hnot]
  | update id item =>
      rw [hcall] at h
      obtain ⟨hmem, hstatus⟩ := h
      refine ⟨hkeys id hmem, fun hnot => ?_⟩
      rw [hwrites.status_eq hmem fun heq => hnot (hover id heq), hstatus hnot]
  | delete id =>
      rw [hcall] at h
      exact hwrites.status_dead h

-- ================================================================= runs

/-- A step that commits a call is its rename, of what it had written. -/
theorem Sim.of_commit {k : Nat} (h : Sim v path callers ids s c)
    (hsessions : ∀ k, (callers k).session = v.session path) (hbefore : k ∉ s.commits)
    (hafter : k ∈ (s.step platform callers k).commits) :
    ∃ m m' out, (∀ id ∈ m.keys, Known callers ids s.commits id) ∧ Writes callers k m m'
      ∧ Stored v m' out ∧ (s.step platform callers k).fs path = some out := by
  rcases System.step_cases platform callers s k with
    ⟨phase, fs, hstep, -⟩ | ⟨value, out, seed, bytes, fs, hphase, htmp, hstep, hfs⟩ | ⟨r, -, hstep⟩
  · rw [hstep] at hafter
    exact absurd hafter hbefore
  · have hsim := h.phase k
    rw [hphase] at hsim
    rw [hsessions k] at htmp hfs
    generalize c.stage k = stage at hsim
    cases hsim with
    | @written _ _ _ m m' hnot hwrites hstored hknown hseed hfile htmp' =>
        have hsame : some out = some bytes := htmp'.symm.trans htmp
        rw [Option.some.inj hsame] at hstored
        refine ⟨m, m', bytes, hknown, hwrites, hstored, ?_⟩
        rw [hstep]
        exact hfs
  · rw [hstep] at hafter
    exact absurd hafter hbefore

/-- A call that finds its id deleted already has loaded a tombstone. -/
theorem Sim.of_noop {k : Nat} {bytes : Bytes} {m : ItemMap} {r : Option ItemId}
    (hsessions : ∀ k, (callers k).session = v.session path) (hstored : Stored v m bytes)
    (hplan : (callers k).call.plan platform (callers k).env.draws (callers k).session bytes
      = .ok ⟨r, none⟩) (overwritten : ItemId → Prop) : Reflected (callers k) overwritten m := by
  have hkeys : (callers k).session.keys = v.keys := by
    rw [hsessions k]
    rfl
  by_cases hready : (callers k).call.Ready (callers k).env.draws m
  · obtain ⟨seed, out, -, hplan', -⟩ := hstored.plan_of_ready hkeys hready
    rw [hplan] at hplan'
    cases hplan'
  · rcases hstored.plan_of_not_ready hkeys hready with ⟨e, hplan'⟩ | ⟨-, id, hcall, hdead⟩
    · rw [hplan] at hplan'
      cases hplan'
    · rw [Reflected, hcall]
      exact hdead

/-- A call that returned `Ok` without a rename had loaded a tombstone. -/
theorem Sim.reflected_of_noop {k : Nat} {r : Option ItemId} {after : List Nat} {bytes : Bytes}
    {m : ItemMap} (h : Sim v path callers ids s c)
    (hsessions : ∀ k, (callers k).session = v.session path) (hready : s.phase k = .ready)
    (hok : ((s.step platform callers k).run platform callers after).phase k = .done (.ok r))
    (hnot : k ∉ ((s.step platform callers k).run platform callers after).commits)
    (hbytes : (s.step platform callers k).fs path = some bytes) (hstored : Stored v m bytes)
    (overwritten : ItemId → Prop) : Reflected (callers k) overwritten m := by
  obtain ⟨loaded, hloaded, -⟩ := h.value
  have hpath : (v.session path).path = path := rfl
  have hstep : s.step platform callers k = (match (callers k).env.io.read with
      | true => s.setPhase k (.done (.error .io)) s.fs
      | false => s.setPhase k (.loaded loaded) s.fs) := by
    simp only [System.step, hready, hsessions k, hpath, readFile_of_some hloaded]
    cases (callers k).env.io.read with
    | true => rfl
    | false => rfl
  cases hread : (callers k).env.io.read with
  | true =>
      rw [hread] at hstep
      have hstable := System.phase_run_of_done platform callers after
        (s.setPhase_self k (.done (.error .io)) s.fs)
      rw [hstep, hstable] at hok
      cases hok
  | false =>
      rw [hread] at hstep
      have hsame : loaded = bytes := by
        rw [hstep] at hbytes
        exact Option.some.inj (hloaded.symm.trans hbytes)
      -- it loaded these bytes, and what it returns it can only have from them
      have hcan : Outcome platform callers k bytes (s.step platform callers k) := by
        rw [hstep, Outcome, System.setPhase_self]
        exact hsame
      have hend := hcan.run after
      rw [Outcome, hok] at hend
      rcases hend with hcommitted | hplan
      · exact absurd hcommitted hnot
      · exact Sim.of_noop hsessions hstored hplan overwritten

/-- A call that takes effect in one step shows in every later file, as
long as no call that had loaded before renames after. -/
theorem Sim.reflected {k : Nat} {r : Option ItemId} {after : List Nat}
    (h : Sim v path callers ids s c) (hdraws : DistinctDraws callers ids)
    (hsessions : ∀ k, (callers k).session = v.session path) :
    let s₁ := s.step platform callers k
    let s₂ := s₁.run platform callers after
    s₂.phase k = .done (.ok r) →
    ((k ∉ s.commits ∧ k ∈ s₁.commits) ∨ (s.phase k = .ready ∧ k ∉ s₂.commits)) →
    (∀ j ∈ s₂.commits, j ∉ s₁.commits → s₁.phase j = .ready) →
    ∃ m bytes, s₂.fs path = some bytes ∧ Stored v m bytes
      ∧ Reflected (callers k) (fun id => ∃ j ∈ s₂.commits, j ∉ s₁.commits
          ∧ (callers j).overwrites = some id) m := by
  intro s₁ s₂ hok hpoint hlater
  -- the state where the call takes effect, and the final one
  obtain ⟨c₁, -, h₁⟩ := h.step hdraws hsessions k
  obtain ⟨c₂, hrun, h₂⟩ := h₁.run hdraws hsessions after
  obtain ⟨bytes, hbytes, hstored⟩ := h₂.value
  refine ⟨c₂.value, bytes, hbytes, hstored, ?_⟩
  generalize hover : (fun id => ∃ j ∈ s₂.commits, j ∉ s₁.commits
    ∧ (callers j).overwrites = some id) = overwritten
  obtain ⟨bytes₁, hbytes₁, hstored₁⟩ := h₁.value
  -- the call shows where it takes effect
  have hfirst : Reflected (callers k) overwritten c₁.value := by
    rcases hpoint with ⟨hbefore, hafter⟩ | ⟨hready, hnot⟩
    · obtain ⟨m, m', out, hknown, hwrites, hout, hfile⟩ := h.of_commit hsessions hbefore hafter
      have hsame : bytes₁ = out := Option.some.inj (hbytes₁.symm.trans hfile)
      rw [hsame] at hstored₁
      obtain rfl := hstored₁.unique hout rfl
      exact Reflected.of_writes hwrites (hdraws.fresh hbefore hknown) _
    · exact h.reflected_of_noop hsessions hready hok hnot hbytes₁ hstored₁ overwritten
  -- and in every map stored after
  refine hrun.preserved hfirst fun new hnew j hj => ?_
  rw [h₁.commits, h₂.commits] at hnew
  -- a call that renames later was not under way: it loads what is stored
  have hlate : j ∈ s₂.commits := by
    rw [hnew]
    exact List.mem_append_right _ hj
  have hnot : j ∉ s₁.commits := by
    intro hmem
    refine hrun.not_finished (h₂.commits.trans (hnew.trans (by rw [h₁.commits]))) hj ?_
    exact (h₁.phase j).finished hmem
  refine ⟨fun x hx => ?_, fun m m' hwrites hm => hm.preserved hwrites fun id hid => ?_⟩
  · have hsim := h₁.phase j
    rw [hlater j hlate hnot, hx] at hsim
    cases hsim
  · rw [← hover]
    exact ⟨j, hlate, hnot, hid⟩

/-- No update is lost between two calls one of which begins after the
other took effect: whatever the interleaving, a call that returned `Ok`
shows in the file every later state holds, if each call that renames
after it had not loaded before it. -/
theorem no_lost_update {password : Bytes} {fs₀ : Fs} {st : VaultState} {calls : Calls β}
    (hhistory : History platform path password fs₀ st calls) (hnodup : (drawnIds calls).Nodup)
    (hsessions : ∀ k, (callers k).session ∈ st.sessions)
    (hdraws : DistinctDraws callers (drawnIds calls)) (before after : List Nat) (k : Nat)
    (r : Option ItemId) :
    let s := (System.start st.fs).run platform callers before
    let s₁ := s.step platform callers k
    let s₂ := s₁.run platform callers after
    s₂.phase k = .done (.ok r) →
    ((k ∉ s.commits ∧ k ∈ s₁.commits) ∨ (s.phase k = .ready ∧ k ∉ s₂.commits)) →
    (∀ j ∈ s₂.commits, j ∉ s₁.commits → s₁.phase j = .ready) →
    ∃ (v : VaultIdentity platform) (m : ItemMap) (bytes : Bytes), v.password = password
      ∧ (∀ j, (callers j).session = v.session path) ∧ s₂.fs path = some bytes ∧ Stored v m bytes
      ∧ Reflected (callers k) (fun id => ∃ j ∈ s₂.commits, j ∉ s₁.commits
          ∧ (callers j).overwrites = some id) m := by
  intro s s₁ s₂ hok hpoint hlater
  obtain ⟨v, m₀, bytes₀, hv, hreached⟩ := hhistory.reached hnodup
  have hone : ∀ j, (callers j).session = v.session path :=
    fun j => hreached.sessions _ (hsessions j)
  obtain ⟨c, -, hsim⟩ := (Sim.start hreached.file hreached.stored hreached.keys_drawn).run hdraws
    hone before
  obtain ⟨m, bytes, hbytes, hstored, hreflected⟩ := hsim.reflected hdraws hone hok hpoint hlater
  exact ⟨v, m, bytes, hv, hone, hbytes, hstored, hreflected⟩

-- ============================================================ two calls

/-- Calls `0` and `1` draw; the others fail to. -/
def pairDraws (k : Nat) : Draws :=
  if k < 2 then drawsWith (numberedId k) (numberedId k)
  else { drawsWith zeroId zeroId with recordId := none, uniqueSeed := none }

/-- Every call adds the same note. -/
def pairCallers (session : UnlockedVault) (k : Nat) : Caller where
  session := session
  env := { draws := pairDraws k }
  call := .add sampleItem

theorem pairDraws_eq {k : Nat} (hk : k < 2) :
    pairDraws k = drawsWith (numberedId k) (numberedId k) :=
  if_pos hk

theorem pairCallers_distinct (session : UnlockedVault) :
    DistinctDraws (pairCallers session) (drawnIds ([] : Calls Unit)) := by
  have hdraw : ∀ k id, (pairDraws k).recordId = some id ∨ (pairDraws k).uniqueSeed = some id →
      k < 2 ∧ id = numberedId k := by
    intro k id h
    by_cases hk : k < 2
    · rw [pairDraws_eq hk] at h
      rcases h with h | h
      · exact ⟨hk, (Option.some.inj h).symm⟩
      · exact ⟨hk, (Option.some.inj h).symm⟩
    · rw [pairDraws, if_neg hk] at h
      rcases h with h | h
      · cases h
      · cases h
  have hsame : ∀ {j k id}, j < 2 ∧ id = numberedId j → k < 2 ∧ id = numberedId k → j = k := by
    rintro j k id ⟨hj, rfl⟩ ⟨hk, heq⟩
    exact numberedId_inj (by omega) (by omega) heq
  exact ⟨fun k id _ => List.not_mem_nil,
    fun j k id hj hk => hsame (hdraw j id (.inl hj)) (hdraw k id (.inl hk)),
    fun j k seed hj hk => hsame (hdraw j seed (.inr hj)) (hdraw k seed (.inr hk))⟩

/-- What either call plans on the empty vault. -/
theorem pairCallers_plan {v : VaultIdentity Platform.transparent} {bytes : Bytes} {k : Nat}
    (hstored : Stored v TombstoneMap.empty bytes) (hk : k < 2) :
    ∃ out, (Mutation.add sampleItem).plan Platform.transparent (pairDraws k)
        (v.session samplePath) bytes = .ok ⟨some (numberedId k), some (out, numberedId k)⟩
      ∧ Stored v (TombstoneMap.empty.insert (numberedId k) sampleItem) out := by
  have hready : (Mutation.add sampleItem).Ready (pairDraws k) TombstoneMap.empty := by
    rw [pairDraws_eq hk]
    exact ⟨drawsWith_forAdd _ _, storedFrameLen_lt sampleItem_withinLimits, by decide⟩
  have hkeys : (v.session samplePath).keys = v.keys := rfl
  obtain ⟨seed, out, hseed, hplan, hout⟩ := hstored.plan_of_ready hkeys hready
  rw [pairDraws_eq hk] at hseed hplan hout ⊢
  obtain rfl := Option.some.inj hseed
  exact ⟨out, hplan, hout fun id _ => List.not_mem_nil⟩

/-- A caller that is ready loads the file. -/
theorem pairCallers_load {v : VaultIdentity Platform.transparent} {s : System} {bytes : Bytes}
    (k : Nat) (hready : s.phase k = .ready) (hfs : s.fs samplePath = some bytes) :
    s.step Platform.transparent (pairCallers (v.session samplePath)) k
      = s.setPhase k (.loaded bytes) s.fs := by
  have hfile : s.fs (v.session samplePath).path = some bytes := hfs
  simp only [System.step, hready, pairCallers, readFile_of_some hfile, Bool.false_eq_true, if_false]

/-- A caller that has loaded, run alone, puts what it planned in place of
whatever the file is by then. -/
theorem pairCallers_replace {v : VaultIdentity Platform.transparent} {s : System}
    {bytes out : Bytes} {k : Nat} (hloaded : s.phase k = .loaded bytes)
    (hplan : (Mutation.add sampleItem).plan Platform.transparent (pairDraws k)
      (v.session samplePath) bytes = .ok ⟨some (numberedId k), some (out, numberedId k)⟩)
    (hoff : AgreesOff samplePath noFiles s.fs) :
    let s' := s.run Platform.transparent (pairCallers (v.session samplePath)) [k, k, k, k]
    s'.fs = s.fs.set samplePath (some out) ∧ s'.phase k = .done (.ok (some (numberedId k))) := by
  have hreach : ReachesRename IoFaults.none s.fs (uniqueTmpPath samplePath (numberedId k)) :=
    ⟨rfl, samplePath_tmp _, hoff _ (samplePath_tmp_ne _), rfl, rfl, rfl⟩
  have hplan' : (pairCallers (v.session samplePath) k).call.plan Platform.transparent
      (pairCallers (v.session samplePath) k).env.draws
      (pairCallers (v.session samplePath) k).session bytes
      = .ok ⟨some (numberedId k), some (out, numberedId k)⟩ := hplan
  exact System.replace_alone hloaded hplan' hreach rfl

/-- Two adds that load the same file: both return `Ok`, and the note of
the first is gone. -/
theorem overlapping_adds_lose_one :
    ∃ (st : VaultState) (v : VaultIdentity Platform.transparent) (session : UnlockedVault),
      History Platform.transparent samplePath samplePassword noFiles st ([] : Calls Unit)
      ∧ session ∈ st.sessions
      ∧ DistinctDraws (pairCallers session) (drawnIds ([] : Calls Unit))
      ∧ let s := (System.start st.fs).run Platform.transparent (pairCallers session)
          [0, 1, 0, 0, 0, 0, 1, 1, 1, 1]
        s.phase 0 = .done (.ok (some (numberedId 0)))
        ∧ s.phase 1 = .done (.ok (some (numberedId 1)))
        ∧ ∃ m bytes, s.fs samplePath = some bytes ∧ Stored v m bytes
          ∧ session = v.session samplePath
          ∧ ¬ Reflected (pairCallers session 0) (fun _ => False) m := by
  obtain ⟨st, v, bytes, hhistory, hsession, hoff, -, hfs, hstored⟩ := @sample_reached Unit
  obtain ⟨out₀, hplan₀, -⟩ := pairCallers_plan hstored (by decide : 0 < 2)
  obtain ⟨out₁, hplan₁, hout₁⟩ := pairCallers_plan hstored (by decide : 1 < 2)
  refine ⟨st, v, v.session samplePath, hhistory, hsession, pairCallers_distinct _, ?_⟩
  generalize hcallers : pairCallers (v.session samplePath) = callers
  -- both load the empty vault
  have hload₀ : (System.start st.fs).step Platform.transparent callers 0
      = (System.start st.fs).setPhase 0 (.loaded bytes) st.fs := by
    rw [← hcallers]
    exact pairCallers_load 0 rfl hfs
  generalize hs₁ : (System.start st.fs).setPhase 0 (.loaded bytes) st.fs = s₁ at hload₀
  have hphase₁ : s₁.phase 1 = .ready := by
    rw [← hs₁]
    exact System.setPhase_of_ne _ _ _ (by decide)
  have hload₁ : s₁.step Platform.transparent callers 1 = s₁.setPhase 1 (.loaded bytes) st.fs := by
    have hfs₁ : s₁.fs = st.fs := by rw [← hs₁, System.setPhase_fs]
    rw [← hfs₁, ← hcallers]
    refine pairCallers_load 1 hphase₁ ?_
    rw [hfs₁, hfs]
  generalize hs₂ : s₁.setPhase 1 (.loaded bytes) st.fs = s₂ at hload₁
  -- call 0 alone, then call 1 alone
  have hsplit : (System.start st.fs).run Platform.transparent callers [0, 1, 0, 0, 0, 0, 1, 1, 1, 1]
      = (s₂.run Platform.transparent callers [0, 0, 0, 0]).run Platform.transparent callers
          [1, 1, 1, 1] := by
    rw [← hload₁, ← hload₀]
    rfl
  have hfs₂ : s₂.fs = st.fs := by rw [← hs₂, System.setPhase_fs]
  have hloaded₀ : s₂.phase 0 = .loaded bytes := by
    rw [← hs₂, System.setPhase_of_ne _ _ _ (by decide), ← hs₁, System.setPhase_self]
  have hloaded₁ : s₂.phase 1 = .loaded bytes := by rw [← hs₂, System.setPhase_self]
  have hoff₂ : AgreesOff samplePath noFiles s₂.fs := by
    rw [hfs₂]
    exact hoff
  rw [hsplit, ← hcallers]
  obtain ⟨hfs₃, hdone₀⟩ := pairCallers_replace hloaded₀ hplan₀ hoff₂
  have hkeep := System.phase_run_of_not_mem Platform.transparent
    (pairCallers (v.session samplePath))
    [0, 0, 0, 0] s₂ (by decide : 1 ∉ [0, 0, 0, 0])
  generalize s₂.run Platform.transparent (pairCallers (v.session samplePath)) [0, 0, 0, 0] = s₃
    at hfs₃ hdone₀ hkeep
  have hoff₃ : AgreesOff samplePath noFiles s₃.fs := by
    intro p hp
    rw [hfs₃, Fs.set_of_ne _ _ hp, hoff₂ p hp]
  obtain ⟨hfs₄, hdone₁⟩ := pairCallers_replace (hkeep.trans hloaded₁) hplan₁ hoff₃
  refine ⟨System.phase_run_of_done _ _ [1, 1, 1, 1] hdone₀, hdone₁, _, out₁, ?_, hout₁, rfl, ?_⟩
  · rw [hfs₄, Fs.set_self]
  · -- call 1 wrote what it had loaded and its own item: the other's id is nowhere
    rintro ⟨id, hid, hmem, -⟩
    obtain rfl : numberedId 0 = id := Option.some.inj hid
    have honly : (TombstoneMap.empty.insert (numberedId 1) sampleItem).keys = [numberedId 1] := rfl
    rw [honly, List.mem_singleton] at hmem
    exact absurd (numberedId_inj (by decide) (by decide) hmem) (by decide)

/-- Call 0 up to its temporary file. -/
theorem pairCallers_write {v : VaultIdentity Platform.transparent} {fs : Fs} {bytes out : Bytes}
    (hfs : fs samplePath = some bytes) (hoff : AgreesOff samplePath noFiles fs)
    (hplan : (Mutation.add sampleItem).plan Platform.transparent (pairDraws 0)
      (v.session samplePath) bytes = .ok ⟨some (numberedId 0), some (out, numberedId 0)⟩) :
    ∃ written, (System.start fs).run Platform.transparent
      (pairCallers (v.session samplePath)) [0, 0, 0]
        = written
      ∧ written.phase 0 = .written (some (numberedId 0)) out (numberedId 0)
      ∧ written.commits = [] ∧ written.phase 1 = .ready
      ∧ written.fs (uniqueTmpPath samplePath (numberedId 0)) = some out := by
  have hload : (System.start fs).step Platform.transparent (pairCallers (v.session samplePath)) 0
      = (System.start fs).setPhase 0 (.loaded bytes) fs := pairCallers_load 0 rfl hfs
  generalize hloaded : (System.start fs).setPhase 0 (.loaded bytes) fs = loaded at hload
  have hphase : loaded.phase 0 = .loaded bytes := by rw [← hloaded, System.setPhase_self]
  have hstage : loaded.step Platform.transparent (pairCallers (v.session samplePath)) 0
      = loaded.setPhase 0 (.staged (some (numberedId 0)) out (numberedId 0)) fs := by
    have hfs₁ : loaded.fs = fs := by rw [← hloaded, System.setPhase_fs]
    simp only [System.step, hphase, pairCallers, hplan, hfs₁]
  generalize hstaged : loaded.setPhase 0
    (.staged (some (numberedId 0)) out (numberedId 0)) fs = staged
    at hstage
  have hphase' : staged.phase 0 = .staged (some (numberedId 0)) out (numberedId 0) := by
    rw [← hstaged, System.setPhase_self]
  have hwrite : staged.step Platform.transparent (pairCallers (v.session samplePath)) 0
      = staged.setPhase 0 (.written (some (numberedId 0)) out (numberedId 0))
          (fs.set (uniqueTmpPath samplePath (numberedId 0)) (some out)) := by
    have hfs₂ : staged.fs = fs := by rw [← hstaged, System.setPhase_fs]
    have hnone : fs (uniqueTmpPath samplePath (numberedId 0)) = none :=
      hoff _ (samplePath_tmp_ne _)
    rcases writeTmp_cases IoFaults.none fs (uniqueTmpPath samplePath (numberedId 0)) out with
      ⟨-, -, -, -, -, htmp⟩ | ⟨hfail, -⟩
    · have htmp' : writeTmp (pairCallers (v.session samplePath) 0).env.io
          (uniqueTmpPath (pairCallers (v.session samplePath) 0).session.path (numberedId 0)) out fs
          = (.ok (), fs.set (uniqueTmpPath samplePath (numberedId 0)) (some out)) := htmp
      simp only [System.step, hphase', hfs₂, htmp']
    · exact absurd ⟨rfl, samplePath_tmp _, hnone, rfl, rfl⟩ hfail
  refine ⟨staged.setPhase 0 (.written (some (numberedId 0)) out (numberedId 0))
    (fs.set (uniqueTmpPath samplePath (numberedId 0)) (some out)), ?_,
      System.setPhase_self .., ?_, ?_, ?_⟩
  · rw [← hwrite, ← hstage, ← hload]
    rfl
  · rw [System.setPhase_commits, ← hstaged, System.setPhase_commits, ← hloaded]
    rfl
  · rw [System.setPhase_of_ne _ _ _ (by decide), ← hstaged, System.setPhase_of_ne _ _ _ (by decide),
      ← hloaded, System.setPhase_of_ne _ _ _ (by decide)]
    rfl
  · rw [System.setPhase_fs, Fs.set_self]

/-- One after the other, both show. -/
theorem no_lost_update_of_sequence :
    ∃ (st : VaultState) (session : UnlockedVault) (v : VaultIdentity Platform.transparent)
      (m : ItemMap) (bytes : Bytes),
      History Platform.transparent samplePath samplePassword noFiles st ([] : Calls Unit)
      ∧ session ∈ st.sessions
      ∧ let s := (System.start st.fs).run Platform.transparent (pairCallers session)
          [0, 0, 0, 0, 0, 1, 1, 1, 1, 1]
        s.phase 0 = .done (.ok (some (numberedId 0)))
        ∧ s.fs samplePath = some bytes ∧ Stored v m bytes
        ∧ Reflected (pairCallers session 0) (fun id => ∃ j ∈ s.commits, j ∉ [0]
          ∧ (pairCallers session j).overwrites = some id) m := by
  obtain ⟨st, v, bytes, hhistory, hsession, hoff, -, hfs, hstored⟩ := @sample_reached Unit
  obtain ⟨out, hplan, -⟩ := pairCallers_plan hstored (by decide : 0 < 2)
  have hdistinct := pairCallers_distinct (v.session samplePath)
  obtain ⟨written, hwritten, hphase, hcommits, hready, htmp⟩ :=
    pairCallers_write hfs hoff hplan
  have hmain := no_lost_update hhistory List.nodup_nil (fun _ => hsession) hdistinct [0, 0, 0]
    [0, 1, 1, 1, 1, 1] 0 (some (numberedId 0))
  simp only [hwritten] at hmain
  -- the rename of call 0, with nobody else under way
  have hrename : written.step Platform.transparent (pairCallers (v.session samplePath)) 0
      = { written.setPhase 0 (.renamed (some (numberedId 0)) (numberedId 0))
            ((written.fs.set (uniqueTmpPath samplePath (numberedId 0)) none).set
              samplePath (some out))
          with commits := [0] } := by
    have hfile : written.fs (uniqueTmpPath (v.session samplePath).path (numberedId 0))
      = some out := htmp
    simp only [System.step, hphase, renameFile, pairCallers, hfile, hcommits]
    rfl
  have hsplit : (System.start st.fs).run Platform.transparent (pairCallers (v.session samplePath))
      [0, 0, 0, 0, 0, 1, 1, 1, 1, 1]
      = (written.step Platform.transparent (pairCallers (v.session samplePath)) 0).run
          Platform.transparent (pairCallers (v.session samplePath)) [0, 1, 1, 1, 1, 1] := by
    rw [← hwritten]
    rfl
  generalize hrenamed : written.step Platform.transparent (pairCallers (v.session samplePath)) 0
    = renamed at hmain hrename hsplit
  have hcommits₁ : renamed.commits = [0] := by rw [hrename]
  have hphase₁ : renamed.phase 0 = .renamed (some (numberedId 0)) (numberedId 0) := by
    rw [hrename]
    exact written.setPhase_self 0 (.renamed (some (numberedId 0)) (numberedId 0)) written.fs
  have hready₁ : renamed.phase 1 = .ready := by
    rw [hrename]
    have hne : 1 ≠ 0 := by decide
    exact (written.setPhase_of_ne (.renamed (some (numberedId 0)) (numberedId 0))
      written.fs hne).trans
      hready
  -- call 0 syncs and returns
  have hok : (renamed.run Platform.transparent (pairCallers (v.session samplePath))
      [0, 1, 1, 1, 1, 1]).phase 0 = .done (.ok (some (numberedId 0))) := by
    refine System.phase_run_of_done _ _ [1, 1, 1, 1, 1] ?_
    simp only [System.step, hphase₁, pairCallers, fsyncParent_eq]
    exact System.setPhase_self ..
  -- call 1 alone renames after it, and had not begun
  have hlater : ∀ j ∈ (renamed.run Platform.transparent (pairCallers (v.session samplePath))
      [0, 1, 1, 1, 1, 1]).commits, j ∉ renamed.commits → renamed.phase j = .ready := by
    intro j hj hnot
    obtain ⟨new, hnew, hin⟩ := System.commits_run Platform.transparent
      (pairCallers (v.session samplePath)) [0, 1, 1, 1, 1, 1] renamed
    rw [hnew] at hj
    rcases List.mem_append.mp hj with hj | hj
    · exact absurd hj hnot
    · have hcases : j = 0 ∨ j = 1 := by
        have hmem := hin j hj
        simp only [List.mem_cons, List.not_mem_nil, or_false] at hmem
        omega
      rcases hcases with rfl | rfl
      · rw [hcommits₁] at hnot
        exact absurd (List.mem_singleton_self 0) hnot
      · exact hready₁
  have hpoint : 0 ∉ written.commits ∧ 0 ∈ renamed.commits := by
    rw [hcommits, hcommits₁]
    exact ⟨List.not_mem_nil, List.mem_singleton_self 0⟩
  obtain ⟨w, m, bytes', -, -, hfile, hstored', hreflected⟩ := hmain hok (.inl hpoint) hlater
  refine ⟨st, v.session samplePath, w, m, bytes', hhistory, hsession, ?_⟩
  rw [hsplit]
  rw [hcommits₁] at hreflected
  exact ⟨hok, hfile, hstored', hreflected⟩

end MeissnerSeal
