/-
What an open session writes over a file that changed under it.

# What is not compared

A load re-reads the header and finds the root-key frame of the file on
disk; neither is compared with what was unlocked, and a rewrite copies
both. What it writes opens under the password to the session's keys iff
the head it found does, apart from the size ceiling and two records of one
id (`LoadedVault.Wrote.unlock_iff`). A damaged head is thus written back,
behind a table that fits it (`damaged_head_rewritten`).
-/
import MeissnerSeal.Vault.Rewrite
import MeissnerSeal.Vault.FailedMutation

namespace MeissnerSeal

open ByteCodec ExceptRules

variable {platform : Platform} {path : Path} {password bytes out headerBytes wrkBytes : Bytes}
  {session : UnlockedVault} {loaded : LoadedVault} {draws : Draws} {headerLen wrkLen : UInt32}
  {env : Env} {call : Mutation} {fs : Fs}

/-- The file begins with a head that opens under the password to the keys. -/
def HeadOpens (platform : Platform) (password bytes : Bytes) (keys : UnlockedKeys) : Prop :=
  ∃ head, HeadOf bytes head ∧ head.deriveKeys platform password = .ok keys

/-- The head is written as it was found. -/
theorem LoadedVault.Wrote.headOpens_iff {staged : List PendingRecord} {tableLen : UInt32}
    {keys : UnlockedKeys}
    (hwrote : loaded.Wrote platform draws session headerBytes wrkBytes headerLen
      wrkLen staged out tableLen) (h : loaded.Found bytes headerBytes wrkBytes headerLen wrkLen) :
    HeadOpens platform password out keys ↔ HeadOpens platform password bytes keys := by
  have hoffset := h.sections.wrkFrameOffset_eq
  have hwrkAt := h.sections.wrkBytes_at
  rw [h.bytes_eq] at hwrkAt
  have hstart : ∀ head : VaultHead, head.headerLen = headerLen →
      head.wrkOffset = loaded.wrkFrameOffset := by
    intro head heq
    rw [VaultHead.wrkOffset, heq, hoffset, h.headerLen_eq]
  have hmove : ∀ {x y : Bytes} {head : VaultHead} {tableLen : UInt32}, HeadOf x head →
      parseHeader x = .ok loaded.header → parseHeader y = .ok loaded.header →
      SegAt x prefixHeaderLenOffset (leU32 headerLen) →
      SegAt y prefixHeaderLenOffset (leU32 headerLen) →
      SegAt y prefixRecordTableLenOffset (leU32 tableLen) →
      recordFrameLenAt x loaded.wrkFrameOffset = .ok wrkLen →
      SegAt x loaded.wrkFrameOffset wrkBytes → SegAt y loaded.wrkFrameOffset wrkBytes →
      HeadOf y { head with tableLen } := by
    intro x y head tableLen hhead hx hy hx10 hy10 hy14 hfound hxwrk hywrk
    have hheaderLen := leU32_inj (hhead.headerLen_at.unique hx10 rfl)
    have hheader := hhead.header_parsed
    rw [hx, Except.ok.injEq] at hheader
    have hat := hhead.wrk_at
    have hlen := hhead.recordFrameLenAt_eq
    rw [hstart head hheaderLen] at hat hlen
    rw [hfound, Except.ok.injEq] at hlen
    have hsame : head.wrkBytes = wrkBytes := by
      refine hat.unique hxwrk ?_
      rw [← h.wrkLen_eq, hlen, toNat_u32_ofNat hhead.wrk_length]
    refine ⟨hheader ▸ hy, hheaderLen ▸ hy10, hy14, hhead.wrk_serialized, ?_, hhead.wrk_length,
      hhead.wrk_version, hhead.wrk_tag, hhead.wrk_aad⟩
    show SegAt y head.wrkOffset head.wrkBytes
    rw [hstart head hheaderLen, hsame]
    exact hywrk
  obtain ⟨tableLen₀, h14⟩ := h.tableLen_at
  constructor
  · rintro ⟨head, hhead, hkeys⟩
    exact ⟨{ head with tableLen := tableLen₀ }, hmove hhead hwrote.header_parsed h.header_parsed
      hwrote.headerLen_at h.headerLen_at h14 hwrote.wrk_found hwrote.wrk_at hwrkAt, hkeys⟩
  · rintro ⟨head, hhead, hkeys⟩
    exact ⟨{ head with tableLen }, hmove hhead h.header_parsed hwrote.header_parsed
      h.headerLen_at hwrote.headerLen_at hwrote.tableLen_at h.wrk_found hwrkAt hwrote.wrk_at, hkeys⟩

/-- What a rewrite writes opens to the session's keys iff the head that was
found does, the file is within the ceiling and no id is there twice. -/
theorem LoadedVault.Wrote.unlock_iff {staged : List PendingRecord} {tableLen : UInt32}
    (hwrote : loaded.Wrote platform draws session headerBytes wrkBytes headerLen wrkLen staged out
      tableLen)
    (h : loaded.Found bytes headerBytes wrkBytes headerLen wrkLen) :
    (∃ session', unlockBytes platform path password out = .ok session'
        ∧ session'.keys = session.keys)
      ↔ HeadOpens platform password bytes session.keys ∧ out.length ≤ maxVaultFileLen
        ∧ (staged.map PendingRecord.recordId).Nodup := by
  have hplace : ∀ head, HeadOf out head → head.header = loaded.header
      ∧ head.tableLen = tableLen ∧ head.tableOffset = loaded.wrkFrameEnd := by
    intro head hhead
    have hheader := hhead.header_parsed
    rw [hwrote.header_parsed, Except.ok.injEq] at hheader
    have hheaderLen := leU32_inj (hhead.headerLen_at.unique hwrote.headerLen_at rfl)
    have hstart : head.wrkOffset = loaded.wrkFrameOffset := by
      rw [VaultHead.wrkOffset, hheaderLen, h.sections.wrkFrameOffset_eq, h.headerLen_eq]
    have hlen := hhead.recordFrameLenAt_eq
    rw [hstart, hwrote.wrk_found, Except.ok.injEq] at hlen
    refine ⟨hheader.symm, leU32_inj (hhead.tableLen_at.unique hwrote.tableLen_at rfl), ?_⟩
    rw [VaultHead.tableOffset, hstart, LoadedVault.wrkFrameEnd, h.sections.wrkFrameLen_eq,
      ← h.wrkLen_eq, hlen, toNat_u32_ofNat hhead.wrk_length]
  constructor
  · rintro ⟨session', hunlock, hkeys⟩
    obtain ⟨hle, head, entries, hhead, hderive, hopen, -⟩ := unlockBytes_eq_ok.mp hunlock
    rw [hkeys] at hderive hopen
    obtain ⟨hheader, htableLen, hoffset⟩ := hplace head hhead
    rw [VaultHead.openTable, hheader, htableLen, hoffset] at hopen
    exact ⟨(hwrote.headOpens_iff h).mp ⟨head, hhead, hderive⟩, hle, hwrote.opens_iff.mp ⟨_, hopen⟩⟩
  · rintro ⟨hopens, hle, hnodup⟩
    obtain ⟨head, hhead, hderive⟩ := (hwrote.headOpens_iff h).mpr hopens
    obtain ⟨entries, hopen⟩ := hwrote.opens_iff.mpr hnodup
    obtain ⟨hheader, htableLen, hoffset⟩ := hplace head hhead
    refine ⟨⟨path, session.keys, ⟨head.header.vaultId, head.header.headerNonce,
      head.header.profileSet⟩⟩, unlockBytes_eq_ok.mpr ⟨hle, head, entries, hhead, hderive, ?_, rfl,
      rfl⟩, rfl⟩
    rw [VaultHead.openTable, hheader, htableLen, hoffset]
    exact hopen

-- ==================================================================== a call

/-- The id an `add` draws is not in the table. -/
def Mutation.FreshIn (draws : Draws) (loaded : LoadedVault) : Mutation → Prop
  | .add _ => ∀ id, draws.recordId = some id →
      id ∉ loaded.entries.map RecordTableEntry.recordId
  | .update _ _ => True
  | .delete _ => True

/-- The length of the file a call would write, if it has something to write. -/
def Mutation.Fits (loaded : LoadedVault) (call : Mutation) : Prop :=
  ∀ lens, call.frameLens loaded = some lens →
    loaded.wrkFrameEnd + tableSectionLen lens.length + lens.sum ≤ maxVaultFileLen

/-- Replacing a record by one of its id keeps the ids. -/
theorem map_recordId_set {records : List PendingRecord} {pending : PendingRecord} {position : Nat}
    (hids : records.map PendingRecord.recordId = loaded.entries.map RecordTableEntry.recordId)
    (hposition : liveItemPosition loaded pending.recordId = some position) :
    (records.set position pending).map PendingRecord.recordId
      = loaded.entries.map RecordTableEntry.recordId := by
  rw [liveItemPosition, List.findIdx?_eq_some_iff_getElem] at hposition
  obtain ⟨hlt, hfound, -⟩ := hposition
  rw [decide_eq_true_eq] at hfound
  rw [List.map_set, hids]
  refine List.ext_getElem (by simp) fun i hi hi' => ?_
  rw [List.getElem_set]
  split
  · next heq =>
      subst heq
      rw [List.getElem_map, hfound.1]
  · rfl

/-- No id is in the new table twice iff an `add` has drawn a new one. -/
theorem Mutation.Builds.nodup_iff {header : VaultHeader} {records staged : List PendingRecord}
    {pending : PendingRecord} (h : call.Builds platform draws session header pending)
    (hids : records.map PendingRecord.recordId = loaded.entries.map RecordTableEntry.recordId)
    (hnodup : (loaded.entries.map RecordTableEntry.recordId).Nodup)
    (hplace : call.place loaded records pending = some staged) :
    (staged.map PendingRecord.recordId).Nodup ↔ call.FreshIn draws loaded := by
  cases call with
  | add item =>
      obtain rfl := Option.some.inj hplace
      rw [List.map_append, List.map_cons, List.map_nil, List.nodup_append, hids]
      simp only [FreshIn, h.1, Option.some.injEq, forall_eq']
      constructor
      · rintro ⟨-, -, happart⟩ hmem
        exact happart _ hmem _ (List.mem_singleton_self _) rfl
      · intro hnew
        refine ⟨hnodup, List.nodup_singleton _, fun a ha b hb hab => hnew ?_⟩
        rw [← List.mem_singleton.mp hb, ← hab]
        exact ha
  | update id item =>
      obtain ⟨rfl, -⟩ := h
      obtain ⟨position, hposition, rfl⟩ := Option.map_eq_some_iff.mp hplace
      rw [map_recordId_set hids hposition]
      exact iff_of_true hnodup trivial
  | delete id =>
      obtain ⟨rfl, -⟩ := h
      obtain ⟨position, hposition, rfl⟩ := Option.map_eq_some_iff.mp hplace
      rw [map_recordId_set hids hposition]
      exact iff_of_true hnodup trivial

/-- What a call that writes has drawn. -/
theorem Mutation.writes_of_plan {value : Option ItemId} {seed : U8Array 16}
    (hload : loadVaultBytes platform session bytes = .ok loaded)
    (hplan : call.plan platform draws session bytes = .ok ⟨value, some (out, seed)⟩) :
    call.Writes draws loaded ∧ draws.uniqueSeed = some seed := by
  obtain ⟨headerBytes, wrkBytes, headerLen, wrkLen, hfound⟩ := found_of_load hload
  obtain ⟨records, hrecords, -⟩ := hfound.exists_records
  have hwrites := (Mutation.exists_plan_iff_of_load hload).mp ⟨_, _, _, hplan⟩
  obtain ⟨-, hseed, -⟩ := (Mutation.plan_writes_iff hload hrecords).mp hplan
  exact ⟨hwrites, hseed⟩

/-- The table nonce drawn stands where the new table starts. -/
theorem Mutation.tableNonce_of_plan {value : Option ItemId} {seed : U8Array 16}
    (hload : loadVaultBytes platform session bytes = .ok loaded)
    (hplan : call.plan platform draws session bytes = .ok ⟨value, some (out, seed)⟩) :
    ∃ nonce, draws.tableNonce = some nonce
      ∧ SegAt out (loaded.wrkFrameEnd + 4) nonce.toList := by
  obtain ⟨headerBytes, wrkBytes, headerLen, wrkLen, hfound⟩ := found_of_load hload
  obtain ⟨loaded', staged, hload', hwrite⟩ := Mutation.rewritten_of_plan hplan
  obtain rfl : loaded' = loaded := Except.ok.inj (hload'.symm.trans hload)
  obtain ⟨tableLen, hwrote⟩ := hfound.of_rewritten hwrite
  exact hwrote.tableNonce_at

/-- What a call writes opens to the session's keys iff the head it found
does, its drawn id is new and the file fits. -/
theorem Mutation.unlock_written_iff {value : Option ItemId} {seed : U8Array 16}
    (hload : loadVaultBytes platform session bytes = .ok loaded)
    (hplan : call.plan platform draws session bytes = .ok ⟨value, some (out, seed)⟩) :
    (∃ session', unlockBytes platform path password out = .ok session'
        ∧ session'.keys = session.keys)
      ↔ HeadOpens platform password bytes session.keys ∧ call.FreshIn draws loaded
        ∧ call.Fits loaded := by
  obtain ⟨headerBytes, wrkBytes, headerLen, wrkLen, hfound⟩ := found_of_load hload
  obtain ⟨records, hrecords, -, hids⟩ := hfound.exists_records
  obtain ⟨-, -, pending, staged, hbuilds, hplace, hwrite⟩ :=
    (Mutation.plan_writes_iff hload hrecords).mp hplan
  obtain ⟨tableLen, hwrote⟩ := hfound.of_rewritten hwrite
  have hfits : call.Fits loaded ↔ out.length ≤ maxVaultFileLen := by
    rw [Mutation.Fits, hbuilds.frameLens_eq hrecords, hplace, hwrote.length_eq]
    simp only [Option.map_some, Option.some.injEq, forall_eq', List.length_map]
  rw [hwrote.unlock_iff hfound, hbuilds.nodup_iff hids hfound.nodup hplace, hfits]
  exact and_congr_right fun _ => and_comm

/-- The table nonce a call draws decides nothing. -/
theorem Mutation.drawn_withTableNonce {nonce : Nonce} :
    call.Drawn (env.withTableNonce nonce).draws ↔ call.Drawn env.draws := by
  have hsome : (env.draws.tableNonce.map fun _ => nonce).isSome = env.draws.tableNonce.isSome :=
    Option.isSome_map
  have hframe : (env.withTableNonce nonce).draws.ForFrame ↔ env.draws.ForFrame := by
    constructor
    · exact fun h => ⟨h.revisionId, h.frameNonce, hsome ▸ h.tableNonce, h.uniqueSeed⟩
    · exact fun h => ⟨h.revisionId, h.frameNonce, hsome.symm ▸ h.tableNonce, h.uniqueSeed⟩
  have hitem : (env.withTableNonce nonce).draws.ForItem ↔ env.draws.ForItem := by
    constructor
    · exact fun h => ⟨hframe.mp h.toForFrame, h.rek, h.payloadNonce, h.rekWrapNonce⟩
    · exact fun h => ⟨hframe.mpr h.toForFrame, h.rek, h.payloadNonce, h.rekWrapNonce⟩
  cases call with
  | add item =>
      exact ⟨fun h => ⟨hitem.mp h.toForItem, h.recordId⟩, fun h =>
        ⟨hitem.mpr h.toForItem, h.recordId⟩⟩
  | update id item => exact hitem
  | delete id => exact hframe

theorem Mutation.writes_withTableNonce {nonce : Nonce} :
    call.Writes (env.withTableNonce nonce).draws loaded ↔ call.Writes env.draws loaded := by
  rw [Mutation.Writes, Mutation.Writes, Mutation.drawn_withTableNonce]

theorem Mutation.freshIn_withTableNonce {nonce : Nonce} :
    call.FreshIn (env.withTableNonce nonce).draws loaded ↔ call.FreshIn env.draws loaded := by
  cases call with
  | add item => exact Iff.rfl
  | update id item => exact Iff.rfl
  | delete id => exact Iff.rfl

/-- What the call leaves: a file that opens under the password to the
session's keys, or the bytes it found. -/
def Mutation.Harmless (platform : Platform) (password : Bytes) (session : UnlockedVault) (fs : Fs)
    (bytes : Bytes) (env : Env) (call : Mutation) : Prop :=
  ∀ r fs', call.run platform env session fs = (r, fs') →
    (∀ value, r = .ok value → fs' session.path = some bytes ∨ ∀ io, io.read = false →
      ∃ session', unlock platform io session.path password fs' = (.ok session', fs')
        ∧ session'.keys = session.keys)
    ∧ ∀ e, r = .error e → fs' session.path = some bytes

/-- What has to hold of a file a call is about to rewrite. -/
structure Mutation.Sound (platform : Platform) (password bytes : Bytes) (session : UnlockedVault)
    (env : Env) (loaded : LoadedVault) (call : Mutation) : Prop where
  head : HeadOpens platform password bytes session.keys
  fresh : call.FreshIn env.draws loaded
  fits : call.Fits loaded
  durable : env.io.afterRename = false

/-- Of two table nonces one changes the file. -/
theorem Mutation.exists_changing_plan {loaded : LoadedVault}
    (hload : loadVaultBytes platform session bytes = .ok loaded)
    (hwrites : call.Writes env.draws loaded) :
    ∃ nonce value out seed, call.plan platform (env.withTableNonce nonce).draws session bytes
      = .ok ⟨value, some (out, seed)⟩ ∧ out ≠ bytes := by
  by_contra hnone
  have hheld : ∀ nonce : Nonce, SegAt bytes (loaded.wrkFrameEnd + 4) nonce.toList := by
    intro nonce
    obtain ⟨value, out, seed, hplan⟩ :=
      (Mutation.exists_plan_iff_of_load hload).mpr (Mutation.writes_withTableNonce.mpr hwrites)
    obtain rfl : out = bytes := by
      by_contra hne
      exact hnone ⟨nonce, value, out, seed, hplan, hne⟩
    obtain ⟨drawn, hdrawn, hat⟩ := Mutation.tableNonce_of_plan hload hplan
    obtain ⟨-, -, heq⟩ := Option.map_eq_some_iff.mp hdrawn
    rw [heq]
    exact hat
  have heq : (List.Vector.replicate 24 (0 : UInt8)).toList
      = (List.Vector.replicate 24 (1 : UInt8)).toList := (hheld _).unique (hheld _) rfl
  exact absurd heq (by decide)

/-- A call is harmless, whatever table nonce it draws, iff it does not get
as far as a rename, or finds a head that still opens to the session's
keys and nothing else goes wrong. -/
theorem Mutation.harmless_iff (hpassword : password ≠ []) (hfs : fs session.path = some bytes) :
    (∀ nonce, call.Harmless platform password session fs bytes (env.withTableNonce nonce))
      ↔ (env.Persists session.path fs → ∀ loaded, loadVaultBytes platform session bytes
        = .ok loaded →
          call.Writes env.draws loaded →
          call.Sound platform password bytes session env loaded) := by
  constructor
  · intro hharmless hpersists loaded hload hwrites
    obtain ⟨nonce, value, out, seed, hplan, hne⟩ := Mutation.exists_changing_plan hload hwrites
    obtain ⟨-, hseed⟩ := Mutation.writes_of_plan hload hplan
    obtain ⟨hread, seed', hseed', hreach⟩ := hpersists
    obtain rfl : seed' = seed := Option.some.inj (hseed'.symm.trans hseed)
    have hrun := mutate_of_reachesRename hfs hread hplan hreach
    have hread' : (env.withTableNonce nonce).io = env.io := rfl
    rw [← hread', ← Mutation.run_eq_mutate] at hrun
    obtain ⟨hok, herror⟩ := hharmless nonce _ _ hrun
    have hchanged : (fs.set session.path (some out)) session.path ≠ some bytes := by
      rw [Fs.set_self]
      exact fun heq => hne (Option.some.inj heq)
    have hafter : env.io.afterRename = false := by
      cases hafter : env.io.afterRename with
      | false => rfl
      | true =>
          have herr := herror .io (by rw [hread', hafter]; rfl)
          exact absurd herr hchanged
    obtain hsame | hopens := hok value (by rw [hread', hafter]; rfl)
    · exact absurd hsame hchanged
    · obtain ⟨session', hunlock, hkeys⟩ := hopens IoFaults.none rfl
      rw [unlock_of_some hpassword (Fs.set_self ..)] at hunlock
      obtain ⟨hhead, hfresh, hfits⟩ :=
        (Mutation.unlock_written_iff hload hplan).mp ⟨session', (Prod.mk.inj hunlock).1, hkeys⟩
      exact ⟨hhead, Mutation.freshIn_withTableNonce.mp hfresh, hfits, hafter⟩
  · intro hsound nonce r fs' hrun
    rw [Mutation.run_eq_mutate] at hrun
    have hio : (env.withTableNonce nonce).io = env.io := rfl
    rw [hio] at hrun
    obtain ⟨e, fs'', hfail, hkeep⟩ | ⟨value, -, hnoop⟩ | ⟨value, out, seed, hread, hplan,
      hreach, hwrite⟩ :=
      mutate_cases hfs
    · rw [hfail] at hrun
      obtain ⟨rfl, rfl⟩ := Prod.mk.inj hrun
      exact ⟨fun _ hr => (by cases hr), fun _ _ => hkeep⟩
    · rw [hnoop] at hrun
      obtain ⟨rfl, rfl⟩ := Prod.mk.inj hrun
      exact ⟨fun _ _ => .inl hfs, fun _ hr => (by cases hr)⟩
    · obtain ⟨loaded, -, hload, -⟩ := Mutation.rewritten_of_plan hplan
      obtain ⟨hwrites, hseed⟩ := Mutation.writes_of_plan hload hplan
      have hsound := hsound ⟨hread, seed, hseed, hreach⟩ loaded hload
        (Mutation.writes_withTableNonce.mp hwrites)
      rw [hwrite, hsound.durable] at hrun
      obtain ⟨rfl, rfl⟩ := Prod.mk.inj hrun
      refine ⟨fun _ _ => .inr fun io hio => ?_, fun _ hr => (by cases hr)⟩
      obtain ⟨session', hunlock, hkeys⟩ : ∃ session', unlockBytes platform session.path password out
          = .ok session' ∧ session'.keys = session.keys :=
        (Mutation.unlock_written_iff hload hplan).mpr ⟨hsound.head,
          Mutation.freshIn_withTableNonce.mpr hsound.fresh, hsound.fits⟩
      refine ⟨session', ?_, hkeys⟩
      rw [unlock_of_some hpassword (Fs.set_self ..), hio, hunlock]
      rfl

/-- For every unlocked session, whatever bytes stand at its path when a
call runs and whatever the environment of the call does: the call leaves
a file that opens with the password to the session's keys, or the bytes it
found, and these whenever it fails, iff a call that gets as far as its
rename finds a head that still opens to the session's keys, draws a new
id, stays within the size ceiling and can sync the directory. -/
theorem open_session_keeps_vault_iff {io : IoFaults} {fs₀ : Fs}
    (hunlock : (unlock platform io path password fs₀).1 = .ok session) (hfs : fs path = some bytes)
    (env : Env) (call : Mutation) :
    (∀ nonce, call.Harmless platform password session fs bytes (env.withTableNonce nonce))
      ↔ (env.Persists path fs → ∀ loaded, loadVaultBytes platform session bytes = .ok loaded →
          call.Writes env.draws loaded →
          call.Sound platform password bytes session env loaded) := by
  obtain ⟨hpassword, -, found, -, hfound⟩ := unlock_eq_ok.mp hunlock
  obtain ⟨-, _, _, -, -, -, hpath, -⟩ := unlockBytes_eq_ok.mp hfound
  subst hpath
  exact Mutation.harmless_iff hpassword hfs

-- =================================================================== damage

variable {v : VaultIdentity platform} {m : ItemMap}

/-- A file whose root-key frame has another version still loads, and its
head opens to nothing. -/
theorem Image.exists_damaged {records : List PendingRecord} (h : Image v records bytes)
    (hkeys : session.keys = v.keys) :
    ∃ (bytes' : Bytes) (loaded : LoadedVault), bytes'.length = bytes.length
      ∧ (∀ off x, off + x.length ≤ 173 ∨ 175 ≤ off → SegAt bytes off x → SegAt bytes' off x)
      ∧ MeissnerSeal.loadVaultBytes platform session bytes' = .ok loaded
      ∧ loaded.entries.length = records.length
      ∧ ∀ password keys, ¬ HeadOpens platform password bytes' keys := by
  obtain ⟨entries, tableLen, hheader, htableLen, h10, h14, hheaderAt, hwrkAt, hopen,
    hentries, -, hmax, -, -⟩ := h.parts
  have hframe := v.wrk_serialized
  obtain ⟨hversion, -⟩ := segAt_frame hframe hwrkAt
  obtain ⟨hlen, hdamage, hkeep⟩ :=
    hversion.spliced (length_leU16 0 : (leU16 0).length = (leU16 _).length)
  generalize spliced bytes 173 (leU16 0) = bytes' at hlen hdamage hkeep
  rw [length_leU16] at hkeep
  have hfound : recordFrameLenAt bytes 173 = .ok 196 :=
    recordFrameLenAt_of_segAt hframe hwrkAt hmax (by rw [v.length_wrkBytes]; rfl)
  have hfound' : recordFrameLenAt bytes' 173 = .ok 196 := by
    obtain ⟨nonceLen, aadLen, ctLen, hnonceLen, haadLen, hctLen, hsum, hend⟩ :=
      recordFrameLenAt_eq_ok.mp hfound
    exact recordFrameLenAt_eq_ok.mpr ⟨nonceLen, aadLen, ctLen,
      hkeep _ _ (.inr (by omega)) hnonceLen, hkeep _ _ (.inr (by omega)) haadLen,
        hkeep _ _ (.inr (by omega)) hctLen, hsum, hend⟩
  have hheader' : parseHeader bytes' = .ok v.header := by
    refine parseHeader_of_same hheader hmax h10 hlen fun off x hend hx => hkeep off x (.inl ?_) hx
    exact hend
  have h10' := hkeep _ _ (.inl (by rw [length_leU32]; decide)) h10
  have h14' := hkeep _ _ (.inl (by rw [length_leU32]; decide)) h14
  refine ⟨bytes', ⟨bytes', v.header, 173, 196, entries⟩, hlen, hkeep, ?_, hentries.length_eq, ?_⟩
  · refine loadVaultBytes_eq_ok.mpr ⟨147, tableLen, 196, hheader', h10', h14',
      hfound', ?_, rfl, rfl, rfl⟩
    rw [hkeys]
    exact openSealedRecordTableV2_of_same hopen hmax hlen fun x _ hx =>
      hkeep _ _ (.inr (by decide)) hx
  · rintro password keys ⟨head, hhead, -⟩
    have hheaderLen := leU32_inj (hhead.headerLen_at.unique h10' rfl)
    have hat := hhead.wrk_at
    rw [VaultHead.wrkOffset, hheaderLen] at hat
    obtain ⟨hversion', -⟩ := segAt_frame hhead.wrk_serialized hat
    rw [hhead.wrk_version] at hversion'
    have hzero := leU16_inj (hversion'.unique hdamage rfl)
    exact absurd hzero (by decide)

/-- What a call writes over a head that opens to nothing unlocks
under no password. -/
theorem Mutation.unlock_error_of_damaged {value : Option ItemId} {seed : U8Array 16}
    (hload : loadVaultBytes platform session bytes = .ok loaded)
    (hplan : call.plan platform draws session bytes = .ok ⟨value, some (out, seed)⟩)
    (hdamaged : ∀ password keys, ¬ HeadOpens platform password bytes keys) :
    ∀ path password session', unlockBytes platform path password out ≠ .ok session' := by
  intro path password session' hunlock
  obtain ⟨headerBytes, wrkBytes, headerLen, wrkLen, hfound⟩ := found_of_load hload
  obtain ⟨records, hrecords, -, -⟩ := hfound.exists_records
  obtain ⟨-, -, pending, staged, -, -, hwrite⟩ :=
    (Mutation.plan_writes_iff hload hrecords).mp hplan
  obtain ⟨tableLen, hwrote⟩ := hfound.of_rewritten hwrite
  obtain ⟨-, head, entries, hhead, hderive, -⟩ := unlockBytes_eq_ok.mp hunlock
  exact hdamaged password _ ((hwrote.headOpens_iff hfound).mp ⟨head, hhead, hderive⟩)

/-- An `add` in an open session over a vault whose root-key frame was damaged
on disk returns the new id; what it wrote unlocks under no password. -/
theorem damaged_head_rewritten :
    ∃ (st : VaultState) (session : UnlockedVault) (bytes bytes' : Bytes) (fs' : Fs),
      History Platform.transparent samplePath samplePassword noFiles st ([] : Calls Unit)
      ∧ session ∈ st.sessions ∧ st.fs samplePath = some bytes ∧ bytes'.length = bytes.length
      ∧ (∀ off x, off + x.length ≤ 173 ∨ 175 ≤ off → SegAt bytes off x → SegAt bytes' off x)
      ∧ (Mutation.add sampleItem).run Platform.transparent sampleEnv session
          (st.fs.set samplePath (some bytes')) = (.ok (some zeroId), fs')
      ∧ ∀ io password session',
        (unlock Platform.transparent io samplePath password fs').1 ≠ .ok session' := by
  obtain ⟨st, v, bytes, hhistory, hsession, hoff, -, hfs, hstored⟩ := @sample_reached Unit
  obtain ⟨records, himage, hrecords⟩ := hstored
  obtain ⟨bytes', loaded, hlen, hkeep, hload, hcount, hdamaged⟩ : ∃ (bytes' : Bytes)
      (loaded : LoadedVault), bytes'.length = bytes.length
      ∧ (∀ off x, off + x.length ≤ 173 ∨ 175 ≤ off → SegAt bytes off x → SegAt bytes' off x)
      ∧ loadVaultBytes Platform.transparent (v.session samplePath) bytes' = .ok loaded
      ∧ loaded.entries.length = records.length
      ∧ ∀ password keys, ¬ HeadOpens Platform.transparent password bytes' keys :=
    himage.exists_damaged rfl
  have hempty : loaded.entries = [] := by
    rw [← List.length_eq_zero_iff, hcount, hrecords.length_eq]
    rfl
  obtain ⟨headerBytes, wrkBytes, headerLen, wrkLen, hfound⟩ := found_of_load hload
  obtain ⟨kept, hkept, -, -⟩ := hfound.exists_records
  have hwrites : (Mutation.add sampleItem).Writes sampleEnv.draws loaded := by
    refine ⟨drawsWith_forAdd zeroId zeroId, storedFrameLen_lt sampleItem_withinLimits, _, rfl, ?_⟩
    rw [hempty]
    decide
  obtain ⟨value, out, seed, hplan⟩ := (Mutation.exists_plan_iff_of_load hload).mpr hwrites
  obtain ⟨rfl, hseed, -⟩ := (Mutation.plan_writes_iff hload hkept).mp hplan
  have hfile : (st.fs.set samplePath (some bytes')) (v.session samplePath).path = some bytes' :=
    Fs.set_self ..
  have hreach : ReachesRename sampleEnv.io (st.fs.set samplePath (some bytes'))
      (uniqueTmpPath (v.session samplePath).path seed) := by
    refine ⟨rfl, samplePath_tmp seed, ?_, rfl, rfl, rfl⟩
    have hne : uniqueTmpPath samplePath seed ≠ samplePath := samplePath_tmp_ne seed
    show (st.fs.set samplePath (some bytes')) (uniqueTmpPath samplePath seed) = none
    rw [Fs.set_of_ne _ _ hne]
    exact hoff _ hne
  refine ⟨st, _, bytes, bytes', (st.fs.set samplePath (some bytes')).set samplePath (some out),
    hhistory, hsession, hfs, hlen, hkeep, ?_, ?_⟩
  · rw [Mutation.run_eq_mutate, mutate_of_reachesRename hfile rfl hplan hreach]
    rfl
  · intro io password session' hunlock
    obtain ⟨-, -, written, hwritten, hopens⟩ := unlock_eq_ok.mp hunlock
    have hout : written = out := by
      rw [Fs.set_self, Option.some.injEq] at hwritten
      exact hwritten.symm
    rw [hout] at hopens
    exact Mutation.unlock_error_of_damaged hload hplan hdamaged samplePath password session' hopens

/-- An `add` in an open session over the undamaged vault. -/
theorem open_session_keeps_vault_of_sample :
    ∃ (st : VaultState) (session : UnlockedVault) (bytes : Bytes),
      History Platform.transparent samplePath samplePassword noFiles st ([] : Calls Unit)
      ∧ session ∈ st.sessions ∧ st.fs samplePath = some bytes
      ∧ ∀ nonce, (Mutation.add sampleItem).Harmless Platform.transparent
        samplePassword session st.fs
          bytes (sampleEnv.withTableNonce nonce) := by
  obtain ⟨st, v, bytes, hhistory, hsession, hoff, hv, hfs, hstored⟩ := @sample_reached Unit
  have hunlock : (unlock Platform.transparent IoFaults.none samplePath samplePassword st.fs).1
      = .ok (v.session samplePath) := by
    rw [← hv, hstored.unlock_eq hfs IoFaults.none rfl, if_pos (by decide)]
  refine ⟨st, _, bytes, hhistory, hsession, hfs,
    (open_session_keeps_vault_iff hunlock hfs sampleEnv (.add sampleItem)).mpr ?_⟩
  intro hpersists loaded hload hwrites
  obtain ⟨records, himage, hrecords⟩ := hstored
  obtain ⟨loaded', hload', hloaded⟩ : ∃ loaded', loadVaultBytes Platform.transparent
      (v.session samplePath) bytes = .ok loaded' ∧ LoadedFrom v records bytes loaded' :=
    himage.loadVaultBytes rfl
  obtain rfl := Except.ok.inj (hload.symm.trans hload')
  have hempty : loaded.entries = [] := by
    rw [← List.length_eq_zero_iff, hloaded.entries_for.length_eq, hrecords.length_eq]
    rfl
  obtain ⟨tableLen, -, hhead⟩ := himage.headOf
  refine ⟨⟨_, hhead, ?_⟩, ?_, ?_, rfl⟩
  · rw [← hv]
    exact v.keys_derived
  · rintro id - hmem
    rw [hempty] at hmem
    cases hmem
  · intro lens hlens
    have hend : loaded.wrkFrameEnd = 369 := by
      rw [LoadedVault.wrkFrameEnd, hloaded.wrkFrameOffset_eq, hloaded.wrkFrameLen_eq]
    obtain rfl := Option.some.inj hlens
    rw [hend, hempty]
    decide

end MeissnerSeal
