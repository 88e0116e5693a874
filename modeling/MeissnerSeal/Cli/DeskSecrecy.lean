/-
What the program prints tells of the secrets it keeps.

# Hidden secrets

`hiddenItem` is an item with its secret blotted out, byte for byte;
the same is done to maps, files, desks and requests. The desk answers a
hidden request over hidden files as it answers the request itself, but for
the text of a `get` (`Desk.answer_hidden`). So whoever sees all the output
but the text of `get`, and how long the files are, sees nothing of a secret
but its length.
-/
import MeissnerSeal.Cli.DeskRuns

namespace MeissnerSeal.Cli

open ByteCodec ExceptRules

-- ================================================================== hiding

/-- The item with its secret blotted out. -/
def hiddenItem (item : PlainItem) : PlainItem :=
  { item with secret := List.replicate item.secret.length 0 }

/-- Every secret of the map is hidden. -/
def hiddenMap (m : ItemMap) : ItemMap := m.mapValues hiddenItem

/-- A vault or a bundle without its secrets; the passwords are no
secrets here. -/
def Artifact.hidden : Artifact → Artifact
  | .vault password m => .vault password (hiddenMap m)
  | .bundle passphrase items => .bundle passphrase (items.map hiddenItem)

/-- The desk with every secret hidden. -/
def Desk.hidden (desk : Desk) : Desk := fun path => (desk path).map Artifact.hidden

/-- The one request that brings a secret in is `add`. -/
def Request.hidden : Request → Request
  | .add path password item id => .add path password (hiddenItem item) id
  | request => request

/-- What is seen of a run: of a `get`, how much it prints. -/
def Outcome.seen (outcome : Outcome) : Res Request → Bool × Nat × Option Bytes
  | .ok (.get _ _ _) => (outcome.ok, outcome.printed.length, none)
  | _ => (outcome.ok, outcome.printed.length, some outcome.printed)

variable {item : PlainItem} {m : ItemMap} {desk : Desk}

-- ========================================================== what is the same

/-- A hidden secret is as long as it was. -/
theorem payloadLen_hiddenItem : (hiddenItem item).payloadLen = item.payloadLen := by
  rw [PlainItem.payloadLen, PlainItem.payloadLen, hiddenItem, List.length_replicate]

/-- The limits ask for lengths. -/
theorem withinLimits_hiddenItem : (hiddenItem item).WithinLimits ↔ item.WithinLimits := by
  rw [PlainItem.WithinLimits, PlainItem.WithinLimits, hiddenItem, List.length_replicate]

theorem storedFrameLen_hidden (content : Option PlainItem) :
    storedFrameLen (content.map hiddenItem) = storedFrameLen content := by
  cases content with
  | none => rfl
  | some item => exact congrArg (268 + ·) payloadLen_hiddenItem

/-- So the files are of one length. -/
theorem storedLen_hiddenMap : storedLen (hiddenMap m) = storedLen m := by
  rw [storedLen, storedLen, hiddenMap, TombstoneMap.mapValues, List.map_map]
  exact congrArg imageLen (List.map_congr_left fun entry _ => storedFrameLen_hidden entry.2)

theorem allWithinLimits_hiddenMap : allWithinLimits (hiddenMap m) = allWithinLimits m := by
  rw [allWithinLimits, allWithinLimits, hiddenMap, TombstoneMap.live_mapValues, List.all_map]
  refine List.all_congr rfl fun pair => ?_
  exact decide_eq_decide.mpr withinLimits_hiddenItem

/-- A listing shows no secret. -/
theorem liveSummaries_hiddenMap : liveSummaries (hiddenMap m) = liveSummaries m := by
  rw [liveSummaries, liveSummaries, hiddenMap, TombstoneMap.live_mapValues, List.map_map]
  rfl

/-- What an export holds is hidden item by item. -/
theorem liveItems_hiddenMap : liveItems (hiddenMap m) = (liveItems m).map hiddenItem := by
  rw [liveItems, liveItems, hiddenMap, TombstoneMap.live_mapValues, List.map_map, List.map_map]
  rfl

/-- Adding commutes with hiding. -/
theorem insertAll_hidden (pairs : List (ItemId × PlainItem)) :
    hiddenMap (insertAll m pairs)
      = insertAll (hiddenMap m) (pairs.map fun pair => (pair.1, hiddenItem pair.2)) := by
  induction pairs generalizing m with
  | nil => rfl
  | cons pair pairs ih =>
      rw [insertAll, List.foldl_cons, ← insertAll, ih, List.map_cons]
      show insertAll (hiddenMap (m.insert pair.1 pair.2)) _ = insertAll _ _
      rw [hiddenMap, TombstoneMap.insert_mapValues]
      rfl

theorem Desk.hidden_set (path : Path) (artifact : Artifact) :
    (desk.set path artifact).hidden = desk.hidden.set path artifact.hidden := by
  funext p
  unfold Desk.hidden Desk.set
  split <;> rfl

/-- A password opens the hidden desk where it opens the desk. -/
theorem Desk.opened_hidden (path : Path) (password : Bytes) :
    desk.hidden.opened path password = (desk.opened path password).map hiddenMap := by
  unfold Desk.opened Desk.hidden
  cases desk path with
  | none => rfl
  | some artifact =>
      cases artifact with
      | bundle own items => rfl
      | vault own m =>
          simp only [Option.map_some, Artifact.hidden, storedLen_hiddenMap]
          split <;> rfl

/-- And so does a passphrase. -/
theorem Desk.unsealed_hidden (path : Path) (passphrase : Bytes) :
    desk.hidden.unsealed path passphrase
      = (desk.unsealed path passphrase).map (List.map hiddenItem) := by
  unfold Desk.unsealed Desk.hidden
  cases desk path with
  | none => rfl
  | some artifact =>
      cases artifact with
      | vault own m => rfl
      | bundle own items =>
          simp only [Option.map_some, Artifact.hidden, List.length_map]
          split <;> rfl

theorem Desk.isNone_hidden (path : Path) : (desk.hidden path).isNone = (desk path).isNone := by
  rw [Desk.hidden, Option.isNone_map]

-- ================================================================= answers

/-- A request that shows no secret is answered the same over hidden files. -/
theorem Desk.exec_hidden {request : Request}
    (h : ∀ path password id, request ≠ .get path password id) :
    desk.hidden.exec request.hidden = ((desk.exec request).1, (desk.exec request).2.hidden) := by
  cases request with
  | get path password id => exact absurd rfl (h path password id)
  | lock => rfl
  | init path shown password confirm =>
      simp only [Request.hidden, Desk.exec, Desk.isNone_hidden]
      split
      · rw [Desk.hidden_set]
        rfl
      · rfl
  | add path password item id =>
      simp only [Request.hidden, Desk.exec, Desk.opened_hidden]
      cases desk.opened path password with
      | none => rfl
      | some m =>
          cases id with
          | none => rfl
          | some id =>
              have hlen := storedFrameLen_hidden (some item)
              rw [Option.map_some] at hlen
              simp only [Option.map_some, hlen]
              split
              · rw [Desk.hidden_set, Artifact.hidden, hiddenMap, hiddenMap,
                  TombstoneMap.insert_mapValues]
              · rfl
  | list path password =>
      simp only [Request.hidden, Desk.exec, Desk.opened_hidden]
      cases desk.opened path password with
      | none => rfl
      | some m =>
          simp only [Option.map_some, allWithinLimits_hiddenMap, liveSummaries_hiddenMap]
          split <;> rfl
  | «export» path password passphrase output shown =>
      simp only [Request.hidden, Desk.exec, Desk.opened_hidden]
      cases desk.opened path password with
      | none => rfl
      | some m =>
          simp only [Option.map_some, allWithinLimits_hiddenMap, Desk.isNone_hidden]
          split
          · rw [Desk.hidden_set, Artifact.hidden, liveItems_hiddenMap]
          · rfl
  | «import» path password passphrase input ids =>
      simp only [Request.hidden, Desk.exec, Desk.opened_hidden, Desk.unsealed_hidden]
      cases desk.opened path password with
      | none => rfl
      | some m =>
          cases desk.unsealed input passphrase with
          | none => rfl
          | some items =>
              simp only [Option.map_some, List.length_map, Desk.hidden_set, Artifact.hidden,
                insertAll_hidden, List.zip_map_right]
              rfl

/-- Of a `get`, what is seen is the same. -/
theorem Desk.exec_get_hidden (path : Path) (password : Bytes) (id : ItemId) :
    (desk.hidden.exec (.get path password id)).1.ok = (desk.exec (.get path password id)).1.ok
      ∧ (desk.hidden.exec (.get path password id)).1.printed.length
        = (desk.exec (.get path password id)).1.printed.length
      ∧ (desk.hidden.exec (.get path password id)).2
        = (desk.exec (.get path password id)).2.hidden := by
  simp only [Desk.exec, Desk.opened_hidden]
  cases desk.opened path password with
  | none => exact ⟨rfl, rfl, rfl⟩
  | some m =>
      simp only [Option.map_some, Option.bind_some, hiddenMap, TombstoneMap.status_mapValues]
      cases m.status id with
      | none => exact ⟨rfl, rfl, rfl⟩
      | some content =>
          cases content with
          | none => exact ⟨rfl, rfl, rfl⟩
          | some item =>
              simp only [Option.map_some, withinLimits_hiddenItem]
              split
              · refine ⟨rfl, ?_, rfl⟩
                simp only [Outcome.success, List.length_append, hiddenItem, List.length_replicate]
              · exact ⟨rfl, rfl, rfl⟩

/-- Of every answer but that of `get` the text is seen. -/
theorem Outcome.seen_of_not_get {request : Request} {outcome : Outcome}
    (h : ∀ path password id, request ≠ .get path password id) :
    outcome.seen (.ok request) = (outcome.ok, outcome.printed.length, some outcome.printed) := by
  cases request with
  | get path password id => exact absurd rfl (h path password id)
  | _ => rfl

/-- One answer. -/
theorem Desk.answer_hidden (desk : Desk) (request : Res Request) :
    (desk.hidden.answer (request.map Request.hidden)).1.seen (request.map Request.hidden)
        = (desk.answer request).1.seen request
      ∧ (desk.hidden.answer (request.map Request.hidden)).2 = (desk.answer request).2.hidden := by
  cases request with
  | error e => exact ⟨rfl, rfl⟩
  | ok request =>
      by_cases hget : ∃ path password id, request = .get path password id
      · obtain ⟨path, password, id, rfl⟩ := hget
        obtain ⟨hok, hlen, hdesk⟩ := @Desk.exec_get_hidden desk path password id
        exact ⟨congrArg₂ (fun ok len => (ok, len, none)) hok hlen, hdesk⟩
      · have hother : ∀ path password id, request ≠ .get path password id :=
          fun path password id heq => hget ⟨path, password, id, heq⟩
        have hhidden : ∀ path password id, request.hidden ≠ .get path password id := by
          cases request <;> simp_all [Request.hidden]
        show (desk.hidden.exec request.hidden).1.seen (.ok request.hidden)
            = (desk.exec request).1.seen (.ok request)
          ∧ (desk.hidden.exec request.hidden).2 = (desk.exec request).2.hidden
        rw [Outcome.seen_of_not_get hother, Outcome.seen_of_not_get hhidden,
          Desk.exec_hidden hother]
        exact ⟨rfl, rfl⟩

/-- Answers one after the other. -/
theorem Desk.answerAll_hidden (desk : Desk) (requests : List (Res Request)) :
    List.zipWith Outcome.seen (desk.hidden.answerAll (requests.map (Except.map Request.hidden))).1
          (requests.map (Except.map Request.hidden))
        = List.zipWith Outcome.seen (desk.answerAll requests).1 requests
      ∧ (desk.hidden.answerAll (requests.map (Except.map Request.hidden))).2
        = (desk.answerAll requests).2.hidden := by
  induction requests generalizing desk with
  | nil => exact ⟨rfl, rfl⟩
  | cons request requests ih =>
      obtain ⟨hseen, hdesk⟩ := desk.answer_hidden request
      obtain ⟨hrest, hfinal⟩ := ih (desk.answer request).2
      rw [← hdesk] at hrest hfinal
      exact ⟨congrArg₂ List.cons hseen hrest, hfinal⟩

-- ==================================================================== runs

variable {Name : Type} {platform : Platform} {fs fs' : Fs}

/-- How long a vault file is, is seen of the hidden desk. -/
theorem Desk.Holds.length_eq {desk' : Desk} (h : desk.Holds platform fs)
    (h' : desk'.Holds platform fs') (hsame : desk.hidden = desk'.hidden) (path : Path) :
    (fs path).isSome = (fs' path).isSome
      ∧ ∀ password m, desk path = some (.vault password m) →
        (fs path).map List.length = (fs' path).map List.length := by
  have hpath : (desk path).map Artifact.hidden = (desk' path).map Artifact.hidden :=
    congrFun hsame path
  refine ⟨?_, fun password m hdesk => ?_⟩
  · have hnone : (desk path).isNone = (desk' path).isNone := by
      rw [← Option.isNone_map (f := Artifact.hidden), hpath, Option.isNone_map]
    rw [h.isNone_eq, h'.isNone_eq] at hnone
    rw [← Option.not_isNone, ← Option.not_isNone, hnone]
  · rw [hdesk, Option.map_some] at hpath
    cases hdesk' : desk' path with
    | none =>
        rw [hdesk'] at hpath
        cases hpath
    | some artifact =>
        rw [hdesk', Option.map_some, Option.some.injEq] at hpath
        cases artifact with
        | bundle own items => cases hpath
        | vault own m' =>
            have hmaps := (Artifact.vault.inj hpath).2
            obtain ⟨bytes, hfs, v, -, hstored⟩ := h.present path _ hdesk
            obtain ⟨bytes', hfs', v', -, hstored'⟩ := h'.present path _ hdesk'
            rw [hfs, hfs', Option.map_some, Option.map_some, hstored.length_eq, hstored'.length_eq,
              ← storedLen_hiddenMap, hmaps, storedLen_hiddenMap]

/-- Two sequences of runs that ask for the same but for the bytes of the
secrets they add show the same: every run succeeds or fails alike and
prints the same, a `get` as much; the same files are there, and the
vaults are as long. -/
theorem runs_hide_secrets (platform : Platform) (htotal : platform.kdf.Total)
    (invocations invocations' : List (Invocation Name))
    (hquiet : QuietRuns platform Desk.empty noFiles invocations)
    (hquiet' : QuietRuns platform Desk.empty noFiles invocations')
    (hsame : invocations.map (fun invocation => invocation.request.map Request.hidden)
      = invocations'.map fun invocation => invocation.request.map Request.hidden) :
    List.zipWith Outcome.seen (runAll platform invocations noFiles).1
          (invocations.map Invocation.request)
        = List.zipWith Outcome.seen (runAll platform invocations' noFiles).1
          (invocations'.map Invocation.request)
      ∧ ∀ path, ((runAll platform invocations noFiles).2 path).isSome
          = ((runAll platform invocations' noFiles).2 path).isSome
        ∧ ∀ password m,
          (Desk.empty.answerAll (invocations.map Invocation.request)).2 path
            = some (.vault password m) →
          ((runAll platform invocations noFiles).2 path).map List.length
            = ((runAll platform invocations' noFiles).2 path).map List.length := by
  have hrequests : (invocations.map Invocation.request).map (Except.map Request.hidden)
      = (invocations'.map Invocation.request).map (Except.map Request.hidden) := by
    rw [List.map_map, List.map_map]
    exact hsame
  obtain ⟨houtcomes, hholds⟩ := Desk.holds_empty.run_all htotal hquiet
  obtain ⟨houtcomes', hholds'⟩ := Desk.holds_empty.run_all htotal hquiet'
  obtain ⟨hseen, hdesk⟩ := Desk.empty.answerAll_hidden (invocations.map Invocation.request)
  obtain ⟨hseen', hdesk'⟩ := Desk.empty.answerAll_hidden (invocations'.map Invocation.request)
  rw [hrequests] at hseen hdesk
  refine ⟨?_, hholds.length_eq hholds' (hdesk.symm.trans hdesk')⟩
  rw [houtcomes, houtcomes']
  exact hseen.symm.trans hseen'

/-- Two notes of one length. -/
theorem runs_hide_secrets_of_samples :
    List.zipWith Outcome.seen (runAll Platform.keyed (sampleRuns "hunter2") noFiles).1
        ((sampleRuns "hunter2").map Invocation.request)
      = List.zipWith Outcome.seen (runAll Platform.keyed (sampleRuns "letmein") noFiles).1
        ((sampleRuns "letmein").map Invocation.request) :=
  (runs_hide_secrets Platform.keyed Platform.keyed_total (sampleRuns "hunter2")
    (sampleRuns "letmein") (sampleRuns_quiet rfl) (sampleRuns_quiet rfl) rfl).1

end MeissnerSeal.Cli
