import Mathlib.Algebra.Order.Group.Unbundled.Int
import Mathlib.Data.Nat.Cast.Order.Basic
import Mathlib.Order.Fin.Basic
import MiLsp.Library.Strings

namespace MiLsp.Incremental

open Library.Strings

structure Platform where
  windows : Bool
  sha256Hex : Bytes → String
  sha256Hex_ne : ∀ content, sha256Hex content ≠ ""

structure FileStamp where
  mtimeNsec : ℤ
  size : ℤ
deriving DecidableEq

structure ArtifactState where
  stamp : FileStamp
  contentSHA256 : String
  parserVersion : String
  authorityConfigHash : String
  indexedAt : ℤ

structure Look where
  before : FileStamp
  content : Bytes
  after : FileStamp

inductive Verdict
  | unread
  | unchanged
  | changed (hash : String)
  | concurrent
  | overBudget
deriving DecidableEq

def int64 (x : ℤ) : ℤ := (x + 2 ^ 63) % 2 ^ 64 - 2 ^ 63

variable (platform : Platform)

def racilyCleanWindow : ℤ := (if platform.windows then 10000000 else 1) * 2

def safelyReadAfterStoredMtime (state : ArtifactState) : Bool :=
  if state.indexedAt ≤ 0 ∨ 9223372036 < state.indexedAt then false
  else
    let indexedAtNsec := state.indexedAt * 1000000000
    if indexedAtNsec ≤ state.stamp.mtimeNsec then false
    else racilyCleanWindow platform < int64 (indexedAtNsec - state.stamp.mtimeNsec)

def reusesMetadata (stored : ArtifactState) (current : FileStamp) : Bool :=
  current = stored.stamp && stored.contentSHA256 ≠ "" && safelyReadAfterStoredMtime platform stored

def racilyCleanAttempt (stored : ArtifactState) (look : Look) : Option Verdict :=
  if reusesMetadata platform stored look.before then some .unread
  else
    let currentHash := platform.sha256Hex look.content
    if look.before = look.after then
      if look.before = stored.stamp ∧ currentHash = stored.contentSHA256 then some .unchanged
      else some (.changed currentHash)
    else none

def racilyClean (stored : ArtifactState) (first second : Look) : Verdict :=
  ((racilyCleanAttempt platform stored first).or
    (racilyCleanAttempt platform stored second)).getD .concurrent

/-- The stamp that the answer rests on: the second attempt's only if the first saw a change. -/
def racilyCleanStat (stored : ArtifactState) (first second : Look) : FileStamp :=
  if racilyCleanAttempt platform stored first = none then second.before else first.before

/-- The body and stamp of the first of two attempts under which the file kept its stamp. -/
def readStableDocument (first second : Look) : Option (Bytes × FileStamp) :=
  if first.before = first.after then some (first.content, first.after)
  else if second.before = second.after then some (second.content, second.after)
  else none

variable (now mtimeNsec : ℤ)

def stampOld : Bool :=
  if mtimeNsec ≤ 0 then false
  else
    let window : ℤ := if platform.windows then 20000000 else 2
    mtimeNsec < now && window < now - mtimeNsec

def safelyOlderThanRacyWindow : Bool := stampOld platform now mtimeNsec

def manifestStampOld : Bool := stampOld platform now mtimeNsec

def classifyManifestEntry (stored : ArtifactState) (now : ℤ) (entry : FileStamp)
    (first second : Look) : Verdict :=
  let metadataEqual : Bool := entry = stored.stamp
  if metadataEqual && stored.contentSHA256 ≠ "" &&
      safelyOlderThanRacyWindow platform now entry.mtimeNsec then .unread
  else match readStableDocument first second with
    | none => .concurrent
    | some (content, _) =>
      let hash := platform.sha256Hex content
      if metadataEqual && hash = stored.contentSHA256 then .unchanged else .changed hash

structure OverlayBudget where
  maxBytes : ℤ
  bytesRead : ℤ

def processManifestDoc (parserVersion configHash : String) (prior : Option ArtifactState) (now : ℤ)
    (entry : FileStamp) (budget : OverlayBudget) (first second : Look) : Verdict :=
  let metadataEqual := prior.any fun prior ↦ entry = prior.stamp
  let configEqual := prior.any fun prior ↦
    prior.parserVersion = parserVersion ∧ prior.authorityConfigHash = configHash
  if metadataEqual && configEqual && prior.any (·.contentSHA256 ≠ "") &&
      manifestStampOld platform now entry.mtimeNsec then .unread
  else if 0 < budget.maxBytes ∧ (budget.maxBytes ≤ budget.bytesRead ∨
      budget.maxBytes - budget.bytesRead < entry.size) then .overBudget
  else match readStableDocument first second with
    | none => .concurrent
    | some (content, _) =>
      if 0 < budget.maxBytes ∧ budget.maxBytes < budget.bytesRead + content.length then .overBudget
      else
        let contentHash := platform.sha256Hex content
        if metadataEqual && configEqual && prior.any (·.contentSHA256 = contentHash) then .unchanged
        else .changed contentHash

section

variable {stored : ArtifactState} {now : ℤ} {entry : FileStamp} {first second : Look}

theorem racilyCleanAttempt_unread {look : Look} :
    racilyCleanAttempt platform stored look = some .unread ↔
      reusesMetadata platform stored look.before := by
  by_cases hreuse : reusesMetadata platform stored look.before
  · simp [racilyCleanAttempt, hreuse]
  · refine iff_of_false ?_ hreuse
    rw [racilyCleanAttempt, if_neg hreuse]
    dsimp only
    split_ifs <;> simp

theorem racilyCleanAttempt_ne_none {look : Look} (h : look.before = look.after) :
    racilyCleanAttempt platform stored look ≠ none := by
  rw [racilyCleanAttempt]
  dsimp only
  rw [if_pos h]
  split_ifs <;> simp

theorem racilyClean_unread : racilyClean platform stored first second = .unread ↔
    reusesMetadata platform stored (racilyCleanStat platform stored first second) := by
  rw [racilyClean, racilyCleanStat]
  split_ifs with hfirst
  · rw [hfirst, Option.none_or, ← racilyCleanAttempt_unread]
    cases racilyCleanAttempt platform stored second <;> simp
  · rw [← racilyCleanAttempt_unread]
    obtain ⟨verdict, hverdict⟩ := Option.ne_none_iff_exists'.mp hfirst
    simp [hverdict]

theorem classifyManifestEntry_unread :
    classifyManifestEntry platform stored now entry first second = .unread ↔
      entry = stored.stamp ∧ stored.contentSHA256 ≠ "" ∧ stampOld platform now entry.mtimeNsec := by
  rw [classifyManifestEntry]
  split_ifs with hskip
  · simpa [safelyOlderThanRacyWindow, and_assoc] using hskip
  · have hnot : ¬(entry = stored.stamp ∧ stored.contentSHA256 ≠ "" ∧
        stampOld platform now entry.mtimeNsec) := by
      simpa [safelyOlderThanRacyWindow, and_assoc] using hskip
    simp only [hnot, iff_false]
    split
    · simp
    · split_ifs <;> simp

theorem processManifestDoc_unread {parserVersion configHash : String} {budget : OverlayBudget}
    (h : processManifestDoc platform parserVersion configHash (some stored) now entry budget first
      second = .unread) :
    entry = stored.stamp ∧ stored.contentSHA256 ≠ "" ∧ stampOld platform now entry.mtimeNsec := by
  rw [processManifestDoc] at h
  dsimp only at h
  split_ifs at h with hskip hbudget
  · simp only [Option.any_some, Bool.and_eq_true, decide_eq_true_eq] at hskip
    exact ⟨hskip.1.1.1, hskip.1.2, hskip.2⟩
  · split at h
    · cases h
    · split_ifs at h

end

/-- The writes to one document, in nanoseconds. The file system rounds times down to its
granularity. -/
structure Timeline where
  writes : List (ℤ × Bytes)
  ordered : writes.Pairwise fun a b ↦ a.1 ≤ b.1
  granularity : ℤ
  granularity_pos : 0 < granularity
  granularity_fine : granularity < racilyCleanWindow platform

variable {platform}

namespace Timeline

variable (timeline : Timeline platform)

abbrev Moment := Fin timeline.writes.length

variable (i : timeline.Moment)

def clock : ℤ := (timeline.writes.get i).1

def content : Bytes := (timeline.writes.get i).2

def tick : ℤ := timeline.clock i / timeline.granularity

def stat : FileStamp :=
  ⟨timeline.tick i * timeline.granularity, (timeline.content i).length⟩

theorem tick_mono {i j : timeline.Moment} (h : i ≤ j) : timeline.tick i ≤ timeline.tick j := by
  rcases h.eq_or_lt with rfl | hlt
  · exact le_rfl
  · exact Int.ediv_le_ediv timeline.granularity_pos
      (List.pairwise_iff_getElem.mp timeline.ordered i j i.isLt j.isLt hlt)

theorem stat_eq_iff {i j : timeline.Moment} : timeline.stat i = timeline.stat j ↔
    timeline.tick i = timeline.tick j ∧
      (timeline.content i).length = (timeline.content j).length := by
  rw [stat, stat, FileStamp.mk.injEq, Int.mul_eq_mul_right_iff timeline.granularity_pos.ne',
    Int.natCast_inj]

end Timeline

/-- A pass that stored the document: its attempt, its index time, its parser and configuration. -/
structure IndexingPass (timeline : Timeline platform) where
  before : timeline.Moment
  read : timeline.Moment
  after : timeline.Moment
  before_le : before ≤ read
  read_le : read ≤ after
  stable : timeline.stat before = timeline.stat after
  now : ℤ
  now_ge : timeline.clock after ≤ now
  parserVersion : String
  configHash : String

structure LaterCheck {timeline : Timeline platform} (pass : IndexingPass timeline) where
  moment : timeline.Moment
  later : pass.after ≤ moment
  now : ℤ
  now_ge : timeline.clock moment ≤ now
  now_later : pass.now ≤ now

namespace IndexingPass

variable {timeline : Timeline platform} (pass : IndexingPass timeline)

def stored : ArtifactState where
  stamp := timeline.stat pass.after
  contentSHA256 := platform.sha256Hex (timeline.content pass.read)
  parserVersion := pass.parserVersion
  authorityConfigHash := pass.configHash
  indexedAt := pass.now / 1000000000

theorem tick_read : timeline.tick pass.read = timeline.tick pass.after := by
  have hstable := (timeline.stat_eq_iff.mp pass.stable).1
  have hbefore := timeline.tick_mono pass.before_le
  have hafter := timeline.tick_mono pass.read_le
  omega

end IndexingPass

namespace LaterCheck

variable {timeline : Timeline platform} {pass : IndexingPass timeline} (check : LaterCheck pass)

/-- A check answers from the stamp only if the bytes are those hashed, the overlay and the manifest
only when the incremental pass would. -/
def Sound : Prop :=
  (∀ first second, racilyCleanStat platform pass.stored first second = timeline.stat check.moment →
      racilyClean platform pass.stored first second = .unread →
    timeline.content check.moment = timeline.content pass.read) ∧
  (∀ first second, classifyManifestEntry platform pass.stored check.now (timeline.stat check.moment)
      first second = .unread →
    timeline.content check.moment = timeline.content pass.read ∧
      reusesMetadata platform pass.stored (timeline.stat check.moment)) ∧
  ∀ parserVersion configHash budget first second,
    processManifestDoc platform parserVersion configHash (some pass.stored) check.now
      (timeline.stat check.moment) budget first second = .unread →
    timeline.content check.moment = timeline.content pass.read ∧
      reusesMetadata platform pass.stored (timeline.stat check.moment)

/-- The last write came after the body was read, in the same tick, with other bytes of the stored
size. -/
def RewrittenInTick : Prop :=
  pass.read < check.moment ∧ timeline.tick check.moment = timeline.tick pass.read ∧
    (timeline.content check.moment).length = (timeline.content pass.after).length ∧
    timeline.content check.moment ≠ timeline.content pass.read

def SameStamp : Prop := timeline.stat check.moment = timeline.stat pass.after

theorem rewrittenInTick_iff : check.RewrittenInTick ↔
    check.SameStamp ∧ timeline.content check.moment ≠ timeline.content pass.read := by
  unfold RewrittenInTick SameStamp
  rw [timeline.stat_eq_iff, pass.tick_read]
  constructor
  · rintro ⟨-, htick, hsize, hbytes⟩
    exact ⟨⟨htick, hsize⟩, hbytes⟩
  · rintro ⟨⟨htick, hsize⟩, hbytes⟩
    refine ⟨lt_of_le_of_ne (pass.read_le.trans check.later) ?_, htick, hsize, hbytes⟩
    intro heq
    exact hbytes (by rw [heq])

theorem reusesMetadata_iff : reusesMetadata platform pass.stored (timeline.stat check.moment) ↔
    check.SameStamp ∧ safelyReadAfterStoredMtime platform pass.stored := by
  have hhash : pass.stored.contentSHA256 ≠ "" := platform.sha256Hex_ne _
  simp only [reusesMetadata, hhash, ne_eq, not_false_eq_true, decide_true, Bool.and_true,
    Bool.and_eq_true, decide_eq_true_eq]
  rfl

def look : Look :=
  ⟨timeline.stat check.moment, timeline.content check.moment, timeline.stat check.moment⟩

theorem racilyCleanStat_look (second : Look) :
    racilyCleanStat platform pass.stored check.look second = timeline.stat check.moment :=
  if_neg (racilyCleanAttempt_ne_none platform rfl)

theorem classifyManifestEntry_iff {first second : Look} :
    classifyManifestEntry platform pass.stored check.now (timeline.stat check.moment) first second =
        .unread ↔
      check.SameStamp ∧ stampOld platform check.now (timeline.stat check.moment).mtimeNsec := by
  rw [classifyManifestEntry_unread]
  simp [SameStamp, IndexingPass.stored, platform.sha256Hex_ne]

/-- Sound exactly when no rewrite in the tick passes the clock, and a stamp old enough for overlay
and manifest was indexed late enough for the incremental pass. -/
theorem sound_iff : check.Sound ↔
    (check.RewrittenInTick → safelyReadAfterStoredMtime platform pass.stored = false ∧
      stampOld platform check.now (timeline.stat check.moment).mtimeNsec = false) ∧
    (check.SameStamp → stampOld platform check.now (timeline.stat check.moment).mtimeNsec →
      safelyReadAfterStoredMtime platform pass.stored) := by
  have hstat := check.racilyCleanStat_look check.look
  rw [rewrittenInTick_iff]
  constructor
  · rintro ⟨hracily, hmanifest, -⟩
    constructor
    · rintro ⟨hsame, hbytes⟩
      constructor
      · by_contra hsafe
        refine hbytes (hracily check.look check.look hstat ((racilyClean_unread platform).mpr ?_))
        rw [hstat]
        exact check.reusesMetadata_iff.mpr ⟨hsame, by simpa using hsafe⟩
      · by_contra hold
        exact hbytes (hmanifest check.look check.look
          (check.classifyManifestEntry_iff.mpr ⟨hsame, by simpa using hold⟩)).1
    · intro hsame hold
      have hclassify :=
        hmanifest check.look check.look (check.classifyManifestEntry_iff.mpr ⟨hsame, hold⟩)
      exact (check.reusesMetadata_iff.mp hclassify.2).2
  · rintro ⟨hrewritten, hclock⟩
    -- both skip on the same stamp and the same age
    have hskip : check.SameStamp ∧
        stampOld platform check.now (timeline.stat check.moment).mtimeNsec →
        timeline.content check.moment = timeline.content pass.read ∧
          reusesMetadata platform pass.stored (timeline.stat check.moment) := by
      rintro ⟨hsame, hold⟩
      refine ⟨?_, check.reusesMetadata_iff.mpr ⟨hsame, hclock hsame hold⟩⟩
      by_contra hbytes
      rw [(hrewritten ⟨hsame, hbytes⟩).2] at hold
      cases hold
    refine ⟨?_, ?_, ?_⟩
    · intro first second hmoment hunread
      rw [racilyClean_unread, hmoment] at hunread
      obtain ⟨hsame, hsafe⟩ := check.reusesMetadata_iff.mp hunread
      by_contra hbytes
      rw [(hrewritten ⟨hsame, hbytes⟩).1] at hsafe
      cases hsafe
    · intro first second hunread
      exact hskip (check.classifyManifestEntry_iff.mp hunread)
    · intro parserVersion configHash budget first second hunread
      obtain ⟨hstamp, -, hold⟩ := processManifestDoc_unread platform hunread
      exact hskip ⟨hstamp, hold⟩

end LaterCheck

section Samples

def sampleWindows : Platform where
  windows := true
  sha256Hex content := String.ofList ('#' :: content.map fun b ↦ Char.ofNat b.toNat)
  sha256Hex_ne content := by simp

def sampleTimeline : Timeline sampleWindows where
  writes := [(970000000, [97]), (972000000, [98])]
  ordered := by decide
  granularity := 10000000
  granularity_pos := by decide
  granularity_fine := by decide

def samplePass : IndexingPass sampleTimeline where
  before := ⟨0, by decide⟩
  read := ⟨0, by decide⟩
  after := ⟨0, by decide⟩
  before_le := le_rfl
  read_le := le_rfl
  stable := rfl
  now := 1200000000
  now_ge := by decide
  parserVersion := ""
  configHash := ""

def sampleCheck : LaterCheck samplePass where
  moment := ⟨1, by decide⟩
  later := by decide
  now := 5000000000
  now_ge := by decide
  now_later := by decide

/-- The second write goes unnoticed, by the incremental pass and by the manifest. -/
theorem rewrite_in_tick_unnoticed :
    sampleWindows.sha256Hex (sampleTimeline.content sampleCheck.moment) ≠
        samplePass.stored.contentSHA256 ∧
      racilyClean sampleWindows samplePass.stored sampleCheck.look sampleCheck.look = .unread ∧
      ¬sampleCheck.Sound := by
  have hclean : racilyClean sampleWindows samplePass.stored sampleCheck.look sampleCheck.look =
      .unread := by decide +kernel
  refine ⟨by decide +kernel, hclean, fun h ↦ ?_⟩
  have hbytes := h.1 _ _ (sampleCheck.racilyCleanStat_look _) hclean
  revert hbytes
  decide

end Samples

end MiLsp.Incremental
