import MiLsp.Ids.RoundTrip

namespace MiLsp.Ids

open Library.Strings List

inductive IDState
  | fresh
  | stale
  | missing

structure Resolution where
  record : SymbolRecord
  rev : Bytes
  state : IDState

def missing : Resolution where
  record := { filePath := [], qualifiedName := [], parent := [], name := [], signatureHash := [] }
  rev := []
  state := .missing

def called (file name : Bytes) (candidate : SymbolRecord) : Bool :=
  candidate.filePath = file ∧ symbolQName candidate = name

def found (lower : Lower) (id : ID) (candidates : List SymbolRecord) : List SymbolRecord :=
  let found := candidates.filter (called id.file id.name)
  if id.sig ≠ [] ∧ 1 < found.length then
    found.filter fun candidate ↦
      (lower.toLower id.sig).isPrefixOf (lower.toLower candidate.signatureHash)
  else found

def resolveSymbolID (lower : Lower) (id : ID) (candidates : List SymbolRecord)
    (revOf : SymbolRecord → Bytes) : Resolution :=
  match found lower id candidates with
  | [] => missing
  | first :: rest =>
    let chosen :=
      if rest ≠ [] then
        ((first :: rest).find? fun c ↦ revOf c = id.rev ∧ id.rev ≠ []).getD first
      else first
    let rev := revOf chosen
    { record := chosen
      rev
      state :=
        if id.rev = [] ∨ trimPrefixBytes id.rev (utf8 "rev:") = rev then .fresh else .stale }

variable {lower : Lower} {id : ID} {candidates : List SymbolRecord} {revOf : SymbolRecord → Bytes}

theorem state_eq_missing_iff :
    (resolveSymbolID lower id candidates revOf).state = .missing ↔
      found lower id candidates = [] := by
  rw [resolveSymbolID]
  cases found lower id candidates with
  | nil => simp [missing]
  | cons first rest =>
    dsimp only
    split_ifs <;> simp

variable {c : SymbolRecord}

theorem resolve_singleton (hrev : id.rev = []) (h : found lower id candidates = [c]) :
    resolveSymbolID lower id candidates revOf = ⟨c, revOf c, .fresh⟩ := by
  rw [resolveSymbolID, h]
  simp [hrev]

theorem mem_found_of_fresh {rev : Bytes}
    (h : resolveSymbolID lower id candidates revOf = ⟨c, rev, .fresh⟩) :
    c ∈ found lower id candidates := by
  rw [resolveSymbolID] at h
  cases hfound : found lower id candidates with
  | nil => simp [hfound, missing] at h
  | cons first rest =>
    rw [hfound] at h
    obtain rfl := congrArg Resolution.record h
    dsimp only
    split_ifs
    · cases hfind : (first :: rest).find? fun c ↦ revOf c = id.rev ∧ id.rev ≠ [] with
      | none => simp
      | some c => exact mem_of_find?_eq_some hfind
    · exact mem_cons_self

theorem called_of_mem_found (h : c ∈ found lower id candidates) :
    c ∈ candidates ∧ called id.file id.name c = true := by
  rw [found] at h
  split_ifs at h
  · exact mem_filter.mp (mem_of_mem_filter h)
  · exact mem_filter.mp h

section Overloads

def Hashed (rec : SymbolRecord) : Prop :=
  rec.signatureHash.length = 64 ∧ isHex rec.signatureHash = true

def Absent (file : Bytes) (r : SymbolRecord) (candidates : List SymbolRecord) : Prop :=
  ∀ c ∈ candidates, called file (symbolQName r) c = true → c.signatureHash ≠ r.signatureHash

def Overloads (candidates : List SymbolRecord) : Prop :=
  candidates.Pairwise fun c d ↦ c.filePath = d.filePath → symbolQName c = symbolQName d →
    Hashed c ∧ Hashed d ∧ c.signatureHash ≠ d.signatureHash

theorem Hashed.signed {rec : SymbolRecord} (h : Hashed rec) (lower : Lower) :
    lower.toLower (trimSpaceBytes rec.signatureHash) = rec.signatureHash ∧
      signed lower rec = true := by
  obtain ⟨hlength, hhex⟩ := h
  have hvisible : ∀ b ∈ rec.signatureHash, visible b = true := by
    intro b hb
    rw [isHex, Bool.and_eq_true, all_eq_true] at hhex
    have hbyte := hhex.2 b hb
    simp only [hexByte, visible, Bool.or_eq_true, Bool.and_eq_true, decide_eq_true_eq,
      UInt8.le_iff_toNat_le] at *
    simp at *
    omega
  have htrim : trimSpaceBytes rec.signatureHash = rec.signatureHash := by
    cases hsig : rec.signatureHash with
    | nil => simp [hsig] at hlength
    | cons first rest =>
      rcases eq_nil_or_concat rest with rfl | ⟨middle, last, rfl⟩
      · simp [hsig] at hlength
      · rw [concat_eq_append]
        exact trimSpaceBytes_visible middle (hvisible _ (by simp [hsig]))
          (hvisible _ (by simp [hsig]))
  simp [Ids.signed, htrim, lower.toLower_hex _ hhex, hlength, hhex]

variable {r : SymbolRecord}

theorem Hashed.isPrefixOf_iff {c : SymbolRecord} (hr : Hashed r) (hc : Hashed c) :
    (lower.toLower r.signatureHash).isPrefixOf (lower.toLower c.signatureHash) = true ↔
      c.signatureHash = r.signatureHash := by
  rw [lower.toLower_hex _ hr.2, lower.toLower_hex _ hc.2, isPrefixOf_iff_prefix]
  constructor
  · intro h
    exact (h.eq_of_length (hr.1.trans hc.1.symm)).symm
  · intro h
    rw [h]

theorem Overloads.filter_called (h : Overloads candidates) (file name : Bytes) :
    (candidates.filter (called file name)).Pairwise fun c d ↦
      Hashed c ∧ Hashed d ∧ c.signatureHash ≠ d.signatureHash := by
  refine (List.Pairwise.filter _ h).imp_of_mem ?_
  intro c d hc hd hcd
  simp only [mem_filter, called, decide_eq_true_eq] at hc hd
  exact hcd (hc.2.1.trans hd.2.1.symm) (hc.2.2.trans hd.2.2.symm)

theorem hashed_of_pairwise {l : List SymbolRecord} (hlength : 1 < l.length)
    (h : l.Pairwise fun c d ↦ Hashed c ∧ Hashed d ∧ c.signatureHash ≠ d.signatureHash) :
    ∀ c ∈ l, Hashed c := by
  obtain _ | ⟨a, _ | ⟨b, rest⟩⟩ := l
  · cases hlength
  · simp at hlength
  · have hhead := (pairwise_cons.mp h).1
    intro c hc
    rcases mem_cons.mp hc with rfl | hc
    · exact (hhead b mem_cons_self).1
    · exact (hhead c hc).2.1

section

variable (hr : Hashed r) (hover : Overloads candidates)
include hr hover

theorem found_eq (hsig : id.sig = r.signatureHash) :
    found lower id candidates =
      if candidates.countP (called id.file id.name) = 1 then
        candidates.filter (called id.file id.name)
      else (candidates.filter (called id.file id.name)).filter
        fun c ↦ c.signatureHash = r.signatureHash := by
  have hne : r.signatureHash ≠ [] := by
    intro h
    cases h ▸ hr.1
  rw [found, hsig, countP_eq_length_filter]
  have hpair := hover.filter_called id.file id.name
  generalize candidates.filter (called id.file id.name) = l at *
  by_cases hlength : 1 < l.length
  · rw [if_pos ⟨hne, hlength⟩, if_neg (by omega)]
    refine filter_congr fun c hc ↦ ?_
    rw [Bool.eq_iff_iff, hr.isPrefixOf_iff (hashed_of_pairwise hlength hpair c hc),
      decide_eq_true_eq]
  · rw [if_neg fun h ↦ hlength h.2]
    split_ifs with hone
    · rfl
    · rw [length_eq_zero_iff.mp (show l.length = 0 by omega), filter_nil]

theorem found_eq_nil_iff (hname : id.name = symbolQName r) (hsig : id.sig = r.signatureHash) :
    found lower id candidates = [] ↔
      candidates.countP (called id.file id.name) ≠ 1 ∧ Absent id.file r candidates := by
  rw [found_eq hr hover hsig, Absent, ← hname]
  split_ifs with hone
  · simp only [ne_eq, hone, not_true_eq_false, false_and, iff_false]
    intro hnil
    rw [countP_eq_length_filter, hnil] at hone
    cases hone
  · rw [filter_filter, filter_eq_nil_iff]
    refine (forall₂_congr fun c _ ↦ ?_).trans (and_iff_right hone).symm
    rw [Bool.and_eq_true, decide_eq_true_eq, not_and, imp_not_comm]

theorem found_of_mem (hsig : id.sig = r.signatureHash) (hmem : r ∈ candidates)
    (hcalled : called id.file id.name r = true) : found lower id candidates = [r] := by
  have hpair := hover.filter_called id.file id.name
  have hfilter : r ∈ candidates.filter (called id.file id.name) :=
    mem_filter.mpr ⟨hmem, hcalled⟩
  rw [found_eq hr hover hsig, countP_eq_length_filter]
  generalize candidates.filter (called id.file id.name) = l at *
  obtain ⟨before, after, rfl⟩ := append_of_mem hfilter
  split_ifs with hone
  · rw [length_append, length_cons] at hone
    rw [length_eq_zero_iff.mp (show before.length = 0 by omega),
      length_eq_zero_iff.mp (show after.length = 0 by omega), nil_append]
  · rw [pairwise_append, pairwise_cons] at hpair
    obtain ⟨-, ⟨hafter, -⟩, hbefore⟩ := hpair
    have hleft : before.filter (fun c ↦ c.signatureHash = r.signatureHash) = [] := by
      refine filter_eq_nil_iff.mpr fun c hc heq ↦ ?_
      exact (hbefore c hc r mem_cons_self).2.2 (of_decide_eq_true heq)
    have hright : after.filter (fun c ↦ c.signatureHash = r.signatureHash) = [] := by
      refine filter_eq_nil_iff.mpr fun c hc heq ↦ ?_
      exact (hafter c hc).2.2 (of_decide_eq_true heq).symm
    rw [filter_append, hleft, filter_cons_of_pos (by simp), hright, nil_append]

end

end Overloads

/-- The identity of `r`, written and read back, gives `r`, and nothing where `r` is absent. -/
def Resolves (lower : Lower) (workspaceID rev : Bytes) (candidates : List SymbolRecord)
    (revOf : SymbolRecord → Bytes) (r : SymbolRecord) : Prop :=
  ∃ id, parseID lower ((stableSymbolID lower workspaceID r rev true).string lower) = .ok id ∧
    (r ∈ candidates → resolveSymbolID lower id candidates revOf = ⟨r, revOf r, .fresh⟩) ∧
    (Absent r.filePath r candidates →
      (resolveSymbolID lower id candidates revOf).state = .missing)

/-- A present symbol's file has no back-slash, an absent one's name has not exactly one overload. -/
theorem symbol_resolves_iff (lower : Lower) {workspaceID : Bytes}
    (hlength : workspaceID.length = 64) (hhex : isHex workspaceID = true)
    {candidates : List SymbolRecord} (hover : Overloads candidates) {r : SymbolRecord}
    (hr : Hashed r) (rev : Bytes) (revOf : SymbolRecord → Bytes) :
    Resolves lower workspaceID rev candidates revOf r ↔
      (r ∈ candidates → backslash ∉ r.filePath) ∧
      (Absent r.filePath r candidates →
        candidates.countP (called (slashed r.filePath) (symbolQName r)) ≠ 1 ∧
          Absent (slashed r.filePath) r candidates) := by
  obtain ⟨hsig, hsigned⟩ := hr.signed lower
  rw [Resolves, parseID_signed hlength hhex rev hsigned]
  simp only [Except.ok.injEq, exists_eq_left']
  refine and_congr (forall_congr' fun hmem ↦ ?_) (forall_congr' fun _ ↦ ?_)
  · rw [← slashed_eq_self_iff]
    constructor
    · intro hresolve
      have hfound := mem_found_of_fresh hresolve
      have hcalled := (called_of_mem_found hfound).2
      simp only [called, decide_eq_true_eq] at hcalled
      exact hcalled.1.symm
    · intro hfile
      exact resolve_singleton rfl (found_of_mem hr hover hsig hmem (by simp [called, hfile]))
  · rw [state_eq_missing_iff, found_eq_nil_iff hr hover rfl hsig]

def overload : SymbolRecord :=
  { withSignature with signatureHash := List.replicate 64 98 }

def otherOverload : SymbolRecord :=
  { withSignature with signatureHash := List.replicate 64 99 }

theorem hashed_withSignature : Hashed withSignature := ⟨by decide, by decide⟩

theorem hashed_overload : Hashed overload := ⟨by decide, by decide⟩

/-- One of two overloads is found by its signature, and a third one is reported missing. -/
theorem overload_resolves :
    Resolves asciiLower sampleWorkspace [] [overload, withSignature] (fun _ ↦ []) overload ∧
      Absent withSignature.filePath withSignature [overload, otherOverload] ∧
      Resolves asciiLower sampleWorkspace [] [overload, otherOverload] (fun _ ↦ [])
        withSignature := by
  have habsent : ∀ file, Absent file withSignature [overload, otherOverload] := by
    intro file c hc _
    rcases mem_pair.mp hc with rfl | rfl <;> decide
  refine ⟨?_, habsent _, ?_⟩
  · refine (symbol_resolves_iff asciiLower (by decide) (by decide) ?_ hashed_overload [] _).mpr
      ⟨fun _ ↦ by decide, fun hnot ↦ ?_⟩
    · exact pairwise_pair.mpr fun _ _ ↦ ⟨hashed_overload, hashed_withSignature, by decide⟩
    · exact absurd rfl (hnot overload mem_cons_self (by decide +kernel))
  · refine (symbol_resolves_iff asciiLower (by decide) (by decide) ?_ hashed_withSignature []
      _).mpr ⟨fun _ ↦ by decide, fun _ ↦ ⟨by decide +kernel, habsent _⟩⟩
    exact pairwise_pair.mpr fun _ _ ↦ ⟨hashed_overload, ⟨by decide, by decide⟩, by decide⟩

theorem removed_overload_resolved :
    Overloads [overload] ∧ Hashed withSignature ∧
    Absent withSignature.filePath withSignature [overload] ∧
    ∃ id, parseID asciiLower
        ((stableSymbolID asciiLower sampleWorkspace withSignature [] true).string asciiLower) =
      .ok id ∧
      resolveSymbolID asciiLower id [overload] (fun _ ↦ []) = ⟨overload, [], .fresh⟩ := by
  refine ⟨pairwise_singleton .., hashed_withSignature, ?_, ?_⟩
  · simp only [Absent, mem_singleton, forall_eq]
    exact fun _ ↦ by decide
  · refine ⟨_, parseID_signed (by decide) (by decide) [] (hashed_withSignature.signed _).2, ?_⟩
    exact resolve_singleton rfl (by rfl)

end MiLsp.Ids
