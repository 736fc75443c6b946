import Mathlib.Algebra.Order.BigOperators.Group.List
import Mathlib.Algebra.Order.Group.Nat
import Mathlib.Algebra.Ring.Nat
import MiLsp.Library.Paging
import MiLsp.Query.ImpactSeeds

namespace MiLsp.Query

open MiLsp.Graph Library Attempt Paging Ranks Strings List ImpactRequest

section Paths

theorem normalizeImpactPath_sublist (path : String) :
    (normalizeImpactPath path).toList.Sublist
      (path.map fun c ↦ if c = '\\' then '/' else c).toList := by
  have hinitial : ∀ s pre, (trimPrefix s pre).toList.Sublist s.toList := by
    intro s pre
    rw [trimPrefix]
    split_ifs
    · rw [String.toList_ofList]
      exact drop_sublist _ _
    · exact List.Sublist.refl _
  exact (hinitial _ _).trans (trimSpace_sublist _)

theorem backslash_not_mem_normalizeImpactPath (path : String) :
    '\\' ∉ (normalizeImpactPath path).toList := by
  intro hmem
  have h := (normalizeImpactPath_sublist path).mem hmem
  rw [String.toList_map, mem_map] at h
  obtain ⟨c, -, hc⟩ := h
  split_ifs at hc with hback
  · exact absurd hc (by decide)
  · exact hback hc

theorem normalizeImpactPath_shorter {path : String} (hback : '\\' ∉ path.toList)
    (hne : normalizeImpactPath path ≠ path) :
    (normalizeImpactPath path).toList.length < path.toList.length := by
  have hsame : path.map (fun c ↦ if c = '\\' then '/' else c) = path := by
    apply String.toList_inj.mp
    rw [String.toList_map]
    refine (map_congr_left ?_).trans (map_id _)
    intro c hc
    refine if_neg ?_
    rintro rfl
    exact hback hc
  have hsub := normalizeImpactPath_sublist path
  rw [hsame] at hsub
  refine lt_of_le_of_ne hsub.length_le fun hlength ↦ hne ?_
  exact String.toList_inj.mp (hsub.eq_of_length hlength)

variable {t : SeedPaths}

structure SeedPaths.Sound (given : List String) (t : SeedPaths) : Prop where
  increasing : Increasing textKey t.kept
  length : t.kept.length ≤ maxImpactSeeds
  given : ∀ x ∈ t.kept, x ≠ "" ∧ ∃ raw ∈ given, normalizeImpactPath raw = x

theorem boundedImpactSeedPaths_sound (paths changedPaths : List String) :
    (boundedImpactSeedPaths paths changedPaths).Sound (paths ++ changedPaths) := by
  rw [boundedImpactSeedPaths_eq]
  refine ⟨(canonicalPaths_increasing _).sublist (take_sublist _ _), length_take_le _ _, ?_⟩
  intro x hx
  obtain ⟨raw, hraw, heq, hne⟩ := mem_canonicalPaths.mp (mem_of_mem_take hx)
  exact ⟨hne, raw, hraw, heq⟩

def Settled (paths : List String) : Prop := ∀ path ∈ paths, normalizeImpactPath path = path

instance (paths : List String) : Decidable (Settled paths) :=
  inferInstanceAs (Decidable (∀ path ∈ paths, _))

theorem bounded_again_iff {given : List String} (h : t.Sound given) :
    (boundedImpactSeedPaths t.kept t.kept).kept = t.kept ↔ Settled t.kept := by
  constructor
  · intro heq
    by_contra hsettled
    rw [Settled] at hsettled
    push Not at hsettled
    obtain ⟨path, hpath, hne⟩ := hsettled
    -- Every kept path comes from a kept one, which is longer unless it is the same.
    have hback : ∀ x ∈ t.kept, '\\' ∉ x.toList := by
      intro x hx
      obtain ⟨-, raw, -, rfl⟩ := h.given x hx
      exact backslash_not_mem_normalizeImpactPath raw
    have hbound : ∀ x ∈ t.kept, x.toList.length ≤ (t.kept.map (·.toList.length)).sum :=
      fun x hx ↦ single_le_sum (by simp) _ (mem_map_of_mem hx)
    induction hn : (t.kept.map (·.toList.length)).sum - path.toList.length using Nat.strongRecOn
      generalizing path with
    | _ n ih =>
      have hkept : path ∈ (boundedImpactSeedPaths t.kept t.kept).kept := by
        rw [heq]
        exact hpath
      obtain ⟨-, raw, hraw, hraw'⟩ := (boundedImpactSeedPaths_sound _ _).given path hkept
      rw [mem_append, or_self] at hraw
      have hraw_ne : normalizeImpactPath raw ≠ raw := by
        intro hsame
        rw [hsame] at hraw'
        rw [hraw'] at hsame
        exact hne hsame
      have hlonger := normalizeImpactPath_shorter (hback raw hraw) hraw_ne
      rw [hraw'] at hlonger
      have hle := hbound raw hraw
      exact ih _ (by omega) raw hraw hraw_ne rfl
  · intro hsettled
    have hsame : canonicalPaths (t.kept ++ t.kept) = t.kept := by
      refine eq_of_mem_iff (canonicalPaths_increasing _) h.increasing fun x ↦ ?_
      rw [mem_canonicalPaths]
      constructor
      · rintro ⟨raw, hraw, rfl, -⟩
        rw [mem_append, or_self] at hraw
        rwa [hsettled raw hraw]
      · intro hx
        exact ⟨x, mem_append_left _ hx, hsettled x hx, (h.given x hx).1⟩
    rw [boundedImpactSeedPaths_eq, hsame]
    exact take_of_length_le h.length

end Paths

section Normalize

variable {host : ImpactRequestHost} {δ : Type}

theorem normalizeDirection_in : normalizeDirection host "in" = .ok () := by
  have htrim : trimSpace "in" = "in" := by decide
  have hlower : host.toLower "in" = "in" := host.toLower_plain _ (by decide)
  rw [normalizeDirection, htrim, hlower]
  simp

theorem normalizeMode_text (mode : GraphImpactMode) : normalizeMode host mode.text = .ok mode := by
  have htrim : trimSpace mode.text = mode.text := by
    cases mode <;> decide
  have hlower : host.toLower mode.text = mode.text := by
    apply host.toLower_plain
    cases mode <;> decide
  rw [normalizeMode, htrim, hlower]
  cases mode <;> rfl

theorem normalizeBudget_again {field message : String} {fallback max : ℕ} {value : ℤ}
    {n : { n : ℕ // 1 ≤ n }} (h : normalizeBudget field message fallback max value = .ok n) :
    normalizeBudget field message fallback max (n.1 : ℤ) = .ok n := by
  have hdefault : withDefault fallback (n.1 : ℤ) = n.1 := if_neg (by omega)
  have hmax : ¬((n.1 : ℤ) < 1 ∨ (max : ℤ) < n.1) := by
    rw [normalizeBudget] at h
    split_ifs at h with hrange
    rw [Except.ok.injEq] at h
    rw [← h]
    dsimp only
    omega
  rw [← hdefault] at hmax
  rw [normalizeBudget, dif_neg hmax, Except.ok.injEq]
  apply Subtype.ext
  dsimp only
  rw [hdefault]
  exact Int.toNat_natCast n.1

structure IsRelation (host : ImpactRequestHost) (relation : String) : Prop where
  normal : host.toLower (trimSpace relation) = relation
  ne_empty : relation ≠ ""
  known : graphImpactRelations.lookup (host.toLower (trimSpace relation)) ≠ none

variable {relations raws relations' : List String} {q : NormalizedImpact}

theorem addRelation_eq_ok {raw : String} (h : addRelation host relations raw = .ok relations')
    (hall : ∀ r ∈ relations, IsRelation host r) (hnodup : relations.Nodup) :
    (∀ r ∈ relations', IsRelation host r) ∧ relations'.Nodup := by
  have hnormal : host.toLower (trimSpace (host.toLower (trimSpace raw))) =
      host.toLower (trimSpace raw) := by
    rw [host.trimSpace_toLower, trimSpace_trimSpace, host.toLower_toLower]
  simp only [addRelation] at h
  split_ifs at h with hempty hunknown hold
  · cases h
    exact ⟨hall, hnodup⟩
  · cases h
    exact ⟨hall, hnodup⟩
  · cases h
    refine ⟨?_, ?_⟩
    · intro r hr
      rcases mem_append.mp hr with hr | hr
      · exact hall r hr
      · rw [mem_singleton.mp hr]
        exact ⟨hnormal, hempty, hunknown⟩
    · rw [nodup_append]
      refine ⟨hnodup, nodup_singleton _, ?_⟩
      intro r hr r' hr' heq
      rw [mem_singleton.mp hr'] at heq
      exact hold (heq ▸ hr)

theorem foldlM_addRelation (h : raws.foldlM (addRelation host) relations = .ok relations')
    (hall : ∀ r ∈ relations, IsRelation host r) (hnodup : relations.Nodup) :
    (∀ r ∈ relations', IsRelation host r) ∧ relations'.Nodup :=
  foldlM_invariant (I := fun rs ↦ (∀ r ∈ rs, IsRelation host r) ∧ rs.Nodup)
    (fun _ _ _ _ hI hstep ↦ addRelation_eq_ok hstep hI.1 hI.2) ⟨hall, hnodup⟩ h

theorem foldlM_addRelation_self
    (hall : ∀ r ∈ raws, IsRelation host r) (hnodup : (relations ++ raws).Nodup) :
    raws.foldlM (addRelation host) relations = .ok (relations ++ raws) := by
  induction raws generalizing relations with
  | nil => rw [foldlM_nil, append_nil]; rfl
  | cons raw raws ih =>
    rw [forall_mem_cons] at hall
    have hnew : raw ∉ relations := by
      intro hmem
      exact nodup_append.mp hnodup |>.2.2 raw hmem raw mem_cons_self rfl
    have hadd : addRelation host relations raw = .ok (relations ++ [raw]) := by
      have hnormal := hall.1.normal
      have hknown := hall.1.known
      rw [hnormal] at hknown
      simp only [addRelation, hnormal]
      rw [if_neg hall.1.ne_empty, if_neg hknown, if_neg hnew]
    rw [foldlM_cons, hadd]
    have happend : relations ++ raw :: raws = (relations ++ [raw]) ++ raws := by simp
    rw [happend] at hnodup ⊢
    exact ih hall.2 hnodup

theorem defaultRelations_spec (includeTests includeDocs : Bool) :
    (∀ r ∈ defaultRelations includeTests includeDocs, IsRelation host r) ∧
      (defaultRelations includeTests includeDocs).Nodup ∧
      defaultRelations includeTests includeDocs ≠ [] := by
  have hplain : ∀ r ∈ graphImpactRelations.map Prod.fst,
      trimSpace r = r ∧ (r.toList.all fun c ↦ c.val < 128 && !c.isUpper) = true ∧ r ≠ "" ∧
        graphImpactRelations.lookup r ≠ none := by decide +kernel
  refine ⟨?_, ?_, ?_⟩
  · intro r hr
    obtain ⟨htrim, hlower, hne, hknown⟩ := hplain r (mem_of_mem_filter hr)
    have hnormal : host.toLower (trimSpace r) = r := by
      rw [htrim, host.toLower_plain r hlower]
    refine ⟨hnormal, hne, ?_⟩
    rw [hnormal]
    exact hknown
  · exact List.Nodup.filter _ (by decide +kernel)
  · intro hempty
    have hcalls : "calls" ∈ defaultRelations includeTests includeDocs := by
      revert includeTests includeDocs
      decide +kernel
    rw [hempty] at hcalls
    cases hcalls

theorem normalizeRelations_again {includeTests includeDocs : Bool}
    (h : normalizeRelations host includeTests includeDocs raws = .ok relations) :
    normalizeRelations host includeTests includeDocs relations = .ok relations := by
  obtain ⟨named, hnamed, hsorted⟩ := bind_eq_ok.mp h
  rw [pure_eq_ok] at hsorted
  have hspec : (∀ r ∈ relations, IsRelation host r) ∧ relations.Nodup ∧ relations ≠ [] := by
    generalize hbase : (if named = [] then defaultRelations includeTests includeDocs else named) =
      base at hsorted
    have hbase : (∀ r ∈ base, IsRelation host r) ∧ base.Nodup ∧ base ≠ [] := by
      rw [← hbase]
      split_ifs with hnone
      · exact defaultRelations_spec includeTests includeDocs
      · obtain ⟨hall, hnodup⟩ := foldlM_addRelation hnamed (by simp) nodup_nil
        exact ⟨hall, hnodup, hnone⟩
    rw [← hsorted]
    refine ⟨?_, ?_, ?_⟩
    · intro r hr
      exact hbase.1 r ((perm_insertionSort _ _).mem_iff.mp hr)
    · exact (perm_insertionSort _ _).nodup_iff.mpr hbase.2.1
    · intro hempty
      have hperm := perm_insertionSort (fun a b ↦ textKey a ≤ textKey b) base
      rw [hempty] at hperm
      exact hbase.2.2 hperm.nil_eq.symm
  have hagain : relations.foldlM (addRelation host) [] = .ok relations :=
    foldlM_addRelation_self hspec.1 (by simpa using hspec.2.1)
  have horder : relations.Pairwise fun a b ↦ textKey a ≤ textKey b := by
    rw [← hsorted]
    apply pairwise_insertionSort
  rw [normalizeRelations, hagain]
  refine pure_eq_ok.mpr ?_
  rw [if_neg hspec.2.2]
  exact List.Pairwise.insertionSort_eq horder

structure Normal (host : ImpactRequestHost) (q : NormalizedImpact) : Prop where
  paths : ∃ t given, SeedPaths.Sound given t ∧ t.kept = q.request.paths
  depth : normalizeDepth q.request.depth = .ok ⟨q.request.depth, q.request.depth_pos⟩
  limit : normalizeLimit q.request.limit = .ok ⟨q.request.limit, q.request.limit_pos⟩
  token : ∃ h, normalizeToken q.request.tokenBudget = .ok ⟨q.request.tokenBudget, h⟩
  relations : normalizeRelations host q.includeTests q.includeDocs q.request.relations =
    .ok q.request.relations

theorem normal_of_normalize {r : ImpactRequest δ} (h : r.normalize host = .ok q) :
    Normal host q := by
  rw [ImpactRequest.normalize, seq_eq_ok] at h
  obtain ⟨-, h⟩ := h
  obtain ⟨mode, -, h⟩ := bind_eq_ok.mp h
  obtain ⟨depth, hdepth, h⟩ := bind_eq_ok.mp h
  obtain ⟨limit, hlimit, h⟩ := bind_eq_ok.mp h
  obtain ⟨token, htoken, h⟩ := bind_eq_ok.mp h
  obtain ⟨relations, hrelations, h⟩ := bind_eq_ok.mp h
  obtain rfl := pure_eq_ok.mp h
  exact ⟨⟨_, _, boundedImpactSeedPaths_sound _ _, rfl⟩, normalizeBudget_again hdepth,
    normalizeBudget_again hlimit, ⟨token.2, normalizeBudget_again htoken⟩,
    normalizeRelations_again hrelations⟩

def NormalizedImpact.again (q : NormalizedImpact) : NormalizedImpact :=
  let seeds := boundedImpactSeedPaths q.request.paths q.request.paths
  { q with
    request :=
      { q.request with
        paths := seeds.kept
        omissions := if seeds.overflow then [seedOverflowOmission] else []
        warnings := if seeds.overflow then [seedOverflowWarning] else [] } }

def GraphImpactCursor.request (c : GraphImpactCursor δ) : ImpactRequest δ :=
  { cursor := .decoded c }

theorem normalize_again (h : Normal host q) {r : ImpactRequest δ}
    (hpaths : r.paths = q.request.paths ∧ r.changedPaths = q.request.paths)
    (hmode : r.mode = q.request.mode.text ∧ r.direction = "in")
    (hbudgets : r.depth = q.request.depth ∧ r.limit = q.request.limit ∧
      r.tokenBudget = q.request.tokenBudget)
    (hrelations : r.relations = q.request.relations ∧ r.includeTests = q.includeTests ∧
      r.includeDocs = q.includeDocs) :
    r.normalize host = .ok { q.again with generation := trimSpace r.generation } := by
  obtain ⟨htoken, htoken'⟩ := h.token
  rw [ImpactRequest.normalize, hmode.2, hmode.1, hbudgets.1, hbudgets.2.1, hbudgets.2.2,
    hrelations.1, hrelations.2.1, hrelations.2.2, hpaths.1, hpaths.2, normalizeDirection_in,
    normalizeMode_text, h.depth, h.limit, htoken', h.relations]
  rfl

end Normalize

section Access

variable {host : ImpactRequestHost} {δ : Type} [DecidableEq δ] {digest : ImpactKey → δ}
  {db : ImpactStore} {r : ImpactRequest δ} {a : ImpactAccess} (d : GraphDigest)

theorem hexString_visible : ∀ c ∈ (hexString d).toList, isSpace c = false := by
  have hdigits : ∀ n < 16, isSpace (hexDigit n) = false := by decide
  intro c hc
  rw [hexString, String.toList_ofList, mem_flatMap] at hc
  obtain ⟨b, -, hc⟩ := hc
  have hb := b.toNat_lt
  simp only [mem_cons, not_mem_nil, or_false] at hc
  rcases hc with rfl | rfl
  · exact hdigits _ (by omega)
  · exact hdigits _ (by omega)

theorem hexString_ne_empty : hexString d ≠ "" := by
  intro h
  have hlength := congrArg (·.toList.length) h
  simp [hexString] at hlength

theorem trimSpace_hexString : trimSpace (hexString d) = hexString d := by
  have hdrop : ∀ l : List Char, (∀ c ∈ l, isSpace c = false) → l.dropWhile isSpace = l := by
    intro l hl
    cases l with
    | nil => rfl
    | cons c l => rw [dropWhile_cons_of_neg (by simp [hl c mem_cons_self])]
  have hvisible := hexString_visible d
  rw [trimSpace, hdrop _ hvisible, hdrop _ fun c hc ↦ hvisible c (mem_reverse.mp hc),
    reverse_reverse, String.ofList_toList]

structure Accessible (host : ImpactRequestHost) (db : ImpactStore) (s : ImpactSnapshot)
    (q : NormalizedImpact) : Prop where
  fresh : db.stale = false
  named : db.named (hexString s.generationID) = some s
  generation : q.generation = hexString s.generationID
  normal : Normal host q

variable {s : ImpactSnapshot} {q : NormalizedImpact}

theorem begin_again {generation : String} (h : db.beginGraphQuerySnapshot generation = .ok s) :
    db.stale = false ∧ db.named (hexString s.generationID) = some s := by
  have hgeneration : ∀ id, db.generation id = db.named (hexString id) := by
    intro id
    rw [ImpactStore.generation, ImpactStore.named]
    congr 1
    funext t
    simp only [decide_eq_decide]
    exact ⟨fun heq ↦ congrArg hexString heq, hexString_injective⟩
  rw [ImpactStore.beginGraphQuerySnapshot] at h
  split_ifs at h with hstale hempty
  · obtain ⟨id, -, hid⟩ := Option.bind_eq_some_iff.mp (orElse_eq_ok.mp h)
    have hkey : s.generationID = id := by simpa using find?_some hid
    rw [hkey, ← hgeneration]
    exact ⟨Bool.eq_false_of_not_eq_true hstale, hid⟩
  · have hnamed := orElse_eq_ok.mp h
    have hkey : hexString s.generationID = trimSpace generation := by
      simpa using find?_some hnamed
    rw [hkey]
    exact ⟨Bool.eq_false_of_not_eq_true hstale, hnamed⟩

theorem accessible_of_access (h : r.access host digest db = .ok a) :
    Accessible host db a.snapshot a.query := by
  obtain ⟨cursor, -, h⟩ := bind_eq_ok.mp h
  obtain ⟨resumed, -, h⟩ := bind_eq_ok.mp h
  obtain ⟨q, hq, h⟩ := bind_eq_ok.mp h
  obtain ⟨s, hs, h⟩ := bind_eq_ok.mp h
  obtain ⟨offset, -, h⟩ := bind_eq_ok.mp h
  obtain rfl := pure_eq_ok.mp h
  obtain ⟨hfresh, hnamed⟩ := begin_again hs
  exact ⟨hfresh, hnamed, rfl, { normal_of_normalize hq with }⟩

theorem access_offset (hcursor : r.cursor = .absent) (h : r.access host digest db = .ok a) :
    a.offset = 0 := by
  rw [access, hcursor] at h
  obtain ⟨cursor, hdecode, h⟩ := bind_eq_ok.mp h
  cases hdecode
  obtain ⟨resumed, -, h⟩ := bind_eq_ok.mp h
  obtain ⟨q, -, h⟩ := bind_eq_ok.mp h
  obtain ⟨s, -, h⟩ := bind_eq_ok.mp h
  obtain ⟨offset, hoffset, h⟩ := bind_eq_ok.mp h
  cases hoffset
  obtain rfl := pure_eq_ok.mp h
  rfl

theorem access_cursor (h : Accessible host db s q) (offset : ℕ) :
    (q.cursor digest offset).request.access host digest db =
      (checkCursor digest q.again (some (q.cursor digest offset))).map (⟨s, q.again, ·⟩) := by
  have hlength : ¬maxImpactSeeds < q.request.paths.length := by
    obtain ⟨t, given, hsound, hkept⟩ := h.normal.paths
    rw [← hkept]
    exact Nat.not_lt.mpr hsound.length
  have hdecode : decodeGraphImpactCursor (.decoded (q.cursor digest offset)) =
      .ok (some (q.cursor digest offset)) := by
    refine if_neg ?_
    rintro (hneg | hop | hlong)
    · exact absurd hneg (Int.not_lt.mpr (Int.natCast_nonneg offset))
    · exact hop rfl
    · exact hlength hlong
  have hnormalize := @normalize_again host δ q h.normal
    ((q.cursor digest offset).request.fill (q.cursor digest offset)) ⟨rfl, rfl⟩ ⟨rfl, rfl⟩
    ⟨rfl, rfl, rfl⟩ ⟨rfl, rfl, rfl⟩
  have hgeneration : ((q.cursor digest offset).request.fill (q.cursor digest offset)).generation =
      hexString s.generationID := h.generation
  rw [hgeneration, trimSpace_hexString] at hnormalize
  have hbegin : db.beginGraphQuerySnapshot q.again.generation = .ok s := by
    have hagain : q.again.generation = hexString s.generationID := h.generation
    rw [hagain, ImpactStore.beginGraphQuerySnapshot, h.fresh, trimSpace_hexString,
      if_neg (hexString_ne_empty _), h.named]
    rfl
  have hresume : (q.cursor digest offset).request.resume (some (q.cursor digest offset)) =
      .ok ((q.cursor digest offset).request.fill (q.cursor digest offset)) := by
    rw [resume]
    refine if_neg ?_
    rintro ⟨hne, -⟩
    exact hne rfl
  have hagain : (⟨hexString s.generationID, q.again.includeTests, q.again.includeDocs,
      q.again.request⟩ : NormalizedImpact) = q.again := by
    rw [← h.generation]
    rfl
  have hcursor : (q.cursor digest offset).request.cursor = .decoded (q.cursor digest offset) := rfl
  rw [access, hcursor, hdecode]
  simp only [bind, Except.bind, hresume, hnormalize, hbegin, hagain]
  cases checkCursor digest q.again (some (q.cursor digest offset)) <;> rfl

theorem key_again_iff (h : Normal host q) : q.again.key = q.key ↔ Settled q.request.paths := by
  obtain ⟨t, given, hsound, hkept⟩ := h.paths
  rw [← hkept, ← bounded_again_iff hsound, hkept]
  constructor
  · exact congrArg ImpactKey.paths
  · intro hpaths
    exact congrArg (fun paths ↦ ({ q.key with paths } : ImpactKey)) hpaths

theorem access_settled (h : Accessible host db s q)
    (hsettled : Settled q.request.paths) (offset : ℕ) :
    (q.cursor digest offset).request.access host digest db = .ok ⟨s, q.again, offset⟩ := by
  have hkey := (key_again_iff h.normal).mpr hsettled
  have hcheck : checkCursor digest q.again (some (q.cursor digest offset)) = .ok offset := by
    refine if_neg ?_
    rintro (hne | hne)
    · exact hne rfl
    · exact hne (congrArg digest hkey).symm
  rw [access_cursor h, hcheck]
  rfl

theorem access_unsettled (h : Accessible host db s q)
    (hdigest : digest.Injective) (hsettled : ¬Settled q.request.paths) (offset : ℕ) :
    (q.cursor digest offset).request.access host digest db =
      .error (.cursorStale "impact cursor parameters do not match request") := by
  have hcheck : checkCursor digest q.again (some (q.cursor digest offset)) =
      .error (.cursorStale "impact cursor parameters do not match request") := by
    refine if_pos (.inr ?_)
    intro heq
    exact hsettled ((key_again_iff h.normal).mp (hdigest heq).symm)
  rw [access_cursor h, hcheck]
  rfl

end Access

section Rows

variable {host : ImpactHost} {s : ImpactSnapshot} {q q' : GraphImpactRequest}

def impactFound (host : ImpactHost) (s : ImpactSnapshot) (q : GraphImpactRequest) :
    Except GraphQueryError (List GraphImpactItem × List GraphImpactItem) :=
  let seeds := (s.resolveImpactSeeds q.paths maxImpactSeeds).nodes
  if seeds = [] then .ok ([], [])
  else ((impactStart seeds).levels host s q q.maxDepth 1).map fun found ↦
    (sortImpactItems host found.1.primary, sortImpactItems host found.1.inferred)

variable {offset : ℕ}

theorem graphImpact_eq_ok {found : List GraphImpactItem × List GraphImpactItem}
    (h : impactFound host s q = .ok found) :
    ∃ env, graphImpact host s q offset = .ok env ∧
      env.items = (applyImpactBudget host q found.1 found.2 offset).primary ∧
      env.inferred = (applyImpactBudget host q found.1 found.2 offset).inferred ∧
      env.continuation = if (applyImpactBudget host q found.1 found.2 offset).truncated then
        some (applyImpactBudget host q found.1 found.2 offset).nextOffset else none := by
  rw [impactFound] at h
  by_cases hseeds : (s.resolveImpactSeeds q.paths maxImpactSeeds).nodes = []
  · rw [if_pos hseeds] at h
    cases h
    rw [graphImpact]
    rw [if_pos hseeds]
    refine ⟨_, rfl, ?_, ?_, ?_⟩
    · simp [applyImpactBudget, admitImpact]
    · simp [applyImpactBudget, admitImpact]
    · simp [applyImpactBudget, admitImpact]
  · rw [if_neg hseeds] at h
    cases hrun : (impactStart (s.resolveImpactSeeds q.paths maxImpactSeeds).nodes).levels host s q
        q.maxDepth 1 with
    | error e =>
      rw [hrun] at h
      cases h
    | ok levels =>
      rw [hrun] at h
      cases h
      rw [graphImpact]
      dsimp only
      rw [if_neg hseeds, hrun]
      exact ⟨_, rfl, rfl, rfl, rfl⟩

structure SameSearch (q q' : GraphImpactRequest) : Prop where
  paths : q.paths = q'.paths
  mode : q.mode = q'.mode
  depth : q.depth = q'.depth
  limit : q.limit = q'.limit
  tokenBudget : q.tokenBudget = q'.tokenBudget
  relations : q.relations = q'.relations

theorem sameSearch_of_key {a b : NormalizedImpact} (h : a.key = b.key) :
    SameSearch a.request b.request where
  paths := congrArg ImpactKey.paths h
  mode := congrArg ImpactKey.mode h
  depth := congrArg ImpactKey.depth h
  limit := congrArg ImpactKey.limit h
  tokenBudget := congrArg ImpactKey.tokenBudget h
  relations := congrArg ImpactKey.relations h

theorem SameSearch.levels (h : SameSearch q q') (n depth : ℕ) (t : ImpactSearch) :
    t.levels host s q n depth = t.levels host s q' n depth := by
  have hlevel : ∀ depth (t : ImpactSearch), t.level host s q depth = t.level host s q' depth := by
    intro depth t
    rw [ImpactSearch.level, ImpactSearch.level, ImpactSearch.primaryEdges,
      ImpactSearch.primaryEdges, ImpactSearch.inferredEdges, ImpactSearch.inferredEdges,
      h.relations, h.limit]
  induction n generalizing depth t with
  | zero => rfl
  | succ n ih => simp only [ImpactSearch.levels, hlevel, h.mode, ih]

theorem SameSearch.found (h : SameSearch q q') : impactFound host s q = impactFound host s q' := by
  have hdepth : q.maxDepth = q'.maxDepth := by
    rw [GraphImpactRequest.maxDepth, GraphImpactRequest.maxDepth, h.mode, h.depth]
  simp only [impactFound, h.paths, h.levels, hdepth]

def pageRows (host : ImpactHost) (q : GraphImpactRequest) (items : List GraphImpactItem)
    (offset : ℕ) : List GraphImpactItem :=
  (admitImpact host q 0 0 (items.drop offset)).1

theorem applyImpactBudget_rows {primary inferred : List GraphImpactItem}
    (hoffset : offset ≤ (primary ++ inferred).length) :
    (applyImpactBudget host q primary inferred offset).primary ++
        (applyImpactBudget host q primary inferred offset).inferred =
      pageRows host q (primary ++ inferred) offset ∧
    (applyImpactBudget host q primary inferred offset).nextOffset =
      offset + (pageRows host q (primary ++ inferred) offset).length ∧
    ((applyImpactBudget host q primary inferred offset).truncated = true ↔
      offset + (pageRows host q (primary ++ inferred) offset).length <
        (primary ++ inferred).length) := by
  simp only [applyImpactBudget, Nat.min_eq_left hoffset, take_append_drop, decide_eq_true_eq]
  exact ⟨rfl, rfl, Iff.rfl⟩

variable (items : List GraphImpactItem)

theorem pageRows_eq_take (offset : ℕ) : pageRows host q items offset =
      (items.drop offset).take (pageRows host q items offset).length := by
  obtain ⟨n, hn⟩ := @admitImpact_eq host q 0 0 (items.drop offset)
  rw [pageRows, hn, length_take]
  exact take_eq_take_min

theorem pageRows_ne_nil {items : List GraphImpactItem} (h : offset < items.length) :
    pageRows host q items offset ≠ [] := by
  have hlimit := q.limit_pos
  obtain ⟨item, rest, hcons⟩ := exists_cons_of_ne_nil
    (ne_nil_of_length_pos (by rw [length_drop]; omega) : items.drop offset ≠ [])
  rw [pageRows, hcons, admitImpact]
  rw [if_neg (by omega)]
  exact cons_ne_nil _ _

def itemUnits (host : ImpactHost) (item : GraphImpactItem) : ℕ := (host.jsonSize item + 3) / 4

def FitsOnePage (host : ImpactHost) (q : GraphImpactRequest) (items : List GraphImpactItem) :
    Prop :=
  items.length ≤ 1 ∨
    items.length ≤ q.limit ∧ (items.map (itemUnits host)).sum ≤ q.tokenBudget

instance (host : ImpactHost) (q : GraphImpactRequest) (items : List GraphImpactItem) :
    Decidable (FitsOnePage host q items) :=
  inferInstanceAs (Decidable (_ ∨ _ ∧ _))

theorem admitImpact_all_iff {count units : ℕ} (hcount : 0 < count) (items : List GraphImpactItem) :
    (admitImpact host q count units items).1.length = items.length ↔
      items = [] ∨ count + items.length ≤ q.limit ∧
        units + (items.map (itemUnits host)).sum ≤ q.tokenBudget := by
  induction items generalizing count units with
  | nil => simp [admitImpact]
  | cons item rest ih =>
    rw [admitImpact]
    split_ifs with hstop
    · have hover : ¬(count + (rest.length + 1) ≤ q.limit ∧
          units + (itemUnits host item + (rest.map (itemUnits host)).sum) ≤ q.tokenBudget) := by
        rw [itemUnits]
        omega
      simpa using hover
    · rw [not_or, not_and] at hstop
      have hunits : units + itemUnits host item ≤ q.tokenBudget :=
        Nat.not_lt.mp fun hlt ↦ hstop.2 hlt hcount
      rw [length_cons, length_cons, Nat.add_right_cancel_iff, ih (Nat.succ_pos count),
        map_cons, sum_cons]
      rw [itemUnits] at hunits ⊢
      constructor
      · rintro (rfl | ⟨hlength, hsum⟩)
        · refine .inr ⟨?_, ?_⟩
          · rw [length_nil]
            omega
          · rw [map_nil, sum_nil]
            omega
        · exact .inr ⟨by omega, by omega⟩
      · rintro (hnil | ⟨hlength, hsum⟩)
        · cases hnil
        · exact .inr ⟨by omega, by omega⟩

theorem pageRows_all_iff :
    (pageRows host q items 0).length = items.length ↔ FitsOnePage host q items := by
  have hlimit := q.limit_pos
  rw [pageRows, drop_zero, FitsOnePage]
  cases items with
  | nil => simp [admitImpact]
  | cons item rest =>
    rw [admitImpact]
    rw [if_neg (by omega), length_cons, length_cons, Nat.add_right_cancel_iff,
      admitImpact_all_iff Nat.one_pos, map_cons, sum_cons, ← length_eq_zero_iff,
      itemUnits]
    omega

end Rows

section Pages

variable (host : ImpactRequestHost) {δ : Type} [DecidableEq δ] (digest : ImpactKey → δ)
  (db : ImpactStore)

def impactPage (_ : ℕ) (r : ImpactRequest δ) : Page (ImpactRequest δ) GraphImpactItem :=
  match graphImpactRequest host digest db r with
  | .ok answer =>
    ⟨answer.envelope.items ++ answer.envelope.inferred, answer.next.map GraphImpactCursor.request⟩
  | .error _ => ⟨[], none⟩

/-- The emitted cursors are accepted and give the items once and in order, and no cut page is empty.
-/
structure PagesPartition (r : ImpactRequest δ) (items : List GraphImpactItem) : Prop where
  accepted : ∀ k r', Reached (impactPage host digest db) r k r' →
    ∃ answer, graphImpactRequest host digest db r' = .ok answer ∧
      (answer.next ≠ none → answer.envelope.items ++ answer.envelope.inferred ≠ [])
  whole : Finishes (impactPage host digest db) 0 r items

def ImpactRequest.offset (r : ImpactRequest δ) : ℕ :=
  match r.cursor with
  | .decoded c => c.offset.toNat
  | _ => 0

structure Resumes (a : ImpactAccess) (items : List GraphImpactItem) (r : ImpactRequest δ)
    (b : ImpactAccess) : Prop where
  access : r.access host digest db = .ok b
  snapshot : b.snapshot = a.snapshot
  key : b.query.key = a.query.key
  offset : b.offset = r.offset
  offset_le : b.offset ≤ items.length

variable {host digest db} {r : ImpactRequest δ} {a : ImpactAccess}
  {found : List GraphImpactItem × List GraphImpactItem}

def Cuts (host : ImpactRequestHost) (digest : ImpactKey → δ) (q : NormalizedImpact)
    (items : List GraphImpactItem) (offset : ℕ) (answer : ImpactAnswer δ) : Prop :=
  let rows := pageRows host.toImpactHost q.request items offset
  answer.envelope.items ++ answer.envelope.inferred = rows ∧
    answer.next = if offset + rows.length < items.length then
      some (q.cursor digest (offset + rows.length)) else none

theorem graphImpactRequest_eq_ok (h : r.access host digest db = .ok a)
    (hfound : impactFound host.toImpactHost a.snapshot a.query.request = .ok found)
    (hoffset : a.offset ≤ (found.1 ++ found.2).length) :
    ∃ answer, graphImpactRequest host digest db r = .ok answer ∧
      Cuts host digest a.query (found.1 ++ found.2) a.offset answer := by
  obtain ⟨env, henv, hitems, hinferred, hnext⟩ := @graphImpact_eq_ok _ _ _ a.offset _ hfound
  obtain ⟨hrows, hnextOffset, htruncated⟩ :=
    @applyImpactBudget_rows host.toImpactHost a.query.request _ _ _ hoffset
  refine ⟨⟨env, env.continuation.map (a.query.cursor digest)⟩, ?_, ?_, ?_⟩
  · rw [graphImpactRequest, h]
    simp only [bind, Except.bind, henv]
    rfl
  · dsimp only
    rw [hitems, hinferred, hrows]
  · dsimp only
    rw [hnext, hnextOffset]
    by_cases hcut : a.offset + (pageRows host.toImpactHost a.query.request (found.1 ++ found.2)
        a.offset).length < (found.1 ++ found.2).length
    · rw [if_pos hcut, if_pos (htruncated.mpr hcut)]
      rfl
    · rw [if_neg hcut, if_neg (mt htruncated.mp hcut)]
      rfl

theorem impactPage_eq_ok {answer : ImpactAnswer δ} {k : ℕ}
    (h : graphImpactRequest host digest db r = .ok answer) :
    impactPage host digest db k r = ⟨answer.envelope.items ++ answer.envelope.inferred,
      answer.next.map GraphImpactCursor.request⟩ := by
  rw [impactPage, h]

theorem Resumes.answer {b : ImpactAccess} (h : Resumes host digest db a (found.1 ++ found.2) r b)
    (hfound : impactFound host.toImpactHost a.snapshot a.query.request = .ok found) :
    ∃ answer, graphImpactRequest host digest db r = .ok answer ∧
      Cuts host digest b.query (found.1 ++ found.2) r.offset answer := by
  rw [← h.offset]
  refine graphImpactRequest_eq_ok h.access ?_ h.offset_le
  rw [h.snapshot, (sameSearch_of_key h.key).found, hfound]

section

variable (hcursor : r.cursor = .absent) (h : r.access host digest db = .ok a)
  (hfound : impactFound host.toImpactHost a.snapshot a.query.request = .ok found)
include hcursor h hfound

theorem first_answer : ∃ answer, graphImpactRequest host digest db r = .ok answer ∧
    Cuts host digest a.query (found.1 ++ found.2) 0 answer := by
  have hzero := access_offset hcursor h
  rw [← hzero]
  exact graphImpactRequest_eq_ok h hfound (hzero ▸ Nat.zero_le _)

theorem resumes_of_reached (hsettled : Settled a.query.request.paths) {k : ℕ} {r' : ImpactRequest δ}
    (hreached : Reached (impactPage host digest db) r k r') :
    ∃ b, Resumes host digest db a (found.1 ++ found.2) r' b := by
  induction hreached with
  | start =>
    have hoffset : r.offset = 0 := by
      rw [offset, hcursor]
    have hzero := access_offset hcursor h
    exact ⟨a, h, rfl, rfl, by rw [hzero, hoffset], by rw [hzero]; exact Nat.zero_le _⟩
  | @next k c d _ hnext ih =>
    obtain ⟨b, hb⟩ := ih
    obtain ⟨answer, hanswer, -, hanswerNext⟩ := hb.answer hfound
    rw [impactPage_eq_ok hanswer] at hnext
    rw [hanswerNext] at hnext
    split_ifs at hnext with hcut
    · rw [Option.map_some, Option.some_inj] at hnext
      have hpaths : b.query.request.paths = a.query.request.paths :=
        congrArg ImpactKey.paths hb.key
      have haccessible := accessible_of_access hb.access
      rw [← hpaths] at hsettled
      have hagain := (key_again_iff haccessible.normal).mpr hsettled
      rw [← hnext]
      exact ⟨_, access_settled haccessible hsettled _, hb.snapshot, hagain.trans hb.key, rfl,
        hcut.le⟩
    · cases hnext

theorem partition_of_settled (hsettled : Settled a.query.request.paths) :
    PagesPartition host digest db r (found.1 ++ found.2) := by
  have hresumes := fun {k r'} ↦ @resumes_of_reached _ _ _ _ _ _ _ _ hcursor h hfound hsettled k r'
  constructor
  · intro k r' hreached
    obtain ⟨b, hb⟩ := hresumes hreached
    obtain ⟨answer, hanswer, hrows, hnext⟩ := hb.answer hfound
    refine ⟨answer, hanswer, ?_⟩
    intro hmore
    rw [hrows]
    refine pageRows_ne_nil ?_
    rw [hnext] at hmore
    split_ifs at hmore with hcut
    · omega
    · exact absurd rfl hmore
  · have hoffset : r.offset = 0 := by
      rw [offset, hcursor]
    have hfinishes : ∃ rows, Finishes (impactPage host digest db) 0 r rows ∧
        List.Forall₂ Eq ((found.1 ++ found.2).drop r.offset) rows := by
      refine finishes_of_segments offset (fun k r' hreached ↦ ?_) .start
      obtain ⟨b, hb⟩ := hresumes hreached
      obtain ⟨answer, hanswer, hpage, hnext⟩ := hb.answer hfound
      rw [impactPage_eq_ok hanswer]
      refine ⟨(pageRows host.toImpactHost b.query.request (found.1 ++ found.2) r'.offset).length,
        ?_, ?_, ?_⟩
      · rw [hpage, ← pageRows_eq_take, forall₂_eq_eq_eq]
      · intro hnone
        rw [hnext] at hnone
        split_ifs at hnone with hcut
        · cases hnone
        · exact Nat.not_lt.mp hcut
      · intro d hd
        rw [hnext] at hd
        split_ifs at hd with hcut
        · rw [Option.map_some, Option.some_inj] at hd
          rw [← hd]
          have hne := @pageRows_ne_nil host.toImpactHost b.query.request r'.offset
            (found.1 ++ found.2) (by omega)
          exact ⟨rfl, length_pos_iff.mpr hne, hcut.le⟩
        · cases hd
    obtain ⟨rows, hrows, heq⟩ := hfinishes
    rw [hoffset, drop_zero, forall₂_eq_eq_eq] at heq
    rwa [heq]

theorem partition_of_fits
    (hfits : FitsOnePage host.toImpactHost a.query.request (found.1 ++ found.2)) :
    PagesPartition host digest db r (found.1 ++ found.2) := by
  obtain ⟨first, hfirst, hrows, hnext⟩ := first_answer hcursor h hfound
  have hall := (pageRows_all_iff _).mpr hfits
  rw [if_neg (by omega)] at hnext
  rw [pageRows_eq_take, hall, drop_zero, take_length] at hrows
  have hpage : ∀ k, impactPage host digest db k r = ⟨found.1 ++ found.2, none⟩ := by
    intro k
    rw [impactPage_eq_ok hfirst, hrows, hnext]
    rfl
  constructor
  · intro k r' hreached
    rw [hreached.eq_start fun k ↦ by rw [hpage]]
    exact ⟨first, hfirst, fun hmore ↦ absurd hnext hmore⟩
  · have hlast : Finishes (impactPage host digest db) 0 r (impactPage host digest db 0 r).rows :=
      .last (by rw [hpage])
    rwa [hpage] at hlast

theorem settled_of_partition (hdigest : digest.Injective)
    (hpages : PagesPartition host digest db r (found.1 ++ found.2))
    (hfits : ¬FitsOnePage host.toImpactHost a.query.request (found.1 ++ found.2)) :
    Settled a.query.request.paths := by
  by_contra hsettled
  obtain ⟨first, hfirst, -, hnext⟩ := first_answer hcursor h hfound
  have hcut : (pageRows host.toImpactHost a.query.request (found.1 ++ found.2) 0).length <
      (found.1 ++ found.2).length := by
    have htake := congrArg List.length (@pageRows_eq_take host.toImpactHost a.query.request
      (found.1 ++ found.2) 0)
    rw [← pageRows_all_iff] at hfits
    rw [length_take, drop_zero] at htake
    omega
  rw [Nat.zero_add, if_pos hcut] at hnext
  have hreached : Reached (impactPage host digest db) r 1 (a.query.cursor digest (pageRows
      host.toImpactHost a.query.request (found.1 ++ found.2) 0).length).request := by
    refine .next .start ?_
    rw [impactPage_eq_ok hfirst, hnext]
    rfl
  obtain ⟨answer, hanswer, -⟩ := hpages.accepted 1 _ hreached
  rw [graphImpactRequest, access_unsettled (accessible_of_access h) hdigest hsettled] at hanswer
  cases hanswer

end

/-- The cursors partition what is found just if the first page holds it all or normalizing the paths
again changes none. -/
theorem impact_pages_partition_iff (hdigest : digest.Injective) (hcursor : r.cursor = .absent)
    (h : r.access host digest db = .ok a)
    (hfound : impactFound host.toImpactHost a.snapshot a.query.request = .ok found) :
    PagesPartition host digest db r (found.1 ++ found.2) ↔
      FitsOnePage host.toImpactHost a.query.request (found.1 ++ found.2) ∨
        Settled a.query.request.paths := by
  constructor
  · intro hpages
    by_cases hfits : FitsOnePage host.toImpactHost a.query.request (found.1 ++ found.2)
    · exact .inl hfits
    · exact .inr (settled_of_partition hcursor h hfound hdigest hpages hfits)
  · rintro (hfits | hsettled)
    · exact partition_of_fits hcursor h hfound hfits
    · exact partition_of_settled hcursor h hfound hsettled

end Pages

section Sample

def sampleRequestHost : ImpactRequestHost where
  toImpactHost := sampleImpactHost
  toLower_toLower := fun _ ↦ rfl
  trimSpace_toLower := fun _ ↦ rfl
  toLower_plain := fun _ _ ↦ rfl

def sampleImpactStore : ImpactStore where
  stale := false
  active := some zeroDigest
  generations := [sampleCallers]

def callersOf (path : String) : ImpactRequest ImpactKey where
  paths := [path]
  tokenBudget := 100

def severalPages (path : String) (settled : Bool) : Bool :=
  ((callersOf path).access sampleRequestHost id sampleImpactStore).toOption.any fun a ↦
    (impactFound sampleImpactHost a.snapshot a.query.request).toOption.any fun found ↦
      decide (¬FitsOnePage sampleImpactHost a.query.request (found.1 ++ found.2)) &&
        decide (Settled a.query.request.paths) = settled

theorem exists_of_severalPages {path : String} {settled : Bool}
    (h : severalPages path settled = true) :
    ∃ a found, (callersOf path).access sampleRequestHost id sampleImpactStore = .ok a ∧
      impactFound sampleImpactHost a.snapshot a.query.request = .ok found ∧
      ¬FitsOnePage sampleImpactHost a.query.request (found.1 ++ found.2) ∧
      (Settled a.query.request.paths ↔ settled = true) := by
  obtain ⟨a, ha, h⟩ := any_toOption.mp h
  obtain ⟨found, hfound, h⟩ := any_toOption.mp h
  rw [Bool.and_eq_true, decide_eq_true_eq, decide_eq_true_eq] at h
  refine ⟨a, found, ha, hfound, h.1, ?_⟩
  rw [← h.2, decide_eq_true_eq]

theorem callers_pages_partition :
    ∃ a found, (callersOf "a.go").access sampleRequestHost id sampleImpactStore = .ok a ∧
      impactFound sampleImpactHost a.snapshot a.query.request = .ok found ∧
      PagesPartition sampleRequestHost id sampleImpactStore (callersOf "a.go")
        (found.1 ++ found.2) := by
  obtain ⟨a, found, ha, hfound, -, hsettled⟩ :=
    @exists_of_severalPages "a.go" true (by decide +kernel)
  exact ⟨a, found, ha, hfound, (impact_pages_partition_iff Function.injective_id rfl ha hfound).mpr
    (.inr (hsettled.mpr rfl))⟩

/-- The same callers asked for as `././a.go`: the cursor of the first page is refused. -/
theorem dotted_path_cursor_refused :
    ∃ a found, (callersOf "././a.go").access sampleRequestHost id sampleImpactStore = .ok a ∧
      impactFound sampleImpactHost a.snapshot a.query.request = .ok found ∧
      ¬PagesPartition sampleRequestHost id sampleImpactStore (callersOf "././a.go")
        (found.1 ++ found.2) := by
  obtain ⟨a, found, ha, hfound, hfits, hsettled⟩ :=
    @exists_of_severalPages "././a.go" false (by decide +kernel)
  refine ⟨a, found, ha, hfound, ?_⟩
  intro hpages
  have := hsettled.mp (settled_of_partition rfl ha hfound Function.injective_id hpages hfits)
  cases this

end Sample

end MiLsp.Query
