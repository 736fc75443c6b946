import MiLsp.Library.Search
import Mathlib.Data.List.Sort
import Mathlib.Data.String.Basic

namespace MiLsp.Graph

open Library.Search List

/-- Nodes and edges of the ranking; `ids` and `adj` have the orders in which the maps are walked. -/
structure NodeMap where
  ids : List ℤ
  nodeKey : ℤ → String
  adj : ℤ → List ℤ

/-- The encoding of the sorted keys, its hash and the prefix of that are `digest`. -/
def communityID (digest : List String → String) (nodeKeys : List String) : String :=
  digest (nodeKeys.insertionSort (· ≤ ·))

namespace NodeMap

section

variable (g : NodeMap)

def sortByKey (ids : List ℤ) : List ℤ := ids.insertionSort fun a b ↦ g.nodeKey a ≤ g.nodeKey b

def neighbors (id : ℤ) : List ℤ := g.sortByKey (g.adj id)

variable (digest : List String → String)

def visit (state : List ℤ × (ℤ → Option String)) (start : ℤ) : List ℤ × (ℤ → Option String) :=
  let (visited, result) := state
  if start ∈ visited then state
  else
    let (visited, members) := search g.neighbors g.ids.length [start] (visited ++ [start]) []
    let community := communityID digest (members.map g.nodeKey)
    (visited, fun id ↦ if id ∈ members then some community else result id)

def deterministicCommunities : ℤ → Option String :=
  ((g.sortByKey g.ids).foldl (g.visit digest) ([], fun _ ↦ none)).2

structure WellFormed : Prop where
  nodup : g.ids.Nodup
  distinct : ∀ a ∈ g.ids, ∀ b ∈ g.ids, g.nodeKey a = g.nodeKey b → a = b
  within : ∀ a b, b ∈ g.adj a → b ∈ g.ids
  symm : ∀ a b, b ∈ g.adj a → a ∈ g.adj b

def Connected : ℤ → ℤ → Prop := Reaches g.adj

def IsComponent (a : ℤ) (keys : List String) : Prop :=
  keys.Nodup ∧ ∀ key, key ∈ keys ↔ ∃ b, g.Connected a b ∧ g.nodeKey b = key

/-- Components with different keys have different ids. -/
def Separates : Prop :=
  ∀ a ∈ g.ids, ∀ b ∈ g.ids, ∀ keys keys', g.IsComponent a keys → g.IsComponent b keys' →
    communityID digest keys = communityID digest keys' → keys.Perm keys'

structure Labelled (digest : List String → String)
    (state : List ℤ × (ℤ → Option String)) : Prop where
  nodup : state.1.Nodup
  closed : ∀ a ∈ state.1, g.adj a ⊆ state.1
  labels : ∀ a ∈ state.1, ∃ keys, g.IsComponent a keys ∧
    state.2 a = some (communityID digest keys)

/-- The same graph, with `σ a` for the id `a`. -/
structure Renumbered (g' : NodeMap) (σ : ℤ → ℤ) : Prop where
  wellFormed : g'.WellFormed
  ids : ∀ i, i ∈ g'.ids ↔ ∃ a ∈ g.ids, σ a = i
  nodeKey : ∀ a ∈ g.ids, g'.nodeKey (σ a) = g.nodeKey a
  adj : ∀ a ∈ g.ids, ∀ b ∈ g.ids, σ b ∈ g'.adj (σ a) ↔ b ∈ g.adj a

end

section

variable {g : NodeMap} {a b : ℤ} {digest : List String → String} {keys keys' : List String}
  {state : List ℤ × (ℤ → Option String)}

theorem reaches_neighbors : Reaches g.neighbors = g.Connected := by
  have hnext : (fun a b ↦ b ∈ g.neighbors a) = fun a b ↦ b ∈ g.adj a := by
    funext a b
    exact propext (mem_insertionSort _)
  rw [Connected, Reaches, Reaches, hnext]

theorem communityID_perm (h : keys.Perm keys') :
    communityID digest keys = communityID digest keys' := by
  have hsorted : (keys.insertionSort (· ≤ ·)).Perm (keys'.insertionSort (· ≤ ·)) :=
    ((perm_insertionSort _ _).trans h).trans (perm_insertionSort _ _).symm
  have hpairwise := pairwise_insertionSort (α := String) (· ≤ ·)
  rw [communityID, hsorted.eq_of_pairwise' (hpairwise keys) (hpairwise keys'), communityID]

theorem IsComponent.perm (h : g.IsComponent a keys) (h' : g.IsComponent a keys') :
    keys.Perm keys' := by
  refine (perm_ext_iff_of_nodup h.1 h'.1).mpr fun key ↦ ?_
  rw [h.2, h'.2]

variable (hg : g.WellFormed)
include hg

theorem Connected.symm (h : g.Connected a b) : g.Connected b a := by
  induction h with
  | refl => exact .refl
  | tail _ hadj ih => exact .head (hg.symm _ _ hadj) ih

theorem Connected.mem (ha : a ∈ g.ids) (h : g.Connected a b) : b ∈ g.ids := by
  induction h with
  | refl => exact ha
  | tail _ hadj _ => exact hg.within _ _ hadj

theorem IsComponent.connected (h : g.IsComponent a keys) (hab : g.Connected a b) :
    g.IsComponent b keys := by
  refine ⟨h.1, fun key ↦ (h.2 key).trans (exists_congr fun c ↦ and_congr_left fun _ ↦ ?_)⟩
  exact ⟨(hab.symm hg).trans, hab.trans⟩

theorem labelled_visit {start : ℤ} (h : g.Labelled digest state) (hstart : start ∈ g.ids) :
    g.Labelled digest (g.visit digest state start) ∧ state.1 ⊆ (g.visit digest state start).1 ∧
      start ∈ (g.visit digest state start).1 := by
  obtain ⟨visited, result⟩ := state
  rw [visit]
  dsimp only
  split_ifs with hvisited
  · exact ⟨h, Subset.refl _, hvisited⟩
  · have hadj (a b : ℤ) : b ∈ g.neighbors a ↔ b ∈ g.adj a := mem_insertionSort _
    obtain ⟨members, heq, hnodup, hmem⟩ := @search_component _ _ g.neighbors start visited g.ids
      (fun a b ↦ by simpa only [hadj] using hg.symm a b)
      (fun a ha b hb ↦ h.closed a ha ((hadj a b).mp hb)) h.nodup hvisited
      (fun a ha ↦ (reaches_neighbors ▸ ha).mem hg hstart)
    rw [reaches_neighbors] at hmem
    have hkeys : g.IsComponent start (members.map g.nodeKey) := by
      refine ⟨(nodup_append.mp hnodup).2.1.map_on fun b hb c hc ↦ ?_, fun key ↦ ?_⟩
      · exact hg.distinct b (((hmem b).mp hb).mem hg hstart) c (((hmem c).mp hc).mem hg hstart)
      · simp only [mem_map, hmem]
    rw [heq]
    refine ⟨⟨hnodup, ?_, ?_⟩, subset_append_left .., mem_append_right _ ((hmem start).mpr .refl)⟩
    · intro a ha b hb
      rcases mem_append.mp ha with ha | ha
      · exact mem_append_left _ (h.closed a ha hb)
      · exact mem_append_right _ ((hmem b).mpr (((hmem a).mp ha).tail hb))
    · intro a ha
      dsimp only
      split_ifs with hnew
      · exact ⟨_, hkeys.connected hg ((hmem a).mp hnew), rfl⟩
      · exact h.labels a ((mem_append.mp ha).resolve_right hnew)

theorem labelled_run (h : g.Labelled digest state) {starts : List ℤ} (hstarts : starts ⊆ g.ids) :
    g.Labelled digest (starts.foldl (g.visit digest) state) ∧
      state.1 ++ starts ⊆ (starts.foldl (g.visit digest) state).1 := by
  induction starts generalizing state with
  | nil => exact ⟨h, by simp⟩
  | cons start starts ih =>
    obtain ⟨hstart, hrest⟩ := cons_subset.mp hstarts
    obtain ⟨hvisit, hkept, hnew⟩ := labelled_visit hg h hstart
    obtain ⟨hrun, hsub⟩ := ih hvisit hrest
    obtain ⟨hvisited, hothers⟩ := append_subset.mp hsub
    refine ⟨hrun, append_subset.mpr ⟨Subset.trans hkept hvisited, ?_⟩⟩
    exact cons_subset.mpr ⟨hvisited hnew, hothers⟩

theorem deterministicCommunities_eq (ha : a ∈ g.ids) : ∃ keys, g.IsComponent a keys ∧
    g.deterministicCommunities digest a = some (communityID digest keys) := by
  have hfirst : g.Labelled digest ([], fun _ ↦ none) := ⟨nodup_nil, nofun, nofun⟩
  have hids := perm_insertionSort (fun a b ↦ g.nodeKey a ≤ g.nodeKey b) g.ids
  obtain ⟨hrun, hsub⟩ := labelled_run hg hfirst hids.subset
  exact hrun.labels a (hsub (hids.mem_iff.mpr ha))

theorem Renumbered.isComponent {g' : NodeMap} {σ : ℤ → ℤ} (h : g.Renumbered g' σ)
    (ha : a ∈ g.ids) (hkeys : g.IsComponent a keys) : g'.IsComponent (σ a) keys := by
  refine ⟨hkeys.1, fun key ↦ (hkeys.2 key).trans ⟨?_, ?_⟩⟩
  · rintro ⟨b, hb, rfl⟩
    refine ⟨σ b, hb.lift σ fun c d hadj ↦ ?_, h.nodeKey b (hb.mem hg ha)⟩
    exact (h.adj c (hg.within d c (hg.symm c d hadj)) d (hg.within c d hadj)).mpr hadj
  · rintro ⟨i, hi, rfl⟩
    have hback : ∃ b ∈ g.ids, σ b = i ∧ g.Connected a b := by
      induction hi with
      | refl => exact ⟨a, ha, rfl, .refl⟩
      | tail _ hadj ih =>
        obtain ⟨b, hb, rfl, hab⟩ := ih
        obtain ⟨c, hc, rfl⟩ := (h.ids _).mp (h.wellFormed.within _ _ hadj)
        exact ⟨c, hc, rfl, hab.tail ((h.adj b hb c hc).mp hadj)⟩
    obtain ⟨b, hb, rfl, hab⟩ := hback
    exact ⟨b, hab, (h.nodeKey b hb).symm⟩

end

theorem deterministicCommunities_components (digest : List String → String) (g : NodeMap)
    (hg : g.WellFormed) :
    (∀ a ∈ g.ids, (g.deterministicCommunities digest a).isSome) ∧
      (g.Separates digest → ∀ a ∈ g.ids, ∀ b ∈ g.ids,
        g.deterministicCommunities digest a = g.deterministicCommunities digest b ↔
          g.Connected a b) ∧
      ∀ g' σ, g.Renumbered g' σ → ∀ a ∈ g.ids,
        g'.deterministicCommunities digest (σ a) = g.deterministicCommunities digest a := by
  refine ⟨fun a ha ↦ ?_, fun hdigest a ha b hb ↦ ?_, fun g' σ h a ha ↦ ?_⟩
  · obtain ⟨keys, -, heq⟩ := deterministicCommunities_eq hg ha
    exact Option.isSome_of_eq_some heq
  · obtain ⟨keys, hkeys, heq⟩ := deterministicCommunities_eq hg ha
    obtain ⟨keys', hkeys', heq'⟩ := deterministicCommunities_eq hg hb
    rw [heq, heq']
    constructor
    · intro hsame
      have hperm := hdigest a ha b hb keys keys' hkeys hkeys' (Option.some.inj hsame)
      have hkey := hperm.mem_iff.mp ((hkeys.2 _).mpr ⟨a, .refl, rfl⟩)
      obtain ⟨c, hc, hca⟩ := (hkeys'.2 _).mp hkey
      rw [hg.distinct c (hc.mem hg hb) a ha hca] at hc
      exact hc.symm hg
    · intro hab
      rw [communityID_perm ((hkeys.connected hg hab).perm hkeys')]
  · obtain ⟨keys, hkeys, heq⟩ := deterministicCommunities_eq hg ha
    obtain ⟨keys', hkeys', heq'⟩ := deterministicCommunities_eq h.wellFormed
      ((h.ids _).mpr ⟨a, ha, rfl⟩)
    rw [heq, heq', communityID_perm (hkeys'.perm (h.isComponent hg ha hkeys))]

def leastKey (keys : List String) : String := keys.head?.getD ""

theorem leastKey_mem {g : NodeMap} {a : ℤ} {keys : List String} (h : g.IsComponent a keys) :
    communityID leastKey keys ∈ keys := by
  have hmem : g.nodeKey a ∈ keys.insertionSort (· ≤ ·) :=
    (perm_insertionSort _ _).mem_iff.mpr ((h.2 _).mpr ⟨a, .refl, rfl⟩)
  rw [← (perm_insertionSort (· ≤ ·) keys).mem_iff, communityID, leastKey]
  cases hsorted : keys.insertionSort (· ≤ ·) with
  | nil =>
    rw [hsorted] at hmem
    cases hmem
  | cons key rest => exact mem_cons_self

theorem separates_leastKey {g : NodeMap} (hg : g.WellFormed) : g.Separates leastKey := by
  intro a ha b hb keys keys' h h' hsame
  -- the two components share the node that has the common least key
  obtain ⟨c, hac, hc⟩ := (h.2 _).mp (leastKey_mem h)
  obtain ⟨d, hbd, hd⟩ := (h'.2 _).mp (leastKey_mem h')
  have hcd : c = d := hg.distinct c (hac.mem hg ha) d (hbd.mem hg hb)
    (hc.trans (hsame.trans hd.symm))
  have hab : g.Connected a b := hac.trans (hcd ▸ hbd.symm hg)
  exact (h.connected hg hab).perm h'

def trio : NodeMap where
  ids := [2, 1, 0]
  nodeKey := fun id ↦ if id = 0 then "a" else if id = 1 then "b" else "c"
  adj := fun id ↦ if id = 0 then [1] else if id = 1 then [0] else []

theorem trio_wellFormed : trio.WellFormed where
  nodup := by decide
  distinct := by decide
  within := by
    intro a b hb
    simp only [trio] at hb ⊢
    split_ifs at hb <;> simp_all
  symm := by
    intro a b hb
    simp only [trio] at hb ⊢
    split_ifs at hb <;> simp_all

/-- The pair of `a` and `b` is one community, and `c` is not connected with it. -/
theorem trio_communities :
    trio.deterministicCommunities leastKey 0 = trio.deterministicCommunities leastKey 1 ∧
      ¬trio.Connected 0 2 := by
  have hlabels := (deterministicCommunities_components leastKey trio trio_wellFormed).2.1
    (separates_leastKey trio_wellFormed)
  refine ⟨(hlabels 0 (by decide) 1 (by decide)).mpr (.single (by decide)), ?_⟩
  rw [← hlabels 0 (by decide) 2 (by decide)]
  decide +kernel

end NodeMap

end MiLsp.Graph
