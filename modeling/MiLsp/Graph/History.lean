import MiLsp.Graph.Activation

namespace MiLsp.Graph

open Library Attempt List GraphGeneration Table Option

variable {host : GraphHost} {s s' : GraphStore} {ws : String} {ids : List GraphDigest}
  (g : GraphGeneration)

def GraphGeneration.retire : GraphGeneration :=
  if g.status = .active then { g with status := .retired } else g

@[simp]
theorem GraphGeneration.retire_generationID : g.retire.generationID = g.generationID := by
  unfold retire
  split <;> rfl

theorem GraphGeneration.retire_status_ne : g.retire.status ≠ .active := by
  unfold retire
  split
  · simp
  next h => exact h

theorem GraphGeneration.retire_of_status_ne {g : GraphGeneration} (h : g.status ≠ .active) :
    g.retire = g := if_neg h

/-- The active pointer names the one generation that is active. -/
def Pointed (s : GraphStore) : Prop :=
  ∀ id, s.active = some id ↔ ∃ g, s.generations.find? id = some g ∧ g.status = .active

namespace Pointed

variable (h : Pointed s) {t : Table GraphGeneration.generationID}

include h

theorem status_iff {row : GraphGeneration} (hrow : row ∈ s.generations.rows) :
    row.status = .active ↔ s.active = some row.generationID := by
  rw [h, find?_of_mem hrow]
  simp

theorem activeRows_eq : s.activeRows = if s.active.isSome then 1 else 0 := by
  cases hactive : s.active with
  | none =>
    refine countP_eq_zero.mpr fun row hrow hstatus ↦ ?_
    have hpointer := (h.status_iff hrow).mp (by simpa using hstatus)
    simp [hactive] at hpointer
  | some id =>
    obtain ⟨g, hfind, hstatus⟩ := (h id).mp hactive
    refine (count_eq_one_iff (k := id) ?_).mpr ⟨g, hfind, by simpa using hstatus⟩
    intro row hrow hrow'
    have hpointer := (h.status_iff hrow).mp (by simpa using hrow')
    rw [hactive] at hpointer
    exact (some.inj hpointer).symm

theorem retirePrior_find? (ht : retirePrior s.generations s.active = some t) (k : GraphDigest) :
    t.find? k = (s.generations.find? k).map retire := by
  have hretire : ∀ p : GraphGeneration → Bool,
      (∀ row ∈ s.generations.rows, p row = true ↔ row.status = .active) →
      (s.generations.find? k).map
        (fun row ↦ if p row then { row with status := .retired } else row) =
      (s.generations.find? k).map retire := by
    intro p hp
    refine map_congr fun row hrow ↦ ?_
    simp only [retire, hp row (mem_of_find? hrow)]
  cases hactive : s.active with
  | none =>
    rw [hactive] at ht
    obtain rfl := some.inj ht
    rw [← hretire fun _ ↦ false]
    · simp
    · intro row hrow
      simp [h.status_iff hrow, hactive]
  | some old =>
    rw [hactive] at ht
    obtain ⟨-, rfl⟩ := (updateOne_eq_some (k := old) (by simp +contextual)).mp ht
    rw [find?_update]
    refine hretire _ fun row hrow ↦ ?_
    simp [h.status_iff hrow, hactive, eq_comm]

theorem switch_find? {id : GraphDigest} {g : GraphGeneration}
    {f : GraphGeneration → GraphGeneration} {hf : ∀ row, (f row).generationID = row.generationID}
    {t' : Table generationID} (hg : s.generations.find? id = some g)
    (hstatus : g.status ≠ .active) (ht : retirePrior s.generations s.active = some t)
    (ht' : t.updateOne (fun row ↦ row.generationID = id && row.status = g.status) f hf = some t')
    (k : GraphDigest) :
    t'.find? k = if k = id then some (f g)
      else (s.generations.find? k).map retire := by
  obtain ⟨-, rfl⟩ := (updateOne_eq_some (k := id) (by simp +contextual)).mp ht'
  rw [find?_update, h.retirePrior_find? ht, Option.map_map]
  split
  next hk =>
    rw [hk, hg, Option.map_some, Function.comp_apply, retire_of_status_ne hstatus]
    simp [key_of_find? hg]
  next hk =>
    refine Option.map_congr fun row hrow ↦ ?_
    simp [key_of_find? hrow, hk]

section

variable {id : GraphDigest} {g : GraphGeneration} {publishedAt : Time}
  (hg : s.generations.find? id = some g) (hstatus : g.status ≠ .active)
include hg hstatus

theorem switchActive_find? (hs' : s.switchActive g s.active publishedAt = .ok s') :
    s'.rows = s.rows ∧ s'.active = some id ∧ ∀ k, s'.generations.find? k =
      if k = id then some (g.activated s.active publishedAt g)
      else (s.generations.find? k).map retire := by
  obtain rfl := key_of_find? hg
  obtain ⟨t, ht, hs'⟩ := bind_eq_ok.mp hs'
  obtain ⟨-, hs'⟩ := guarded_eq_ok.mp hs'
  obtain ⟨t', ht', hs'⟩ := bind_eq_ok.mp hs'
  obtain rfl := pure_eq_ok.mp hs'
  exact ⟨rfl, rfl, h.switch_find? hg hstatus (orElse_eq_ok.mp ht) (orElse_eq_ok.mp ht')⟩

theorem switchActive_succeeds : ∃ s', s.switchActive g s.active publishedAt = .ok s' := by
  obtain rfl := key_of_find? hg
  obtain ⟨t, ht⟩ : ∃ t, retirePrior s.generations s.active = some t := by
    cases hactive : s.active with
    | none => exact ⟨_, rfl⟩
    | some old =>
      obtain ⟨prior, hprior, hactive'⟩ := (h old).mp hactive
      refine ⟨_, (updateOne_eq_some (k := old) (by simp +contextual)).mpr
        ⟨⟨prior, hprior, ?_⟩, rfl⟩⟩
      simp [key_of_find? hprior, hactive']
  have hfind := h.retirePrior_find? ht
  have hnone : ¬(t.rows.any fun row ↦
      row.status = .active && row.workspaceIdentity = g.workspaceIdentity) = true := by
    intro hany
    obtain ⟨row, hrow, hrow''⟩ := any_eq_true.mp hany
    have hrow' := find?_of_mem hrow
    rw [hfind] at hrow'
    obtain ⟨before, -, rfl⟩ := map_eq_some_iff.mp hrow'
    simp [before.retire_status_ne] at hrow''
  have hg' : t.find? g.generationID = some g := by
    rw [hfind, hg, map_some, retire_of_status_ne hstatus]
  refine exists_bind (orElse_eq_ok.mpr ht) ⟨_, guarded_eq_ok.mpr ⟨hnone, bind_eq_ok.mpr
    ⟨_, orElse_eq_ok.mpr ((updateOne_eq_some (k := g.generationID) (by simp +contextual)).mpr
      ⟨⟨g, hg', by simp⟩, rfl⟩), rfl⟩⟩⟩

end

end Pointed

structure Published (host : GraphHost) (s : GraphStore) (ws : String) (g : GraphGeneration) :
    Prop where
  status : g.status = .active ∨ g.status = .retired
  workspace : g.workspaceIdentity = ws
  schema : g.schemaVersion = 1
  repository : g.repositoryIdentity = g.workspaceIdentity
  valid : checkGraphGeneration host (s.rows.ofGeneration g.generationID) g .current = .ok ()

/-- Published generations, newest first, each the predecessor of the one before. -/
inductive Linked (host : GraphHost) (s : GraphStore) (ws : String) : List GraphDigest → Prop
  | nil : Linked host s ws []
  | cons {id : GraphDigest} {older : List GraphDigest} {g : GraphGeneration}
      (hfind : s.generations.find? id = some g) (hg : Published host s ws g)
      (hprevious : g.previousGenerationID = older.head?) (hlinked : Linked host s ws older) :
      Linked host s ws (id :: older)

theorem Linked.published (h : Linked host s ws ids) {id : GraphDigest} (hid : id ∈ ids) :
    ∃ g, s.generations.find? id = some g ∧ Published host s ws g := by
  induction h with
  | nil => cases hid
  | @cons newest older g hfind hg _ _ ih =>
    obtain rfl | hid := mem_cons.mp hid
    · exact ⟨g, hfind, hg⟩
    · exact ih hid

theorem Linked.of_append {newer older : List GraphDigest} (h : Linked host s ws (newer ++ older)) :
    Linked host s ws older := by
  induction newer with
  | nil => exact h
  | cons id newer ih =>
    cases h with
    | cons _ _ _ hlinked => exact ih hlinked

theorem Linked.transfer (h : Linked host s ws ids)
    (hrows : ∀ id ∈ ids, s'.rows.ofGeneration id = s.rows.ofGeneration id)
    (hgenerations : ∀ id ∈ ids, ∀ g, s.generations.find? id = some g → Published host s ws g →
      ∃ status, (status = .active ∨ status = .retired) ∧
        s'.generations.find? id = some { g with status }) : Linked host s' ws ids := by
  induction h with
  | nil => exact .nil
  | @cons id older g hfind hg hprevious _ ih =>
    obtain ⟨status, hstatus, hfind'⟩ := hgenerations id (by simp) g hfind hg
    have hrow : s'.rows.ofGeneration g.generationID = s.rows.ofGeneration g.generationID :=
      hrows g.generationID (by simp [key_of_find? hfind])
    refine .cons hfind' ⟨hstatus, hg.workspace, hg.schema, hg.repository, ?_⟩ hprevious
      (ih (fun id hid ↦ hrows id (by simp [hid])) fun id hid ↦ hgenerations id (by simp [hid]))
    rw [hrow]
    exact hg.valid

variable {g : GraphGeneration}

theorem validateGraphGenerationConn_eq_ok {id : GraphDigest} :
    validateGraphGenerationConn host s id = .ok g ↔ s.generations.find? id = some g ∧
      checkGraphGeneration host (s.rows.ofGeneration id) g .current = .ok () := by
  unfold validateGraphGenerationConn validateGraphGenerationWithMode loadGeneration
  simp only [orElse_eq_ok, bind_eq_ok, pure_eq_ok]
  constructor
  · rintro ⟨_, hfind, _, hcheck, rfl⟩
    exact ⟨hfind, hcheck⟩
  · rintro ⟨hfind, hcheck⟩
    exact ⟨g, hfind, (), hcheck, rfl⟩

section

variable {id : GraphDigest} (hg : Published host s ws g) (hfind : s.generations.find? id = some g)
include hg hfind

theorem Published.validate : validateGraphGenerationConn host s id = .ok g := by
  rw [validateGraphGenerationConn_eq_ok]
  exact ⟨hfind, key_of_find? hfind ▸ hg.valid⟩

theorem Published.checkAncestor_eq_ok (hws : identityCanonical host ws = true) (first : Bool) :
    checkAncestor host s ws first id = .ok g := by
  have hload : loadGeneration s id = .ok g := orElse_eq_ok.mpr hfind
  have hvalid : validateGraphGenerationWithMode host s id .current = .ok g := hg.validate hfind
  have hrecord : validateGraphGenerationAncestryRecord host s id ws g = .ok () := by
    unfold validateGraphGenerationAncestryRecord
    simp [hg.workspace, hg.schema, hg.repository, hws, hvalid]
  unfold checkAncestor
  obtain hstatus | hstatus := hg.status <;> cases first <;>
    simp [hload, hg.workspace, hstatus, hrecord, orInvalid, Except.mapError, bind, Except.bind]

end

theorem Linked.walk_eq_ok {older seen : List GraphDigest} {id : GraphDigest} {depth : ℕ}
    (h : Linked host s ws (id :: older)) (hws : identityCanonical host ws = true)
    (hnodup : (id :: older).Nodup) (hzero : zeroDigest ∉ id :: older)
    (hseen : ∀ x ∈ id :: older, x ∉ seen) :
    walkGraphGenerationAncestry host s ws depth seen none id = .ok () ↔ older.length < depth := by
  induction older generalizing id seen depth with
  | nil =>
    cases h with
    | @cons _ _ g hfind hg hprevious _ =>
      cases depth with
      | zero => simp [walkGraphGenerationAncestry]
      | succ depth =>
        have hid : id ∉ seen := hseen id (by simp)
        simp [walkGraphGenerationAncestry, hid, hg.checkAncestor_eq_ok hfind hws, hprevious, bind,
          Except.bind]
  | cons next older ih =>
    cases h with
    | @cons _ _ g hfind hg hprevious hlinked =>
      cases depth with
      | zero => simp [walkGraphGenerationAncestry]
      | succ depth =>
        have hid : id ∉ seen := hseen id (by simp)
        have hnext : next ≠ zeroDigest := fun hn ↦ hzero (by simp [hn])
        have hunseen : ∀ x ∈ next :: older, x ∉ id :: seen := by
          intro x hx hmem
          obtain rfl | hmem := mem_cons.mp hmem
          · exact hnodup.notMem hx
          · exact hseen x (mem_cons_of_mem _ hx) hmem
        have hrest : walkGraphGenerationAncestry host s ws depth (id :: seen) none next = .ok () ↔
            older.length < depth :=
          ih hlinked hnodup.of_cons (fun hz ↦ hzero (mem_cons_of_mem _ hz)) hunseen
        simp [walkGraphGenerationAncestry, hid, hg.checkAncestor_eq_ok hfind hws, hprevious, bind,
          Except.bind, hnext, hrest]

section

variable {id : GraphDigest} {replacement : Option (Option GraphDigest)}

theorem walk_start {depth : ℕ} (hfind : s.generations.find? id = some g)
    (hg : g.workspaceIdentity = ws) :
    walkGraphGenerationAncestry host s ws (depth + 1) [] replacement id = .ok () ↔
      ∀ p ∈ replacement.getD g.previousGenerationID, p ≠ zeroDigest ∧
        walkGraphGenerationAncestry host s ws depth [id] none p = .ok () := by
  have hload : loadGeneration s id = .ok g := orElse_eq_ok.mpr hfind
  have hcheck : checkAncestor host s ws true id = .ok g := by
    simp [checkAncestor, hload, orInvalid, Except.mapError, hg, bind, Except.bind]
  rw [walkGraphGenerationAncestry, guarded_eq_ok, isEmpty_nil, hcheck, bind_eq_ok]
  constructor
  · rintro ⟨-, g', hg', hrest⟩ p hp
    obtain rfl := Except.ok.inj hg'
    rw [mem_def] at hp
    simp only [hp] at hrest
    exact guarded_eq_ok.mp hrest
  · intro hrest
    refine ⟨not_mem_nil, g, rfl, ?_⟩
    cases hp : replacement.getD g.previousGenerationID with
    | none => rfl
    | some p => exact guarded_eq_ok.mpr (hrest p hp)

theorem validateGraphGenerationAncestry_eq_ok :
    validateGraphGenerationAncestry host s id ws replacement = .ok () ↔
      identityCanonical host ws = true ∧
      walkGraphGenerationAncestry host s ws graphGenerationAncestryMaxDepth [] none id = .ok () ∧
      walkGraphGenerationAncestry host s ws graphGenerationAncestryMaxDepth [] replacement id =
        .ok () := by
  unfold validateGraphGenerationAncestry
  rw [guarded_eq_ok, seq_eq_ok, Bool.not_eq_true', Bool.not_eq_false]
  cases replacement with
  | none => simp
  | some old => rfl

end

/-- The pointer stands at the newest generation of the history, whose row is the only active one. -/
structure Chain (host : GraphHost) (s : GraphStore) (ws : String) (ids : List GraphDigest) :
    Prop where
  linked : Linked host s ws ids
  nodup : ids.Nodup
  nonzero : zeroDigest ∉ ids
  active : s.active = ids.head?
  status : ∀ row ∈ s.generations.rows,
    row.status = .active ↔ s.active = some row.generationID
  canonical : ids ≠ [] → identityCanonical host ws = true

namespace Chain

variable {ids : List GraphDigest} (h : Chain host s ws ids)

include h

theorem newest {old : GraphDigest} (hold : s.active = some old) :
    ∃ g, s.generations.find? old = some g ∧ Published host s ws g ∧ g.status = .active := by
  have hmem : old ∈ ids := mem_of_head? (h.active ▸ hold)
  obtain ⟨g, hfind, hg⟩ := h.linked.published hmem
  refine ⟨g, hfind, hg, (h.status g (mem_of_find? hfind)).mpr ?_⟩
  rw [key_of_find? hfind, hold]

theorem pointed : Pointed s := by
  intro id
  constructor
  · intro hid
    obtain ⟨g, hfind, -, hstatus⟩ := h.newest hid
    exact ⟨g, hfind, hstatus⟩
  · rintro ⟨g, hfind, hstatus⟩
    rw [(h.status g (mem_of_find? hfind)).mp hstatus, key_of_find? hfind]

theorem checkPrior_eq_ok (hg : g.workspaceIdentity = ws) :
    checkPrior host s g s.active s.active = .ok () ↔
      ids.length ≤ graphGenerationAncestryMaxDepth := by
  have hrows : checkActiveRows s.active s.activeRows = .ok () := by
    simp [checkActiveRows, h.pointed.activeRows_eq]
  unfold checkPrior
  rw [hrows]
  cases hids : ids with
  | nil =>
    have hactive : s.active = none := by simp [h.active, hids]
    simp [hactive, bind, Except.bind]
  | cons old older =>
    have hactive : s.active = some old := by simp [h.active, hids]
    obtain ⟨prior, hfind, hprior, hstatus⟩ := h.newest hactive
    have hws := h.canonical (by simp [hids])
    have hisActive : isActivePrior host prior = true := by
      simp [isActivePrior, hstatus, hprior.schema, hprior.repository, hprior.workspace, hws]
    have hcurrent : validateGraphGenerationWithMode host s old .current = .ok prior :=
      hprior.validate hfind
    have hreplace : validateActiveGraphPriorForReplacement host s old (some old) 1 = .ok () := by
      simp [validateActiveGraphPriorForReplacement, hcurrent, Except.toOption, hisActive]
    have hancestry : validateGraphGenerationAncestry host s old g.workspaceIdentity none = .ok () ↔
        older.length < graphGenerationAncestryMaxDepth := by
      rw [hg, validateGraphGenerationAncestry_eq_ok, and_self]
      simp only [hws, true_and]
      exact Linked.walk_eq_ok (hids ▸ h.linked) hws (hids ▸ h.nodup) (hids ▸ h.nonzero) (by simp)
    have hcount : s.activeRows = 1 := by simp [h.pointed.activeRows_eq, hactive]
    simpa [hactive, hcount, hreplace, bind, Except.bind, Nat.succ_le_iff] using hancestry

section

variable {id : GraphDigest} (hid : id ∉ ids) (hfind : s.generations.find? id = some g)
  (hg : g.workspaceIdentity = ws)
include hid hfind hg

theorem walk_over :
    walkGraphGenerationAncestry host s ws graphGenerationAncestryMaxDepth [] (some s.active) id =
      .ok () ↔ ids.length < graphGenerationAncestryMaxDepth := by
  unfold graphGenerationAncestryMaxDepth
  rw [walk_start hfind hg, getD_some, h.active]
  cases hids : ids with
  | nil => simp
  | cons old older =>
    have hzero : old ≠ zeroDigest := fun hz ↦ h.nonzero (by simp [hids, hz])
    have hwalk : walkGraphGenerationAncestry host s ws 1023 [id] none old = .ok () ↔
        older.length < 1023 := by
      refine Linked.walk_eq_ok (hids ▸ h.linked) (h.canonical (by simp [hids])) (hids ▸ h.nodup)
        (hids ▸ h.nonzero) ?_
      intro x hx hmem
      exact hid (mem_singleton.mp hmem ▸ hids ▸ hx)
    simp only [head?_cons, mem_def, some.injEq, forall_eq', ne_eq, hzero,
      not_false_eq_true, true_and, hwalk, length_cons]
    omega

theorem walk_previous (hprevious : ∀ p ∈ g.previousGenerationID, p = id ∨ p ∈ ids)
    (hlength : ids.length < graphGenerationAncestryMaxDepth) :
    walkGraphGenerationAncestry host s ws graphGenerationAncestryMaxDepth [] none id = .ok () ↔
      ∀ p ∈ g.previousGenerationID, p ∈ ids := by
  unfold graphGenerationAncestryMaxDepth at hlength ⊢
  rw [walk_start hfind hg, getD_none]
  refine forall₂_congr fun p hp ↦ ?_
  constructor
  · rintro ⟨-, hwalk⟩
    obtain rfl | hmem := hprevious p hp
    · simp [walkGraphGenerationAncestry, throw, throwThe, MonadExceptOf.throw, bind,
        Except.bind] at hwalk
    · exact hmem
  · intro hmem
    obtain ⟨newer, older, rfl⟩ := append_of_mem hmem
    refine ⟨fun hz ↦ h.nonzero (hz ▸ hmem), ?_⟩
    refine (Linked.walk_eq_ok h.linked.of_append (h.canonical (by simp)) h.nodup.of_append_right
      (fun hz ↦ h.nonzero (mem_append_right _ hz)) ?_).mpr ?_
    · intro x hx hseen
      exact hid (mem_singleton.mp hseen ▸ mem_append_right _ hx)
    · simp only [length_append, length_cons] at hlength
      omega

end

section

variable {publishedAt : Time} (hfind : s.generations.find? g.generationID = some g)
  (hid : g.generationID ∉ ids)
include hfind hid

theorem extend (hzero : g.generationID ≠ zeroDigest) (hstatus : g.status = .staged)
    (hws : g.workspaceIdentity = ws) (hcanonical : identityCanonical host ws = true)
    (hschema : g.schemaVersion = 1) (hrepository : g.repositoryIdentity = g.workspaceIdentity)
    (hvalid : checkGraphGeneration host (s.rows.ofGeneration g.generationID) g .current = .ok ())
    (hswitch : s.switchActive g s.active publishedAt = .ok s') :
    Chain host s' ws (g.generationID :: ids) := by
  obtain ⟨hrows, hactive, hgenerations⟩ :=
    h.pointed.switchActive_find? hfind (by simp [hstatus]) hswitch
  have hlinked : Linked host s' ws ids := by
    refine h.linked.transfer (fun id _ ↦ by rw [hrows]) fun id hmem row hrow hpublished ↦ ?_
    have hne : id ≠ g.generationID := fun heq ↦ hid (heq ▸ hmem)
    rw [hgenerations, if_neg hne, hrow, map_some, retire]
    split
    · exact ⟨.retired, .inr rfl, rfl⟩
    · exact ⟨row.status, hpublished.status, rfl⟩
  refine ⟨.cons (g := g.activated s.active publishedAt g) ?_ ?_ ?_ hlinked, ?_, ?_, ?_, ?_, ?_⟩
  · simp [hgenerations]
  · exact ⟨.inl rfl, hws, hschema, hrepository, by rw [hrows]; exact hvalid⟩
  · simp [activated, hstatus, h.active]
  · exact nodup_cons.mpr ⟨hid, h.nodup⟩
  · simp [Ne.symm hzero, h.nonzero]
  · simp [hactive]
  · intro row hrow
    have hrow' := find?_of_mem hrow
    rw [hactive, some.injEq]
    rw [hgenerations] at hrow'
    split at hrow'
    next hkey =>
      rw [← some.inj hrow']
      exact ⟨fun _ ↦ rfl, fun _ ↦ rfl⟩
    next hkey =>
      obtain ⟨before, -, rfl⟩ := map_eq_some_iff.mp hrow'
      exact ⟨fun hrow'' ↦ absurd hrow'' before.retire_status_ne, fun hg ↦ absurd hg.symm hkey⟩
  · exact fun _ ↦ hcanonical

theorem activate_eq_ok (hstatus : g.status = .staged) (hws : g.workspaceIdentity = ws)
    (hprevious : ∀ p ∈ g.previousGenerationID, p = g.generationID ∨ p ∈ ids) :
    activateGraphGenerationAt host s g.generationID s.active publishedAt = .ok s' ↔
      publishedAt ≠ 0 ∧
      checkGraphGeneration host (s.rows.ofGeneration g.generationID) g .current = .ok () ∧
      identityCanonical host ws = true ∧ (∀ p ∈ g.previousGenerationID, p ∈ ids) ∧
      ids.length < graphGenerationAncestryMaxDepth ∧
      s.switchActive g s.active publishedAt = .ok s' := by
  unfold activateGraphGenerationAt
  rw [guarded_eq_ok, bind_eq_ok]
  simp only [validateGraphGenerationConn_eq_ok]
  constructor
  · rintro ⟨htime, g', ⟨hfind', hvalid⟩, hrest⟩
    obtain rfl : g = g' := some.inj (hfind.symm.trans hfind')
    rw [guarded_eq_ok, seq_eq_ok, hstatus] at hrest
    obtain ⟨-, -, hrest⟩ := hrest
    rw [seq_eq_ok, validateGraphGenerationAncestry_eq_ok, proposedAncestry, if_pos hstatus, hws,
      h.walk_over hid hfind hws] at hrest
    obtain ⟨⟨hcanonical, hwalk, hlength⟩, hswitch⟩ := hrest
    rw [h.walk_previous hid hfind hws hprevious hlength] at hwalk
    exact ⟨htime, hvalid, hcanonical, hwalk, hlength, hswitch⟩
  · rintro ⟨htime, hvalid, hcanonical, hwalk, hlength, hswitch⟩
    refine ⟨htime, g, ⟨hfind, hvalid⟩, ?_⟩
    rw [guarded_eq_ok, seq_eq_ok, h.checkPrior_eq_ok hws, hstatus]
    refine ⟨by simp, hlength.le, ?_⟩
    rw [seq_eq_ok, validateGraphGenerationAncestry_eq_ok, proposedAncestry, if_pos hstatus, hws,
      h.walk_over hid hfind hws, h.walk_previous hid hfind hws hprevious hlength]
    exact ⟨⟨hcanonical, hwalk, hlength⟩, hswitch⟩

end

end Chain

end MiLsp.Graph
