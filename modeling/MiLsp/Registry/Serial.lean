import MiLsp.Library.Entries
import MiLsp.Library.Traces
import MiLsp.Registry.Cache

namespace MiLsp.Registry

open Library Entries Traces List

section Clones

def Alike (r r' : RegistryFile) : Prop := cloneRegistry r = cloneRegistry r'

theorem items_copy {α : Type} (s : Slice α) : s.copy.items = s.items := by
  rcases s with _ | _ | _ <;> rfl

theorem copy_copy {α : Type} (s : Slice α) : s.copy.copy = s.copy := by
  rcases s with _ | _ | _ <;> rfl

theorem cloneRegistration_clone (ws : Registration) :
    cloneRegistration (cloneRegistration ws) = cloneRegistration ws := by
  simp only [cloneRegistration, copy_copy]

def cloneEntry (pair : String × Registration) : String × Registration :=
  (pair.1, cloneRegistration pair.2)

theorem map_cloneEntry_twice (l : List (String × Registration)) :
    (l.map cloneEntry).map cloneEntry = l.map cloneEntry := by
  rw [map_map]
  refine map_congr_left fun pair _ ↦ ?_
  simp only [Function.comp_apply, cloneEntry, cloneRegistration_clone]

theorem cloneRegistry_clone (r : RegistryFile) :
    cloneRegistry (cloneRegistry r) = cloneRegistry r :=
  congrArg (RegistryFile.mk _) (map_cloneEntry_twice _)

variable (name : String)

theorem lookup_clone (l : List (String × Registration)) :
    (l.map cloneEntry).lookup name = (l.lookup name).map cloneRegistration := by
  induction l with
  | nil => rfl
  | cons pair l ih =>
    rw [map_cons, cloneEntry, lookup_cons, lookup_cons, ih]
    cases name == pair.1 <;> rfl

theorem put_clone (ws : Registration) (l : List (String × Registration)) :
    (put name ws l).map cloneEntry = put name (cloneRegistration ws) (l.map cloneEntry) := by
  induction l with
  | nil => rfl
  | cons pair l ih =>
    rw [put, map_cons, put]
    change _ = if name = pair.1 then _ else if name < pair.1 then _ else _
    split_ifs
    · rfl
    · rfl
    · rw [map_cons, ih]

theorem preserveCanonLinks_clone (existing incoming : Registration) :
    cloneRegistration (preserveCanonLinks (cloneRegistration existing) incoming) =
      cloneRegistration (preserveCanonLinks existing incoming) := by
  unfold preserveCanonLinks
  change cloneRegistration (if incoming.canonLinks.items.isEmpty &&
    !existing.canonLinks.copy.items.isEmpty then _ else _) = _
  rw [items_copy]
  split_ifs
  · simp only [cloneRegistration, copy_copy]
  · rfl

theorem filter_clone (p : String → Bool) (l : List (String × Registration)) :
    (l.map cloneEntry).filter (fun pair ↦ p pair.1) =
      (l.filter fun pair ↦ p pair.1).map cloneEntry :=
  filter_map ..

theorem register_clone (ws : Registration) (r : RegistryFile) :
    Alike (registerWorkspaceLocked name ws (cloneRegistry r))
      (registerWorkspaceLocked name ws r) := by
  have hlookup := lookup_clone name r.workspaces
  change RegistryFile.mk name (List.map cloneEntry (put name _ (r.workspaces.map cloneEntry))) =
    ⟨name, List.map cloneEntry (put name _ r.workspaces)⟩
  rw [put_clone, put_clone, map_cloneEntry_twice]
  congr 2
  rw [show (cloneRegistry r).workspaces = r.workspaces.map cloneEntry from rfl, hlookup]
  cases r.workspaces.lookup name with
  | none => rfl
  | some existing => exact preserveCanonLinks_clone existing ws

theorem remove_clone (r : RegistryFile) :
    (removeWorkspaceLocked name (cloneRegistry r)).map cloneRegistry =
      (removeWorkspaceLocked name r).map cloneRegistry := by
  have hlookup := lookup_clone name r.workspaces
  have hfilter := filter_clone (fun key ↦ decide (key ≠ name)) r.workspaces
  unfold removeWorkspaceLocked
  rw [show (cloneRegistry r).workspaces = r.workspaces.map cloneEntry from rfl, hlookup]
  cases r.workspaces.lookup name with
  | none => rfl
  | some existing =>
    change some (RegistryFile.mk _ (List.map cloneEntry _)) = some ⟨_, List.map cloneEntry _⟩
    rw [hfilter, map_cloneEntry_twice]
    rfl

theorem stalePaths_clone (notFound : String) (stat : String → RootStatus) (candidate : Bool)
    (r : RegistryFile) :
    stalePaths notFound stat candidate (cloneRegistry r) = stalePaths notFound stat candidate r :=
  filterMap_map ..

theorem prune_clone (notFound : String) (apply : Bool) (stat : String → RootStatus)
    (r : RegistryFile) :
    (pruneRegistry notFound apply stat (cloneRegistry r)).2.map cloneRegistry =
      (pruneRegistry notFound apply stat r).2.map cloneRegistry := by
  unfold pruneRegistry
  rw [stalePaths_clone, stalePaths_clone]
  dsimp only
  generalize (if apply = true then stalePaths notFound stat true r else []) = removed
  cases removed.isEmpty with
  | true => rfl
  | false =>
    change some (RegistryFile.mk _ (List.map cloneEntry
      (List.filter _ (r.workspaces.map cloneEntry)))) = some ⟨_, List.map cloneEntry _⟩
    rw [filter_clone fun key ↦ !(removed.map StalePath.aliasName).contains key,
      map_cloneEntry_twice]
    rfl

section

variable (auto : AutoRegister) (r : RegistryFile)
include auto r

theorem registeredWorkspaceForRoot_clone :
    auto.registeredWorkspaceForRoot (cloneRegistry r) = auto.registeredWorkspaceForRoot r := by
  unfold AutoRegister.registeredWorkspaceForRoot
  cases auto.canonicalRoot with
  | none => rfl
  | some root => exact any_map ..

theorem autoRegisterAlias_clone :
    auto.autoRegisterAlias (cloneRegistry r) = auto.autoRegisterAlias r := by
  have hfree : (fun name ↦ ((r.workspaces.map cloneEntry).lookup name).isNone) =
      fun name ↦ (r.workspaces.lookup name).isNone := by
    funext name
    rw [lookup_clone, Option.isNone_map]
  change Option.getD (List.find? (fun name ↦ ((r.workspaces.map cloneEntry).lookup name).isNone)
    (auto.candidates (r.workspaces.map cloneEntry).length)) _ = _
  rw [hfree, length_map]
  rfl

theorem autoRegister_clone :
    (auto.registerLocked (cloneRegistry r)).map cloneRegistry =
      (auto.registerLocked r).map cloneRegistry := by
  unfold AutoRegister.registerLocked
  rw [registeredWorkspaceForRoot_clone, autoRegisterAlias_clone]
  dsimp only
  cases auto.registeredWorkspaceForRoot r with
  | true => rfl
  | false =>
    cases auto.detect (auto.autoRegisterAlias r) with
    | none => rfl
    | some ws =>
      cases auto.projectSaved with
      | false => rfl
      | true =>
        change some (RegistryFile.mk _ (List.map cloneEntry
          (put _ ws (r.workspaces.map cloneEntry)))) = some ⟨_, List.map cloneEntry (put _ ws _)⟩
        rw [put_clone, put_clone, map_cloneEntry_twice]
        rfl

end

theorem run_clone (op : Op) (r : RegistryFile) :
    (op.run (cloneRegistry r)).map cloneRegistry = (op.run r).map cloneRegistry := by
  cases op with
  | register name ws => exact congrArg some (register_clone name ws r)
  | remove name => exact remove_clone name r
  | prune apply stat => exact prune_clone _ apply stat r
  | collectGarbage apply stat => exact prune_clone _ apply stat r
  | autoRegister auto => exact autoRegister_clone auto r

theorem run_alike {r r' : RegistryFile} (h : Alike r r') (op : Op) :
    (op.run r).map cloneRegistry = (op.run r').map cloneRegistry := by
  rw [← run_clone op r, ← run_clone op r', h]

end Clones

section Loads

variable (decode : String → Option RegistryFile)

def Fresh (file : Option DiskFile) (cached : Option CacheEntry) : Prop :=
  ∀ entry ∈ cached, ∀ f ∈ file, entry.modTime = f.modTime →
    (decode f.text).map cloneRegistry = some entry.registry

/-- What was decoded under the time of the file is the registry of the file. -/
def Sound (file : Option DiskFile) (load : Load) : Prop :=
  ∀ modTime size registry, load = .decoded modTime size registry →
    ∀ f ∈ file, modTime = f.modTime → decode f.text = some registry

inductive Loading (file : Option DiskFile) : Load → Prop
  | started : Loading file .started
  | statted {f : DiskFile} (hf : file = some f) : Loading file (.statted f.modTime f.size)
  | missed {f : DiskFile} (hf : file = some f) : Loading file (.missed f.modTime f.size)
  | decoded {f : DiskFile} {registry : RegistryFile} (hf : file = some f)
      (hdecode : decode f.text = some registry) :
      Loading file (.decoded f.modTime f.size registry)
  | failed : Loading file (.finished none)
  | finished {registry : RegistryFile}
      (h : (readRegistry decode file).map cloneRegistry = some (cloneRegistry registry)) :
      Loading file (.finished (some registry))

variable {decode} {file : Option DiskFile} {cached : Option CacheEntry} {load : Load}

theorem loadStep_sound (cached : Option CacheEntry) (load : Load) :
    Sound decode file (loadStep decode file cached load).1 := by
  intro modTime size registry heq f hf _
  cases load with
  | started =>
    rw [loadStep.eq_def, hf] at heq
    cases heq
  | statted m s =>
    rw [loadStep.eq_def] at heq
    dsimp only at heq
    split at heq
    · cases heq
    · split_ifs at heq
  | missed m s =>
    rw [loadStep.eq_def, hf] at heq
    dsimp only [Option.bind_some] at heq
    split at heq
    next => cases heq
    next registry' hdecode =>
      cases heq
      exact hdecode
  | decoded m s r => cases heq
  | finished r => cases heq

theorem loadStep_fresh (hfresh : Fresh decode file cached) (hsound : Sound decode file load) :
    Fresh decode file (loadStep decode file cached load).2 := by
  cases load with
  | started =>
    rw [loadStep.eq_def]
    dsimp only
    split <;> exact hfresh
  | statted m s =>
    rw [loadStep.eq_def]
    dsimp only
    split
    · exact hfresh
    · split_ifs <;> exact hfresh
  | missed m s =>
    rw [loadStep.eq_def]
    dsimp only
    split <;> exact hfresh
  | decoded m s registry =>
    intro entry hentry f hf htime
    cases hentry
    rw [hsound m s registry rfl f hf htime]
    rfl
  | finished r => exact hfresh

theorem loadStep_loading (hfresh : Fresh decode file cached) (h : Loading decode file load) :
    Loading decode file (loadStep decode file cached load).1 := by
  cases h with
  | started =>
    rw [loadStep.eq_def]
    dsimp only
    split
    next => exact .finished rfl
    next f => exact .statted rfl
  | @statted f hf =>
    rw [loadStep.eq_def]
    dsimp only
    split
    next => exact .missed hf
    next entry =>
      split_ifs with hkey
      · have hregistry := hfresh entry rfl f hf hkey.1
        refine .finished ?_
        obtain ⟨registry, hdecode, hclone⟩ := Option.map_eq_some_iff.mp hregistry
        rw [hf, readRegistry, hdecode, ← hclone, cloneRegistry_clone, cloneRegistry_clone]
        rfl
      · exact .missed hf
  | @missed f hf =>
    rw [loadStep.eq_def]
    dsimp only
    split
    next => exact .failed
    next registry hdecode =>
      rw [hf] at hdecode
      exact .decoded hf hdecode
  | @decoded f registry hf hdecode =>
    refine .finished ?_
    rw [hf, readRegistry, hdecode]
    rfl
  | failed => exact .failed
  | finished hread => exact .finished hread

theorem Loading.sound (h : Loading decode file load) : Sound decode file load := by
  intro modTime size registry heq f hf _
  cases h with
  | decoded hf' hdecode =>
    cases heq
    rw [hf'] at hf
    cases hf
    exact hdecode
  | _ => cases heq

end Loads

section Runs

variable (decode : String → Option RegistryFile)

/-- The file is saved at another time than those that others have cached or are about to. -/
def Timely (st : Processes) : Action → Prop
  | .save modTime _ =>
    (∀ holder ∈ st.holder, ∀ pair ∈ st.caches, pair.1 ≠ holder.process →
      pair.2.modTime ≠ modTime) ∧
    ∀ reader ∈ st.readers, reader.load.decodedAt ≠ some modTime
  | _ => True

def Saving (st : Processes) (process : ℕ) : Prop :=
  ∃ holder ∈ st.holder, holder.saved = true ∧ holder.process = process

structure Coherent (st : Processes) : Prop where
  cache : ∀ process, ¬ Saving st process → Fresh decode st.file (st.cache process)
  readers : ∀ reader ∈ st.readers, Sound decode st.file reader.load
  holder : ∀ holder ∈ st.holder, holder.saved = false → Loading decode st.file holder.load

def sequential (initial : Option RegistryFile) (ops : List Op) : Option RegistryFile :=
  ops.foldl (fun registry op ↦ registry.map (Op.effect · op)) initial

def Serial (initial : Option DiskFile) (st : Processes) : Prop :=
  (readRegistry decode st.file).map cloneRegistry =
    (sequential (readRegistry decode initial) st.log).map cloneRegistry

variable {decode} {st st' : Processes} {a : Action} {initial : Option DiskFile} {holder : Holder}
  {process : ℕ}

theorem coherent_start (file : Option DiskFile) : Coherent decode { file } where
  cache := nofun
  readers := nofun
  holder := nofun

theorem cache_setCache (st : Processes) (process : ℕ) (cached : Option CacheEntry) (q : ℕ) :
    (st.setCache process cached).cache q = if q = process then cached else st.cache q := by
  unfold Processes.setCache Processes.cache
  have hfilter := lookup_filter_fst (fun p ↦ decide (p ≠ process)) st.caches q
  cases cached with
  | none =>
    rw [Option.toList_none, map_nil, nil_append, hfilter]
    by_cases hq : q = process <;> simp [hq]
  | some entry =>
    rw [Option.toList_some, map_cons, map_nil, singleton_append, lookup_cons]
    by_cases hq : q = process
    · simp [hq]
    · rw [beq_false_of_ne hq, hfilter, if_neg hq, if_pos (by simpa using hq)]

theorem fresh_setCache (h : Coherent decode st) {cached : Option CacheEntry}
    (hcached : ¬ Saving st process → Fresh decode st.file cached) (q : ℕ) (hq : ¬ Saving st q) :
    Fresh decode st.file ((st.setCache process cached).cache q) := by
  rw [cache_setCache]
  split_ifs with heq
  · exact hcached (heq ▸ hq)
  · exact h.cache q hq

theorem coherent_advance (h : Coherent decode st) {reader : Reader}
    (hreader : reader ∈ st.readers) :
    Coherent decode (st.advance decode reader) where
  cache := fresh_setCache h fun hsaving ↦
    loadStep_fresh (h.cache _ hsaving) (h.readers reader hreader)
  readers := by
    intro r hr
    rcases mem_cons.mp hr with rfl | hr
    · exact loadStep_sound (st.cache reader.process) reader.load
    · exact h.readers r (mem_of_mem_erase hr)
  holder := h.holder

theorem saving_iff (hholder : st.holder = some holder) (process : ℕ) :
    Saving st process ↔ holder.saved = true ∧ holder.process = process := by
  constructor
  · rintro ⟨holder', hholder', hsaving⟩
    rw [hholder] at hholder'
    cases hholder'
    exact hsaving
  · exact fun hsaving ↦ ⟨holder, hholder, hsaving⟩

theorem coherent_load (h : Coherent decode st) (hholder : st.holder = some holder)
    (hsaved : holder.saved = false) : Coherent decode (st.load decode holder) := by
  have hloading := h.holder holder hholder hsaved
  have hsaving (process : ℕ) : ¬ Saving st process := by
    rw [saving_iff hholder, hsaved]
    exact nofun
  exact {
    cache := fun q _ ↦ fresh_setCache h
      (fun hp ↦ loadStep_fresh (h.cache _ hp) hloading.sound) q (hsaving q)
    readers := h.readers
    holder := by
      intro holder' hholder' _
      cases hholder'
      exact loadStep_loading (h.cache _ (hsaving _)) hloading }

theorem coherent_save {op : Op} {load : Load}
    (hholder : st.holder = some ⟨process, op, load, false⟩) {modTime : ℤ} {text : String}
    (htimely : Timely st (.save modTime text)) (log : List Op) :
    Coherent decode { st with
      file := some ⟨modTime, text⟩, holder := some ⟨process, op, load, true⟩, log } where
  cache := by
    intro q hq entry hentry f hf htime
    cases hf
    have hne : q ≠ process := by
      rintro rfl
      exact hq ⟨_, rfl, rfl, rfl⟩
    exact absurd htime (htimely.1 _ hholder (q, entry) (mem_of_lookup hentry) hne)
  readers := by
    intro reader hreader time size registry heq f hf htime
    cases hf
    refine absurd ?_ (htimely.2 reader hreader)
    rw [heq, htime]
    rfl
  holder := by
    intro holder hholder' hsaved
    cases hholder'
    cases hsaved

theorem coherent_release (h : Coherent decode st) {caches : List (ℕ × CacheEntry)}
    (hcache : ∀ q, caches.lookup q = none ∨ (caches.lookup q = st.cache q ∧ ¬ Saving st q))
    (log : List Op) : Coherent decode { st with caches, holder := none, log } where
  cache := by
    intro q _
    rcases hcache q with hnone | ⟨hsame, hq⟩
    · intro entry hentry
      change caches.lookup q = some entry at hentry
      rw [hnone] at hentry
      cases hentry
    · change Fresh decode st.file (caches.lookup q)
      rw [hsame]
      exact h.cache q hq
  readers := h.readers
  holder := nofun

theorem setCache_none (st : Processes) (process q : ℕ) :
    (st.setCache process none).cache q = none ∨
      ((st.setCache process none).cache q = st.cache q ∧ q ≠ process) := by
  rw [cache_setCache]
  split_ifs with hq
  · exact .inl rfl
  · exact .inr ⟨rfl, hq⟩

theorem serial_append (initial : Option RegistryFile) (ops : List Op) (op : Op) :
    sequential initial (ops ++ [op]) = (sequential initial ops).map (Op.effect · op) := by
  rw [sequential, foldl_append]
  rfl

theorem effect_loaded {file : Option DiskFile} {log : List Op} {registry : RegistryFile}
    (hserial : (readRegistry decode file).map cloneRegistry =
      (sequential (readRegistry decode initial) log).map cloneRegistry)
    (hread : (readRegistry decode file).map cloneRegistry = some (cloneRegistry registry))
    (op : Op) :
    (sequential (readRegistry decode initial) (log ++ [op])).map cloneRegistry =
      some (cloneRegistry (op.effect registry)) := by
  rw [hserial] at hread
  obtain ⟨current, hcurrent, hclone⟩ := Option.map_eq_some_iff.mp hread
  have hrun := run_alike hclone op
  rw [serial_append, hcurrent, Option.map_some, Option.map_some, Op.effect, Op.effect]
  congr 1
  cases hop : op.run registry with
  | none =>
    rw [hop, Option.map_none, Option.map_eq_none_iff] at hrun
    rw [hrun]
    exact hclone
  | some saved =>
    rw [hop] at hrun
    obtain ⟨other, hother, heq⟩ := Option.map_eq_some_iff.mp hrun
    rw [hother]
    exact heq

section Actions

variable (h : Coherent decode st) (hserial : Serial decode initial st)
include h hserial

theorem keeps_lock {process : ℕ} {op : Op} (hstep : step decode st (.lock process op) = some st') :
    Coherent decode st' ∧ Serial decode initial st' := by
  rw [step] at hstep
  split at hstep
  next hnone =>
    cases hstep
    refine ⟨⟨?_, h.readers, ?_⟩, hserial⟩
    · intro q _
      refine h.cache q ?_
      rintro ⟨holder, hholder, -⟩
      rw [hnone] at hholder
      cases hholder
    · intro holder hholder _
      cases hholder
      exact .started
  next => cases hstep

theorem keeps_save {modTime : ℤ} {text : String} (hok : Timely st (.save modTime text))
    (hstep : step decode st (.save modTime text) = some st') :
    Coherent decode st' ∧ Serial decode initial st' := by
  rw [step] at hstep
  split at hstep
  next process op registry hholder =>
    obtain ⟨⟨hsome, hdecode, -⟩, hst⟩ := Option.ite_none_right_eq_some.mp hstep
    cases hst
    refine ⟨coherent_save hholder hok _, ?_⟩
    obtain ⟨saved, hsaved⟩ := Option.isSome_iff_exists.mp hsome
    cases h.holder _ hholder rfl with
    | finished hread =>
      refine Eq.trans ?_ (effect_loaded hserial hread op).symm
      change (decode text).map cloneRegistry = _
      rw [hdecode, hsaved, Op.effect, hsaved]
      rfl
  next => cases hstep

theorem keeps_pass (hstep : step decode st .pass = some st') :
    Coherent decode st' ∧ Serial decode initial st' := by
  rw [step] at hstep
  split at hstep
  next process op registry hholder =>
    obtain ⟨hnone, hst⟩ := Option.ite_none_right_eq_some.mp hstep
    cases hst
    refine ⟨coherent_release h ?_ _, ?_⟩
    · intro q
      refine .inr ⟨rfl, ?_⟩
      rw [saving_iff hholder]
      exact nofun
    · cases h.holder _ hholder rfl with
      | finished hread =>
        refine Eq.trans ?_ (effect_loaded hserial hread op).symm
        rw [Op.effect, hnone]
        exact hread
  next => cases hstep

theorem keeps_fail {saving : Bool} (hstep : step decode st (.fail saving) = some st') :
    Coherent decode st' ∧ Serial decode initial st' := by
  rw [step] at hstep
  split at hstep
  next process op load hholder =>
    have hsaving (q : ℕ) : ¬ Saving st q := by
      rw [saving_iff hholder]
      exact nofun
    cases hstep
    cases saving with
    | true =>
      refine ⟨coherent_release h (fun q ↦ ?_) _, hserial⟩
      exact (setCache_none st process q).imp_right fun hsame ↦ ⟨hsame.1, hsaving q⟩
    | false => exact ⟨coherent_release h (fun q ↦ .inr ⟨rfl, hsaving q⟩) _, hserial⟩
  next => cases hstep

theorem keeps_unlock (hstep : step decode st .unlock = some st') :
    Coherent decode st' ∧ Serial decode initial st' := by
  rw [step] at hstep
  split at hstep
  next process op load hholder =>
    cases hstep
    refine ⟨coherent_release h (fun q ↦ ?_) _, hserial⟩
    refine (setCache_none st process q).imp_right fun hsame ↦ ⟨hsame.1, ?_⟩
    rw [saving_iff hholder]
    exact fun hsaving ↦ hsame.2 hsaving.2.symm
  next => cases hstep

theorem step_keeps (hok : Timely st a) (hstep : step decode st a = some st') :
    Coherent decode st' ∧ Serial decode initial st' := by
  cases a with
  | read process =>
    cases hstep
    refine ⟨{ h with readers := ?_ }, hserial⟩
    intro reader hreader
    rcases mem_cons.mp hreader with rfl | hreader
    · exact nofun
    · exact h.readers reader hreader
  | advance reader =>
    obtain ⟨hreader, hst⟩ := Option.ite_none_right_eq_some.mp hstep
    cases hst
    exact ⟨coherent_advance h hreader, hserial⟩
  | lock process op => exact keeps_lock h hserial hstep
  | load =>
    rw [step] at hstep
    split at hstep
    next holder hholder =>
      split_ifs at hstep with hsaved
      cases hstep
      exact ⟨coherent_load h hholder (by simpa using hsaved), hserial⟩
    next => cases hstep
  | save modTime text => exact keeps_save h hserial hok hstep
  | pass => exact keeps_pass h hserial hstep
  | fail saving => exact keeps_fail h hserial hstep
  | unlock => exact keeps_unlock h hserial hstep

end Actions

/-- In every run in which each save comes at a time of its own, no update is lost. -/
theorem timely_updates_serial (decode : String → Option RegistryFile) (file : Option DiskFile)
    (actions : List Action) (h : Obeys (step decode) Timely actions { file }) :
    Always (step decode) (Serial decode file) actions { file } := by
  have hkeeps : Always (step decode) (fun st ↦ Coherent decode st ∧ Serial decode file st) actions
      { file } :=
    always_of_obeys (fun _ _ _ hst hok hstep ↦ step_keeps hst.1 hst.2 hok hstep)
      ⟨coherent_start file, rfl⟩ h
  exact hkeeps.mono fun _ hst ↦ hst.2

end Runs

section Samples

instance (st : Processes) (a : Action) : Decidable (Timely st a) :=
  match a with
  | .save modTime _ => inferInstanceAs (Decidable (
      (∀ holder ∈ st.holder, ∀ pair ∈ st.caches, pair.1 ≠ holder.process →
        pair.2.modTime ≠ modTime) ∧
      ∀ reader ∈ st.readers, reader.load.decodedAt ≠ some modTime))
  | .read _ | .advance _ | .lock _ _ | .load | .pass | .fail _ | .unlock => isTrue trivial

instance (decode : String → Option RegistryFile) (initial : Option DiskFile) (st : Processes) :
    Decidable (Serial decode initial st) :=
  inferInstanceAs (Decidable (_ = _))

def sampleRegistry (last first : String) (second : List (String × Registration)) : RegistryFile :=
  ⟨last, ("api", { root := first }) :: second⟩

def sampleWeb : List (String × Registration) := [("web", { root := "/web" })]

def sampleDecode (text : String) : Option RegistryFile :=
  [("a", sampleRegistry "api" "/old" []), ("b", sampleRegistry "api" "/new" []),
    ("c", sampleRegistry "web" "/old" sampleWeb),
    ("d", sampleRegistry "web" "/new" sampleWeb)].lookup text

def sampleRun (times : ℤ × ℤ × ℤ) (loads : ℕ) (text : String) : List Action :=
  [.lock 1 (.register "api" { root := "/old" }), .load, .save times.1 "a", .unlock, .read 0,
    .advance ⟨0, .started⟩, .advance ⟨0, .statted times.1 1⟩, .advance ⟨0, .missed times.1 1⟩,
    .advance ⟨0, .decoded times.1 1 (sampleRegistry "api" "/old" [])⟩,
    .lock 1 (.register "api" { root := "/new" }), .load, .load, .load, .load,
    .save times.2.1 "b", .unlock, .lock 0 (.register "web" { root := "/web" })] ++
    List.replicate loads .load ++ [.save times.2.2 text, .unlock]

theorem spaced_updates_serial :
    ((sampleRun (5, 6, 7) 4 "d").foldlM (step sampleDecode) { file := none }).isSome ∧
      Always (step sampleDecode) (Serial sampleDecode none) (sampleRun (5, 6, 7) 4 "d")
        { file := none } :=
  ⟨by decide +kernel, timely_updates_serial sampleDecode none _ (obeys_of_run (by decide +kernel))⟩

/-- Two saves of one size within a tick: the second is lost to a process that has read the first. -/
theorem update_lost_within_tick :
    ¬Always (step sampleDecode) (Serial sampleDecode none) (sampleRun (5, 5, 6) 2 "c")
      { file := none } := by
  refine not_always_of_end (fun st ↦ !decide (Serial sampleDecode none st)) ?_ (by decide +kernel)
  intro st hst
  simpa using hst

end Samples

end MiLsp.Registry
