import Mathlib.Data.List.Nodup

namespace MiLsp.Library

open List

variable {ρ κ : Type} {key : ρ → κ}

structure Table (key : ρ → κ) where
  rows : List ρ
  nodup : (rows.map key).Nodup

namespace Table

variable {t t' : Table key} {p : ρ → Bool} {f : ρ → ρ} {k : κ} {r : ρ}
  {hf : ∀ r, key (f r) = key r}

def empty : Table key := ⟨[], nodup_nil⟩

variable [DecidableEq κ]

def find? (t : Table key) (k : κ) : Option ρ := t.rows.find? (fun r ↦ key r = k)

def insert? (t : Table key) (r : ρ) : Option (Table key) :=
  if h : key r ∈ t.rows.map key then none
  else some ⟨t.rows ++ [r], by
    rw [map_append, nodup_append]
    refine ⟨t.nodup, by simp, ?_⟩
    intro a ha b hb
    simp only [map_cons, map_nil, mem_singleton] at hb
    rintro rfl
    exact h (hb ▸ ha)⟩

omit [DecidableEq κ] in
theorem map_key_ite (hf : ∀ r, key (f r) = key r) (l : List ρ) :
    (l.map fun r ↦ if p r then f r else r).map key = l.map key := by
  rw [map_map]
  refine map_congr_left fun r _ ↦ ?_
  simp only [Function.comp_apply]
  split
  · exact hf r
  · rfl

/-- `UPDATE … SET f WHERE p`, for an assignment `f` that leaves the key alone. -/
def update (t : Table key) (p : ρ → Bool) (f : ρ → ρ) (hf : ∀ r, key (f r) = key r) : Table key :=
  ⟨t.rows.map fun r ↦ if p r then f r else r, by
    rw [map_key_ite hf]
    exact t.nodup⟩

def count (t : Table key) (p : ρ → Bool) : ℕ := t.rows.countP p

def updateOne (t : Table key) (p : ρ → Bool) (f : ρ → ρ) (hf : ∀ r, key (f r) = key r) :
    Option (Table key) :=
  if t.count p = 1 then some (t.update p f hf) else none

def delete (t : Table key) (p : ρ → Bool) : Table key :=
  ⟨t.rows.filter fun r ↦ !p r, (filter_sublist.map key).nodup t.nodup⟩

/-- Assignment to a key: the row replaces the one with its key, if there is one. -/
def put (t : Table key) (r : ρ) : Table key :=
  ⟨t.rows.filter (fun r' ↦ key r' ≠ key r) ++ [r], by
    rw [map_append, nodup_append]
    refine ⟨(filter_sublist.map key).nodup t.nodup, by simp, ?_⟩
    intro a ha b hb
    obtain ⟨r', hr', rfl⟩ := mem_map.mp ha
    simp only [map_cons, map_nil, mem_singleton] at hb
    subst hb
    simpa using (mem_filter.mp hr').2⟩

theorem key_of_find? (h : t.find? k = some r) : key r = k := by
  have hr := find?_some h
  simpa using hr

theorem mem_of_find? (h : t.find? k = some r) : r ∈ t.rows :=
  mem_of_find?_eq_some h

theorem find?_of_mem (h : r ∈ t.rows) : t.find? (key r) = some r := by
  obtain ⟨r', hr'⟩ : ∃ r', t.find? (key r) = some r' := by
    refine Option.isSome_iff_exists.mp (find?_isSome.mpr ⟨r, h, by simp⟩)
  rw [hr', inj_on_of_nodup_map t.nodup (mem_of_find? hr') h (key_of_find? hr')]

theorem find?_eq_some_iff : t.find? k = some r ↔ r ∈ t.rows ∧ key r = k :=
  ⟨fun h ↦ ⟨mem_of_find? h, key_of_find? h⟩, fun h ↦ h.2 ▸ find?_of_mem h.1⟩

theorem find?_eq_none_iff : t.find? k = none ↔ k ∉ t.rows.map key := by
  simp [find?]

@[simp]
theorem find?_empty (k : κ) : (empty : Table key).find? k = none := rfl

@[simp]
theorem find?_update (t : Table key) (p : ρ → Bool) (f : ρ → ρ) (hf : ∀ r, key (f r) = key r)
    (k : κ) : (t.update p f hf).find? k = (t.find? k).map fun r ↦ if p r then f r else r := by
  simp only [find?, update, find?_map]
  congr 2
  funext r
  simp only [Function.comp_apply]
  split
  · rw [hf r]
  · rfl

theorem insert?_eq_some (h : t.insert? r = some t') :
    t.find? (key r) = none ∧ t'.rows = t.rows ++ [r] := by
  unfold insert? at h
  split at h
  · cases h
  next hk =>
    cases h
    exact ⟨find?_eq_none_iff.mpr hk, rfl⟩

theorem insert?_of_fresh (h : t.find? (key r) = none) : ∃ t', t.insert? r = some t' := by
  unfold insert?
  rw [dif_neg (find?_eq_none_iff.mp h)]
  exact ⟨_, rfl⟩

theorem find?_insert (h : t.insert? r = some t') (k : κ) :
    t'.find? k = if key r = k then some r else t.find? k := by
  obtain ⟨hfresh, hrows⟩ := insert?_eq_some h
  simp only [find?, hrows, find?_append]
  split
  next hk =>
    subst hk
    have hnone : t.rows.find? (fun r' ↦ key r' = key r) = none := hfresh
    simp [hnone]
  next hk => simp [hk]

theorem mem_put {r' : ρ} : r' ∈ (t.put r).rows ↔ r' ∈ t.rows ∧ key r' ≠ key r ∨ r' = r := by
  simp [put]

@[simp]
theorem find?_put (t : Table key) (r : ρ) (k : κ) :
    (t.put r).find? k = if key r = k then some r else t.find? k := by
  split
  next hk => exact find?_eq_some_iff.mpr ⟨mem_put.mpr (.inr rfl), hk⟩
  next hk =>
    ext r'
    rw [find?_eq_some_iff, find?_eq_some_iff, mem_put]
    constructor
    · rintro ⟨⟨hr', -⟩ | rfl, rfl⟩
      · exact ⟨hr', rfl⟩
      · exact absurd rfl hk
    · rintro ⟨hr', rfl⟩
      exact ⟨.inl ⟨hr', Ne.symm hk⟩, rfl⟩

theorem find?_delete (t : Table key) (p : ρ → Bool) (k : κ) :
    (t.delete p).find? k = (t.find? k).filter fun r ↦ !p r := by
  ext r
  rw [find?_eq_some_iff, Option.filter_eq_some_iff, find?_eq_some_iff]
  simp only [delete, mem_filter]
  exact and_right_comm

theorem find?_delete_key (t : Table key) (k₀ k : κ) :
    (t.delete fun r ↦ key r = k₀).find? k = if k = k₀ then none else t.find? k := by
  split
  next hk =>
    rw [find?_eq_none_iff]
    simp [delete, hk]
  next hk =>
    ext r
    rw [find?_eq_some_iff, find?_eq_some_iff]
    simp only [delete, mem_filter]
    constructor
    · rintro ⟨⟨hr, -⟩, hkey⟩
      exact ⟨hr, hkey⟩
    · rintro ⟨hr, hkey⟩
      exact ⟨⟨hr, by simp [hkey, hk]⟩, hkey⟩

def insertNew (t : Table key) (r : ρ) : Table key := (t.insert? r).getD t

theorem find?_insertNew (t : Table key) (r : ρ) (k : κ) :
    (t.insertNew r).find? k = (t.find? k).or (if key r = k then some r else none) := by
  unfold insertNew
  cases hfind : t.find? (key r) with
  | none =>
    obtain ⟨t', ht'⟩ := insert?_of_fresh hfind
    rw [ht', Option.getD_some, find?_insert ht']
    split
    next hk =>
      subst hk
      simp [hfind]
    · simp
  | some r' =>
    have hnone : t.insert? r = none := by
      cases h : t.insert? r with
      | none => rfl
      | some t' => simp [(insert?_eq_some h).1] at hfind
    rw [hnone, Option.getD_none]
    split
    next hk =>
      subst hk
      simp [hfind]
    · simp

omit [DecidableEq κ] in
theorem count_le_one (hp : ∀ r ∈ t.rows, p r = true → key r = k) : t.count p ≤ 1 := by
  have hsub : ((t.rows.filter p).map key).Nodup := (filter_sublist.map key).nodup t.nodup
  have hall : ∀ x ∈ (t.rows.filter p).map key, x = k := by
    intro x hx
    obtain ⟨r, hr, rfl⟩ := mem_map.mp hx
    obtain ⟨hmem, hpr⟩ := mem_filter.mp hr
    exact hp r hmem hpr
  rw [count, countP_eq_length_filter, ← length_map key]
  rw [eq_replicate_of_mem hall, nodup_replicate] at hsub
  exact hsub

omit [DecidableEq κ] in
theorem count_pos_iff :
    0 < t.count p ↔ ∃ r ∈ t.rows, p r = true := countP_pos_iff

theorem count_eq_one_iff (hp : ∀ r ∈ t.rows, p r = true → key r = k) :
    t.count p = 1 ↔ ∃ r, t.find? k = some r ∧ p r = true := by
  have hle := count_le_one hp
  constructor
  · intro h
    obtain ⟨r, hr, hpr⟩ := count_pos_iff.mp (show 0 < t.count p by omega)
    exact ⟨r, find?_eq_some_iff.mpr ⟨hr, hp r hr hpr⟩, hpr⟩
  · rintro ⟨r, hr, hpr⟩
    have hpos := count_pos_iff.mpr ⟨r, mem_of_find? hr, hpr⟩
    omega

theorem updateOne_eq_some (hp : ∀ r, p r = true → key r = k) :
    t.updateOne p f hf = some t' ↔
      (∃ r, t.find? k = some r ∧ p r = true) ∧ t' = t.update p f hf := by
  rw [← count_eq_one_iff fun r _ ↦ hp r]
  unfold updateOne
  split
  next h =>
    rw [Option.some.injEq, eq_comm]
    exact ⟨fun ht ↦ ⟨h, ht⟩, fun ht ↦ ht.2⟩
  next h => simp [h]

theorem updateOne_eq_some_unique :
    t.updateOne p f hf = some t' ↔
      (∃ r ∈ t.rows, p r = true ∧ ∀ r' ∈ t.rows, p r' = true → r' = r) ∧ t' = t.update p f hf := by
  have hcount : t.count p = 1 ↔ ∃ r ∈ t.rows, p r = true ∧ ∀ r' ∈ t.rows, p r' = true → r' = r := by
    constructor
    · intro h
      obtain ⟨r, hr⟩ := length_eq_one_iff.mp (countP_eq_length_filter.symm.trans h)
      have hmem : ∀ r', r' ∈ t.rows ∧ p r' = true ↔ r' = r := by
        intro r'
        rw [← mem_filter, hr, mem_singleton]
      obtain ⟨hr, hpr⟩ := (hmem r).mpr rfl
      exact ⟨r, hr, hpr, fun r' hr' hpr' ↦ (hmem r').mp ⟨hr', hpr'⟩⟩
    · rintro ⟨r, hr, hpr, hunique⟩
      exact (count_eq_one_iff fun r' hr' hpr' ↦ congrArg key (hunique r' hr' hpr')).mpr
        ⟨r, find?_of_mem hr, hpr⟩
  rw [← hcount]
  unfold updateOne
  split
  next h =>
    rw [Option.some.injEq, eq_comm]
    exact ⟨fun ht ↦ ⟨h, ht⟩, fun ht ↦ ht.2⟩
  next h => simp [h]

omit [DecidableEq κ] in
theorem map_updateOne {τ : Type} (h : t.updateOne p f hf = some t') {π : ρ → τ}
    (hπ : ∀ r, π (f r) = π r) : t'.rows.map π = t.rows.map π := by
  unfold updateOne at h
  split at h
  · cases h
    exact map_key_ite hπ t.rows
  · cases h

def Sets (t t' : Table key) (r : ρ) : Prop :=
  ∀ k, t'.find? k = if key r = k then some r else t.find? k

theorem Sets.of_put (t : Table key) (r : ρ) : t.Sets (t.put r) r := t.find?_put r

theorem Sets.of_insert (h : t.insert? r = some t') : t.Sets t' r :=
  find?_insert h

theorem Sets.of_update (hf : ∀ r, key (f r) = key r) (hr : r ∈ t.rows) (hpr : p r = true)
    (hunique : ∀ r' ∈ t.rows, p r' = true → r' = r) : t.Sets (t.update p f hf) (f r) := by
  intro k
  rw [find?_update, hf r]
  split
  next hk => rw [← hk, find?_of_mem hr, Option.map_some, if_pos hpr]
  next hk =>
    cases h : t.find? k with
    | none => rfl
    | some r' =>
      have hr' : ¬p r' = true := by
        intro hpr'
        rw [← key_of_find? h, hunique r' (mem_of_find? h) hpr'] at hk
        exact hk rfl
      rw [Option.map_some, if_neg hr']

theorem Sets.find? (h : t.Sets t' r) : t'.find? (key r) = some r := by
  rw [h (key r), if_pos rfl]

theorem Sets.find?_of_ne (h : t.Sets t' r) (hk : key r ≠ k) : t'.find? k = t.find? k := by
  rw [h k, if_neg hk]

theorem Sets.trans {t₁ t₂ : Table key} {r' : ρ} (h : t.Sets t₁ r) (h' : t₁.Sets t₂ r')
    (hk : key r' = key r) : t.Sets t₂ r' := by
  intro k
  rw [h' k, h k, hk]
  split
  · rfl
  · rfl

end Table

end MiLsp.Library
