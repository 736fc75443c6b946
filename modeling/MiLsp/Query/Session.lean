import MiLsp.Query.Primitives

namespace MiLsp.Query

open Library Option

abbrev Revisions := Table (Prod.fst : String × String → String)

structure SessionRevision where
  mark : ℕ
  id : String
  rev : String

structure SessionEntry where
  mark : ℕ
  touched : ℤ
  delivered : Revisions
  history : List SessionRevision
  snapshots : Table (Prod.fst : ℕ × Revisions → ℕ)
  dedupe : Table (Prod.fst : String × Revisions → String)
  dedupeKeys : List String

structure SessionState where
  entries : Table (Prod.fst : String × SessionEntry → String)

def sessionLimit : ℕ := 200

def sessionIdle : ℤ := 30 * 60 * 1000000000

/-- What Go leaves open: the order of sessions touched at once, and which identifier a map gives
first. -/
structure SessionHost where
  oldestFirst : List (String × SessionEntry) → List (String × SessionEntry)
  oldestFirst_perm : ∀ l, (oldestFirst l).Perm l
  oldestFirst_sorted : ∀ l, (oldestFirst l).Pairwise fun a b ↦ a.2.touched ≤ b.2.touched
  firstKey : Revisions → String
  firstKey_mem : ∀ t : Revisions, t.rows ≠ [] → firstKey t ∈ t.rows.map Prod.fst

variable (host : SessionHost) (qhost : QHost)

def SessionEntry.new : SessionEntry := ⟨0, 0, .empty, [], .empty, .empty, []⟩

def SessionState.new : SessionState := ⟨.empty⟩

variable (s : SessionState)

def SessionState.expire (now : ℤ) : SessionState :=
  ⟨s.entries.delete fun e ↦ sessionIdle < now - e.2.touched⟩

variable (session : String)

def SessionState.evict : SessionState :=
  if sessionLimit < s.entries.rows.length then
    let ids := (host.oldestFirst (s.entries.rows.filter (·.1 ≠ session))).map Prod.fst
    ⟨s.entries.delete fun e ↦ e.1 ∈ ids.take (s.entries.rows.length - sessionLimit)⟩
  else s

def SessionState.set (e : SessionEntry) : SessionState :=
  ⟨s.entries.put (session, e)⟩

def SessionState.entry (now : ℤ) : SessionEntry × SessionState :=
  let s := s.expire now
  let e := { ((s.entries.find? session).map Prod.snd).getD .new with touched := now }
  (e, (s.set session e).evict host session)

variable (e : SessionEntry)

def SessionEntry.nextMark : SessionEntry :=
  let mark := e.mark + 1
  { e with
    mark
    snapshots := (e.snapshots.put (mark, e.delivered)).delete fun s ↦ s.1 + 64 < mark }

def SessionState.nextMark (s : SessionState) (session : String) (now : ℤ) : ℕ × SessionState :=
  if session = "" then (0, s)
  else
    let (e, s) := s.entry host session now
    let e := e.nextMark
    (e.mark, s.set session e)

def SessionState.seen (session id rev : String) (now : ℤ) : Bool × SessionState :=
  if session = "" ∨ id = "" ∨ rev = "" then (false, s)
  else
    let (e, s) := s.entry host session now
    ((e.delivered.find? id).map Prod.snd = some rev, s)

def trimHistory (history : List SessionRevision) : List SessionRevision :=
  if 4096 < history.length then history.drop (history.length - 2048) else history

def SessionEntry.remember (id rev : String) : SessionEntry :=
  if (e.delivered.find? id).map Prod.snd = some rev then e
  else
    { e with
      mark := e.mark + 1
      delivered := e.delivered.put (id, rev)
      history := trimHistory (e.history ++ [⟨e.mark + 1, id, rev⟩]) }

def SessionState.remember (s : SessionState) (session : String) (item : QItem) (now : ℤ) :
    SessionState :=
  if session = "" ∨ item.id = "" ∨ item.rev qhost = "" then s
  else
    let (e, s) := s.entry host session now
    s.set session (e.remember item.id (item.rev qhost))

def sortByID (items : List QItem) : List QItem := items.insertionSort fun a b ↦ a.id ≤ b.id

def SessionEntry.changedCandidates (since : ℕ) : List QItem :=
  let snapshot := ((e.snapshots.find? since).map Prod.snd).getD .empty
  sortByID (snapshot.rows.map fun row ↦ { id := row.1, revision := row.2, origin := "catalog" })

def SessionState.changedCandidates (s : SessionState) (session : String) (since : ℕ) (now : ℤ) :
    List QItem × SessionState :=
  if session = "" then ([], s)
  else
    let (e, s) := s.entry host session now
    (e.changedCandidates since, s)

def SessionEntry.filterDedupe (key : String) (items : List QItem) : List QItem :=
  match e.dedupe.find? key with
  | none => items
  | some (_, known) =>
    -- a missing identifier reads as the empty revision
    items.filter fun item ↦ ((known.find? item.id).map Prod.snd).getD "" ≠ item.rev qhost

def SessionState.filterDedupe (s : SessionState) (session key : String) (items : List QItem)
    (now : ℤ) : List QItem × SessionState :=
  if session = "" ∨ key = "" then (items, s)
  else
    let (e, s) := s.entry host session now
    (e.filterDedupe qhost key items, s)

def rememberSent (known : Revisions) (item : QItem) : Revisions :=
  if item.id = "" then known
  else if (known.find? item.id).isNone ∧ 4096 ≤ known.rows.length then
    (known.delete fun row ↦ row.1 = host.firstKey known).put (item.id, item.rev qhost)
  else known.put (item.id, item.rev qhost)

def SessionEntry.rememberDedupe (key : String) (items : List QItem) : SessionEntry :=
  let e := match e.dedupe.find? key, e.dedupeKeys with
    | some _, _ => e
    | none, [] => { e with dedupeKeys := [key], dedupe := e.dedupe.put (key, .empty) }
    | none, oldest :: keys =>
      if 32 ≤ e.dedupeKeys.length then
        { e with
          dedupeKeys := keys ++ [key]
          dedupe := (e.dedupe.delete fun row ↦ row.1 = oldest).put (key, .empty) }
      else
        { e with dedupeKeys := e.dedupeKeys ++ [key], dedupe := e.dedupe.put (key, .empty) }
  let known := ((e.dedupe.find? key).map Prod.snd).getD .empty
  { e with dedupe := e.dedupe.put (key, items.foldl (rememberSent host qhost) known) }

def SessionState.rememberDedupe (s : SessionState) (session key : String) (items : List QItem)
    (now : ℤ) : SessionState :=
  if session = "" ∨ key = "" ∨ items.isEmpty then s
  else
    let (e, s) := s.entry host session now
    s.set session (e.rememberDedupe host qhost key items)

@[simp]
theorem SessionState.find?_set (session : String) (e : SessionEntry)
    (other : String) : (s.set session e).entries.find? other =
      if session = other then some (session, e) else s.entries.find? other :=
  s.entries.find?_put (session, e) other

theorem SessionState.find?_expire (now : ℤ) (session : String) :
    (s.expire now).entries.find? session =
      (s.entries.find? session).filter fun e ↦ now - e.2.touched ≤ sessionIdle := by
  rw [expire, Table.find?_delete]
  congr 1
  funext e
  simp only [← decide_not, not_lt]

theorem SessionState.find?_evict {caller session : String}
    (h : ∀ e, s.entries.find? session = some e →
      session = caller ∨ ((s.evict host caller).entries.find? session).isSome) :
    (s.evict host caller).entries.find? session = s.entries.find? session := by
  unfold evict at h ⊢
  split_ifs at h ⊢ with hlimit
  · rw [Table.find?_delete] at h ⊢
    cases hfind : s.entries.find? session with
    | none => rfl
    | some e =>
      rw [hfind] at h
      rw [filter_eq_some_iff]
      refine ⟨rfl, ?_⟩
      obtain rfl | hkept := h e rfl
      · have hkey : e.1 = session := Table.key_of_find? hfind
        simp only [Bool.not_eq_true', decide_eq_false_iff_not]
        intro hmem
        obtain ⟨e', he', heq⟩ := List.mem_map.mp (List.mem_of_mem_take hmem)
        have hother := (List.mem_filter.mp ((host.oldestFirst_perm _).mem_iff.mp he')).2
        simp [heq, hkey] at hother
      · obtain ⟨e', he'⟩ := isSome_iff_exists.mp hkept
        obtain ⟨heq, hkeep⟩ := filter_eq_some_iff.mp he'
        cases heq
        exact hkeep
  · rfl

theorem SessionState.find?_entry_self (session : String) (now : ℤ) :
    (s.entry host session now).2.entries.find? session =
      some (session, (s.entry host session now).1) := by
  rw [entry]
  rw [find?_evict host _ fun _ _ ↦ .inl rfl, find?_set, if_pos rfl]

theorem SessionState.find?_entry_other {caller session : String} {now : ℤ} (hne : caller ≠ session)
    (hkept : ∀ e, s.entries.find? session = some e →
      ((s.entry host caller now).2.entries.find? session).isSome) :
    (s.entry host caller now).2.entries.find? session = (s.expire now).entries.find? session := by
  rw [entry] at hkept ⊢
  rw [find?_evict host _ ?_, find?_set, if_neg hne]
  intro e he
  rw [find?_set, if_neg hne, find?_expire] at he
  exact .inr (hkept e (filter_eq_some_iff.mp he).1)

end MiLsp.Query
