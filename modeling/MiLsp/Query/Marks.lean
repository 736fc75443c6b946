import MiLsp.Query.Session

namespace MiLsp.Query

open Library List SessionState Table

inductive MarkCall
  | nextMark
  | remember (item : QItem)
  | seen (id rev : String)

def MarkCall.isNextMark : MarkCall → Bool
  | nextMark => true
  | _ => false

variable (host : SessionHost) (qhost : QHost)

def MarkCall.records : MarkCall → Option (String × String)
  | remember item =>
    if item.id = "" ∨ item.rev qhost = "" then none else some (item.id, item.rev qhost)
  | _ => none

def remembered (calls : List MarkCall) : String → Option String :=
  calls.foldl (fun known call ↦ match call.records qhost with
    | some (id, rev) => Function.update known id (some rev)
    | none => known) fun _ ↦ none

def Advances (before : List MarkCall) (call : MarkCall) : Prop :=
  call.isNextMark ∨ ∃ r ∈ call.records qhost, remembered qhost before r.1 ≠ some r.2

instance (before : List MarkCall) (call : MarkCall) : Decidable (Advances qhost before call) :=
  inferInstanceAs (Decidable (_ ∨ _))

def advances (before : List MarkCall) : List MarkCall → ℕ
  | [] => 0
  | call :: rest =>
    (if Advances qhost before call then 1 else 0) + advances (before ++ [call]) rest

/-- From the mark after `before` up to any later one, the counter moves at most 64 times. -/
def Recent (before after : List MarkCall) : Prop :=
  ∀ a b, after = a ++ .nextMark :: b →
    advances qhost (before ++ [.nextMark]) (a ++ [.nextMark]) ≤ 64

def SessionEntry.call (e : SessionEntry) (call : MarkCall) : SessionEntry :=
  match call with
  | .nextMark => e.nextMark
  | .remember item =>
    if item.id = "" ∨ item.rev qhost = "" then e else e.remember item.id (item.rev qhost)
  | .seen _ _ => e

def SessionEntry.after (calls : List MarkCall) : SessionEntry :=
  calls.foldl (SessionEntry.call qhost) .new

section Entry

variable {qhost}

theorem remembered_concat (calls : List MarkCall) (call : MarkCall) :
    remembered qhost (calls ++ [call]) = match call.records qhost with
      | some (id, rev) => Function.update (remembered qhost calls) id (some rev)
      | none => remembered qhost calls := by
  rw [remembered, foldl_append]
  rfl

variable (before calls : List MarkCall)

theorem advances_concat (call : MarkCall) : advances qhost before (calls ++ [call]) =
      advances qhost before calls + if Advances qhost (before ++ calls) call then 1 else 0 := by
  induction calls generalizing before with
  | nil => simp [advances]
  | cons c calls ih =>
    rw [cons_append, advances, advances, ih, append_assoc, singleton_append]
    omega

variable {call : MarkCall}

theorem advances_le_length : advances qhost before calls ≤ calls.length := by
  induction calls generalizing before with
  | nil => rfl
  | cons c calls ih =>
    have hrest := ih (before ++ [c])
    rw [advances, length_cons]
    split_ifs <;> omega

theorem recent_of_length_le {before after : List MarkCall} (h : after.length ≤ 64) :
    Recent qhost before after := by
  rintro a b rfl
  have hle := @advances_le_length qhost (before ++ [.nextMark]) (a ++ [.nextMark])
  simp only [length_append, length_cons, length_nil] at h hle
  omega

theorem recent_concat {before after : List MarkCall} :
    Recent qhost before (after ++ [call]) ↔ Recent qhost before after ∧
      (call = .nextMark → advances qhost (before ++ [.nextMark]) (after ++ [.nextMark]) ≤ 64) := by
  constructor
  · intro h
    refine ⟨fun a b hsplit ↦ h a (b ++ [call]) (by rw [hsplit]; simp), ?_⟩
    rintro rfl
    exact h after [] rfl
  · rintro ⟨hbefore, hlast⟩ a b hsplit
    -- the request is either the last call or one before it
    rcases eq_nil_or_concat b with rfl | ⟨b, c, rfl⟩
    · obtain ⟨rfl, hcall⟩ := append_inj' hsplit rfl
      exact hlast (by simpa using hcall)
    · rw [concat_eq_append, ← cons_append, ← append_assoc] at hsplit
      exact hbefore a b (append_inj' hsplit rfl).1

namespace SessionEntry

variable (calls : List MarkCall)

theorem after_concat (call : MarkCall) :
    after qhost (calls ++ [call]) = (after qhost calls).call qhost call := by
  rw [after, foldl_append]
  rfl

theorem call_of_records {id rev : String} (e : SessionEntry)
    (h : call.records qhost = some (id, rev)) : e.call qhost call = e.remember id rev := by
  cases call with
  | remember item =>
    simp only [MarkCall.records] at h
    split_ifs at h with hempty
    obtain ⟨rfl, rfl⟩ := Prod.mk.inj (Option.some.inj h)
    exact if_neg hempty
  | nextMark => cases h
  | seen id rev => cases h

variable (e : SessionEntry)

theorem call_of_none
    (hmark : call.isNextMark = false) (h : call.records qhost = none) : e.call qhost call = e := by
  cases call with
  | remember item =>
    simp only [MarkCall.records] at h
    split_ifs at h with hempty
    simp only [call, if_pos hempty]
  | nextMark => cases hmark
  | seen id rev => rfl

theorem find?_delivered_remember (id rev other : String) :
    (((e.remember id rev).delivered.find? other).map Prod.snd) =
      if other = id then some rev else (e.delivered.find? other).map Prod.snd := by
  unfold remember
  split_ifs with hsame hid hid
  · rw [hid, hsame]
  · rfl
  · simp [hid]
  · simp [Ne.symm hid]

theorem find?_delivered_after (id : String) :
    ((after qhost calls).delivered.find? id).map Prod.snd =
      remembered qhost calls id := by
  induction calls using List.reverseRecOn with
  | nil => rfl
  | append_singleton calls call ih =>
    rw [after_concat, remembered_concat]
    cases hrec : call.records qhost with
    | some r =>
      rw [call_of_records _ hrec, find?_delivered_remember, ih]
      exact (Function.update_apply _ _ _ _).symm
    | none =>
      cases call with
      | nextMark => exact ih
      | remember item => rw [call_of_none _ rfl hrec, ih]
      | seen id rev => exact ih

theorem mark_concat (call : MarkCall) : (after qhost (calls ++ [call])).mark =
      (after qhost calls).mark + if Advances qhost calls call then 1 else 0 := by
  rw [after_concat]
  cases hrec : call.records qhost with
  | some r =>
    have hmark : call.isNextMark = false := by
      cases call with
      | nextMark => cases hrec
      | remember item => rfl
      | seen id rev => rfl
    have hadv : Advances qhost calls call ↔ remembered qhost calls r.1 ≠ some r.2 := by
      simp [Advances, hmark, hrec]
    rw [call_of_records _ hrec, remember, find?_delivered_after]
    by_cases hsame : remembered qhost calls r.1 = some r.2
    · rw [if_pos hsame, if_neg (hadv.not.mpr (not_not.mpr hsame)), Nat.add_zero]
    · rw [if_neg hsame, if_pos (hadv.mpr hsame)]
  | none =>
    cases hmark : call.isNextMark with
    | true =>
      cases call with
      | nextMark => rw [if_pos (.inl rfl)]; rfl
      | remember item => cases hmark
      | seen id rev => cases hmark
    | false =>
      rw [call_of_none _ hmark hrec, if_neg, Nat.add_zero]
      simp [Advances, hmark, hrec]

theorem mark_after (before calls : List MarkCall) :
    (after qhost (before ++ calls)).mark =
      (after qhost before).mark + advances qhost before calls := by
  induction calls using List.reverseRecOn with
  | nil => simp [advances]
  | append_singleton calls call ih =>
    rw [← append_assoc, mark_concat, ih, advances_concat]
    omega

theorem snapshots_call
    (h : call.isNextMark = false) : (e.call qhost call).snapshots = e.snapshots := by
  cases hrec : call.records qhost with
  | none => rw [call_of_none e h hrec]
  | some r =>
    rw [call_of_records e hrec, remember]
    split_ifs <;> rfl

theorem find?_snapshots_nextMark {m : ℕ} (hm : m ≤ e.mark) : e.nextMark.snapshots.find? m =
      if e.mark + 1 ≤ m + 64 then e.snapshots.find? m else none := by
  rw [nextMark]
  rw [find?_delete, find?_put, if_neg (show e.mark + 1 ≠ m by omega)]
  cases hfind : e.snapshots.find? m with
  | none => simp
  | some s =>
    have hkey : s.1 = m := key_of_find? hfind
    simp only [Option.filter_some, hkey, ← decide_not, not_lt, decide_eq_true_eq]

theorem find?_snapshots_nextMark_self :
    e.nextMark.snapshots.find? (e.mark + 1) = some (e.mark + 1, e.delivered) := by
  rw [nextMark]
  rw [find?_delete, find?_put, if_pos rfl]
  have hkept : ¬e.mark + 1 + 64 < e.mark + 1 := by omega
  rw [Option.filter_some, decide_eq_false hkept]
  rfl

open Classical in
theorem find?_snapshots_after (before later : List MarkCall) :
    (after qhost (before ++ .nextMark :: later)).snapshots.find?
        ((after qhost before).mark + 1) =
      if Recent qhost before later then
        some ((after qhost before).mark + 1, (after qhost before).delivered)
      else none := by
  induction later using List.reverseRecOn with
  | nil =>
    rw [after_concat, if_pos (recent_of_length_le (Nat.zero_le _))]
    exact find?_snapshots_nextMark_self _
  | append_singleton later call ih =>
    have hassoc : before ++ .nextMark :: (later ++ [call]) =
        (before ++ .nextMark :: later) ++ [call] := by simp
    rw [hassoc, after_concat]
    cases hmark : call.isNextMark with
    | false =>
      rw [snapshots_call _ hmark, ih]
      have hrecent : Recent qhost before (later ++ [call]) ↔ Recent qhost before later := by
        rw [recent_concat]
        refine and_iff_left ?_
        rintro rfl
        cases hmark
      simp only [hrecent]
    | true =>
      obtain rfl : call = .nextMark := by
        cases call with
        | nextMark => rfl
        | remember item => cases hmark
        | seen id rev => cases hmark
      have hcount : (after qhost (before ++ .nextMark :: later)).mark + 1 =
          (after qhost before).mark + 1 +
            advances qhost (before ++ [.nextMark]) (later ++ [.nextMark]) := by
        have hlast := @mark_concat qhost (before ++ .nextMark :: later) .nextMark
        rw [if_pos (.inl rfl)] at hlast
        rw [← hlast, show before ++ .nextMark :: later ++ [.nextMark] =
            (before ++ [.nextMark]) ++ (later ++ [.nextMark]) by simp,
          mark_after, mark_concat, if_pos (.inl rfl)]
      have hge : (after qhost before).mark + 1 ≤
          (after qhost (before ++ .nextMark :: later)).mark := by
        rw [show before ++ .nextMark :: later = (before ++ [.nextMark]) ++ later by simp,
          mark_after, mark_concat, if_pos (.inl rfl)]
        omega
      rw [call, find?_snapshots_nextMark _ hge, ih, hcount]
      simp only [recent_concat, forall_const, Nat.add_le_add_iff_left]
      split_ifs <;> tauto

end SessionEntry

end Entry

structure SessionCall where
  now : ℤ
  session : String
  call : MarkCall

def SessionCall.Opens (c : SessionCall) : Prop :=
  c.session ≠ "" ∧ match c.call with
    | .nextMark => True
    | .remember item => item.id ≠ "" ∧ item.rev qhost ≠ ""
    | .seen id rev => id ≠ "" ∧ rev ≠ ""

def SessionState.call (s : SessionState) (c : SessionCall) : SessionState :=
  match c.call with
  | .nextMark => (s.nextMark host c.session c.now).2
  | .remember item => s.remember host qhost c.session item c.now
  | .seen id rev => (s.seen host c.session id rev c.now).2

def SessionState.after (calls : List SessionCall) : SessionState :=
  calls.foldl (SessionState.call host qhost) .new

/-- A session that is there when any session calls has not expired and is not evicted. -/
def SessionState.Keeps (s : SessionState) (session caller : String) (now : ℤ) : Prop :=
  ∀ e, s.entries.find? session = some e →
    now - e.2.touched ≤ sessionIdle ∧ ((s.entry host caller now).2.entries.find? session).isSome

def NeverDropped (session : String) (calls : List SessionCall) : Prop :=
  ∀ before c after, calls = before ++ c :: after → c.Opens qhost →
    (SessionState.after host qhost before).Keeps host session c.session c.now

def ownCalls (session : String) (calls : List SessionCall) : List MarkCall :=
  (calls.filter (·.session = session)).map (·.call)

def SessionEntry.untimed (e : SessionEntry) : SessionEntry := { e with touched := 0 }

def SessionState.memory (s : SessionState) (session : String) : SessionEntry :=
  (((s.entries.find? session).map Prod.snd).getD .new).untimed

def Faithful (known : String → Option String) (candidates : List QItem) : Prop :=
  (candidates.map QItem.id).Nodup ∧
    ∀ id rev, (∃ item ∈ candidates, item.id = id ∧ item.revision = rev) ↔ known id = some rev

section State

variable {host qhost}

namespace SessionEntry

variable (e : SessionEntry)

theorem untimed_remember (id rev : String) :
    (e.remember id rev).untimed = e.untimed.remember id rev := by
  rw [remember, apply_ite untimed]
  rfl

theorem untimed_call (call : MarkCall) :
    (e.call qhost call).untimed = e.untimed.call qhost call := by
  cases call with
  | nextMark => rfl
  | remember item =>
    simp only [call, apply_ite untimed, untimed_remember]
  | seen id rev => rfl

theorem faithful_changedCandidates {e : SessionEntry} {mark : ℕ} {rows : Revisions}
    (h : ((e.snapshots.find? mark).map Prod.snd).getD .empty = rows)
    (known : String → Option String) :
    Faithful known (e.changedCandidates mark) ↔
      ∀ id, known id = (rows.find? id).map Prod.snd := by
  have hperm := perm_insertionSort (fun a b : QItem ↦ a.id ≤ b.id)
    (rows.rows.map fun row ↦ { id := row.1, revision := row.2, origin := "catalog" })
  have hmem : ∀ id rev, (∃ item ∈ e.changedCandidates mark, item.id = id ∧ item.revision = rev) ↔
      (rows.find? id).map Prod.snd = some rev := by
    intro id rev
    simp only [changedCandidates, h, sortByID, hperm.mem_iff, mem_map, Option.map_eq_some_iff,
      find?_eq_some_iff]
    constructor
    · rintro ⟨item, ⟨row, hrow, rfl⟩, hid, hrev⟩
      exact ⟨row, ⟨hrow, hid⟩, hrev⟩
    · rintro ⟨row, ⟨hrow, hid⟩, hrev⟩
      exact ⟨_, ⟨row, hrow, rfl⟩, hid, hrev⟩
  have hnodup : ((e.changedCandidates mark).map QItem.id).Nodup := by
    simp only [changedCandidates, h, sortByID]
    rw [(hperm.map QItem.id).nodup_iff, map_map]
    exact rows.nodup
  constructor
  · rintro ⟨-, hfaithful⟩ id
    ext rev
    rw [← hfaithful, hmem]
  · intro hknown
    exact ⟨hnodup, fun id rev ↦ by rw [hmem, hknown]⟩

theorem changedCandidates_untimed (mark : ℕ) :
    e.untimed.changedCandidates mark = e.changedCandidates mark := rfl

end SessionEntry

variable {s : SessionState} {session : String} {now : ℤ} {c : SessionCall}

theorem NeverDropped.before {before after : List SessionCall}
    (h : NeverDropped host qhost session (before ++ after)) :
    NeverDropped host qhost session before := fun a c b hsplit ↦
  h a c (b ++ after) (by rw [hsplit]; simp)

theorem ownCalls_append (session : String) (calls calls' : List SessionCall) :
    ownCalls session (calls ++ calls') = ownCalls session calls ++ ownCalls session calls' := by
  simp only [ownCalls, filter_append, map_append]

theorem ownCalls_cons_self (session : String) (now : ℤ) (call : MarkCall)
    (calls : List SessionCall) :
    ownCalls session (⟨now, session, call⟩ :: calls) = call :: ownCalls session calls := by
  simp [ownCalls]

namespace SessionState

theorem untimed_entry (h : s.Keeps host session session now) :
    (s.entry host session now).1.untimed = s.memory session := by
  rw [entry, memory, find?_expire]
  cases hfind : s.entries.find? session with
  | none => rfl
  | some e =>
    rw [Option.filter_some, if_pos (decide_eq_true (h e hfind).1)]
    rfl

variable {caller : String}

theorem memory_entry_other (h : s.Keeps host session caller now) (hne : caller ≠ session) :
    (s.entry host caller now).2.memory session = s.memory session := by
  rw [memory, memory, find?_entry_other host s hne fun e he ↦ (h e he).2, find?_expire]
  cases hfind : s.entries.find? session with
  | none => rfl
  | some e => rw [Option.filter_some, if_pos (decide_eq_true (h e hfind).1)]

theorem memory_entry_self (h : s.Keeps host session session now) :
    (s.entry host session now).2.memory session = s.memory session := by
  rw [← untimed_entry h, memory, find?_entry_self]
  rfl

theorem memory_set_self (s : SessionState) (session : String) (e : SessionEntry) :
    (s.set session e).memory session = e.untimed := by
  rw [memory, find?_set, if_pos rfl]
  rfl

theorem memory_set_other (s : SessionState) (e : SessionEntry) (hne : caller ≠ session) :
    (s.set caller e).memory session = s.memory session := by
  rw [memory, memory, find?_set, if_neg hne]

theorem call_of_opens (s : SessionState) (h : c.Opens qhost) :
    s.call host qhost c = (s.entry host c.session c.now).2 ∧
        (∀ e : SessionEntry, e.call qhost c.call = e) ∨
      s.call host qhost c = (s.entry host c.session c.now).2.set c.session
        ((s.entry host c.session c.now).1.call qhost c.call) := by
  obtain ⟨now, session, call⟩ := c
  obtain ⟨hsession, harg⟩ := h
  cases call with
  | nextMark => exact .inr (by simp only [call, nextMark, if_neg hsession]; rfl)
  | remember item =>
    have hempty : ¬(item.id = "" ∨ item.rev qhost = "") := by simpa using harg
    refine .inr ?_
    simp only [call, remember, SessionEntry.call, if_neg hempty]
    exact if_neg (not_or.mpr ⟨hsession, hempty⟩)
  | seen id rev =>
    have hempty : ¬(id = "" ∨ rev = "") := by simpa using harg
    refine .inl ⟨?_, fun _ ↦ rfl⟩
    simp only [call, seen, if_neg (not_or.mpr ⟨hsession, hempty⟩)]

theorem call_of_not_opens (s : SessionState) (hsession : c.session ≠ "") (h : ¬c.Opens qhost) :
    s.call host qhost c = s ∧ ∀ e : SessionEntry, e.call qhost c.call = e := by
  obtain ⟨now, session, call⟩ := c
  have harg := not_and.mp h hsession
  cases call with
  | nextMark => exact absurd trivial harg
  | remember item =>
    have hempty : item.id = "" ∨ item.rev qhost = "" := by
      simpa only [not_and_or, not_not] using harg
    simp only [call, remember, SessionEntry.call, hempty, or_true, if_true, implies_true, and_self]
  | seen id rev =>
    have hempty : id = "" ∨ rev = "" := by simpa only [not_and_or, not_not] using harg
    simp only [call, seen, SessionEntry.call, hempty, or_true, if_true, implies_true, and_self]

theorem call_unnamed (s : SessionState) (h : c.session = "") : s.call host qhost c = s := by
  obtain ⟨now, session, call⟩ := c
  cases call <;> simp_all [call, nextMark, remember, seen]

theorem memory_call
    (hsession : session ≠ "") (h : c.Opens qhost → s.Keeps host session c.session c.now) :
    (s.call host qhost c).memory session =
      if c.session = session then (s.memory session).call qhost c.call else s.memory session := by
  by_cases hopens : c.Opens qhost
  · have hkeeps := h hopens
    rcases call_of_opens s hopens with ⟨hcall, hid⟩ | hcall
    · rw [hcall, hid, ite_self]
      by_cases heq : c.session = session
      · subst heq
        exact memory_entry_self hkeeps
      · exact memory_entry_other hkeeps heq
    · rw [hcall]
      split_ifs with heq
      · subst heq
        rw [memory_set_self, SessionEntry.untimed_call, untimed_entry hkeeps]
      · rw [memory_set_other _ _ heq, memory_entry_other hkeeps heq]
  · by_cases hnamed : c.session = ""
    · rw [call_unnamed s hnamed, hnamed, if_neg hsession.symm]
    · obtain ⟨hcall, hid⟩ := @call_of_not_opens host qhost c s hnamed hopens
      rw [hcall, hid, ite_self]

theorem after_concat (calls : List SessionCall) (c : SessionCall) :
    after host qhost (calls ++ [c]) =
      (after host qhost calls).call host qhost c := by
  rw [after, foldl_append]
  rfl

theorem memory_after (hsession : session ≠ "")
    {calls : List SessionCall} (h : NeverDropped host qhost session calls) :
    (after host qhost calls).memory session =
      SessionEntry.after qhost (ownCalls session calls) := by
  induction calls using List.reverseRecOn with
  | nil => rfl
  | append_singleton calls c ih =>
    rw [after_concat, memory_call hsession (h calls c [] rfl), ih h.before]
    rw [ownCalls_append]
    by_cases heq : c.session = session
    · subst heq
      rw [if_pos rfl, ownCalls_cons_self, ← SessionEntry.after_concat]
      rfl
    · simp [heq, ownCalls]

/-- The candidates for a mark: all that was remembered before it while it is recent, else nothing.
-/
theorem faithful_iff (hsession : session ≠ "")
    {before later : List SessionCall} {t : ℤ}
    (hkept : NeverDropped host qhost session (before ++ ⟨t, session, .nextMark⟩ :: later))
    (hnow : (after host qhost (before ++ ⟨t, session, .nextMark⟩ :: later)).Keeps host
      session session now) :
    Faithful (remembered qhost (ownCalls session before))
        ((after host qhost (before ++ ⟨t, session, .nextMark⟩ :: later)).changedCandidates
          host session ((after host qhost before).nextMark host session t).1 now).1 ↔
      Recent qhost (ownCalls session before) (ownCalls session later) ∨
        ∀ id, remembered qhost (ownCalls session before) id = none := by
  set own := ownCalls session before with hown
  have hmark : ((after host qhost before).nextMark host session t).1 =
      (SessionEntry.after qhost own).mark + 1 := by
    have hkeeps : (after host qhost before).Keeps host session session t :=
      hkept before ⟨t, session, .nextMark⟩ later rfl ⟨hsession, trivial⟩
    have hentry := untimed_entry hkeeps
    rw [memory_after hsession hkept.before, ← hown] at hentry
    rw [nextMark, if_neg hsession, ← hentry]
    rfl
  have hentry := untimed_entry hnow
  rw [memory_after hsession hkept, ownCalls_append, ownCalls_cons_self] at hentry
  have hsnap := @SessionEntry.find?_snapshots_after qhost own (ownCalls session later)
  rw [← hentry, ← hmark] at hsnap
  rw [changedCandidates, if_neg hsession]
  dsimp only
  rw [← SessionEntry.changedCandidates_untimed]
  rw [SessionEntry.faithful_changedCandidates
    (congrArg (fun s ↦ (s.map Prod.snd).getD .empty) hsnap)]
  by_cases hrecent : Recent qhost own (ownCalls session later)
  · simp only [hrecent, true_or, iff_true]
    exact fun id ↦ (SessionEntry.find?_delivered_after own id).symm
  · simp [hrecent]

end SessionState

end State

/-- The last 64 marks stand for all that was remembered before each exactly when since each the
counter has moved at most 64 times, or nothing was remembered before it. -/
theorem marks_faithful_iff {session : String} (hsession : session ≠ "")
    {calls : List SessionCall} {now : ℤ} (hkept : NeverDropped host qhost session calls)
    (hnow : (SessionState.after host qhost calls).Keeps host session session now) :
    (∀ before t after, calls = before ++ ⟨t, session, .nextMark⟩ :: after →
      (ownCalls session after).countP MarkCall.isNextMark < 64 →
      Faithful (remembered qhost (ownCalls session before))
        ((SessionState.after host qhost calls).changedCandidates host session
          ((SessionState.after host qhost before).nextMark host session t).1 now).1) ↔
    ∀ before t after, calls = before ++ ⟨t, session, .nextMark⟩ :: after →
      (ownCalls session after).countP MarkCall.isNextMark < 64 →
      Recent qhost (ownCalls session before) (ownCalls session after) ∨
        ∀ id, remembered qhost (ownCalls session before) id = none := by
  constructor
  · intro h before t after hsplit hlast
    subst hsplit
    exact (SessionState.faithful_iff hsession hkept hnow).mp (h before t after rfl hlast)
  · intro h before t after hsplit hlast
    subst hsplit
    exact (SessionState.faithful_iff hsession hkept hnow).mpr (h before t after rfl hlast)

section Samples

def sampleSessionHost : SessionHost where
  oldestFirst l := l.insertionSort fun a b ↦ a.2.touched ≤ b.2.touched
  oldestFirst_perm := perm_insertionSort _
  oldestFirst_sorted l := pairwise_insertionSort _ l
  firstKey t := (t.rows.head?.map Prod.fst).getD ""
  firstKey_mem := by
    rintro ⟨rows, _⟩ h
    cases rows with
    | nil => exact absurd rfl h
    | cons row rows => exact mem_cons_self

def sampleRevisions : QHost := ⟨fun _ ↦ "r", fun _ ↦ "", fun _ ↦ ""⟩

def sampleMark : SessionCall := ⟨0, "s", .nextMark⟩

def sampleRemember (id : String) : SessionCall := ⟨0, "s", .remember { id }⟩

theorem sample_keeps (calls : List SessionCall)
    (h : ((after sampleSessionHost sampleRevisions calls).entries.find? "s").all
      fun e ↦ e.2.touched = 0) :
    (after sampleSessionHost sampleRevisions calls).Keeps sampleSessionHost
      "s" "s" 0 := by
  intro e he
  rw [he, Option.all_some, decide_eq_true_eq] at h
  rw [h, find?_entry_self]
  exact ⟨by decide, rfl⟩

theorem sample_neverDropped {calls : List SessionCall}
    (hcalls : ∀ c ∈ calls, c.session = "s" ∧ c.now = 0)
    (htouched : ∀ before ∈ calls.inits,
      ((after sampleSessionHost sampleRevisions before).entries.find? "s").all
        fun e ↦ e.2.touched = 0) :
    NeverDropped sampleSessionHost sampleRevisions "s" calls := by
  rintro before c after rfl _
  obtain ⟨hsession, hnow⟩ := hcalls c (by simp)
  rw [hsession, hnow]
  exact sample_keeps before (htouched before (by simp))

def sampleSession : List SessionCall :=
  [sampleRemember "a", sampleMark, sampleRemember "b", sampleMark, sampleRemember "c"]

/-- The first mark still stands for `a` alone after two more items and a second mark. -/
theorem recent_mark_faithful :
    Faithful (remembered sampleRevisions (ownCalls "s" [sampleRemember "a"]))
      ((SessionState.after sampleSessionHost sampleRevisions sampleSession).changedCandidates
        sampleSessionHost "s"
        ((SessionState.after sampleSessionHost sampleRevisions [sampleRemember "a"]).nextMark
          sampleSessionHost "s" 0).1 0).1 := by
  have hkept : NeverDropped sampleSessionHost sampleRevisions "s" sampleSession :=
    sample_neverDropped (by decide) (by decide +kernel)
  refine (marks_faithful_iff sampleSessionHost sampleRevisions (by decide) hkept
    (sample_keeps _ (by decide +kernel))).mpr ?_ [sampleRemember "a"] 0
      [sampleRemember "b", sampleMark, sampleRemember "c"] rfl (by decide)
  intro before t after hsplit _
  -- five calls cannot move the counter more than 64 times
  have hlength := congrArg List.length hsplit
  have hown := length_filter_le (fun c ↦ decide (SessionCall.session c = "s")) after
  refine .inl (recent_of_length_le ?_)
  simp only [sampleSession, length_append, length_cons, length_nil, ownCalls, length_map]
    at hlength hown ⊢
  omega

def sampleBurst : List SessionCall :=
  (List.range 64).map fun i ↦ sampleRemember (String.ofList (List.replicate (i + 2) 'a'))

theorem burst_loses_mark :
    ¬Faithful (remembered sampleRevisions (ownCalls "s" [sampleRemember "a"]))
      ((SessionState.after sampleSessionHost sampleRevisions
        ([sampleRemember "a"] ++ sampleMark :: (sampleBurst ++ [sampleMark]))).changedCandidates
          sampleSessionHost "s"
          ((SessionState.after sampleSessionHost sampleRevisions [sampleRemember "a"]).nextMark
            sampleSessionHost "s" 0).1 0).1 := by
  intro h
  obtain ⟨item, hitem, -⟩ := (h.2 "a" "r").mpr (by decide +kernel)
  have hempty : ((SessionState.after sampleSessionHost sampleRevisions
      ([sampleRemember "a"] ++ sampleMark :: (sampleBurst ++ [sampleMark]))).changedCandidates
        sampleSessionHost "s"
        ((SessionState.after sampleSessionHost sampleRevisions [sampleRemember "a"]).nextMark
          sampleSessionHost "s" 0).1 0).1.length = 0 := by decide +kernel
  rw [length_eq_zero_iff.mp hempty] at hitem
  cases hitem

end Samples

end MiLsp.Query
