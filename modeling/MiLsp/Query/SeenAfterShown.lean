import MiLsp.Library.Traces
import MiLsp.Query.Marks
import MiLsp.Query.Reading

namespace MiLsp.Query

open Library List SessionState QProgress QEnvelope QStageRun

section Sessions

variable {host : SessionHost} {qhost : QHost}

def SessionState.Holds (s : SessionState) (session id rev : String) : Prop :=
  ∃ e, s.entries.find? session = some (session, e) ∧ (e.delivered.find? id).map Prod.snd = some rev

def SessionState.Covers (s s' : SessionState) : Prop :=
  ∀ session id rev, s'.Holds session id rev → s.Holds session id rev

namespace SessionState

variable {s s' s'' : SessionState} {session : String} {now : ℤ} {key rev id : String}

theorem Covers.refl (s : SessionState) : s.Covers s := fun _ _ _ h ↦ h

theorem Covers.trans (h : s.Covers s') (h' : s'.Covers s'') : s.Covers s'' :=
  fun session id rev hold ↦ h session id rev (h' session id rev hold)

theorem entry_delivered (s : SessionState) (session : String) (now : ℤ)
    (h : (((s.entry host session now).1.delivered.find? id).map Prod.snd) = some rev) :
    s.Holds session id rev := by
  rw [entry] at h
  rw [find?_expire] at h
  cases hfind : s.entries.find? session with
  | none =>
    rw [hfind] at h
    cases h
  | some e =>
    rw [hfind, Option.filter_some] at h
    obtain ⟨key, e⟩ := e
    obtain rfl : key = session := Table.key_of_find? hfind
    split_ifs at h
    · exact ⟨e, hfind, h⟩
    · cases h

theorem covers_entry (s : SessionState) (caller : String) (now : ℤ) :
    s.Covers (s.entry host caller now).2 := by
  rintro session id rev ⟨e, hfind, hrev⟩
  by_cases hself : caller = session
  · subst hself
    rw [find?_entry_self, Option.some_inj, Prod.mk.injEq] at hfind
    rw [← hfind.2] at hrev
    exact entry_delivered s caller now hrev
  · rw [find?_entry_other host s hself fun _ _ ↦ by rw [hfind]; rfl, find?_expire,
      Option.filter_eq_some_iff] at hfind
    exact ⟨e, hfind.1, hrev⟩

theorem covers_set_entry {e : SessionEntry}
    (h : e.delivered = (s.entry host session now).1.delivered) :
    s.Covers ((s.entry host session now).2.set session e) := by
  rintro other id rev ⟨e', hfind, hrev⟩
  rw [find?_set] at hfind
  split_ifs at hfind with hself
  · obtain ⟨rfl, rfl⟩ := Prod.mk.inj (Option.some.inj hfind)
    rw [h] at hrev
    exact entry_delivered s _ now hrev
  · exact covers_entry s session now other id rev ⟨e', hfind, hrev⟩

theorem covers_nextMark : s.Covers (s.nextMark host session now).2 := by
  rw [nextMark]
  split_ifs
  · exact Covers.refl s
  · exact covers_set_entry rfl

theorem covers_seen : s.Covers (s.seen host session id rev now).2 := by
  rw [seen]
  split_ifs
  · exact Covers.refl s
  · exact covers_entry s session now

theorem holds_of_seen (h : (s.seen host session id rev now).1 = true) : s.Holds session id rev := by
  rw [seen] at h
  split_ifs at h
  exact entry_delivered s session now (of_decide_eq_true h)

theorem covers_changedCandidates {since : ℕ} :
    s.Covers (s.changedCandidates host session since now).2 := by
  rw [changedCandidates]
  split_ifs
  · exact Covers.refl s
  · exact covers_entry s session now

theorem covers_filterDedupe {items : List QItem} :
    s.Covers (s.filterDedupe host qhost session key items now).2 := by
  rw [filterDedupe]
  split_ifs
  · exact Covers.refl s
  · exact covers_entry s session now

theorem delivered_rememberDedupe (e : SessionEntry) (key : String) (items : List QItem) :
    (e.rememberDedupe host qhost key items).delivered = e.delivered := by
  unfold SessionEntry.rememberDedupe
  split
  · rfl
  · rfl
  · split_ifs <;> rfl

theorem covers_rememberDedupe {items : List QItem} :
    s.Covers (s.rememberDedupe host qhost session key items now) := by
  rw [rememberDedupe]
  split_ifs
  · exact Covers.refl s
  · exact covers_set_entry (delivered_rememberDedupe _ _ _)

theorem holds_remember_other {item : QItem} {other : String} (hne : session ≠ other)
    (h : (s.remember host qhost session item now).Holds other id rev) : s.Holds other id rev := by
  rw [remember] at h
  split_ifs at h
  · exact h
  · obtain ⟨e, hfind, hrev⟩ := h
    rw [find?_set, if_neg hne] at hfind
    exact covers_entry s session now other id rev ⟨e, hfind, hrev⟩

end SessionState

end Sessions

open SessionState.Covers

section Stages

variable {host : SessionHost} {qhost : QHost} {session : String}

theorem refresh_seen (run : ReadRun) (item : QItem) (text file : Option String) :
    (refresh qhost run item text file).seen = item.seen := by
  unfold refresh
  dsimp only
  split_ifs <;> rfl

section

variable {run : ReadRun} {s : SessionState} {n : ℕ} {item : QItem} {items : List QItem}

theorem covers_asksSeen : s.Covers (asksSeen host qhost session run n item s).2 := by
  rw [asksSeen]
  split_ifs
  · exact refl s
  · exact covers_seen

theorem readItem_spec :
    s.Covers (readItem host qhost session run n item s).2 ∧
      ∀ out, (readItem host qhost session run n item s).1 = .ok out → item.seen = false →
        out.seen = true → s.Holds session out.id (out.rev qhost) := by
  unfold readItem
  cases run.stop n with
  | some reason => exact ⟨refl s, by rintro out ⟨⟩⟩
  | none =>
    dsimp only
    by_cases hmissing : item.missing = true
    · rw [if_pos hmissing]
      refine ⟨refl s, ?_⟩
      rintro out ⟨⟩ hunseen hseen
      rw [hunseen] at hseen
      cases hseen
    rw [if_neg hmissing]
    by_cases hasked : (asksSeen host qhost session run n item s).1 = true
    · rw [if_pos hasked]
      refine ⟨covers_asksSeen, ?_⟩
      rintro out ⟨⟩ - -
      rw [asksSeen] at hasked
      split_ifs at hasked
      exact holds_of_seen hasked
    split_ifs
    · refine ⟨covers_asksSeen, ?_⟩
      rintro out ⟨⟩ hunseen hseen
      exact absurd (hunseen.symm.trans hseen) Bool.false_ne_true
    · cases run.content item with
      | none => exact ⟨covers_asksSeen, by rintro out ⟨⟩⟩
      | some answer =>
        refine ⟨covers_asksSeen, ?_⟩
        rintro out ⟨⟩ hunseen hseen
        rw [refresh_seen, hunseen] at hseen
        cases hseen

theorem readItems_spec :
    s.Covers (readItems host qhost session run n items s).2 ∧
      ∀ outs, (readItems host qhost session run n items s).1 = .ok outs →
        (∀ item ∈ items, item.seen = false) →
        ∀ out ∈ outs, out.seen = true → s.Holds session out.id (out.rev qhost) := by
  induction items generalizing n s with
  | nil =>
    refine ⟨refl s, ?_⟩
    rintro outs ⟨⟩ - out hout
    cases hout
  | cons item items ih =>
    obtain ⟨hcovers, hheld⟩ := @readItem_spec host qhost session run s n item
    rw [readItems]
    rcases hitem : readItem host qhost session run n item s with ⟨result, s₁⟩
    rw [hitem] at hcovers hheld
    cases result with
    | error reason => exact ⟨hcovers, by rintro outs ⟨⟩⟩
    | ok out =>
      obtain ⟨hcovers', hheld'⟩ := @ih s₁ (n + 1)
      dsimp only
      rcases hitems : readItems host qhost session run (n + 1) items s₁ with ⟨results, s₂⟩
      rw [hitems] at hcovers' hheld'
      cases results with
      | error reason => exact ⟨hcovers.trans hcovers', by rintro outs ⟨⟩⟩
      | ok outs =>
        refine ⟨hcovers.trans hcovers', ?_⟩
        rintro outs' ⟨⟩ hunseen
        obtain ⟨hfirst, hrest⟩ := forall_mem_cons.mp hunseen
        rw [forall_mem_cons]
        refine ⟨hheld out rfl hfirst, fun o ho hseen ↦ ?_⟩
        exact hcovers session _ _ (hheld' outs rfl hrest o ho hseen)

theorem holds_rememberItems_other {other id rev : String} (hne : session ≠ other)
    (h : (rememberItems host qhost session run n items s).Holds other id rev) :
    s.Holds other id rev := by
  induction items generalizing n s with
  | nil => exact h
  | cons item items ih => exact holds_remember_other hne (ih h)

theorem qRead_seen {outs : List QItem} (hunseen : ∀ item ∈ items, item.seen = false)
    (h : (qRead host qhost session run items s).1 = .ok outs) :
    ∀ out ∈ outs, out.seen = true → s.Holds session out.id (out.rev qhost) := by
  set read := if items = [] then run.ranges else items with hread
  have hread_unseen : ∀ item ∈ read, item.seen = false := by
    rw [hread]
    split_ifs
    · exact run.ranges_unseen
    · exact hunseen
  have hheld := (@readItems_spec host qhost session run s 0 read).2
  rw [qRead, ← hread] at h
  rcases hitems : readItems host qhost session run 0 read s with ⟨_ | outs', s₁⟩
  · rw [hitems] at h
    cases h
  · rw [hitems] at h hheld
    cases h
    exact hheld outs rfl hread_unseen

theorem holds_qRead_other {other id rev : String} (hne : session ≠ other)
    (h : (qRead host qhost session run items s).2.Holds other id rev) : s.Holds other id rev := by
  rw [qRead] at h
  set read := if items = [] then run.ranges else items
  have hcovers := (@readItems_spec host qhost session run s 0 read).1
  rcases hitems : readItems host qhost session run 0 read s with ⟨_ | outs, s₁⟩
  · rw [hitems] at h hcovers
    exact hcovers other id rev h
  · rw [hitems] at h hcovers
    exact hcovers other id rev (holds_rememberItems_other hne h)

end

namespace QProgress

variable {p : QProgress} {run : QStageRun}

theorem covers_stage (h : run.isRead = false) :
    p.sessions.Covers (p.stage host qhost session run).sessions := by
  cases run with
  | read read => cases h
  | changed since now found unseen => exact covers_changedCandidates
  | yields | keeps | fields | fails => exact refl _

theorem mem_stage (h : run.isRead = false) {item : QItem}
    (hitem : item ∈ (p.stage host qhost session run).items) :
    item ∈ p.items ∨ item.seen = false := by
  cases run with
  | read read => cases h
  | yields items unseen => exact .inr (unseen item hitem)
  | keeps f kept => exact .inl (kept _ item hitem)
  | changed since now found unseen => exact .inr (unseen _ item hitem)
  | fields | fails => exact .inl hitem

theorem holds_stage_other {other id rev : String} (hne : session ≠ other)
    (h : (p.stage host qhost session run).sessions.Holds other id rev) :
    p.sessions.Holds other id rev := by
  cases hread : run.isRead with
  | false => exact covers_stage hread other id rev h
  | true =>
    cases run with
    | read read =>
      rw [stage] at h
      rcases hq : qRead host qhost session read p.items p.sessions with ⟨_ | items, s⟩
      · rw [hq] at h
        exact holds_qRead_other hne (by rw [hq]; exact h)
      · rw [hq] at h
        exact holds_qRead_other hne (by rw [hq]; exact h)
    | yields | keeps | fields | changed | fails => cases hread

def Backed (p : QProgress) (qhost : QHost) (session : String) (s : SessionState) : Prop :=
  ∀ item ∈ p.items, item.seen = true → s.Holds session item.id (item.rev qhost)

section

variable {s : SessionState}

theorem Backed.stage (hp : p.Backed qhost session s) (h : run.isRead = false) :
    (p.stage host qhost session run).Backed qhost session s := by
  intro item hitem hseen
  rcases mem_stage h hitem with hold | hunseen
  · exact hp item hold hseen
  · rw [hunseen] at hseen
    cases hseen

theorem Backed.read {run : ReadRun} (hunseen : ∀ item ∈ p.items, item.seen = false)
    (hs : s.Covers p.sessions) :
    (p.stage host qhost session (.read run)).Backed qhost session s := by
  intro item hitem hseen
  rw [QProgress.stage] at hitem
  rcases hq : qRead host qhost session run p.items p.sessions with ⟨_ | items, s'⟩
  · rw [hq] at hitem
    rw [hunseen item hitem] at hseen
    cases hseen
  · rw [hq] at hitem
    exact hs _ _ _ (qRead_seen hunseen (by rw [hq]) item hitem hseen)

theorem Backed.stages {stages : List QStageRun} (hp : p.Backed qhost session s)
    (h : stages.countP isRead = 0) :
    (stages.foldl (QProgress.stage host qhost session) p).Backed qhost session s := by
  induction stages generalizing p with
  | nil => exact hp
  | cons stage stages ih =>
    rw [countP_cons] at h
    exact ih (hp.stage (by simpa using Nat.eq_zero_of_add_eq_zero_left h)) (by omega)

theorem backed_stages {stages : List QStageRun} (hreads : stages.countP isRead ≤ 1)
    (hunseen : ∀ item ∈ p.items, item.seen = false) (hs : s.Covers p.sessions) :
    (stages.foldl (QProgress.stage host qhost session) p).Backed qhost session s := by
  induction stages generalizing p with
  | nil =>
    intro item hitem hseen
    rw [hunseen item hitem] at hseen
    cases hseen
  | cons stage stages ih =>
    rw [countP_cons] at hreads
    cases hread : stage.isRead with
    | false =>
      apply ih (by omega)
      · intro item hitem
        rcases mem_stage hread hitem with hold | hnew
        · exact hunseen item hold
        · exact hnew
      · exact hs.trans (covers_stage hread)
    | true =>
      -- what comes after the read neither looks up nor records
      cases stage with
      | read run =>
        rw [if_pos hread] at hreads
        exact (Backed.read hunseen hs).stages (by omega)
      | yields | keeps | fields | changed | fails => cases hread

end

theorem holds_stages_other {stages : List QStageRun} {other id rev : String} (hne : session ≠ other)
    (h : (stages.foldl (stage host qhost session) p).sessions.Holds other id rev) :
    p.sessions.Holds other id rev := by
  induction stages generalizing p with
  | nil => exact h
  | cons stage stages ih => exact holds_stage_other hne (ih h)

end QProgress

end Stages

section Pages

variable {host : QHost} {req : QRequest} {ex : QExecution}

theorem qRows_getElem? {budget : ℕ} {fields : List String} {used k : ℕ} {items : List QItem}
    {item : QItem} (hk : items[k]? = some item)
    (hfit : used + ((items.take (k + 1)).map fun item ↦
      QRow.jsonSize (qRow host fields item)).sum ≤ budget * 4) :
    (qRows host budget fields used items).1[k]? = some (qRow host fields item) := by
  induction items generalizing used k with
  | nil => simp at hk
  | cons first items ih =>
    rw [take_succ_cons, map_cons, sum_cons] at hfit
    rw [qRows, if_neg (by omega)]
    cases k with
    | zero =>
      obtain rfl : first = item := by simpa using hk
      rfl
    | succ k =>
      exact ih hk (by omega)

theorem QEnvelope.bound_getElem? {items : List QItem} {base n m k : ℕ} {env : QEnvelope}
    (hn : env.items.length = n) (hkm : k < m)
    (hfit : ex.size (env.atMost host req ex base m) ≤ req.maxBytes) :
    (qBoundEnvelope host req ex items base n env).items[k]? = env.items[k]? := by
  induction n generalizing env with
  | zero =>
    rw [qBoundEnvelope]
    split_ifs <;> rfl
  | succ n ih =>
    rw [qBoundEnvelope]
    by_cases hwhole : ex.size env ≤ req.maxBytes
    · rw [if_pos hwhole]
    have hmn : m ≤ n := by
      by_contra hlt
      rw [atMost_of_le (by omega)] at hfit
      exact hwhole hfit
    have hrest := @ih (env.shortened host req ex base n) (by simp [shortened, hn])
      (by rwa [atMost_shortened hmn (by omega)])
    have htake : (env.shortened host req ex base n).items[k]? = env.items[k]? := by
      simp only [shortened]
      rw [getElem?_take_of_lt (by omega)]
    rw [if_neg hwhole, ← htake, ← hrest]
    cases items with
    | nil => rfl
    | cons item rest =>
      dsimp only
      rw [if_neg (by omega)]

end Pages

variable (host : SessionHost) (qhost : QHost)

def QResponse.Shows (r : QResponse) (session id rev : String) : Prop :=
  r.session = session ∧ ∃ (k : ℕ) (item : QItem) (row : QRow),
    r.items[k]? = some item ∧ r.rows[k]? = some row ∧
      item.id = id ∧ item.rev qhost = rev ∧ item.text ≠ "" ∧
      QRow.get row "id" = some (.text id) ∧ QRow.get row "text" = some (.text item.text)

def QResponse.SaysSeen (r : QResponse) (id rev : String) : Prop :=
  ∃ item ∈ r.items.take r.rows.length,
    item.seen = true ∧ item.text = "" ∧ item.id = id ∧ item.rev qhost = rev

/-- What a response says was seen, an earlier one has shown; the latest comes first. -/
def Honest : List QResponse → Prop
  | [] => True
  | r :: earlier =>
    (∀ id rev, r.SaysSeen qhost id rev → ∃ e ∈ earlier, e.Shows qhost r.session id rev) ∧
      Honest earlier

structure QLog where
  sessions : SessionState
  responses : List QResponse

namespace QLog

def new : QLog := ⟨.new, []⟩

def step (log : QLog) (run : QRun) : Option QLog :=
  some ⟨(run.execute host qhost log.sessions).2,
    (run.execute host qhost log.sessions).1 :: log.responses⟩

end QLog

namespace QRun

variable (run : QRun)

def remaining (s : SessionState) (offset : ℕ) : List QItem :=
  (run.dedupeItems host qhost ((run.arrange (run.progress host qhost s).items).drop offset)
    (run.progress host qhost s).sessions).1

/-- The first `k + 1` rows keep within the token budget, and their envelope within the byte bound.
-/
def Admits (p : QProgress) (items : List QItem) (offset k : ℕ) : Prop :=
  ((items.take (k + 1)).map fun item ↦ QRow.jsonSize (qRow qhost p.fields item)).sum ≤
      run.req.budget * 4 ∧
    ∃ n, k < n ∧ (run.execution p items).size ((run.page qhost p items offset).atMost qhost
      (run.chosen p) (run.execution p items) offset n) ≤ (run.chosen p).maxBytes

/-- The page has room for a row with the identifier and the text of an item at the revision. -/
def HasRoom (s : SessionState) (offset : ℕ) (id rev : String) : Prop :=
  offset ≤ (run.arrange (run.progress host qhost s).items).length ∧ ∃ (k : ℕ) (item : QItem),
    (run.remaining host qhost s offset)[k]? = some item ∧
      item.id = id ∧ item.rev qhost = rev ∧ item.text ≠ "" ∧
      QRow.get (qRow qhost (run.progress host qhost s).fields item) "id" = some (.text id) ∧
      QRow.get (qRow qhost (run.progress host qhost s).fields item) "text" =
        some (.text item.text) ∧
      run.Admits qhost (run.progress host qhost s) (run.remaining host qhost s offset) offset k

/-- The request reads at most once, and its page has room for all that the read records. -/
def Roomy (log : QLog) : Prop :=
  run.stages.countP QStageRun.isRead ≤ 1 ∧
    ∀ offset, qOffset qhost run.req run.ex run.token = .ok offset →
      ∀ id rev, (run.progress host qhost log.sessions).sessions.Holds run.session id rev →
        ¬log.sessions.Holds run.session id rev →
        run.HasRoom host qhost log.sessions offset id rev

variable {host qhost run} {offset : ℕ}

section

variable {items : List QItem} {s : SessionState}

theorem covers_dedupeItems : s.Covers (run.dedupeItems host qhost items s).2 := by
  unfold dedupeItems
  cases run.dedupe with
  | none => exact refl s
  | some key => exact covers_filterDedupe

theorem mem_dedupeItems {item : QItem} (h : item ∈ (run.dedupeItems host qhost items s).1) :
    item ∈ items := by
  unfold dedupeItems at h
  cases hkey : run.dedupe with
  | none =>
    rw [hkey] at h
    exact h
  | some key =>
    rw [hkey] at h
    dsimp only at h
    rw [filterDedupe] at h
    split_ifs at h
    · exact h
    · dsimp only at h
      rw [SessionEntry.filterDedupe] at h
      split at h
      · exact h
      · exact mem_of_mem_filter h

theorem covers_rememberSentItems {env : QEnvelope} :
    s.Covers (run.rememberSentItems host qhost items env s) := by
  unfold rememberSentItems
  cases run.dedupe with
  | none => exact refl s
  | some key =>
    split_ifs
    · exact covers_rememberDedupe
    · exact refl s

end

theorem mem_remaining {s : SessionState} {item : QItem}
    (h : item ∈ run.remaining host qhost s offset) : item ∈ (run.progress host qhost s).items :=
  run.arrange_mem _ _ (mem_of_mem_drop (mem_dedupeItems h))

theorem execute_cases (s : SessionState) :
    ((∀ offset, qOffset qhost run.req run.ex run.token ≠ .ok offset) ∧
        run.execute host qhost s = (⟨run.session, [], []⟩, s)) ∨
      ∃ offset, qOffset qhost run.req run.ex run.token = .ok offset ∧
        (run.progress host qhost s).sessions.Covers (run.execute host qhost s).2 ∧
        ((run.arrange (run.progress host qhost s).items).length < offset ∧
            (run.execute host qhost s).1 = ⟨run.session, [], []⟩ ∨
          offset ≤ (run.arrange (run.progress host qhost s).items).length ∧
            (run.execute host qhost s).1 = ⟨run.session, run.remaining host qhost s offset,
              (run.envelope qhost (run.progress host qhost s)
                (run.remaining host qhost s offset) offset).items⟩) := by
  unfold execute
  cases hoffset : qOffset qhost run.req run.ex run.token with
  | error code => exact .inl ⟨by simp, rfl⟩
  | ok offset =>
    refine .inr ⟨offset, rfl, ?_⟩
    dsimp only
    split_ifs with hpast
    · exact ⟨refl _, .inl ⟨hpast, rfl⟩⟩
    · refine ⟨?_, .inr ⟨not_lt.mp hpast, rfl⟩⟩
      exact covers_dedupeItems.trans
        (covers_nextMark.trans covers_rememberSentItems)

theorem shows_of_hasRoom {s : SessionState} {id rev : String}
    (hoffset : qOffset qhost run.req run.ex run.token = .ok offset)
    (h : run.HasRoom host qhost s offset id rev) :
    (run.execute host qhost s).1.Shows qhost run.session id rev := by
  obtain ⟨hle, k, item, hk, hid, hrev, htext, hidRow, htextRow, hbudget, n, hkn, hsize⟩ := h
  rcases @execute_cases host qhost run s with ⟨hno, -⟩ | ⟨offset', hoffset', -, hanswer⟩
  · exact absurd hoffset (hno offset)
  obtain rfl : offset = offset' := Except.ok.inj (hoffset.symm.trans hoffset')
  rcases hanswer with ⟨hlt, -⟩ | ⟨-, hanswer⟩
  · omega
  have hrow : (run.envelope qhost (run.progress host qhost s)
      (run.remaining host qhost s offset) offset).items[k]? =
        some (qRow qhost (run.progress host qhost s).fields item) := by
    rw [envelope, bound_getElem? rfl hkn hsize, page, qPage_items]
    exact qRows_getElem? hk (by rwa [Nat.zero_add])
  rw [hanswer]
  exact ⟨rfl, k, item, _, hk, hrow, hid, hrev, htext, hidRow, htextRow⟩

theorem holds_of_saysSeen {s : SessionState} (hreads : run.stages.countP isRead ≤ 1)
    {id rev : String} (h : (run.execute host qhost s).1.SaysSeen qhost id rev) :
    s.Holds run.session id rev := by
  obtain ⟨item, hitem, hseen, -, rfl, rfl⟩ := h
  have hbacked : (run.progress host qhost s).Backed qhost run.session s :=
    backed_stages hreads (by simp) (refl s)
  have hmem := mem_of_mem_take hitem
  rcases @execute_cases host qhost run s with ⟨-, hnone⟩ | ⟨offset, -, -, ⟨-, hnone⟩ | ⟨-, heq⟩⟩
  · rw [hnone] at hmem
    cases hmem
  · rw [hnone] at hmem
    cases hmem
  · rw [heq] at hmem
    exact hbacked item (mem_remaining hmem) hseen

theorem execute_session (s : SessionState) :
    (run.execute host qhost s).1.session = run.session := by
  rcases @execute_cases host qhost run s with ⟨-, h⟩ | ⟨offset, -, -, ⟨-, h⟩ | ⟨-, h⟩⟩ <;> rw [h]

theorem holds_execute {log : QLog} (h : run.Roomy host qhost log) {session id rev : String}
    (hold : (run.execute host qhost log.sessions).2.Holds session id rev) :
    log.sessions.Holds session id rev ∨
      (run.execute host qhost log.sessions).1.Shows qhost session id rev := by
  rcases @execute_cases host qhost run log.sessions with ⟨-, heq⟩ | ⟨offset, hoffset, hcovers, -⟩
  · rw [heq] at hold
    exact .inl hold
  have hprogress := hcovers session id rev hold
  by_cases hself : run.session = session
  · subst hself
    by_cases hbefore : log.sessions.Holds run.session id rev
    · exact .inl hbefore
    · exact .inr (shows_of_hasRoom hoffset (h.2 offset hoffset id rev hprogress hbefore))
  · exact .inl (holds_stages_other hself hprogress)

end QRun

namespace QLog

variable {host qhost}

def Shown (qhost : QHost) (log : QLog) : Prop :=
  ∀ session id rev, log.sessions.Holds session id rev →
    ∃ r ∈ log.responses, r.Shows qhost session id rev

theorem shown_step {log log' : QLog} {run : QRun} (hshown : log.Shown qhost)
    (hroom : run.Roomy host qhost log) (h : log.step host qhost run = some log') :
    log'.Shown qhost := by
  cases h
  intro session id rev hold
  rcases QRun.holds_execute hroom hold with hbefore | hnow
  · obtain ⟨r, hr, hshows⟩ := hshown session id rev hbefore
    exact ⟨r, mem_cons_of_mem _ hr, hshows⟩
  · exact ⟨_, mem_cons_self, hnow⟩

theorem honest_step {log log' : QLog} {run : QRun} (hshown : log.Shown qhost)
    (hhonest : Honest qhost log.responses) (hroom : run.Roomy host qhost log)
    (h : log.step host qhost run = some log') : Honest qhost log'.responses := by
  cases h
  refine ⟨fun id rev hsays ↦ ?_, hhonest⟩
  rw [QRun.execute_session]
  exact hshown _ id rev (QRun.holds_of_saysSeen hroom.1 hsays)

theorem shown_new : Shown qhost .new := by
  rintro session id rev ⟨e, hfind, -⟩
  cases hfind

variable (host qhost)

/-- Where pages have room for what their reads record, whatever a response says was seen an earlier
one has shown. -/
theorem seen_only_if_shown {runs : List QRun}
    (h : Traces.Obeys (step host qhost) (fun log run ↦ run.Roomy host qhost log) runs .new) :
    Traces.Always (step host qhost) (fun log ↦ Honest qhost log.responses) runs .new := by
  have hboth : Traces.Always (step host qhost)
      (fun log ↦ log.Shown qhost ∧ Honest qhost log.responses) runs .new := by
    apply Traces.always_of_obeys ?_ ⟨shown_new, trivial⟩ h
    rintro log run log' ⟨hshown, hhonest⟩ hroom hstep
    exact ⟨shown_step hshown hroom hstep, honest_step hshown hhonest hroom hstep⟩
  exact hboth.mono fun log hlog ↦ hlog.2

section Samples

def sampleReader : ReadRun where
  fresh := false
  ranges := []
  ranges_unseen := by simp
  stop _ := none
  content _ := some (some "x := 1", none)
  fileRevision _ := ""
  now _ := 0

def sampleRead (budget : ℕ) (hpos : 1 ≤ budget) (hle : budget ≤ 12000) : QRun where
  req := ⟨"id a | read", "w", [], budget, 1024, hpos, hle, le_rfl⟩
  session := "s"
  token := none
  dedupe := none
  stages := [.yields [{ id := "a", revision := "r" }] (by simp), .read sampleReader]
  ended := none
  arrange := id
  arrange_mem _ _ h := h
  ex := ⟨"g", [], "", false, 0, 0, fun _ ↦ 0⟩
  now := 0

theorem narrow_positive : 1 ≤ 1 := Nat.le_refl 1

theorem narrow_bounded : 1 ≤ 12000 := by decide

def sampleNarrow : QRun := sampleRead 1 narrow_positive narrow_bounded

def sampleWide : QRun := sampleRead 1000 (by decide) (by decide)

theorem eq_of_holds_sample {s : SessionState} {id rev : String}
    (hs : (s.entries.find? "s").all fun e ↦ e.2.delivered.rows = [("a", "r")])
    (h : s.Holds "s" id rev) : id = "a" ∧ rev = "r" := by
  obtain ⟨e, hfind, hrev⟩ := h
  obtain ⟨row, hrow, rfl⟩ := Option.map_eq_some_iff.mp hrev
  rw [hfind, Option.all_some, decide_eq_true_eq] at hs
  have hmem := Table.mem_of_find? hrow
  have hkey : row.1 = id := Table.key_of_find? hrow
  rw [hs, mem_singleton] at hmem
  subst hmem
  exact ⟨hkey.symm, rfl⟩

theorem sampleWide_roomy : sampleWide.Roomy sampleSessionHost sampleRevisions .new := by
  refine ⟨by decide, ?_⟩
  rintro offset ⟨⟩ id rev hold -
  obtain ⟨rfl, rfl⟩ := eq_of_holds_sample (by decide +kernel) hold
  refine ⟨Nat.zero_le _, 0, { id := "a", revision := "r", text := "x := 1", read := true }, ?_⟩
  exact ⟨rfl, rfl, by decide +kernel, by decide, rfl, rfl, by decide +kernel, 1, by decide,
    Nat.zero_le _⟩

theorem shown_item_then_seen :
    Traces.Always (step sampleSessionHost sampleRevisions)
      (fun log ↦ Honest sampleRevisions log.responses) [sampleWide, sampleWide] .new := by
  apply seen_only_if_shown
  rintro log ⟨⟩
  refine ⟨sampleWide_roomy, ?_⟩
  rintro log ⟨⟩
  refine ⟨⟨by decide, ?_⟩, trivial⟩
  rintro offset - id rev hold hnew
  obtain ⟨rfl, rfl⟩ := eq_of_holds_sample (by decide +kernel) hold
  have hthere : (((sampleWide.execute sampleSessionHost sampleRevisions .new).2.entries.find?
      "s").any fun e ↦ (e.2.delivered.find? "a").map Prod.snd = some "r") = true := by
    decide +kernel
  obtain ⟨⟨key, e⟩, hfind, hrev⟩ := (Option.any_eq_true _ _).mp hthere
  obtain rfl : key = "s" := Table.key_of_find? hfind
  exact absurd ⟨e, hfind, of_decide_eq_true hrev⟩ hnew

def unfounded (log : QLog) : Bool :=
  match log.responses with
  | [last, first] => first.rows.isEmpty && (last.items.take last.rows.length).any fun item ↦
      item.seen && item.text = ""
  | _ => false

theorem not_honest_of_unfounded {log : QLog} (h : unfounded log = true) :
    ¬Honest qhost log.responses := by
  rintro hhonest
  unfold unfounded at h
  split at h
  next last first heq =>
    rw [heq] at hhonest
    simp only [Bool.and_eq_true, any_eq_true, decide_eq_true_eq] at h
    obtain ⟨hempty, item, hitem, hseen, htext⟩ := h
    obtain ⟨e, he, -, k, item', row, -, hrow, -⟩ :=
      hhonest.1 _ _ ⟨item, hitem, hseen, htext, rfl, rfl⟩
    rw [mem_singleton.mp he, isEmpty_iff.mp hempty] at hrow
    cases hrow
  · cases h

/-- A text that did not fit the page of its request is said to be seen in the next. -/
theorem unshown_item_seen :
    ¬Traces.Always (step sampleSessionHost sampleRevisions)
      (fun log ↦ Honest sampleRevisions log.responses) [sampleNarrow, sampleWide] .new :=
  Traces.not_always_of_end unfounded (fun _ ↦ not_honest_of_unfounded _) (by decide +kernel)

end Samples

end QLog

end MiLsp.Query
