import MiLsp.Incremental.GitStatus
import MiLsp.Library.Attempt

namespace MiLsp.EditPlan

open Library.Quoting Incremental

def auditPath : Path := ".docs/auditoria/".toList

def untrackedMark : List Char := ['?', '?']

/-- The report is ASCII, so that the bytes of a line are its characters. -/
def checkDirtyLine (targetSet : List Path) (line : List Char) : Except String Unit :=
  if trim line = [] then return
  else
    match line with
    | x :: y :: _ :: rest =>
      let path := trim rest
      if x ≠ ' ' then throw "evidence-only dirty apply requires no staged files"
      else if y = '?' then
        throw ("evidence-only dirty apply requires pre-existing tracked dirty paths outside " ++
          "targets: " ++ String.ofList path)
      else if auditPath <+: path ∧ targetSet.contains path then
        throw ("evidence-only dirty apply target " ++ String.ofList path ++
          " must be pre-existing and outside the target")
      else if untrackedMark <+: path ∨ auditPath <+: path then
        throw ("evidence-only dirty apply requires pre-existing tracked dirty paths outside " ++
          "targets: " ++ String.ofList path)
      else return
    | _ => throw "evidence-only dirty apply rejected malformed git status"

def requireEvidenceOnlyDirtyGitWorkspace (targetSet : List Path)
    (output : Except String (List Char)) : Except String Unit :=
  match output with
  | .error err => throw ("evidence-only dirty apply could not inspect git status: " ++ err)
  | .ok output =>
    let report := if output.getLast? = some '\n' then output.dropLast else output
    (report.splitOn '\n').forM (checkDirtyLine targetSet)

end MiLsp.EditPlan

namespace MiLsp.Incremental.StatusEntry

open Library.Quoting EditPlan

variable (e : StatusEntry)

/-- A change of a tracked path outside the index; git marks an untracked path in both columns. -/
def UnstagedTracked : Prop := e.index = .unmodified ∧ e.tree ≠ .untracked

def paths : List Path := e.path :: e.orig.toList

def first : Path := e.orig.getD e.path

/-- The first path is printed without quotes and begins like an untracked or an audit path. -/
def Flagged : Prop :=
  e.first.all plainChar ∧ (untrackedMark <+: e.first ∨ auditPath <+: e.first)

end MiLsp.Incremental.StatusEntry

namespace MiLsp.EditPlan

open Library Attempt Quoting Incremental

variable (targetSet : List Path) {e : StatusEntry} {mark : List Char} (entries : List StatusEntry)

def AuditDirty : Prop := ∃ e ∈ entries, ∃ p ∈ e.paths, auditPath <+: p

theorem prefix_text_of_plain (hplain : mark.all plainChar) (hne : mark ≠ []) :
    mark <+: e.text ↔ e.first.all plainChar ∧ mark <+: e.first := by
  obtain ⟨rest, htext, hrest⟩ :
      ∃ rest, e.text = quote e.first ++ rest ∧ ∀ c ∈ rest.head?, c = ' ' := by
    cases horig : e.orig with
    | none => exact ⟨[], by simp [StatusEntry.text, StatusEntry.first, horig], by simp⟩
    | some orig =>
      exact ⟨arrow ++ quote e.path, by simp [StatusEntry.text, StatusEntry.first, horig],
        by simp [arrow]⟩
  have hmem : ∀ c ∈ mark, plainChar c = true := fun c ↦ List.all_eq_true.mp hplain c
  rw [htext]
  by_cases hfirst : e.first.all plainChar
  · rw [quote_of_plain hfirst]
    refine ⟨fun h ↦ ⟨hfirst, ?_⟩, fun h ↦ h.2.trans (List.prefix_append _ _)⟩
    obtain ⟨tail, htail⟩ := h
    rcases List.append_eq_append_iff.mp htail with ⟨extra, hextra, -⟩ | ⟨extra, rfl, hextra⟩
    · exact ⟨extra, hextra.symm⟩
    · -- the mark would have to hold the blank after the first path
      cases extra with
      | nil => simp
      | cons c extra =>
        have hc : c = ' ' := hrest c (by simp [hextra])
        exact absurd (hmem c (by simp)) (by rw [hc]; decide)
  · refine ⟨fun h ↦ ?_, fun h ↦ absurd h.1 hfirst⟩
    cases mark with
    | nil => exact absurd rfl hne
    | cons c mark =>
      rw [quote, if_neg hfirst, List.cons_append, List.cons_append, List.cons_prefix_cons] at h
      exact absurd (hmem c (by simp)) (by rw [h.1]; decide)

theorem checkDirtyLine_line : checkDirtyLine targetSet e.line = .ok () ↔
    e.UnstagedTracked ∧ ¬e.Flagged := by
  have hblank : trim e.line ≠ [] := by
    obtain ⟨c, rest, htext⟩ := List.exists_cons_of_ne_nil e.text_ne_nil
    have hmem : c ∈ trim e.line :=
      mem_trim_of_mem (e.text_trimmed.1 c (by simp [htext])) (by simp [StatusEntry.line, htext])
    exact List.ne_nil_of_mem hmem
  have hindex : e.index.letter = ' ' ↔ e.index = .unmodified := by
    cases e.index <;> decide
  have htree : e.tree.letter = '?' ↔ e.tree = .untracked := by
    cases e.tree <;> decide
  have hflagged : e.Flagged ↔ untrackedMark <+: e.text ∨ auditPath <+: e.text := by
    rw [prefix_text_of_plain (by decide) (by decide), prefix_text_of_plain (by decide) (by decide),
      ← and_or_left, StatusEntry.Flagged]
  unfold checkDirtyLine
  rw [if_neg hblank]
  simp only [StatusEntry.line, trim_of_trimmed e.text_trimmed, StatusEntry.UnstagedTracked,
    hflagged, ne_eq, hindex, htree]
  split_ifs with hunstaged huntracked htarget hshown
  · exact iff_of_false id fun h ↦ h.1.2 huntracked
  · exact iff_of_false id fun h ↦ h.2 (.inr htarget.1)
  · exact iff_of_false id fun h ↦ h.2 hshown
  · exact iff_of_true rfl ⟨⟨hunstaged, huntracked⟩, hshown⟩
  · exact iff_of_false id fun h ↦ hunstaged h.1.1

theorem requireEvidenceOnlyDirtyGitWorkspace_porcelain :
    requireEvidenceOnlyDirtyGitWorkspace targetSet (.ok (porcelain entries)) = .ok () ↔
      (∀ e ∈ entries, e.UnstagedTracked) ∧ ¬∃ e ∈ entries, e.Flagged := by
  have hempty : checkDirtyLine targetSet [] = .ok () := rfl
  have hlines : (requireEvidenceOnlyDirtyGitWorkspace targetSet (.ok (porcelain entries)) =
      .ok ()) ↔ ∀ e ∈ entries, checkDirtyLine targetSet e.line = .ok () := by
    have hsplit := splitOn_porcelain entries
    unfold requireEvidenceOnlyDirtyGitWorkspace
    dsimp only
    split_ifs with hlast
    · -- the last line break ends the last line, it does not begin another one
      rw [← List.dropLast_append_getLast? _ hlast, List.splitOn_append_cons_self] at hsplit
      rw [forM_eq_ok, List.append_cancel_right hsplit]
      simp
    · rw [forM_eq_ok, hsplit]
      simp [or_imp, forall_and, hempty]
  rw [hlines]
  simp only [checkDirtyLine_line, forall_and, not_exists, not_and]

theorem evidenceOnlyDirty_exact_iff (targetSet : List Path) (entries : List StatusEntry) :
    (requireEvidenceOnlyDirtyGitWorkspace targetSet (.ok (porcelain entries)) = .ok () ↔
      (∀ e ∈ entries, e.UnstagedTracked) ∧ ¬AuditDirty entries) ↔
    (∃ e ∈ entries, ¬e.UnstagedTracked) ∨ (AuditDirty entries ↔ ∃ e ∈ entries, e.Flagged) := by
  rw [requireEvidenceOnlyDirtyGitWorkspace_porcelain, and_congr_right_iff, not_iff_not,
    @iff_comm (∃ e ∈ entries, e.Flagged), imp_iff_not_or]
  simp only [not_forall, exists_prop]

theorem notMoved : (none : Option Path) ≠ some [] := by simp

theorem unmoved : (none : Option Path).isSome = (StatusCode.unmodified.moves || false) := rfl

def spacedAudit : StatusEntry where
  index := .unmodified
  tree := .modified
  path := ".docs/auditoria/my file.md".toList
  orig := none
  path_ne := by decide
  orig_ne := notMoved
  moved := unmoved

theorem spacedAudit_accepted :
    requireEvidenceOnlyDirtyGitWorkspace [] (.ok (porcelain [spacedAudit])) = .ok () ∧
      AuditDirty [spacedAudit] := by
  constructor
  · rw [requireEvidenceOnlyDirtyGitWorkspace_porcelain]
    have hquoted : ¬spacedAudit.Flagged := fun h ↦ absurd h.1 (by decide)
    simpa [hquoted] using ⟨rfl, (by decide)⟩
  · exact ⟨spacedAudit, by simp, spacedAudit.path, by simp [StatusEntry.paths], by decide⟩

end MiLsp.EditPlan
