import MiLsp.Library.Quoting

namespace MiLsp.Incremental

open Library.Quoting List

abbrev Path := List Char

inductive StatusCode
  | unmodified
  | modified
  | typeChanged
  | added
  | deleted
  | renamed
  | copied
  | unmerged
  | untracked
  | ignored
deriving DecidableEq

def StatusCode.letter : StatusCode → Char
  | unmodified => ' '
  | modified => 'M'
  | typeChanged => 'T'
  | added => 'A'
  | deleted => 'D'
  | renamed => 'R'
  | copied => 'C'
  | unmerged => 'U'
  | untracked => '?'
  | ignored => '!'

def StatusCode.moves (code : StatusCode) : Bool := code = renamed || code = copied

/-- The codes of index and working tree, the path, and the original path of a rename or copy. -/
structure StatusEntry where
  index : StatusCode
  tree : StatusCode
  path : Path
  orig : Option Path
  path_ne : path ≠ []
  orig_ne : orig ≠ some []
  moved : orig.isSome = (index.moves || tree.moves)

def arrow : List Char := [' ', '-', '>', ' ']

def StatusEntry.text (e : StatusEntry) : List Char :=
  match e.orig with
  | none => quote e.path
  | some orig => quote orig ++ arrow ++ quote e.path

def StatusEntry.line (e : StatusEntry) : List Char :=
  e.index.letter :: e.tree.letter :: ' ' :: e.text

def porcelain (entries : List StatusEntry) : List Char :=
  ['\n'].intercalate (entries.map StatusEntry.line ++ [[]])

variable (windows : Bool)

def toSlash (path : List Char) : List Char :=
  if windows then path.map fun c ↦ if c = '\\' then '/' else c else path

def changedCodes : List (Char × Char) :=
  [(' ', 'M'), ('M', ' '), ('M', 'M'), ('A', ' '), (' ', 'A'), ('A', 'A'), ('?', '?'), ('R', ' '),
    (' ', 'R'), ('R', 'M'), ('R', 'C'), ('C', ' '), (' ', 'C')]

def deletedCodes : List (Char × Char) :=
  [(' ', 'D'), ('D', ' '), ('D', 'D'), ('R', 'D'), ('D', 'R')]

def readStatusLine : List Char → List Path × List Path
  | x :: y :: c :: rest =>
    let filePath := toSlash windows (trim (c :: rest))
    if filePath = [] then ([], [])
    else
      match (if x ∈ ['R', 'C'] ∨ y ∈ ['R', 'C'] then cut arrow filePath else none) with
      | some (left, right) => ([toSlash windows (trim right)], [toSlash windows (trim left)])
      | none =>
        if (x, y) ∈ changedCodes then ([filePath], [])
        else if (x, y) ∈ deletedCodes then ([], [filePath])
        else ([], [])
  | _ => ([], [])

def gitChangedFiles (output : Option (List Char)) : List Path × List Path :=
  match output with
  | none => ([], [])
  | some output =>
    let read := (output.splitOn '\n').map (readStatusLine windows)
    (read.flatMap Prod.fst, read.flatMap Prod.snd)

variable {β : Type}

structure WorkingTree (β : Type) where
  head : Path → Option β
  disk : Path → Option β
  untracked : Path → Prop
  entries : List StatusEntry
  /-- No path that differs is left out, but an untracked directory stands for its files. -/
  covers : ∀ p, disk p ≠ none ∧ (untracked p ∨ head p ≠ disk p) ∨ head p ≠ none ∧ disk p = none →
    ∃ e ∈ entries, e.path = p ∨ e.orig = some p ∨
      e.index = .untracked ∧ e.path.getLast? = some '/' ∧ e.path <+: p

namespace WorkingTree

variable (windows : Bool) (tree : WorkingTree β)

def Changed (p : Path) : Prop :=
  tree.disk p ≠ none ∧ (tree.untracked p ∨ tree.head p ≠ tree.disk p)

def Deleted (p : Path) : Prop := tree.head p ≠ none ∧ tree.disk p = none

def Complete : Prop :=
  (∀ p, tree.Changed p → p ∈ (gitChangedFiles windows (some (porcelain tree.entries))).1) ∧
    ∀ p, tree.Deleted p → p ∈ (gitChangedFiles windows (some (porcelain tree.entries))).2

end WorkingTree

variable (windows : Bool) (e : StatusEntry) (p : Path)

/-- It shows `p` under a pair of codes that counts as a change, or after the first arrow. -/
def StatusEntry.ShowsChanged : Prop :=
  e.orig = none ∧ (e.index.letter, e.tree.letter) ∈ changedCodes ∧
      toSlash windows e.text = p ∨
    e.orig ≠ none ∧ ∃ sides, cut arrow (toSlash windows e.text) = some sides ∧
      toSlash windows (trim sides.2) = p

/-- It shows `p` under a pair of codes that counts as a deletion, or before the first arrow. -/
def StatusEntry.ShowsDeleted : Prop :=
  e.orig = none ∧ (e.index.letter, e.tree.letter) ∈ deletedCodes ∧
      toSlash windows e.text = p ∨
    e.orig ≠ none ∧ ∃ sides, cut arrow (toSlash windows e.text) = some sides ∧
      toSlash windows (trim sides.1) = p

/-- It prints `p` without quotes under codes that count as a change, or as the new name of a rename
or copy whose printed original holds no arrow. -/
def StatusEntry.NamesChanged : Prop :=
  e.path = p ∧ p.all plainChar ∧ match e.orig with
    | none => (e.index.letter, e.tree.letter) ∈ changedCodes
    | some orig => ¬arrow <:+: toSlash windows (quote orig)

/-- It prints `p` without quotes under codes that count as a deletion, or as the original path. -/
def StatusEntry.NamesDeleted : Prop :=
  p.all plainChar ∧ match e.orig with
    | none => e.path = p ∧ (e.index.letter, e.tree.letter) ∈ deletedCodes
    | some orig => orig = p

section Reading

variable {windows} {p : Path} {path : List Char} {e : StatusEntry}

theorem StatusCode.letter_mem_iff (code : StatusCode) :
    code.letter ∈ ['R', 'C'] ↔ code.moves = true := by
  cases code <;> decide

theorem StatusEntry.text_trimmed (e : StatusEntry) : Trimmed e.text := by
  unfold text
  split
  · exact quote_trimmed _
  next orig horig =>
    have hne : orig ≠ [] := fun h ↦ e.orig_ne (h ▸ horig)
    exact (quote_trimmed orig).append (quote_trimmed e.path) (quote_ne_nil hne)
      (quote_ne_nil e.path_ne) arrow

theorem StatusEntry.text_ne_nil (e : StatusEntry) : e.text ≠ [] := by
  unfold text
  split
  · exact quote_ne_nil e.path_ne
  · simp [arrow]

theorem StatusEntry.newline_notMem_line (e : StatusEntry) : '\n' ∉ e.line := by
  have hletter : ∀ code : StatusCode, '\n' ≠ code.letter := by
    intro code
    cases code <;> decide
  have htext : '\n' ∉ e.text := by
    unfold text
    split
    · exact newline_notMem_quote _
    · simp [newline_notMem_quote, arrow]
  simp [line, hletter, htext]

theorem toSlash_ne_nil (h : path ≠ []) : toSlash windows path ≠ [] := by
  unfold toSlash
  split_ifs
  · simpa using h
  · exact h

theorem arrow_infix_toSlash (h : arrow <:+: path) : arrow <:+: toSlash windows path := by
  unfold toSlash
  split_ifs
  · exact h.map fun c ↦ if c = '\\' then '/' else c
  · exact h

theorem StatusEntry.readStatusLine_line (e : StatusEntry) (p : Path) :
    (p ∈ (readStatusLine windows e.line).1 ↔ e.ShowsChanged windows p) ∧
      (p ∈ (readStatusLine windows e.line).2 ↔ e.ShowsDeleted windows p) := by
  have htrim : trim (' ' :: e.text) = e.text := by
    rw [trim_cons_space (by decide), trim_of_trimmed e.text_trimmed]
  rw [line, readStatusLine]
  simp only [htrim, if_neg (toSlash_ne_nil e.text_ne_nil), StatusCode.letter_mem_iff,
    ← Bool.or_eq_true, ← e.moved]
  cases horig : e.orig with
  | none =>
    -- without an original path neither code is a rename or copy
    simp only [Option.isSome_none, Bool.false_eq_true, if_false, ShowsChanged, ShowsDeleted, horig]
    have hdisjoint : ∀ pair ∈ changedCodes, pair ∉ deletedCodes := by decide
    by_cases hchanged : (e.index.letter, e.tree.letter) ∈ changedCodes
    · simp [hchanged, hdisjoint _ hchanged, eq_comm]
    · by_cases hdeleted : (e.index.letter, e.tree.letter) ∈ deletedCodes
      · simp [hchanged, hdeleted, eq_comm]
      · simp [hchanged, hdeleted]
  | some orig =>
    have harrow : arrow <:+: toSlash windows e.text :=
      arrow_infix_toSlash ⟨quote orig, quote e.path, by rw [text, horig]⟩
    obtain ⟨sides, hsides⟩ := Option.isSome_iff_exists.mp (cut_isSome_iff.mpr harrow)
    simp [ShowsChanged, ShowsDeleted, horig, hsides, eq_comm]

variable (entries : List StatusEntry)

theorem splitOn_porcelain :
    (porcelain entries).splitOn '\n' = entries.map StatusEntry.line ++ [[]] := by
  refine splitOn_intercalate '\n' ?_ (by simp)
  intro line hline
  rcases mem_append.mp hline with hline | hline
  · obtain ⟨e, -, rfl⟩ := mem_map.mp hline
    exact e.newline_notMem_line
  · rw [mem_singleton.mp hline]
    exact not_mem_nil

theorem mem_gitChangedFiles_porcelain (p : Path) :
    (p ∈ (gitChangedFiles windows (some (porcelain entries))).1 ↔
        ∃ e ∈ entries, e.ShowsChanged windows p) ∧
      (p ∈ (gitChangedFiles windows (some (porcelain entries))).2 ↔
        ∃ e ∈ entries, e.ShowsDeleted windows p) := by
  have hempty : readStatusLine windows [] = ([], []) := rfl
  simp only [gitChangedFiles, splitOn_porcelain, map_append, map_map, map_singleton, hempty,
    flatMap_append, flatMap_singleton, append_nil, mem_flatMap, mem_map, Function.comp_apply,
    exists_exists_and_eq_and, StatusEntry.readStatusLine_line, and_self]

theorem toSlash_append (a b : List Char) :
    toSlash windows (a ++ b) = toSlash windows a ++ toSlash windows b := by
  unfold toSlash
  split_ifs
  · exact map_append
  · rfl

theorem toSlash_of_plain (h : p.all plainChar) : toSlash windows p = p := by
  unfold toSlash
  split_ifs
  · refine (map_congr_left fun c hc ↦ if_neg ?_).trans p.map_id
    rintro rfl
    exact absurd (all_eq_true.mp h _ hc) (by decide)
  · rfl

theorem quotes_mem_toSlash {s : List Char} : '"' ∈ toSlash windows s ↔ '"' ∈ s := by
  unfold toSlash
  split_ifs
  · rw [mem_map]
    constructor
    · rintro ⟨c, hc, heq⟩
      split_ifs at heq with hslash
      · cases heq
      · exact heq ▸ hc
    · intro h
      exact ⟨'"', h, rfl⟩
  · rfl

theorem shown_cases (p : Path) :
    p.all plainChar ∧ toSlash windows (quote p) = p ∨
      ¬p.all plainChar ∧ ∃ mid, toSlash windows (quote p) = '"' :: mid ++ ['"'] := by
  by_cases h : p.all plainChar
  · exact .inl ⟨h, by rw [quote_of_plain h, toSlash_of_plain h]⟩
  · refine .inr ⟨h, toSlash windows (p.flatMap escape), ?_⟩
    rw [quote, if_neg h, toSlash_append, ← singleton_append, toSlash_append]
    have hquote : toSlash windows ['"'] = ['"'] := by
      cases windows <;> rfl
    rw [hquote]
    rfl

theorem shown_iff {q : Path} (hq : '"' ∉ q) :
    toSlash windows (quote p) = q ↔ p = q ∧ q.all plainChar := by
  rcases @shown_cases windows p with ⟨hplain, heq⟩ | ⟨hplain, mid, heq⟩
  · rw [heq]
    exact ⟨fun h ↦ ⟨h, h ▸ hplain⟩, And.left⟩
  · rw [heq]
    refine ⟨fun h ↦ absurd (h ▸ by simp) hq, ?_⟩
    rintro ⟨rfl, h⟩
    exact absurd h hplain

theorem space_notMem_of_plain (h : p.all plainChar) : ' ' ∉ p := fun hmem ↦
  absurd (all_eq_true.mp h _ hmem) (by decide)

theorem quotes_mem_of_append {mid left x : List Char} (h : '"' :: mid ++ ['"'] = left ++ x)
    (hne : x ≠ []) : '"' ∈ x := by
  have hlast := congrArg List.getLast? h
  rw [getLast?_append_of_ne_nil _ (by simp), getLast?_append_of_ne_nil _ hne] at hlast
  exact mem_of_getLast? hlast.symm

theorem quotes_notMem_arrow : '"' ∉ arrow := by decide

theorem cut_arrow {a : List Char} (b : List Char) (h : ' ' ∉ a ∨ ∃ mid, a = '"' :: mid ++ ['"']) :
    ∃ sides, cut arrow (a ++ arrow ++ b) = some sides ∧
      (¬arrow <:+: a ∧ sides = (a, b) ∨ arrow <:+: a ∧ '"' ∈ sides.1 ∧ '"' ∈ sides.2) := by
  have hinfix : arrow <:+: a ++ arrow ++ b := ⟨a, b, rfl⟩
  obtain ⟨⟨left, right⟩, hcut⟩ := Option.isSome_iff_exists.mp (cut_isSome_iff.mpr hinfix)
  refine ⟨(left, right), hcut, ?_⟩
  obtain ⟨hsplit, hfirst⟩ := cut_spec hcut
  have hle := hfirst a b rfl
  rw [append_assoc, append_assoc, append_eq_append_iff] at hsplit
  -- `x` is what the first arrow cuts off the name
  obtain ⟨x, hx, hrest⟩ : ∃ x, a = left ++ x ∧ x ++ (arrow ++ b) = arrow ++ right := by
    rcases hsplit with ⟨x, rfl, hrest⟩ | ⟨x, hx, hrest⟩
    · obtain rfl : x = [] := by
        rw [length_append] at hle
        exact length_eq_zero_iff.mp (by omega)
      exact ⟨[], by simp, hrest⟩
    · exact ⟨x, hx, hrest.symm⟩
  rw [append_eq_append_iff] at hrest
  rcases hrest with ⟨y, hy, hrest⟩ | ⟨y, rfl, hrest⟩
  · -- the name ends before the arrow does, so it ends where the arrow begins
    obtain rfl : x = [] := by
      cases x with
      | nil => rfl
      | cons c x =>
        exfalso
        rcases h with hspace | ⟨mid, hquoted⟩
        · apply hspace
          rw [hx, show c = ' ' from (List.cons.inj hy).1.symm]
          simp
        · have hmem := quotes_mem_of_append (hquoted.symm.trans hx) (by simp)
          exact quotes_notMem_arrow (hy ▸ mem_append_left y hmem)
    rw [append_nil] at hx
    subst hx
    obtain rfl : arrow = y := hy
    refine .inl ⟨?_, by rw [append_cancel_left hrest]⟩
    rintro ⟨l, r, hinside⟩
    have hlength := hfirst l (r ++ (arrow ++ b)) (by rw [← hinside]; simp)
    rw [← hinside] at hlength
    simp only [length_append, arrow, length_cons, length_nil] at hlength
    omega
  · -- an arrow inside the name, which is quoted then
    have hname : arrow <:+: a := ⟨left, y, by rw [hx, append_assoc]⟩
    rcases h with hspace | ⟨mid, hquoted⟩
    · exact absurd (hname.subset mem_cons_self) hspace
    · rw [hquoted] at hx
      refine .inr ⟨hname, ?_, ?_⟩
      · cases left with
        | nil => cases (List.cons.inj hx).1
        | cons c left =>
          rw [(List.cons.inj hx).1]
          exact mem_cons_self
      · rw [hrest]
        have hmem := quotes_mem_of_append hx (by simp [arrow])
        rcases mem_append.mp hmem with hmem | hmem
        · exact absurd hmem quotes_notMem_arrow
        · exact mem_append_left _ hmem

theorem cut_shown (o p : Path) :
    ∃ sides, cut arrow (toSlash windows (quote o ++ arrow ++ quote p)) = some sides ∧
      (¬arrow <:+: toSlash windows (quote o) ∧
          sides = (toSlash windows (quote o), toSlash windows (quote p)) ∨
        arrow <:+: toSlash windows (quote o) ∧ '"' ∈ sides.1 ∧ '"' ∈ sides.2) := by
  have harrow : toSlash windows arrow = arrow := by
    cases windows <;> rfl
  rw [toSlash_append, toSlash_append, harrow]
  apply cut_arrow
  rcases @shown_cases windows o with ⟨hplain, heq⟩ | ⟨-, hquoted⟩
  · rw [heq]
    exact .inl (space_notMem_of_plain hplain)
  · exact .inr hquoted

theorem trim_shown (p : Path) : trim (toSlash windows (quote p)) = toSlash windows (quote p) := by
  rcases @shown_cases windows p with ⟨hplain, heq⟩ | ⟨-, mid, heq⟩
  · rw [heq, ← quote_of_plain hplain, trim_of_trimmed (quote_trimmed p)]
  · rw [heq]
    apply trim_of_trimmed
    constructor
    · intro c hc
      obtain rfl : '"' = c := by simpa using hc
      decide
    · intro c hc
      rw [getLast?_append_of_ne_nil _ (by simp)] at hc
      obtain rfl : '"' = c := by simpa using hc
      decide

theorem toSlash_toSlash (s : List Char) :
    toSlash windows (toSlash windows s) = toSlash windows s := by
  unfold toSlash
  split_ifs
  · rw [map_map]
    apply map_congr_left
    intro c _
    by_cases h : c = '\\' <;> simp [h]
  · rfl

theorem StatusEntry.showsChanged_iff (hp : '"' ∉ p) :
    e.ShowsChanged windows p ↔ e.NamesChanged windows p := by
  unfold ShowsChanged NamesChanged text
  cases horig : e.orig with
  | none =>
    simp only [ne_eq, not_true_eq_false, false_and, or_false, true_and]
    rw [shown_iff hp, and_comm, and_assoc]
  | some o =>
    obtain ⟨sides, hcut, hsides⟩ := @cut_shown windows o e.path
    simp only [reduceCtorEq, false_and, ne_eq, not_false_eq_true, true_and, false_or, hcut,
      Option.some.injEq, exists_eq_left']
    rcases hsides with ⟨harrow, rfl⟩ | ⟨harrow, -, hright⟩
    · rw [trim_shown, toSlash_toSlash, shown_iff hp]
      simp only [harrow, not_false_eq_true, and_true]
    · constructor
      · intro hshown
        exact absurd (hshown ▸ quotes_mem_toSlash.mpr (mem_trim_of_mem (by decide) hright)) hp
      · rintro ⟨-, -, hnone⟩
        exact absurd harrow hnone

theorem StatusEntry.showsDeleted_iff (hp : '"' ∉ p) :
    e.ShowsDeleted windows p ↔ e.NamesDeleted p := by
  unfold ShowsDeleted NamesDeleted text
  cases horig : e.orig with
  | none =>
    simp only [ne_eq, not_true_eq_false, false_and, or_false, true_and]
    rw [shown_iff hp, and_comm, and_assoc, and_left_comm]
  | some o =>
    obtain ⟨sides, hcut, hsides⟩ := @cut_shown windows o e.path
    simp only [reduceCtorEq, false_and, ne_eq, not_false_eq_true, true_and, false_or, hcut,
      Option.some.injEq, exists_eq_left']
    rcases hsides with ⟨-, rfl⟩ | ⟨harrow, hleft, -⟩
    · rw [trim_shown, toSlash_toSlash, shown_iff hp, and_comm]
    · constructor
      · intro hshown
        exact absurd (hshown ▸ quotes_mem_toSlash.mpr (mem_trim_of_mem (by decide) hleft)) hp
      · rintro ⟨hplain, rfl⟩
        -- a plain name holds no arrow
        rw [quote_of_plain hplain, toSlash_of_plain hplain] at harrow
        exact absurd (harrow.subset mem_cons_self) (space_notMem_of_plain hplain)

end Reading

/-- The report is read completely exactly when every changed or deleted path is printed without
quotes under known codes or as a side of a rename or copy; a path with a quote is found only by
chance. -/
theorem WorkingTree.complete_iff (tree : WorkingTree β) : tree.Complete windows ↔
    (∀ p, tree.Changed p → (∃ e ∈ tree.entries, e.NamesChanged windows p) ∨
      '"' ∈ p ∧ ∃ e ∈ tree.entries, e.ShowsChanged windows p) ∧
    ∀ p, tree.Deleted p → (∃ e ∈ tree.entries, e.NamesDeleted p) ∨
      '"' ∈ p ∧ ∃ e ∈ tree.entries, e.ShowsDeleted windows p := by
  have hplain : ∀ p : Path, p.all plainChar → '"' ∉ p := fun p h hmem ↦
    absurd (all_eq_true.mp h _ hmem) (by decide)
  refine and_congr (forall₂_congr fun p _ ↦ ?_) (forall₂_congr fun p _ ↦ ?_)
  · rw [(mem_gitChangedFiles_porcelain tree.entries p).1]
    by_cases hp : '"' ∈ p
    · have hnone : ¬∃ e ∈ tree.entries, e.NamesChanged windows p := by
        rintro ⟨e, -, -, h, -⟩
        exact hplain p h hp
      simp only [hnone, hp, false_or, true_and]
    · simp only [StatusEntry.showsChanged_iff hp, hp, false_and, or_false]
  · rw [(mem_gitChangedFiles_porcelain tree.entries p).2]
    by_cases hp : '"' ∈ p
    · have hnone : ¬∃ e ∈ tree.entries, e.NamesDeleted p := by
        rintro ⟨e, -, h, -⟩
        exact hplain p h hp
      simp only [hnone, hp, false_or, true_and]
    · simp only [StatusEntry.showsDeleted_iff hp, hp, false_and, or_false]

section Samples

def sampleTree (p : Path) (e : StatusEntry) (h : e.path <+: p)
    (hdir : e.path = p ∨ e.index = .untracked ∧ e.path.getLast? = some '/') :
    WorkingTree Unit where
  head _ := none
  disk q := if q = p then some () else none
  untracked _ := e.index = .untracked
  entries := [e]
  covers q hq := by
    obtain rfl : q = p := by
      rcases hq with ⟨hdisk, -⟩ | ⟨hhead, -⟩
      · by_contra hne
        exact hdisk (if_neg hne)
      · exact absurd rfl hhead
    refine ⟨e, mem_singleton_self e, ?_⟩
    rcases hdir with hpath | hdir
    · exact .inl hpath
    · exact .inr (.inr ⟨hdir.1, hdir.2, h⟩)

theorem sampleTree_incomplete {p : Path} {e : StatusEntry} {h : e.path <+: p}
    {hdir : e.path = p ∨ e.index = .untracked ∧ e.path.getLast? = some '/'}
    (hread : (gitChangedFiles false (some (porcelain [e]))).1.contains p = false) :
    ¬(sampleTree p e h hdir).Complete false := by
  intro hcomplete
  have hmem := hcomplete.1 p ⟨by simp [sampleTree], .inr (by simp [sampleTree])⟩
  rw [← contains_iff_mem] at hmem
  rw [sampleTree] at hmem
  rw [hread] at hmem
  cases hmem

def stagedThenEdited : StatusEntry :=
  ⟨.added, .modified, "a.go".toList, none, by decide, by decide, rfl⟩

def spacedName : StatusEntry :=
  ⟨.untracked, .untracked, "a b.go".toList, none, by decide, by decide, rfl⟩

def untrackedDirectory : StatusEntry :=
  ⟨.untracked, .untracked, "lib/".toList, none, by decide, by decide, rfl⟩

/-- Missed: a file staged and then edited, one with a space in its name, one in an untracked
directory. -/
theorem git_changes_missed :
    ¬(sampleTree "a.go".toList stagedThenEdited (by decide) (by decide)).Complete false ∧
      ¬(sampleTree "a b.go".toList spacedName (by decide) (by decide)).Complete false ∧
      ¬(sampleTree "lib/a.go".toList untrackedDirectory (by decide) (by decide)).Complete false :=
  ⟨sampleTree_incomplete (by decide +kernel), sampleTree_incomplete (by decide +kernel),
    sampleTree_incomplete (by decide +kernel)⟩

end Samples

end MiLsp.Incremental
