import MiLsp.Library.Trees
import MiLsp.EditPlan.Validate

namespace MiLsp.EditPlan

open Library Strings Trees List

def linkLimit : ℕ := 40

def evalLimit : ℕ := 255

variable (tree : Tree)

/-- The path below which nothing but the path's last element is looked at. -/
def lstat (path : String) : Presence :=
  let segs := path.toList.splitOn '/'
  match walk tree linkLimit [] segs.dropLast with
  | .error .notExist => .absent
  | .error _ => .failed
  | .ok place =>
    let last := segs.getLast?.getD []
    if tree.node place ≠ some .dir then .failed
    else if Plain last ∧ tree.node (place ++ [last]) = none then .absent
    else .present

def evalSymlinks (path : String) : Except String String :=
  match resolve tree evalLimit path.toList with
  | .ok place => .ok (String.ofList (render place))
  | .error .notExist => .error "no such file or directory"
  | .error .notDir => .error "not a directory"
  | .error .loop => .error "too many links"

def treeHost (host : Host) : Host :=
  { host with lstat := lstat tree, evalSymlinks := evalSymlinks tree }

variable {tree : Tree} {host : Host} {place : Place} {root requested abs rel : String}
  {denyPaths configured : List String} {relPath : String}

theorem evalSymlinks_of_resolve {path : String}
    (h : resolve tree linkLimit path.toList = .ok place) :
    evalSymlinks tree path = .ok (String.ofList (render place)) := by
  rw [evalSymlinks, resolve, walk_mono (by decide) h]

theorem lstat_of_resolve {front : Place} {name : Paths.Segment}
    (hplain : ∀ other ∈ front ++ [name], Plain other)
    (h : resolve tree linkLimit (render (front ++ [name])) = .ok place) :
    lstat tree (String.ofList (render (front ++ [name]))) = .present := by
  have hsplit := splitOn_render hplain (by simp)
  have hreal := (resolve_physical h).2
  rw [resolve, hsplit, ← cons_append] at h
  obtain ⟨mid, hmid, hlast⟩ := walk_append h
  have hnode : tree.node (mid ++ [name]) ≠ none := by
    rcases walk_name (hplain name (by simp)) hlast with rfl | ⟨target, hnode⟩
    · exact hreal.ne_none
    · simp [hnode]
  rw [lstat, String.toList_ofList, hsplit, ← cons_append, dropLast_concat, hmid]
  dsimp only
  rw [getLast?_concat, Option.getD_some, if_neg (not_not.mpr (tree.parent mid name hnode)),
    if_neg fun h ↦ hnode h.2]

theorem exists_render_editPlanAbsPath (rootNames : Place) (requested : String) :
    ∃ place : Place, (∀ name ∈ place, Plain name) ∧
      editPlanAbsPath (render rootNames) requested = render place := by
  apply exists_render
  split_ifs with habs
  · exact habs
  · exact Paths.isAbs_join (isAbs_render rootNames) _

theorem accepted_spec (hroot : Paths.isAbs root.toList = true)
    (h : resolveEditPlanPath host root requested denyPaths = .ok (abs, rel)) :
    ∃ rootNames : Place, Paths.clean root.toList = render rootNames ∧
      ∃ front name, (∀ other ∈ front ++ [name], Plain other) ∧
        abs = String.ofList (render (front ++ [name])) ∧
        abs = String.ofList (render rootNames ++ '/' :: rel.toList) ∧
        symlinkLeavesRoot host (String.ofList (render rootNames)) abs = false ∧
        editPlanDeniedBy host rel denyPaths = none := by
  obtain ⟨rootNames, -, hclean⟩ := exists_render hroot
  have hbelow := resolveEditPlanPath_abs host h
  obtain ⟨hleaves, hrelative⟩ := resolveEditPlanPath_eq_ok host h
  obtain ⟨habs, hdenied, -⟩ := relativeEditPlanPath_eq_ok host hrelative
  rw [hclean] at hleaves hbelow habs
  obtain ⟨place, hplain, hplace⟩ := exists_render_editPlanAbsPath rootNames requested
  rw [hplace] at hleaves habs
  refine ⟨rootNames, hclean, ?_⟩
  rcases eq_nil_or_concat place with hnil | ⟨front, name, hsnoc⟩
  · -- the path of the root alone is too short
    rw [habs, hnil, String.ofList_inj] at hbelow
    have hlen := congrArg List.length hbelow
    simp [render] at hlen
  · rw [concat_eq_append] at hsnoc
    subst hsnoc
    exact ⟨front, name, hplain, habs, hbelow, habs ▸ hleaves, hdenied⟩

theorem place_below_root (hroot : Paths.isAbs root.toList = true)
    (h : resolveEditPlanPath (treeHost tree host) root requested denyPaths = .ok (abs, rel))
    (hplace : resolve tree linkLimit abs.toList = .ok place) :
    ∃ rootPlace, resolve tree linkLimit (Paths.clean root.toList) = .ok rootPlace ∧
      rootPlace <+: place := by
  obtain ⟨rootNames, hclean, front, name, hnames, habs, hbelow, hleaves, -⟩ :=
    accepted_spec hroot h
  obtain ⟨rootPlace, hrootPlace, -⟩ : ∃ mid, resolve tree linkLimit (render rootNames) = .ok mid ∧
      walk tree linkLimit mid (rel.toList.splitOn '/') = .ok place := by
    apply resolve_below
    rw [hbelow, String.toList_ofList] at hplace
    exact hplace
  refine ⟨rootPlace, hclean ▸ hrootPlace, ?_⟩
  have hcleanAbs : cleanPath abs = abs := by
    rw [habs, cleanPath, String.toList_ofList, clean_render hnames]
  have hpresent : (treeHost tree host).lstat abs = .present := by
    rw [habs, String.toList_ofList] at hplace
    rw [habs]
    exact lstat_of_resolve hnames hplace
  have hevaluated : evalExistingPathOrAncestor (treeHost tree host) (abs.length + 1)
      (cleanPath abs) = .ok (String.ofList (render place)) := by
    rw [evalExistingPathOrAncestor, hcleanAbs]
    rw [hpresent]
    exact evalSymlinks_of_resolve hplace
  have hrootEvaluated : (treeHost tree host).evalSymlinks (String.ofList (render rootNames)) =
      .ok (String.ofList (render rootPlace)) := by
    apply evalSymlinks_of_resolve
    rw [String.toList_ofList]
    exact hrootPlace
  rw [symlinkLeavesRoot, hevaluated] at hleaves
  rw [hrootEvaluated] at hleaves
  have hplain := resolve_plain hplace
  have hrootPlain := resolve_plain hrootPlace
  simp only [editPlanPathInsideRoot, cleanPath, String.toList_ofList, clean_render hplain,
    clean_render hrootPlain, Bool.not_eq_false', Bool.or_eq_true, decide_eq_true_eq,
    String.ofList_inj] at hleaves
  rcases hleaves with hsame | hprefix
  · rw [render_injective hplain hrootPlain hsame]
  · apply isPrefix_of_render hrootPlain hplain
    have hslash : "/".toList = ['/'] := rfl
    simpa only [hasPrefix, isPrefixOf_iff_prefix, String.toList_append, String.toList_ofList,
      hslash] using hprefix

def relText (place : Place) : String :=
  if place = [] then "." else String.ofList (['/'].intercalate place)

structure Editable (host : Host) (configured : List String) (place : Place) : Prop where
  git : ¬[".git".toList] <+: place
  miLsp : ¬[".mi-lsp".toList] <+: place
  readModel : place ≠
    [".docs".toList, "wiki".toList, "_mi-lsp".toList, "read-model.toml".toList]
  configured : ∀ pattern ∈ configured, denies host pattern (relText place) = false

/-- `path.Match` on the patterns always denied: element by element, a plain name only itself. -/
structure DocumentedMatch (pathMatch : String → String → Bool) : Prop where
  git : ∀ relPath, pathMatch ".git/**" relPath → hasPrefix relPath ".git/"
  miLsp : ∀ relPath, pathMatch ".mi-lsp/**" relPath → hasPrefix relPath ".mi-lsp/"
  readModel : ∀ relPath, pathMatch ".docs/wiki/_mi-lsp/read-model.toml" relPath →
    relPath = ".docs/wiki/_mi-lsp/read-model.toml"

theorem editPlanDeniedBy_eq_none :
    editPlanDeniedBy host relPath denyPaths = none ↔
      ∀ pattern ∈ denyPaths, denies host pattern (trimPrefix (cleanPath relPath) "./") = false := by
  simp [editPlanDeniedBy, find?_eq_none]

section Names

variable {place : Place}

theorem splitOn_intercalate_place (h : ∀ name ∈ place, Plain name) (hne : place ≠ []) :
    (['/'].intercalate place).splitOn '/' = place :=
  splitOn_intercalate '/' (fun name hname ↦ (h name hname).2.2.2) hne

theorem slash_toList : "/".toList = ['/'] := rfl

variable {dir : String}

section

variable (h : ∀ name ∈ place, Plain name)
include h

theorem hasPrefix_relText (hne : place ≠ []) (hdir : '/' ∉ dir.toList) :
    hasPrefix (relText place) (dir ++ "/") = true ↔
      ∃ rest, rest ≠ [] ∧ place = dir.toList :: rest := by
  rw [relText, if_neg hne, hasPrefix, isPrefixOf_iff_prefix, String.toList_ofList,
    String.toList_append, slash_toList]
  constructor
  · rintro ⟨rest, hrest⟩
    rw [append_assoc, singleton_append] at hrest
    have hsplit := congrArg (List.splitOn '/') hrest
    rw [splitOn_append_cons_self, splitOn_intercalate_place h hne,
      splitOn_eq_singleton hdir] at hsplit
    exact ⟨rest.splitOn '/', splitOn_ne_nil '/' rest, hsplit.symm⟩
  · rintro ⟨rest, hrest, rfl⟩
    obtain ⟨name, names, rfl⟩ := exists_cons_of_ne_nil hrest
    rw [intercalate_cons_cons]
    exact prefix_append _ _

theorem relText_eq_iff (hne : place ≠ []) {path : String} :
    relText place = path ↔ path.toList.splitOn '/' = place := by
  rw [relText, if_neg hne]
  constructor
  · rintro rfl
    rw [String.toList_ofList, splitOn_intercalate_place h hne]
  · rintro rfl
    rw [intercalate_splitOn, String.ofList_toList]

theorem below_iff (hdir : Plain dir.toList) :
    (relText place = dir ∨ hasPrefix (relText place) (dir ++ "/") = true) ↔
      [dir.toList] <+: place := by
  by_cases hne : place = []
  · subst hne
    refine iff_of_false ?_ (by simp)
    rintro (hsame | hbelow)
    · exact hdir.2.1 (hsame ▸ rfl)
    · rw [hasPrefix, isPrefixOf_iff_prefix, String.toList_append] at hbelow
      have hlen := hbelow.length_le
      have hpos := length_pos_of_ne_nil hdir.1
      have hone : (relText []).toList.length = 1 := rfl
      rw [length_append, hone, slash_toList, length_singleton] at hlen
      omega
  · rw [hasPrefix_relText h hne hdir.2.2.2, relText_eq_iff h hne, splitOn_eq_singleton hdir.2.2.2]
    constructor
    · rintro (rfl | ⟨rest, -, rfl⟩)
      · exact prefix_rfl
      · exact ⟨rest, rfl⟩
    · rintro ⟨rest, rfl⟩
      cases rest with
      | nil => exact .inl rfl
      | cons name rest => exact .inr ⟨name :: rest, by simp, rfl⟩

theorem trimPrefix_cleanPath_relText :
    trimPrefix (cleanPath (relText place)) "./" = relText place := by
  by_cases hne : place = []
  · subst hne
    decide +kernel
  have hclean : cleanPath (relText place) = relText place := by
    have hrender : Paths.render false place = ['/'].intercalate place := if_neg hne
    rw [relText, if_neg hne, cleanPath, String.toList_ofList, ← hrender,
      (reduced_of_plain h false).clean_render]
  rw [hclean, trimPrefix, if_neg]
  intro hprefix
  have hdot : (".".toList) = Paths.dot := rfl
  obtain ⟨rest, -, hrest⟩ := (@hasPrefix_relText place "." h hne (by decide)).mp hprefix
  exact (h Paths.dot (by rw [hrest, hdot]; exact mem_cons_self)).2.1 rfl

theorem denies_directory {pattern : String} (hdir : Plain dir.toList)
    (hnormalized : trimPrefix (trimSpace pattern) "./" = dir ++ "/**")
    (hdirectory : trimSuffix (dir ++ "/**") "/**" = dir)
    (hmatch : ∀ relPath, host.pathMatch (dir ++ "/**") relPath → hasPrefix relPath (dir ++ "/")) :
    denies host pattern (relText place) = true ↔ [dir.toList] <+: place := by
  have hne : dir ++ "/**" ≠ "" := by
    intro hempty
    have hlist := congrArg String.toList hempty
    rw [String.toList_append] at hlist
    exact hdir.1 (append_eq_nil_iff.mp hlist).1
  have hsuffix : hasSuffix (dir ++ "/**") "/**" = true := by
    rw [hasSuffix, isSuffixOf_iff_suffix, String.toList_append]
    exact suffix_append _ _
  have hstars : hasPrefix (dir ++ "/**") (dir ++ "/") = true := by
    rw [hasPrefix, isPrefixOf_iff_prefix, String.toList_append, String.toList_append]
    exact ⟨"**".toList, by rw [append_assoc]; rfl⟩
  rw [← below_iff h hdir, denies, hnormalized, hdirectory, hsuffix]
  simp only [hne, ne_eq, not_false_eq_true, decide_true, Bool.true_and, Bool.or_eq_true,
    decide_eq_true_eq]
  constructor
  · rintro ((hbelow | hsame) | hmatches)
    · exact hbelow
    · exact .inr (hsame ▸ hstars)
    · exact .inr (hmatch _ hmatches)
  · exact fun hbelow ↦ .inl (.inl hbelow)

theorem denies_readModel (hmatch : DocumentedMatch host.pathMatch) :
    denies host ".docs/wiki/_mi-lsp/read-model.toml" (relText place) = true ↔
      place = [".docs".toList, "wiki".toList, "_mi-lsp".toList, "read-model.toml".toList] := by
  have hnormalized : trimPrefix (trimSpace ".docs/wiki/_mi-lsp/read-model.toml") "./" =
      ".docs/wiki/_mi-lsp/read-model.toml" := by decide +kernel
  have hsuffix : hasSuffix ".docs/wiki/_mi-lsp/read-model.toml" "/**" = false := by decide +kernel
  have hsplit : ".docs/wiki/_mi-lsp/read-model.toml".toList.splitOn '/' =
      [".docs".toList, "wiki".toList, "_mi-lsp".toList, "read-model.toml".toList] := by
    decide +kernel
  have htext : relText place = ".docs/wiki/_mi-lsp/read-model.toml" ↔
      place = [".docs".toList, "wiki".toList, "_mi-lsp".toList, "read-model.toml".toList] := by
    by_cases hne : place = []
    · subst hne
      exact iff_of_false (by decide +kernel) (by simp)
    · rw [relText_eq_iff h hne, hsplit, eq_comm]
  rw [← htext, denies, hnormalized, hsuffix]
  simp only [Bool.false_and, Bool.false_or, ne_eq, Bool.and_eq_true, decide_eq_true_eq,
    Bool.or_eq_true]
  constructor
  · rintro ⟨-, hsame | hmatches⟩
    · exact hsame
    · exact hmatch.readModel _ hmatches
  · exact fun hsame ↦ ⟨by decide, .inl hsame⟩

end

end Names

theorem denies_trimSpace (pattern relPath : String) :
    denies host (trimSpace pattern) relPath = denies host pattern relPath := by
  rw [denies, trimSpace_trimSpace, denies]

theorem denies_blank {pattern : String} (h : trimSpace pattern = "") (relPath : String) :
    denies host pattern relPath = false := by
  have hempty : trimPrefix "" "./" = "" := by decide +kernel
  rw [denies, h, hempty]
  rfl

theorem configured_iff :
    (∀ pattern ∈ (configured.map trimSpace).filter (· ≠ ""),
        denies host pattern relPath = false) ↔
      ∀ pattern ∈ configured, denies host pattern relPath = false := by
  constructor
  · intro h pattern hpattern
    by_cases hblank : trimSpace pattern = ""
    · exact denies_blank hblank relPath
    · rw [← denies_trimSpace]
      refine h _ (mem_filter.mpr ⟨mem_map.mpr ⟨pattern, hpattern, rfl⟩, ?_⟩)
      exact decide_eq_true hblank
  · intro h pattern hpattern
    obtain ⟨other, hother, rfl⟩ := mem_map.mp (mem_filter.mp hpattern).1
    rw [denies_trimSpace]
    exact h other hother

theorem deniedBy_relText_eq_none (hmatch : DocumentedMatch host.pathMatch)
    (h : ∀ name ∈ place, Plain name) :
    editPlanDeniedBy host (relText place) (editPlanDenyPaths configured) = none ↔
      Editable host configured place := by
  have hgit : denies host ".git/**" (relText place) = true ↔ [".git".toList] <+: place :=
    denies_directory h (by decide +kernel) (by decide +kernel) (by decide +kernel) hmatch.git
  have hmiLsp : denies host ".mi-lsp/**" (relText place) = true ↔ [".mi-lsp".toList] <+: place :=
    denies_directory h (by decide +kernel) (by decide +kernel) (by decide +kernel) hmatch.miLsp
  have hreadModel := denies_readModel h hmatch
  rw [editPlanDeniedBy_eq_none, trimPrefix_cleanPath_relText h, editPlanDenyPaths,
    forall_mem_append, configured_iff]
  simp only [forall_mem_cons, not_mem_nil, false_implies, implies_true, and_true,
    ← Bool.not_eq_true]
  rw [hgit, hmiLsp, hreadModel]
  simp only [Bool.not_eq_true]
  constructor
  · rintro ⟨⟨hgit, hmiLsp, hreadModel⟩, hconfigured⟩
    exact ⟨hgit, hmiLsp, hreadModel, hconfigured⟩
  · rintro ⟨hgit, hmiLsp, hreadModel, hconfigured⟩
    exact ⟨⟨hgit, hmiLsp, hreadModel⟩, hconfigured⟩

/-- The file lies inside the resolved root, at a place that may be edited. -/
def PhysicallyGuarded (tree : Tree) (host : Host) (root : String) (configured : List String)
    (place : Place) : Prop :=
  ∃ rootPlace, resolve tree linkLimit (Paths.clean root.toList) = .ok rootPlace ∧
    rootPlace <+: place ∧ Editable host configured (place.drop rootPlace.length)

def spelledNames (root requested : String) : List Paths.Segment :=
  let root := Paths.clean root.toList
  ((Paths.below? root (editPlanAbsPath root requested)).getD []).splitOn '/'

/-- No link on the way below the root leads from a path that may be edited to one that may not. -/
def LinksHarmless (tree : Tree) (host : Host) (root requested : String) (configured : List String) :
    Prop :=
  ∀ rootPlace, resolve tree linkLimit (Paths.clean root.toList) = .ok rootPlace →
    LinksKeep tree linkLimit
      (fun place ↦ rootPlace <+: place → Editable host configured (place.drop rootPlace.length))
      rootPlace (spelledNames root requested)

theorem spelledNames_eq (h : resolveEditPlanPath host root requested denyPaths = .ok (abs, rel)) :
    spelledNames root requested = rel.toList.splitOn '/' := by
  obtain ⟨-, hrelative⟩ := resolveEditPlanPath_eq_ok host h
  obtain ⟨-, -, below, hbelow, hdots, rfl⟩ := relativeEditPlanPath_eq_ok host hrelative
  rw [spelledNames, hbelow, Option.getD_some, String.toList_ofList,
    Paths.clean_below (Paths.clean_ne_nil _) (Paths.below?_eq_some hbelow) hdots]

/-- An accepted path is inside the root, and may be edited unless a link on the way leads from a
path that may to one that may not. -/
theorem guard_physical_of_links (hmatch : DocumentedMatch host.pathMatch)
    {root requested abs rel : String} {configured : List String}
    (hroot : Paths.isAbs root.toList = true)
    (h : resolveEditPlanPath (treeHost tree host) root requested (editPlanDenyPaths configured) =
      .ok (abs, rel))
    {place : Place} (hplace : resolve tree linkLimit abs.toList = .ok place)
    (hlinks : LinksHarmless tree host root requested configured) :
    PhysicallyGuarded tree host root configured place := by
  obtain ⟨rootPlace, hrootPlace, hbelow⟩ := place_below_root hroot h hplace
  obtain ⟨rootNames, hclean, front, name, hnames, habs, hrel, -, hdenied⟩ :=
    accepted_spec hroot h
  have hplain : ∀ other ∈ rel.toList.splitOn '/', Plain other := by
    have hsplit := congrArg (fun path : String ↦ path.toList.splitOn '/') (habs.symm.trans hrel)
    simp only [String.toList_ofList, splitOn_render hnames (by simp),
      splitOn_append_cons_self] at hsplit
    have htail := congrArg List.tail hsplit
    rw [tail_cons, tail_append_of_ne_nil (splitOn_ne_nil _ _)] at htail
    rw [htail] at hnames
    exact (forall_mem_append.mp hnames).2
  have hwalk : walk tree linkLimit rootPlace (rel.toList.splitOn '/') = .ok place := by
    rw [hrel, String.toList_ofList] at hplace
    obtain ⟨mid, hmid, hwalk⟩ := resolve_below hplace
    rw [← hclean, hrootPlace] at hmid
    cases hmid
    exact hwalk
  have hspelled : relText (rel.toList.splitOn '/') = rel := by
    exact (relText_eq_iff hplain (splitOn_ne_nil _ _)).mpr rfl
  rw [← hspelled] at hdenied
  have heditable := (deniedBy_relText_eq_none hmatch hplain).mp hdenied
  have hkeep := hlinks rootPlace hrootPlace
  rw [spelledNames_eq h] at hkeep
  refine ⟨rootPlace, hrootPlace, hbelow, hkeep.walk hplain hwalk (fun _ ↦ ?_) hbelow⟩
  rw [drop_left]
  exact heditable

section Samples

def sampleEntries : List (Place × Node) :=
  [(["ws".toList], .dir), (["ws".toList, ".git".toList], .dir),
    (["ws".toList, ".git".toList, "config".toList], .file),
    (["ws".toList, "a.go".toList], .file), (["ws".toList, "x".toList], .link ".git".toList),
    (["ws".toList, "y".toList], .link ".".toList)]

def sampleTree : Tree := .ofEntries sampleEntries (by decide +kernel)

def sampleGuardHost : Host where
  lstat _ := .absent
  evalSymlinks := .ok
  stat _ := .error ""
  readFile _ := .error ""
  sha256Hex _ := ""
  toLower := id
  pathMatch _ _ := false
  compile _ := .error ""

theorem sampleGuardHost_match : DocumentedMatch sampleGuardHost.pathMatch :=
  ⟨fun _ h ↦ (Bool.false_ne_true h).elim, fun _ h ↦ (Bool.false_ne_true h).elim,
    fun _ h ↦ (Bool.false_ne_true h).elim⟩

theorem sampleTree_root :
    resolve sampleTree linkLimit (Paths.clean "/ws".toList) = .ok ["ws".toList] := by
  decide +kernel

theorem link_to_root_guarded :
    resolve sampleTree linkLimit "/ws/y/a.go".toList = .ok ["ws".toList, "a.go".toList] ∧
      PhysicallyGuarded sampleTree sampleGuardHost "/ws" [] ["ws".toList, "a.go".toList] := by
  have hplace : resolve sampleTree linkLimit "/ws/y/a.go".toList =
      .ok ["ws".toList, "a.go".toList] := by decide +kernel
  refine ⟨hplace, @guard_physical_of_links sampleTree sampleGuardHost sampleGuardHost_match "/ws"
    "y/a.go" "/ws/y/a.go" "y/a.go" [] (by decide +kernel) (by decide +kernel) _ hplace ?_⟩
  intro rootPlace hroot
  have hspelled : spelledNames "/ws" "y/a.go" = ["y".toList, "a.go".toList] := by decide +kernel
  have hlink : walk sampleTree linkLimit ["ws".toList] ["y".toList] = .ok ["ws".toList] := by
    decide +kernel
  have hfile : sampleTree.node ["ws".toList, "a.go".toList] = some .file := by decide +kernel
  cases sampleTree_root.symm.trans hroot
  rw [hspelled]
  intro next hnext
  cases hlink.symm.trans hnext
  refine ⟨fun _ _ _ ↦ ⟨by decide, by decide, by decide, by simp⟩, fun next _ ↦ ⟨?_, trivial⟩⟩
  rintro ⟨target, htarget⟩
  cases hfile.symm.trans htarget

theorem link_into_git_accepted :
    resolveEditPlanPath (treeHost sampleTree sampleGuardHost) "/ws" "x/config"
        (editPlanDenyPaths []) = .ok ("/ws/x/config", "x/config") ∧
      resolve sampleTree linkLimit "/ws/x/config".toList =
        .ok ["ws".toList, ".git".toList, "config".toList] ∧
      ¬PhysicallyGuarded sampleTree sampleGuardHost "/ws" []
        ["ws".toList, ".git".toList, "config".toList] := by
  refine ⟨by decide +kernel, by decide +kernel, ?_⟩
  rintro ⟨rootPlace, hroot, -, hallowed⟩
  cases sampleTree_root.symm.trans hroot
  exact hallowed.git ⟨["config".toList], rfl⟩

end Samples

end MiLsp.EditPlan
