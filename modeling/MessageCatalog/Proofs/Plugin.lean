/-
  MessageCatalog.Proofs.Plugin — where the name of a plugin stands in a path.

  A component is a directory if a separator follows it. Below a translations root the name is
  looked for in front of a separator, and the nearest directory is one by its making. Below the
  plugins of a workspace whatever stands there is taken, also at the end of the path.

  Proved, for every path, with either separator, repeated ones, `.` and a separator at the end:
  - `ofPath?_directory`: the name is that of a directory, or that of the base of one for React,
    unless the path is that of a file right below the plugins of a workspace that has none
    around it. There the name is that of the file (`ofPath?_directory_differs`).
-/

import Mathlib.Data.List.Basic
import MessageCatalog.Plugin

namespace MessageCatalog.Plugin

variable {cs : List Text} {d : Text}

/-- The directories of a path as they are written: what a separator follows, `.` and the empty
component included. -/
def enclosing (path : Text) : List Text := (components path).dropLast

/-- Whether a component names something: it is not empty and not `.`. -/
def isName (p : Text) : Bool := !p.isEmpty && p != Text.ofString "."

/-! ## Variants -/

theorem dropEnd?_append {ending t s : Text} (h : Text.dropEnd? ending t = some s) : s ++ ending = t := by
  unfold Text.dropEnd? at h
  split at h
  · rename_i hsuffix
    obtain ⟨front, rfl⟩ := List.isSuffixOf_iff_suffix.1 hsuffix
    obtain rfl := Option.some.inj h
    simp
  · cases h

/-- A name is that of the component, or the component is its variant for React. -/
theorem stripVariant_cases (d : Text) : stripVariant d = d ∨ stripVariant d ++ "-react" = d := by
  unfold stripVariant
  rcases hcut : Text.dropEnd? "-react" d with _ | s
  · exact .inl rfl
  · exact .inr (dropEnd?_append hcut)

/-! ## Below a workspace -/

/-- A root of workspaces, one of them, its plugins, and what stands below. -/
structure IsWorkspace (root workspace plugins name : Text) : Prop where
  root : endsWith "workspaces" root = true
  workspace : workspace ≠ []
  plugins : plugins = Text.ofString "plugins"
  name : name ≠ []

theorem isWorkspace_iff {root workspace plugins name : Text} :
    (endsWith "workspaces" root && !workspace.isEmpty && plugins == Text.ofString "plugins" && !name.isEmpty) = true ↔
      IsWorkspace root workspace plugins name := by
  simp only [Bool.and_eq_true, Bool.not_eq_true', List.isEmpty_eq_false_iff, beq_iff_eq]
  constructor
  · rintro ⟨⟨⟨hroot, hworkspace⟩, hplugins⟩, hname⟩
    exact ⟨hroot, hworkspace, hplugins, hname⟩
  · rintro ⟨hroot, hworkspace, hplugins, hname⟩
    exact ⟨⟨⟨hroot, hworkspace⟩, hplugins⟩, hname⟩

/-- What is found stands at the end of four components that are a workspace's. -/
theorem belowWorkspace_split (h : belowWorkspace cs = some d) :
    ∃ before root workspace plugins after,
      cs = before ++ root :: workspace :: plugins :: d :: after ∧ IsWorkspace root workspace plugins d := by
  fun_induction belowWorkspace cs with
  | case1 | case4 => cases h
  | case2 a b c d' rest hfound =>
    obtain rfl := Option.some.inj h
    exact ⟨[], a, b, c, rest, rfl, isWorkspace_iff.1 hfound⟩
  | case3 a b c d' rest _ ih =>
    obtain ⟨before, root, workspace, plugins, after, hcs, hworkspace⟩ := ih h
    exact ⟨a :: before, root, workspace, plugins, after, by rw [hcs]; rfl, hworkspace⟩

/-- A workspace that ends in front of other components is found there, or one in front of it is. -/
theorem belowWorkspace_isSome {root workspace plugins : Text} (h : IsWorkspace root workspace plugins d)
    (before after : List Text) :
    (belowWorkspace (before ++ root :: workspace :: plugins :: d :: after)).isSome = true := by
  induction before with
  | nil =>
    rw [List.nil_append, belowWorkspace, if_pos (isWorkspace_iff.2 h)]
    rfl
  | cons a before ih =>
    -- at least four components follow, so the search looks here and then goes on
    obtain ⟨b, c, d', rest, hrest⟩ : ∃ b c d' rest,
        before ++ root :: workspace :: plugins :: d :: after = b :: c :: d' :: rest := by
      rcases before with _ | ⟨b, _ | ⟨c, _ | ⟨d', more⟩⟩⟩
      all_goals exact ⟨_, _, _, _, rfl⟩
    rw [hrest] at ih
    rw [List.cons_append, hrest, belowWorkspace]
    split
    · rfl
    · exact ih

theorem belowWorkspace_append (h : belowWorkspace cs = some d) (more : List Text) :
    belowWorkspace (cs ++ more) = some d := by
  fun_induction belowWorkspace cs with
  | case1 | case4 => cases h
  | case2 a b c d' rest hfound =>
    rw [List.cons_append, List.cons_append, List.cons_append, List.cons_append, belowWorkspace]
    rwa [if_pos hfound]
  | case3 a b c d' rest hfound ih =>
    rw [List.cons_append, List.cons_append, List.cons_append, List.cons_append, belowWorkspace]
    rw [if_neg hfound]
    exact ih h

/-- What is found only with the last component is that component. -/
theorem belowWorkspace_last (h : belowWorkspace cs = some d) (hfront : belowWorkspace cs.dropLast = none) :
    ∃ before root workspace plugins,
      cs = before ++ [root, workspace, plugins, d] ∧ IsWorkspace root workspace plugins d := by
  obtain ⟨before, root, workspace, plugins, after, rfl, hworkspace⟩ := belowWorkspace_split h
  by_cases hafter : after = []
  · subst hafter
    exact ⟨before, root, workspace, plugins, rfl, hworkspace⟩
  · have hsome := belowWorkspace_isSome hworkspace before after.dropLast
    have hcut : (before ++ root :: workspace :: plugins :: d :: after).dropLast =
        before ++ root :: workspace :: plugins :: d :: after.dropLast := by
      simp [List.dropLast_append_of_ne_nil, List.dropLast_cons_of_ne_nil, hafter]
    rw [hcut] at hfront
    rw [hfront] at hsome
    cases hsome

/-! ## Directories -/

theorem mem_dropLast (before : List Text) {after : List Text} (h : after ≠ []) : d ∈ (before ++ d :: after).dropLast := by
  rw [List.dropLast_append_of_ne_nil (List.cons_ne_nil d after), List.dropLast_cons_of_ne_nil h]
  exact List.mem_append_right _ List.mem_cons_self

theorem belowTranslations_split (h : belowTranslations cs = some d) : d ∈ cs.dropLast ∧ d ≠ [] := by
  fun_induction belowTranslations cs with
  | case1 | case4 => cases h
  | case2 a b c rest hfound =>
    obtain rfl := Option.some.inj h
    rw [Bool.and_eq_true, Bool.not_eq_true', List.isEmpty_eq_false_iff] at hfound
    exact ⟨mem_dropLast [a] (List.cons_ne_nil c rest), hfound.2⟩
  | case3 a b c rest _ ih =>
    obtain ⟨hmem, hne⟩ := ih h
    exact ⟨List.mem_cons_of_mem a hmem, hne⟩

theorem directories_eq (path : Text) : directories path = ((components path).filter isName).dropLast := rfl

theorem directories_subset {path : Text} (h : d ∈ directories path) : d ∈ enclosing path ∧ isName d = true := by
  rw [directories_eq] at h
  refine ⟨?_, (List.mem_filter.1 ((List.dropLast_sublist _).subset h)).2⟩
  unfold enclosing
  rcases List.eq_nil_or_concat' (components path) with hcs | ⟨front, last, hcs⟩
  · rw [hcs] at h
    cases h
  · rw [hcs, List.filter_append] at h
    rw [hcs, List.dropLast_concat]
    -- the last component is cut off, or was none to be counted
    by_cases hlast : isName last = true
    · rw [List.filter_cons_of_pos hlast, List.filter_nil, List.dropLast_concat] at h
      exact (List.mem_filter.1 h).1
    · rw [List.filter_cons_of_neg hlast, List.filter_nil, List.append_nil] at h
      exact (List.mem_filter.1 ((List.dropLast_sublist _).subset h)).1

/-- Where the path ends in a name, the directories that are written and are names are all of them. -/
theorem mem_directories {path : Text} (hlast : ∀ l ∈ (components path).getLast?, isName l = true)
    (h : d ∈ enclosing path) (hd : isName d = true) : d ∈ directories path := by
  rw [directories_eq]
  unfold enclosing at h
  rcases List.eq_nil_or_concat' (components path) with hcs | ⟨front, last, hcs⟩
  · rw [hcs] at h
    cases h
  · rw [hcs] at h hlast ⊢
    have hname : isName last = true := hlast last List.getLast?_concat
    rw [List.dropLast_concat] at h
    rw [List.filter_append, List.filter_cons_of_pos hname, List.filter_nil, List.dropLast_concat]
    exact List.mem_filter.2 ⟨h, hd⟩

theorem isName_iff : isName d = true ↔ d ≠ [] ∧ d ≠ Text.ofString "." := by
  rw [isName, Bool.and_eq_true, Bool.not_eq_true', List.isEmpty_eq_false_iff, bne_iff_ne]

theorem nearestDirectory_directory {path : Text} (h : nearestDirectory path = some d) : d ∈ directories path := by
  unfold nearestDirectory at h
  dsimp only at h
  have hlast := List.mem_of_getLast? h
  split at hlast
  · exact (List.dropLast_sublist _).subset hlast
  · exact hlast

/-! ## Paths -/

/-- A file where a workspace has the directories of its plugins, with no workspace around it. -/
structure IsStray (path file : Text) : Prop where
  outside : belowWorkspace (enclosing path) = none
  placed : ∃ before root workspace plugins,
    components path = before ++ [root, workspace, plugins, file] ∧ IsWorkspace root workspace plugins file

theorem IsStray.found {path file : Text} (h : IsStray path file) : belowWorkspace (components path) = some file := by
  obtain ⟨before, root, workspace, plugins, hpath, hworkspace⟩ := h.placed
  obtain ⟨d, hd⟩ := Option.isSome_iff_exists.1 (belowWorkspace_isSome hworkspace before [])
  rw [← hpath] at hd
  obtain ⟨before', root', workspace', plugins', hpath', -⟩ := belowWorkspace_last hd h.outside
  have hlast := congrArg List.getLast? (hpath.symm.trans hpath')
  simp only [List.getLast?_append, List.getLast?_cons_cons, List.getLast?_singleton, Option.some_or,
    Option.some.injEq] at hlast
  rw [hd, hlast]

/-- Below a workspace there is a directory, or a file that strayed there. -/
theorem belowWorkspace_directory {path : Text} (h : belowWorkspace (components path) = some d) :
    (d ∈ enclosing path ∧ d ≠ []) ∨ IsStray path d := by
  rcases hfront : belowWorkspace (enclosing path) with _ | d'
  · exact .inr ⟨hfront, belowWorkspace_last h hfront⟩
  · left
    -- a workspace in front of the last component is the one that is found
    have hfound : belowWorkspace (components path) = some d' := by
      have hne : components path ≠ [] := by
        intro hnil
        rw [hnil] at h
        cases h
      rw [← List.dropLast_concat_getLast hne]
      exact belowWorkspace_append hfront _
    obtain rfl : d' = d := Option.some.inj (hfound.symm.trans h)
    obtain ⟨before, root, workspace, plugins, after, hsplit, hworkspace⟩ := belowWorkspace_split hfront
    exact ⟨by simp [hsplit], hworkspace.name⟩

theorem stripVariant_directory {path : Text} (h : d ∈ enclosing path) (hne : d ≠ []) :
    ∃ d' ∈ enclosing path, d' ≠ [] ∧ (stripVariant d = d' ∨ stripVariant d ++ "-react" = d') ∧
      (d' ≠ Text.ofString "." → (∀ l ∈ (components path).getLast?, isName l = true) → d' ∈ directories path) :=
  ⟨d, h, hne, stripVariant_cases d, fun hdot hlast => mem_directories hlast h (isName_iff.2 ⟨hne, hdot⟩)⟩

/-- The name of a plugin is that of a directory of the path, or of the base of one for React. It
stands in front of a separator; if it is no `.` and the path ends in a name, it is one of the path's
directories. The one exception is a file right below the plugins of a workspace, which gives its
own name. -/
theorem ofPath?_directory (path : Text) :
    (∀ name, ofPath? path = some name →
      (∃ d ∈ enclosing path, d ≠ [] ∧ (name = d ∨ name ++ "-react" = d) ∧
        (d ≠ Text.ofString "." → (∀ l ∈ (components path).getLast?, isName l = true) → d ∈ directories path)) ∨
      ∃ file, IsStray path file ∧ name = stripVariant file) ∧
      ∀ file, IsStray path file → ofPath? path = some (stripVariant file) := by
  constructor
  · intro name h
    obtain ⟨d, hd, rfl⟩ := Option.map_eq_some_iff.1 h
    simp only [Option.orElse_eq_orElse, Option.orElse_eq_or, Option.or_eq_some_iff] at hd
    rcases hd with hd | ⟨-, hd | ⟨-, hd⟩⟩
    · rcases belowWorkspace_directory hd with ⟨hmem, hne⟩ | hstray
      · exact .inl (stripVariant_directory hmem hne)
      · exact .inr ⟨d, hstray, rfl⟩
    · left
      obtain ⟨hmem, hne⟩ := belowTranslations_split hd
      exact stripVariant_directory hmem hne
    · left
      obtain ⟨hmem, hname⟩ := directories_subset (nearestDirectory_directory hd)
      exact stripVariant_directory hmem (isName_iff.1 hname).1
  · intro file hstray
    show (belowWorkspace (components path) <|> _).map stripVariant = _
    rw [hstray.found]
    rfl

/-- A variant for React in a workspace that lies in a workspace, with repeated separators. -/
theorem ofPath?_directory_sample :
    ofPath? "a\\workspaces/w/plugins/p-react//workspaces/./plugins/x.ts" = some "p" ∧
      ∃ d ∈ enclosing "a\\workspaces/w/plugins/p-react//workspaces/./plugins/x.ts", d ≠ [] ∧
        (("p" : Text) = d ∨ ("p" : Text) ++ "-react" = d) := by
  have hname : ofPath? "a\\workspaces/w/plugins/p-react//workspaces/./plugins/x.ts" = some "p" := by decide +kernel
  refine ⟨hname, ?_⟩
  rcases (ofPath?_directory _).1 _ hname with ⟨d, hmem, hne, hd, -⟩ | ⟨file, hstray, -⟩
  · exact ⟨d, hmem, hne, hd⟩
  · exact absurd hstray.outside (by decide +kernel)

/-- A file right below the plugins of a workspace is taken for a plugin, though no directory of its
path has that name. -/
theorem ofPath?_directory_differs :
    ofPath? "workspaces/catalog/plugins/messages.ts" = some "messages.ts" ∧
      ¬ ∃ d ∈ enclosing "workspaces/catalog/plugins/messages.ts",
        ("messages.ts" : Text) = d ∨ ("messages.ts" : Text) ++ "-react" = d := by
  constructor
  · decide +kernel
  · decide +kernel

end MessageCatalog.Plugin
