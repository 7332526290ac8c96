/-
  MessageCatalog.Proofs.Config — settings within their bounds, or a report about the
  configuration.

  A path that leads nowhere or to a directory, text that is no YAML, a document that is no
  mapping and values that are refused all end in such a report. Four things do not: octets
  that are no text, which the decoder refuses; a scalar that has the form of a date or a
  number but is none; names that are no text, which are refused when they are put in order
  or used as names; and options of the call that are refused.

  Proved: with any libraries, loading settles on one or the other for every other file,
  environment and explicit values (`load_settled`); each of the four ends in an error that
  is not reported (`load_undecodable`, `load_unbuildable`, `load_misnamed`,
  `load_misconfigured`).
-/

import MessageCatalog.Config
import MessageCatalog.Proofs.Attempt
import MessageCatalog.Proofs.Data
import MessageCatalog.Proofs.File
import MessageCatalog.Proofs.Settings.Fields

namespace MessageCatalog

/-! ## Outcomes -/

namespace Config

/-- Settings within their bounds, or a report about the configuration. -/
inductive IsSettled : Except Fault Settings → Prop
  | settings {s : Settings} (bounds : s.InBounds) : IsSettled (.ok s)
  | reported {f : Fault} {r : Report} (report : f.report? = some r) (kind : r.kind = .configuration) :
      IsSettled (.error f)

theorem unreported_unsettled {f : Fault} (h : f.report? = none) : ¬ IsSettled (.error f) := by
  intro hsettled
  cases hsettled with
  | reported report kind =>
    rw [h] at report
    cases report

theorem validate_settled (library : Settings.Library) (given : Text → Option Data) :
    IsSettled (Settings.validate library given) := by
  cases h : Settings.validate library given with
  | ok s => exact .settings (Settings.validate_inBounds library h)
  | error fault =>
    rw [Settings.validate] at h
    split at h
    · cases h
    · obtain rfl := Except.error.inj h
      exact .reported rfl rfl

/-! ## Names -/

theorem keys_texts {ps : List (Data × Data)} (h : ps.all (fun p => p.1.isText) = true) :
    ∃ ts : List Text, ps.map (·.1) = ts.map .text := by
  induction ps with
  | nil => exact ⟨[], rfl⟩
  | cons p ps ih =>
    rw [List.all_cons, Bool.and_eq_true] at h
    obtain ⟨ts, hts⟩ := ih h.2
    obtain ⟨k, v⟩ := p
    cases k with
    | text t => exact ⟨t :: ts, congrArg (Data.text t :: ·) hts⟩
    | _ => cases h.1

theorem named_texts {ps : List (Data × Data)} (h : ps.all (fun p => p.1.isText) = true) :
    ∃ values, named ps = .ok values := by
  induction ps with
  | nil => exact ⟨[], rfl⟩
  | cons p ps ih =>
    rw [List.all_cons, Bool.and_eq_true] at h
    obtain ⟨values, hvalues⟩ := ih h.2
    obtain ⟨k, v⟩ := p
    cases k with
    | text t =>
      refine ⟨(t, v) :: values, ?_⟩
      rw [named] at hvalues ⊢
      rw [List.mapM_cons, hvalues]
      rfl
    | _ => cases h.1

theorem named_other {ps : List (Data × Data)} (h : ps.all (fun p => p.1.isText) = false) :
    named ps = .error (.plain .wrongType) := by
  induction ps with
  | nil => cases h
  | cons p ps ih =>
    obtain ⟨k, v⟩ := p
    rw [named, List.mapM_cons]
    cases k with
    | text t =>
      have hrest := ih h
      rw [named] at hrest
      rw [hrest]
      rfl
    | _ => rfl

/-! ## Files -/

section

variable {library : Library} {path : Text} {file : Option File} {t : Text}

theorem value_readFile_error {cause : Cause} (h : File.readText file = .error cause) :
    (readFile library path file).run.value = .error (readFault library path file cause) := by
  have hread : (File.readText file).mapError (readFault library path file) =
      .error (readFault library path file cause) := by
    rw [h]
    rfl
  simp only [readFile, Attempt.value_bind, Attempt.value_ofExcept, hread, Except.bind]

theorem read_text (library : Library) (path : Text) (h : File.readText file = .ok t) :
    (File.readText file).mapError (readFault library path file) = .ok t := by
  rw [h]
  rfl

theorem value_readFile_refused {fault : Fault} (h : File.readText file = .ok t)
    (hentries : entries library path t = .error fault) : (readFile library path file).run.value = .error fault := by
  simp only [readFile, Attempt.value_bind, Attempt.value_ofExcept, read_text library path h, Except.bind, hentries]

/-- Names that cannot be put in order cannot be used either. -/
theorem value_readFile_entries {ps : List (Data × Data)} (h : File.readText file = .ok t)
    (hentries : entries library path t = .ok ps) : (readFile library path file).run.value = named ps := by
  simp only [readFile, Attempt.value_bind, Attempt.value_ofExcept, read_text library path h, Except.bind, hentries]
  cases hsorted : Data.sorted? (ps.map (·.1)) with
  | some keys => rfl
  | none =>
    have hother : ps.all (fun p => p.1.isText) = false := by
      refine Bool.eq_false_iff.2 fun hall => ?_
      obtain ⟨ts, hts⟩ := keys_texts hall
      obtain ⟨us, hus⟩ := Data.sorted_texts ts
      rw [hts, hus] at hsorted
      cases hsorted
    rw [named_other hother]
    rfl

end

/-! ## Documents -/

/-- Refused, and not for being no document. -/
def isRefused : Except Fault Yaml.Node → Bool
  | .error (.plain .malformedYaml) => false
  | .error _ => true
  | .ok _ => false

section

variable {library : Library} (path : Text) {t : Text}

theorem entries_mapping {ps : List (Data × Data)} (h : library.document t = .ok (.data (.mapping ps))) :
    entries library path t = .ok ps := by
  rw [entries, h]

theorem entries_refused (h : isRefused (library.document t) = true) :
    ∃ fault, library.document t = .error fault ∧ entries library path t = .error fault := by
  rw [entries]
  split
  case h_1 hdocument =>
    rw [hdocument] at h
    cases h
  case h_2 fault hmalformed hdocument => exact ⟨fault, hdocument, rfl⟩
  all_goals
    rename_i hdocument
    rw [hdocument] at h
    cases h

theorem entries_settled (h : isRefused (library.document t) = false) :
    (∃ ps, entries library path t = .ok ps ∧ (ps = [] ∨ library.document t = .ok (.data (.mapping ps)))) ∨
      ∃ fault, entries library path t = .error fault ∧ IsSettled (.error fault) := by
  rw [entries]
  split
  case h_1 => exact .inr ⟨_, rfl, .reported rfl rfl⟩
  case h_2 fault hmalformed hdocument =>
    rw [hdocument, isRefused] at h
    · cases h
    · exact hmalformed
  case h_3 => exact .inl ⟨[], rfl, .inl rfl⟩
  case h_4 ps hdocument => exact .inl ⟨ps, rfl, .inr hdocument⟩
  case h_5 => exact .inr ⟨_, rfl, .reported rfl rfl⟩

end

/-! ## What is not reported -/

section

variable (library : Library) (file : Option (Option File))

/-- The path leads to octets that are no text, and what stands in front of them is not refused. -/
def isUndecodable : Bool :=
  match file with
  | some f =>
    match File.readText f with
    | .error .undecodable => !refusesFront library f
    | _ => false
  | none => false

def isUnbuildable : Bool :=
  match file.map File.readText with
  | some (.ok t) => isRefused (library.document t)
  | _ => false

def isMisnamed : Bool :=
  match file.map File.readText with
  | some (.ok t) =>
    match library.document t with
    | .ok (.data (.mapping ps)) => !ps.all fun p => p.1.isText
    | _ => false
  | _ => false

def isMisconfigured (path : Text) (environment : List (Text × Text)) (overrides : Settings.Source) : Bool :=
  match (fileValues library path file).run.value with
  | .ok values => !(library.fromEnvironment (merge values overrides).options environment).isOk
  | .error _ => false

end

/-! ## Loading -/

section

variable (path : Text) {file : Option (Option File)} (environment : List (Text × Text)) (overrides : Settings.Source)
  (library : Library)

theorem value_load_error {fault : Fault} (h : (fileValues library path file).run.value = .error fault) :
    (load path file environment overrides library).run.value = .error fault := by
  simp only [load, Attempt.value_bind, h, Except.bind]

theorem value_load_ok {values : Settings.Source} (h : (fileValues library path file).run.value = .ok values) :
    (load path file environment overrides library).run.value =
      Settings.ofSource (merge values overrides) environment library.toLibrary := by
  simp only [load, Attempt.value_bind, h, Except.bind, Attempt.value_ofExcept]

/-- Octets that are no text end in the decoder's own error. -/
theorem load_undecodable (h : isUndecodable library file = true) :
    (load path file environment overrides library).run.value = .error (.plain .undecodable) := by
  rw [isUndecodable.eq_def] at h
  split at h
  · rename_i f
    split at h
    · rename_i hread
      have hfault : readFault library path f .undecodable = .plain .undecodable :=
        if_neg (by simpa using h)
      exact value_load_error path environment overrides library ((value_readFile_error hread).trans (congrArg _ hfault))
    · cases h
  · cases h

/-- A document that is refused for another reason than being none ends in that. -/
theorem load_unbuildable (h : isUnbuildable library file = true) :
    ∃ f t fault, file = some f ∧ File.readText f = .ok t ∧ library.document t = .error fault ∧
      (load path file environment overrides library).run.value = .error fault := by
  rw [isUnbuildable] at h
  split at h
  · rename_i t hread
    obtain ⟨f, rfl, htext⟩ := Option.map_eq_some_iff.1 hread
    obtain ⟨fault, hfault, hentries⟩ := entries_refused path h
    exact ⟨f, t, fault, rfl, htext, hfault,
      value_load_error path environment overrides library (value_readFile_refused htext hentries)⟩
  · cases h

/-- A name that is no text ends in an error of its type. -/
theorem load_misnamed (h : isMisnamed library file = true) :
    (load path file environment overrides library).run.value = .error (.plain .wrongType) := by
  rw [isMisnamed] at h
  split at h
  · rename_i t hread
    obtain ⟨f, rfl, htext⟩ := Option.map_eq_some_iff.1 hread
    split at h
    · rename_i ps hps
      have hvalues : (readFile library path f).run.value = named ps :=
        value_readFile_entries htext (entries_mapping path hps)
      rw [named_other (by simpa using h)] at hvalues
      exact value_load_error path environment overrides library hvalues
    · cases h
  · cases h

/-- Options that are refused end in what they are refused with. -/
theorem load_misconfigured (h : isMisconfigured library file path environment overrides = true) :
    ∃ values fault, (fileValues library path file).run.value = .ok values ∧
      library.fromEnvironment (merge values overrides).options environment = .error fault ∧
      (load path file environment overrides library).run.value = .error fault := by
  rw [isMisconfigured] at h
  split at h
  · rename_i values hvalues
    cases hvariables : library.fromEnvironment (merge values overrides).options environment with
    | ok v =>
      rw [hvariables] at h
      cases h
    | error fault =>
      refine ⟨values, fault, hvalues, hvariables, ?_⟩
      rw [value_load_ok path environment overrides library hvalues, Settings.ofSource, hvariables]
      rfl
  · cases h

theorem readFault_settled {f : Option File} {cause : Cause} (h : File.readText f = .error cause)
    (hcause : cause = .undecodable → refusesFront library f ≠ false) :
    IsSettled (.error (readFault library path f cause)) := by
  cases f with
  | none =>
    cases h
    exact .reported rfl rfl
  | some f =>
    cases f with
    | directory =>
      cases h
      exact .reported rfl rfl
    | octets content =>
      rw [File.readText] at h
      cases hdecode : Text.Utf8.decode content with
      | some t =>
        rw [hdecode] at h
        cases h
      | none =>
        rw [hdecode] at h
        obtain rfl := Except.error.inj h
        have hfront : refusesFront library (some (.octets content)) = true := by simpa using hcause rfl
        rw [readFault, if_pos hfront]
        · exact .reported rfl rfl
        all_goals
          intro e
          cases e

theorem fileValues_settled (hdecodable : isUndecodable library file = false)
    (hbuildable : isUnbuildable library file = false) (hnamed : isMisnamed library file = false) :
    (∃ values, (fileValues library path file).run.value = .ok values) ∨
      ∃ fault, (fileValues library path file).run.value = .error fault ∧ IsSettled (.error fault) := by
  cases file with
  | none => exact .inl ⟨[], rfl⟩
  | some f =>
    cases htext : File.readText f with
    | error cause =>
      refine .inr ⟨_, value_readFile_error htext, readFault_settled path library htext fun hcause hfront => ?_⟩
      subst hcause
      simp only [isUndecodable, htext, hfront] at hdecodable
      cases hdecodable
    | ok t =>
      have hrefused : isRefused (library.document t) = false := by
        simpa only [isUnbuildable, Option.map_some, htext] using hbuildable
      rcases entries_settled path hrefused with ⟨ps, hentries, hps⟩ | ⟨fault, hentries, hfault⟩
      · cases hall : ps.all fun p => p.1.isText with
        | true =>
          obtain ⟨values, hvalues⟩ := named_texts hall
          exact .inl ⟨values, (value_readFile_entries htext hentries).trans hvalues⟩
        | false =>
          rcases hps with rfl | hps
          · cases hall
          · simp [isMisnamed, htext, hps, hall] at hnamed
      · exact .inr ⟨fault, value_readFile_refused htext hentries, hfault⟩

/-- With any libraries, whatever the environment and the explicit values are, loading gives
settings within their bounds or a report, unless the file has octets that are no text, a
scalar that cannot be what it says or a name that is no text, or options are refused. -/
theorem load_settled (hdecodable : isUndecodable library file = false)
    (hbuildable : isUnbuildable library file = false) (hnamed : isMisnamed library file = false)
    (hoptions : isMisconfigured library file path environment overrides = false) :
    IsSettled (load path file environment overrides library).run.value := by
  rcases fileValues_settled path library hdecodable hbuildable hnamed with ⟨values, hvalues⟩ | ⟨fault, hfault, h⟩
  · rw [value_load_ok path environment overrides library hvalues, Settings.ofSource]
    rw [isMisconfigured, hvalues] at hoptions
    cases hvariables : library.fromEnvironment (merge values overrides).options environment with
    | error fault =>
      simp only [hvariables] at hoptions
      cases hoptions
    | ok found => exact validate_settled _ _
  · rw [value_load_error path environment overrides library hfault]
    exact h

end

theorem load_settled_sample :
    let file := some (some (File.holding "max_depth: 4\n"))
    isUndecodable {} file = false ∧ isUnbuildable {} file = false ∧ isMisnamed {} file = false ∧
      isMisconfigured {} file "keysync.yaml" [("KEYSYNC_WORKERS", "65")] [] = false ∧
      IsSettled (load "keysync.yaml" file [("KEYSYNC_WORKERS", "65")] []).run.value := by
  intro file
  have hdecodable : isUndecodable {} file = false := by decide +kernel
  have hbuildable : isUnbuildable {} file = false := by decide +kernel
  have hnamed : isMisnamed {} file = false := by decide +kernel
  have hoptions : isMisconfigured {} file "keysync.yaml" [("KEYSYNC_WORKERS", "65")] [] = false := by decide +kernel
  have hsettled :=
    load_settled "keysync.yaml" [("KEYSYNC_WORKERS", "65")] [] {} hdecodable hbuildable hnamed hoptions
  exact ⟨hdecodable, hbuildable, hnamed, hoptions, hsettled⟩

def said? : Except Fault Yaml.Node → Option Text
  | .error (.badValue said) => some said
  | _ => none

theorem eq_of_said {x : Except Fault Yaml.Node} {said : Text} (h : said? x = some said) : x = .error (.badValue said) := by
  rw [said?.eq_def] at h
  split at h
  · rw [Option.some.inj h]
  · cases h

/-- An octet that starts no character, a name that is a number, a day in a thirteenth month. -/
theorem load_unsettled :
    ¬ IsSettled (load "keysync.yaml" (some (some (.octets [0xFF]))) [] []).run.value ∧
      ¬ IsSettled (load "keysync.yaml" (some (some (.holding "1: 2\n"))) [] []).run.value ∧
      ¬ IsSettled (load "keysync.yaml" (some (some (.holding "from: 2024-13-45\n"))) [] []).run.value := by
  have hundecodable : isUndecodable {} (some (some (.octets [0xFF]))) = true := by decide +kernel
  have hmisnamed : isMisnamed {} (some (some (.holding "1: 2\n"))) = true := by decide +kernel
  have hmonth : said? (Yaml.read "from: 2024-13-45\n") = some "month must be in 1..12" := by decide +kernel
  have hunbuildable : isUnbuildable {} (some (some (.holding "from: 2024-13-45\n"))) = true := by decide +kernel
  refine ⟨?_, ?_, ?_⟩
  · rw [load_undecodable "keysync.yaml" [] [] {} hundecodable]
    exact unreported_unsettled rfl
  · rw [load_misnamed "keysync.yaml" [] [] {} hmisnamed]
    exact unreported_unsettled rfl
  · obtain ⟨f, t, fault, hf, htext, hfault, hload⟩ := load_unbuildable "keysync.yaml" [] [] {} hunbuildable
    rw [← Option.some.inj hf, File.readText_holding (by decide)] at htext
    obtain rfl := Except.ok.inj htext
    obtain rfl := Except.error.inj (hfault.symm.trans (eq_of_said hmonth))
    rw [hload]
    exact unreported_unsettled rfl

end Config

end MessageCatalog
