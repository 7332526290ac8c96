/-
  MessageCatalog.Proofs.Settings.Fields — every field by itself.

  A field has a name, a default and a way in which a given value is read. Validation is
  that for all of them: nothing but the values under their nine names goes into it, and one
  that is refused is never made up for by another.

  Proved: whatever the library reads, numbers are within their bounds (`validate_inBounds`);
  the given values are settings exactly if every field's value is read, and the field is
  what it is read as (`validate_ok_iff`); values under other names do not count
  (`validate_congr`).
-/

import MessageCatalog.Proofs.Settings.Languages
import MessageCatalog.Settings.Validate

namespace MessageCatalog.Settings

inductive Field where
  | maxDepth
  | maxContentLength
  | maxKeyLength
  | maxValueLength
  | languages
  | sampleSize
  | workers
  | debug
  | logJson
  deriving DecidableEq, Repr

namespace Field

def all : List Field :=
  [.maxDepth, .maxContentLength, .maxKeyLength, .maxValueLength, .languages, .sampleSize, .workers, .debug, .logJson]

theorem mem_all (f : Field) : f ∈ all := by cases f <;> decide

def name : Field → Text
  | .maxDepth => "max_depth"
  | .maxContentLength => "max_content_length"
  | .maxKeyLength => "max_key_length"
  | .maxValueLength => "max_value_length"
  | .languages => "languages"
  | .sampleSize => "sample_size"
  | .workers => "workers"
  | .debug => "debug"
  | .logJson => "log_json"

def of (s : Settings) : Field → Data
  | .maxDepth => .int s.maxDepth
  | .maxContentLength => .int s.maxContentLength
  | .maxKeyLength => .int s.maxKeyLength
  | .maxValueLength => .int s.maxValueLength
  | .languages => .ofTexts s.languages
  | .sampleSize => .int s.sampleSize
  | .workers => .int s.workers
  | .debug => .bool s.debug
  | .logJson => .bool s.logJson

def readNumber? (library : Library) (most : Option Int) (d : Data) : Option Data :=
  (readBounded library 1 most d).toOption.map .int

/-- What a value given for the field is read as, if it is not refused. -/
def read? (library : Library) (f : Field) (d : Data) : Option Data :=
  match f with
  | .maxDepth => readNumber? library (some 100) d
  | .workers => readNumber? library (some 64) d
  | .languages => (readLanguages library d).toOption.map .ofTexts
  | .debug | .logJson => (library.truth d).toOption.map .bool
  | _ => readNumber? library none d

/-- What the field is set to: the default if nothing is given for it. -/
def settle (library : Library) (f : Field) : Option Data → Option Data
  | none => some (f.of {})
  | some d => f.read? library d

end Field

/-! ## Bounds -/

/-- A number from 1 on, up to `most` if there is a most. -/
def isWithin (most : Option Int) (n : Int) : Prop := 1 ≤ n ∧ ∀ m ∈ most, n ≤ m

section

variable (library : Library)

theorem readBounded_ok {most : Option Int} {d : Data} {n : Int} (h : readBounded library 1 most d = .ok n) :
    isWithin most n := by
  rw [readBounded] at h
  cases hread : library.integer d with
  | error v =>
    rw [hread] at h
    cases h
  | ok i =>
    rw [hread] at h
    simp only [Bind.bind, Except.bind] at h
    split at h
    · cases h
    split at h
    · cases h
    · rename_i hleast hmost
      obtain rfl := Except.ok.inj h
      refine ⟨by omega, fun m hm => ?_⟩
      rw [Option.mem_def] at hm
      simpa [hm] using hmost

/-- Given or not, refused or not, a number is within its bounds. -/
theorem checkNat_within {most : Option Int} {default : Nat} (h : isWithin most default)
    (given : Text → Option Data) (name : Text) : isWithin most (checkNat library given name default most).value := by
  rw [checkNat, check]
  cases given name with
  | none => exact h
  | some d =>
    cases hread : readBounded library 1 most d with
    | error v =>
      simp only [hread]
      exact h
    | ok n =>
      obtain ⟨hleast, hmost⟩ := readBounded_ok library hread
      have hn : (n.toNat : Int) = n := Int.toNat_of_nonneg (by omega)
      simp only [hread]
      show isWithin most (n.toNat : Int)
      rw [hn]
      exact ⟨hleast, hmost⟩

theorem checkNat_open {default : Nat} (h : 1 ≤ default) (given : Text → Option Data) (name : Text) :
    1 ≤ (checkNat library given name default none).value := by
  have hdefault : isWithin none (default : Int) := ⟨by omega, nofun⟩
  obtain ⟨hleast, -⟩ := checkNat_within library hdefault given name
  omega

theorem checkNat_closed {default most : Nat} (h : 1 ≤ default ∧ default ≤ most) (given : Text → Option Data)
    (name : Text) :
    1 ≤ (checkNat library given name default (some most)).value ∧
      (checkNat library given name default (some most)).value ≤ most := by
  have hdefault : isWithin (some most) (default : Int) := by
    refine ⟨by omega, fun m hm => ?_⟩
    obtain rfl := Option.some.inj hm
    omega
  obtain ⟨hleast, hmost⟩ := checkNat_within library hdefault given name
  have := hmost most rfl
  omega

/-- The bounds that are declared with the settings. -/
structure InBounds (s : Settings) : Prop where
  maxDepth : 1 ≤ s.maxDepth ∧ s.maxDepth ≤ 100
  maxContentLength : 1 ≤ s.maxContentLength
  maxKeyLength : 1 ≤ s.maxKeyLength
  maxValueLength : 1 ≤ s.maxValueLength
  sampleSize : 1 ≤ s.sampleSize
  workers : 1 ≤ s.workers ∧ s.workers ≤ 64

theorem validate_inBounds {given : Text → Option Data} {s : Settings} (h : validate library given = .ok s) :
    s.InBounds := by
  have hopen {default : Nat} (h : 1 ≤ default) (name : Text) := checkNat_open library h given name
  rw [validate] at h
  split at h
  · obtain rfl := Except.ok.inj h
    exact
      { maxDepth := checkNat_closed library (by decide) given "max_depth"
        maxContentLength := hopen (by decide) "max_content_length"
        maxKeyLength := hopen (by decide) "max_key_length"
        maxValueLength := hopen (by decide) "max_value_length"
        sampleSize := hopen (by decide) "sample_size"
        workers := checkNat_closed library (by decide) given "workers" }
  · cases h

end

/-! ## Validation -/

theorem whole_refused {α : Type} {x : Except Violation α} : whole x ≠ .error [] := by
  cases x <;> nofun

theorem toOption_whole {α : Type} (x : Except Violation α) : (whole x).toOption = x.toOption := by
  cases x <;> rfl

theorem readNumber_eq (library : Library) (most : Option Int) (d : Data) :
    Field.readNumber? library most d =
      (whole ((readBounded library 1 most d).map Int.toNat)).toOption.map fun n => .int n := by
  rw [toOption_whole, Field.readNumber?]
  cases hread : readBounded library 1 most d with
  | error v => rfl
  | ok n =>
    have hn : (n.toNat : Int) = n := Int.toNat_of_nonneg (by have := (readBounded_ok library hread).1; omega)
    simp [Except.map, Except.toOption, hn]

section

variable (library : Library) (given : Text → Option Data) (f : Field)

/-- A check that reads values as the field does finds what the field is settled on, and has
nothing to refuse exactly if there is such a value. -/
theorem check_settled {α : Type} {encode : α → Data} (hencode : ∀ a b, encode a = encode b → a = b)
    {read : Data → Except Refused α} (hrefused : ∀ d, read d ≠ .error [])
    (hread : ∀ d, f.read? library d = (read d).toOption.map encode) {default : α} (hdefault : f.of {} = encode default)
    {a : α} :
    ((check given f.name default read).refused = [] ∧ (check given f.name default read).value = a) ↔
      f.settle library (given f.name) = some (encode a) := by
  have hinj {b : α} : some (encode b) = some (encode a) ↔ b = a :=
    ⟨fun h => hencode b a (Option.some.inj h), fun h => by rw [h]⟩
  rw [check]
  cases given f.name with
  | none => rw [Field.settle, hdefault, hinj, and_iff_right rfl]
  | some d =>
    cases hd : read d with
    | ok b => simp [Field.settle, hread, hd, Except.toOption, hinj]
    | error refused =>
      have hne : refused ≠ [] := fun h => hrefused d (h ▸ hd)
      simp [Field.settle, hread, hd, Except.toOption, hne]

theorem checkNat_settled {most : Option Int} {default n : Nat} (hread : f.read? library = Field.readNumber? library most)
    (hdefault : f.of {} = .int default) :
    ((checkNat library given f.name default most).refused = [] ∧ (checkNat library given f.name default most).value = n) ↔
      f.settle library (given f.name) = some (.int n) :=
  have hencode : ∀ m n : Nat, Data.int m = .int n → m = n := fun m n h => Int.ofNat.inj (Data.int.inj h)
  check_settled library given f hencode (fun _ => whole_refused) (fun d => by rw [hread, readNumber_eq]) hdefault

theorem checkBool_settled {default b : Bool} (hread : ∀ d, f.read? library d = (library.truth d).toOption.map Data.bool)
    (hdefault : f.of {} = .bool default) :
    ((check given f.name default fun d => whole (library.truth d)).refused = [] ∧
        (check given f.name default fun d => whole (library.truth d)).value = b) ↔
      f.settle library (given f.name) = some (.bool b) :=
  check_settled library given f (fun _ _ h => Data.bool.inj h) (fun _ => whole_refused)
    (fun d => by rw [hread, toOption_whole]) hdefault

theorem ofTexts_inj {ts us : List Text} (h : Data.ofTexts ts = .ofTexts us) : ts = us :=
  (List.map_inj_right fun _ _ h => Data.text.inj h).1 (Data.list.inj h)

theorem checkLanguages_settled (hlibrary : library.Documented) {ts : List Text} :
    ((check given Field.languages.name ({} : Settings).languages (readLanguages library)).refused = [] ∧
        (check given Field.languages.name ({} : Settings).languages (readLanguages library)).value = ts) ↔
      Field.languages.settle library (given Field.languages.name) = some (.ofTexts ts) :=
  check_settled library given .languages (fun _ _ h => ofTexts_inj h) (readLanguages_error hlibrary) (fun _ => rfl) rfl

end

theorem validate_ok_iff {library : Library} (hlibrary : library.Documented) (given : Text → Option Data)
    (s : Settings) : validate library given = .ok s ↔ ∀ f : Field, f.settle library (given f.name) = some (f.of s) := by
  constructor
  · intro h
    rw [validate] at h
    split at h
    · rename_i hnone
      simp only [List.append_eq_nil_iff, and_assoc] at hnone
      obtain ⟨h₁, h₂, h₃, h₄, h₅, h₆, h₇, h₈, h₉⟩ := hnone
      obtain rfl := Except.ok.inj h
      intro f
      cases f with
      | maxDepth => exact (checkNat_settled library given .maxDepth rfl rfl).1 ⟨h₁, rfl⟩
      | maxContentLength => exact (checkNat_settled library given .maxContentLength rfl rfl).1 ⟨h₂, rfl⟩
      | maxKeyLength => exact (checkNat_settled library given .maxKeyLength rfl rfl).1 ⟨h₃, rfl⟩
      | maxValueLength => exact (checkNat_settled library given .maxValueLength rfl rfl).1 ⟨h₄, rfl⟩
      | languages => exact (checkLanguages_settled library given hlibrary).1 ⟨h₅, rfl⟩
      | sampleSize => exact (checkNat_settled library given .sampleSize rfl rfl).1 ⟨h₆, rfl⟩
      | workers => exact (checkNat_settled library given .workers rfl rfl).1 ⟨h₇, rfl⟩
      | debug => exact (checkBool_settled library given .debug (fun _ => rfl) rfl).1 ⟨h₈, rfl⟩
      | logJson => exact (checkBool_settled library given .logJson (fun _ => rfl) rfl).1 ⟨h₉, rfl⟩
    · cases h
  · intro h
    obtain ⟨r₁, v₁⟩ := (checkNat_settled library given .maxDepth rfl rfl).2 (h .maxDepth)
    obtain ⟨r₂, v₂⟩ := (checkNat_settled library given .maxContentLength rfl rfl).2 (h .maxContentLength)
    obtain ⟨r₃, v₃⟩ := (checkNat_settled library given .maxKeyLength rfl rfl).2 (h .maxKeyLength)
    obtain ⟨r₄, v₄⟩ := (checkNat_settled library given .maxValueLength rfl rfl).2 (h .maxValueLength)
    obtain ⟨r₅, v₅⟩ := (checkLanguages_settled library given hlibrary).2 (h .languages)
    obtain ⟨r₆, v₆⟩ := (checkNat_settled library given .sampleSize rfl rfl).2 (h .sampleSize)
    obtain ⟨r₇, v₇⟩ := (checkNat_settled library given .workers rfl rfl).2 (h .workers)
    obtain ⟨r₈, v₈⟩ := (checkBool_settled library given .debug (fun _ => rfl) rfl).2 (h .debug)
    obtain ⟨r₉, v₉⟩ := (checkBool_settled library given .logJson (fun _ => rfl) rfl).2 (h .logJson)
    simp only [Field.name] at r₁ r₂ r₃ r₄ r₅ r₆ r₇ r₈ r₉ v₁ v₂ v₃ v₄ v₅ v₆ v₇ v₈ v₉
    simp only [validate, r₁, r₂, r₃, r₄, r₅, r₆, r₇, r₈, r₉, v₁, v₂, v₃, v₄, v₅, v₆, v₇, v₈, v₉, List.append_nil]

theorem validate_congr (library : Library) {given given' : Text → Option Data}
    (h : ∀ f : Field, given f.name = given' f.name) : validate library given = validate library given' := by
  have h₁ : given "max_depth" = given' "max_depth" := h .maxDepth
  have h₂ : given "max_content_length" = given' "max_content_length" := h .maxContentLength
  have h₃ : given "max_key_length" = given' "max_key_length" := h .maxKeyLength
  have h₄ : given "max_value_length" = given' "max_value_length" := h .maxValueLength
  have h₅ : given "languages" = given' "languages" := h .languages
  have h₆ : given "sample_size" = given' "sample_size" := h .sampleSize
  have h₇ : given "workers" = given' "workers" := h .workers
  have h₈ : given "debug" = given' "debug" := h .debug
  have h₉ : given "log_json" = given' "log_json" := h .logJson
  simp only [validate, checkNat, check, h₁, h₂, h₃, h₄, h₅, h₆, h₇, h₈, h₉]

end MessageCatalog.Settings
