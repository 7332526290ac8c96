/-
  MessageCatalog.Proofs.Artifact.KeySet — the keys of an artifact that was written.

  An artifact is a literal in one of two frames: an exported constant, or a property of a
  call. In front of the literal nothing of the other kind matches, and what the literal
  says comes later, so the right anchor is looked at first whatever the texts quote.

  Proved: the keys of an artifact are those of its table (`keySet_source`).
-/

import MessageCatalog.Artifact.KeySet
import MessageCatalog.Proofs.Attempt
import MessageCatalog.Proofs.Extraction.Anchor
import MessageCatalog.Proofs.Key
import MessageCatalog.Proofs.Literal.Render

namespace MessageCatalog.Artifact

open Extraction Anchor Literal Literal.Source

/-! ## Searching -/

/-- What follows the first match that starts in `s`, a front of the text `s ++ t`. -/
def findFirstIn {α : Type} (recognize : Option Code → Text → Option α) (before : Option Code) (s t : Text) : Option α :=
  match s with
  | [] => none
  | c :: s => (recognize before (c :: (s ++ t))).or (findFirstIn recognize (some c) s t)

section

variable {α : Type} {recognize : Option Code → Text → Option α} {before : Option Code} {s t : Text}

/-- A search finds what starts in a front of the text, or else what it finds behind it. -/
theorem findFirst_append (recognize : Option Code → Text → Option α) (before : Option Code) (s t : Text) :
    findFirst recognize before (s ++ t) =
      (findFirstIn recognize before s t).or (findFirst recognize (s.getLast?.or before) t) := by
  induction s generalizing before with
  | nil => rfl
  | cons c s ih =>
    have hlast : (c :: s).getLast?.or before = s.getLast?.or (some c) := by
      rw [List.getLast?_cons]
      cases s.getLast? <;> rfl
    rw [List.cons_append, findFirst, ih, findFirstIn, hlast]
    cases recognize before (c :: (s ++ t)) <;> rfl

theorem findFirstIn_eq_none (h : ∀ n < s.length, ∀ before, recognize before (s.drop n ++ t) = none) :
    findFirstIn recognize before s t = none := by
  induction s generalizing before with
  | nil => rfl
  | cons c s ih =>
    have hc : recognize before (c :: (s ++ t)) = none := h 0 (by simp) before
    rw [findFirstIn, hc, Option.none_or]
    exact ih fun n hn => h (n + 1) (by simpa using hn)

/-- A search goes past a text if at no place in it anything is recognized. -/
theorem findFirst_past (h : ∀ n < s.length, ∀ before, recognize before (s.drop n ++ t) = none) :
    findFirst recognize before (s ++ t) = findFirst recognize (s.getLast?.or before) t := by
  rw [findFirst_append, findFirstIn_eq_none h, Option.none_or]

end

section

variable {recognize : Option Code → Text → Option Text} {before : Option Code} {t s r : Text}

theorem locate_now (h : recognize before t = some r) (hne : t ≠ []) :
    findFirst (fun before s => (recognize before s).map fun r => (s, r)) before t = some (t, r) := by
  obtain ⟨c, u, rfl⟩ := List.exists_cons_of_ne_nil hne
  rw [findFirst, h]
  rfl

theorem length_locate
    (h : findFirst (fun before s => (recognize before s).map fun r => (s, r)) before t = some (s, r)) :
    s.length ≤ t.length := by
  induction t generalizing before with
  | nil => cases h
  | cons c t ih =>
    rw [findFirst] at h
    cases hr : recognize before (c :: t) with
    | none =>
      rw [hr] at h
      exact Nat.le_succ_of_le (ih h)
    | some x =>
      rw [hr] at h
      obtain ⟨rfl, -⟩ := Prod.mk.inj (Option.some.inj h)
      exact Nat.le_refl _

theorem length_locate_later (hnone : recognize before t = none)
    (h : findFirst (fun before s => (recognize before s).map fun r => (s, r)) before t = some (s, r)) :
    s.length < t.length := by
  cases t with
  | nil => cases h
  | cons c t =>
    rw [findFirst, hnone] at h
    exact Nat.lt_succ_of_le (length_locate h)

end

theorem word_past {w s : Text} (h : w.isPrefixOf s = false) (hlen : w.length ≤ s.length) (before : Option Code)
    (t : Text) : word w before (s ++ t) = none := by
  have hs : w.isPrefixOf (s ++ t) = false := by
    refine Bool.eq_false_iff.2 fun e => ?_
    have hw := List.isPrefixOf_iff_prefix.1 e
    rw [List.isPrefixOf_iff_prefix.2 (List.prefix_of_prefix_length_le hw (List.prefix_append s t) hlen)] at h
    cases h
  rw [word, Text.dropStart?, hs]
  split <;> rfl

/-! ## Frames -/

/-- A call, up to its property. -/
def callOpening : Text := "const x = createTranslationMessages(\x7b\n  ref: r,\n  "

def propertyOpening : Text := "messages: "

/-- Where the literal of an artifact stands. -/
inductive Frame where
  /-- The value of an exported constant, whose name is `first`, `more` and an ending. -/
  | constant (first : Code) (more : Text) (starts : Key.startsSegment first = true)
    (continues : more.all Key.continuesSegment = true) (short : more.length ≤ maxNameChars)
  /-- The `messages` of a call's argument. -/
  | property

namespace Frame

def opening : Frame → Text
  | .constant first more _ _ _ => "export const " ++ first :: more ++ "Messages = "
  | .property => callOpening ++ propertyOpening

def closing : Frame → Text
  | .constant .. => ";\n"
  | .property => ",\n\x7d);\n"

def source (f : Frame) (literal : Text) : Text := f.opening ++ literal ++ f.closing

end Frame

theorem continuesName_segment {c : Code} (h : Key.continuesSegment c = true) : continuesName c = true := by
  have hall : ∀ c < 128, Key.continuesSegment c = true → continuesName c = true := by decide +kernel
  exact hall c (Key.continuesSegment_lt h) h

theorem isSpace_segment {c : Code} (h : Key.continuesSegment c = true) : Text.isSpace c = false := by
  have hall : ∀ c < 128, Key.continuesSegment c = true → Text.isSpace c = false := by decide +kernel
  exact hall c (Key.continuesSegment_lt h) h

theorem assigned_name {most : Nat} {first : Code} {more : Text} (hfirst : Anchor.startsName first = true)
    (hmore : more.all continuesName = true) (hlen : more.length ≤ most) (t : Text) :
    assigned most (first :: (more ++ (' ' : Code) :: ('=' : Code) :: (' ' : Code) :: t)) =
      some (first :: more, (' ' : Code) :: t) := by
  have hrun := run_append hmore hlen (c := ' ') (by decide +kernel) (('=' : Code) :: (' ' : Code) :: t)
  have hspaces : spaces ((' ' : Code) :: ('=' : Code) :: (' ' : Code) :: t) = ('=' : Code) :: (' ' : Code) :: t :=
    spaces_one (by decide) _
  simp only [assigned, if_pos hfirst, hrun, List.drop_left, hspaces]
  rfl

theorem isMessagesConstant_append (first : Code) (more : Text) :
    isMessagesConstant (first :: (more ++ ("Messages" : Text))) = true := by
  have hends : ("Messages" : Text).isSuffixOf (first :: (more ++ ("Messages" : Text))) = true :=
    List.isSuffixOf_iff_suffix.2 (List.suffix_append (first :: more) _)
  have hlen : 9 ≤ (first :: (more ++ ("Messages" : Text))).length := by
    rw [List.length_cons, List.length_append]
    exact Nat.succ_le_succ (Nat.le_add_left 8 _)
  rw [isMessagesConstant, Text.dropEnd?, if_pos hends, decide_eq_true hlen]
  rfl

/-- An exported constant up to its value; its name is `first`, `more` and the ending. -/
def constantOpening (first : Code) (more : Text) : Text := "export const " ++ first :: more ++ "Messages = "

theorem isSpace_startsName {c : Code} (h : Anchor.startsName c = true) : Text.isSpace c = false :=
  isSpace_segment (Key.continues_of_starts h)

/-- A constant is recognized by its name, whatever its value is. -/
theorem messagesConstant_named {first : Code} {more : Text} (starts : Anchor.startsName first = true)
    (continues : more.all continuesName = true) (short : more.length ≤ maxNameChars) (t : Text) :
    messagesConstant none (constantOpening first more ++ t) = some ((' ' : Code) :: t) := by
  have hname : (more ++ ("Messages" : Text)).all continuesName = true := by
    rw [List.all_append, Bool.and_eq_true]
    exact ⟨continues, by decide +kernel⟩
  have hlen : (more ++ ("Messages" : Text)).length ≤ maxNameChars + 8 := by
    rw [List.length_append]
    exact Nat.add_le_add_right short 8
  let name : Text := first :: (more ++ ("Messages" : Text))
  let value : Text := (' ' : Code) :: t
  have hframe : constantOpening first more ++ t =
      ("export const " : Text) ++ (name ++ ((' ' : Code) :: ('=' : Code) :: value)) := by
    simp [constantOpening, name, value, Text.ofString]
  have hexport :
      word "export" none (("export const " : Text) ++ (name ++ ((' ' : Code) :: ('=' : Code) :: value))) =
        some ((" const " : Text) ++ (name ++ ((' ' : Code) :: ('=' : Code) :: value))) := rfl
  have hconst : someSpaces ((" const " : Text) ++ (name ++ ((' ' : Code) :: ('=' : Code) :: value))) =
      some (("const " : Text) ++ (name ++ ((' ' : Code) :: ('=' : Code) :: value))) := someSpaces_one (by decide) _
  have hkeyword : [("const" : Text)].findSome? (fun k => Text.dropStart? k
      (("const " : Text) ++ (name ++ ((' ' : Code) :: ('=' : Code) :: value)))) =
      some ((" " : Text) ++ (name ++ ((' ' : Code) :: ('=' : Code) :: value))) := rfl
  have hspace : someSpaces ((" " : Text) ++ (name ++ ((' ' : Code) :: ('=' : Code) :: value))) =
      some (name ++ ((' ' : Code) :: ('=' : Code) :: value)) :=
    someSpaces_one (isSpace_startsName starts) _
  have hassigned : assigned (maxNameChars + 8) (name ++ ((' ' : Code) :: ('=' : Code) :: value)) =
      some (name, value) :=
    assigned_name starts hname hlen t
  have hconstant : isMessagesConstant name = true := isMessagesConstant_append first more
  simp only [messagesConstant, exported, hframe, hexport, hconst, hkeyword, hspace, hassigned, Option.bind_eq_bind,
    Option.bind_some, hconstant, if_true]
  rfl

theorem messagesConstant_source {first : Code} {more : Text} (starts : Key.startsSegment first = true)
    (continues : more.all Key.continuesSegment = true) (short : more.length ≤ maxNameChars) (t : Text) :
    messagesConstant none ((Frame.constant first more starts continues short).opening ++ t) =
      some ((' ' : Code) :: t) := by
  refine messagesConstant_named starts (List.all_eq_true.2 fun c hc => ?_) short t
  exact continuesName_segment (List.all_eq_true.1 continues c hc)

/-! ## The first anchor -/

theorem property_none {w : Text} {before : Option Code} {t : Text} (h : word w before t = none) :
    property w before t = none := by
  rw [property, h, Option.bind_none]

theorem messagesConstant_none {before : Option Code} {t : Text} (h : word "export" before t = none) :
    messagesConstant before t = none := by
  simp only [messagesConstant, exported, h, Option.bind_eq_bind, Option.bind_none]

/-- Inside the frame of a call, neither kind of anchor starts. -/
theorem callOpening_past {n : Nat} (hn : n < callOpening.length) (before : Option Code) (t : Text) :
    messagesProperty before (callOpening.drop n ++ (propertyOpening ++ t)) = none ∧
      messagesConstant before (callOpening.drop n ++ (propertyOpening ++ t)) = none := by
  have hword : ∀ w : Text, w.length ≤ propertyOpening.length →
      (∀ n < callOpening.length, w.isPrefixOf (callOpening.drop n ++ propertyOpening) = false) →
      word w before (callOpening.drop n ++ (propertyOpening ++ t)) = none := by
    intro w hlen hw
    rw [← List.append_assoc]
    exact word_past (hw n hn) (by rw [List.length_append]; omega) before t
  exact ⟨property_none (hword "messages" (by decide) (by decide +kernel)),
    messagesConstant_none (hword "export" (by decide) (by decide +kernel))⟩

/-- A constant at the very front is first. -/
theorem anchors_constant {u r : Text} (hc : messagesConstant none u = some r) (hp : messagesProperty none u = none) :
    ∃ more, anchors u = r :: more := by
  have hne : u ≠ [] := by
    rintro rfl
    cases hc
  have hfirst : locate messagesConstant u = some (u, r) := locate_now hc hne
  rw [anchors, hfirst]
  cases hlater : locate messagesProperty u with
  | none => exact ⟨[], rfl⟩
  | some p =>
    obtain ⟨s, next⟩ := p
    have hlen := length_locate_later hp hlater
    simp only [if_neg (Nat.not_le_of_lt hlen)]
    exact ⟨_, rfl⟩

/-- A property is first if no constant starts in front of it. -/
theorem anchors_property {u s r : Text} (hp : locate messagesProperty u = some (s, r))
    (hc : ∀ c, locate messagesConstant u = some c → c.1.length ≤ s.length) : ∃ more, anchors u = r :: more := by
  rw [anchors, hp]
  cases hconstant : locate messagesConstant u with
  | none => exact ⟨[], rfl⟩
  | some c =>
    simp only [if_pos (hc c hconstant)]
    exact ⟨_, rfl⟩

theorem anchors_named {first : Code} {more t : Text}
    (hconstant : messagesConstant none (constantOpening first more ++ t) = some ((' ' : Code) :: t)) :
    ∃ later, anchors (constantOpening first more ++ t) = ((' ' : Code) :: t) :: later := by
  have hword : word "messages" none (constantOpening first more ++ t) = none := by
    rw [constantOpening, List.append_assoc, List.append_assoc]
    exact word_past (by decide) (by decide) none _
  exact anchors_constant hconstant (property_none hword)

/-- In its frame, the literal is what stands behind the first anchor. -/
theorem anchors_source (f : Frame) (t : Text) : ∃ (gap : Gap) (more : List Text),
    anchors (f.opening ++ ('{' : Code) :: t) = (gap.print ++ ('{' : Code) :: t) :: more := by
  cases f with
  | constant first more starts continues short =>
    exact ⟨[.space], anchors_named (messagesConstant_source starts continues short (('{' : Code) :: t))⟩
  | property =>
    have hpast := fun n hn before => callOpening_past (n := n) hn before (('{' : Code) :: t)
    have hnow : messagesProperty (some ' ') (propertyOpening ++ ('{' : Code) :: t) = some (('{' : Code) :: t) := by
      have hword : word "messages" (some ' ') (propertyOpening ++ ('{' : Code) :: t) =
          some ((':' : Code) :: (' ' : Code) :: ('{' : Code) :: t) := rfl
      rw [messagesProperty, property, hword]
      exact spaced_one (c := ':') (d := '{') (by decide) (by decide) t
    have hproperty : locate messagesProperty (callOpening ++ (propertyOpening ++ ('{' : Code) :: t)) =
        some (propertyOpening ++ ('{' : Code) :: t, ('{' : Code) :: t) := by
      rw [locate, findFirst_past fun n hn before => by rw [(hpast n hn before).1]; rfl]
      exact locate_now hnow (by simp [propertyOpening, Text.ofString])
    refine ⟨[], ?_⟩
    rw [Frame.opening, List.append_assoc]
    -- no constant starts in the frame, so one that is found starts at the property or behind
    refine anchors_property hproperty fun c hc => ?_
    rw [locate, findFirst_past fun n hn before => by rw [(hpast n hn before).2]; rfl] at hc
    exact length_locate hc

theorem upTo_literal (m : Members) (after : Text) :
    Text.upTo (('{' : Code) :: (m.print ++ ('}' : Code) :: after)) after = m.source [] [] := by
  rw [← upTo_append (m.source [] []) after]
  simp [Members.source, Gap.print]

/-- The literal that a constant is given is found, whatever stands in front of it or behind. -/
theorem messages_named {first : Code} {more : Text} (starts : Anchor.startsName first = true)
    (continues : more.all continuesName = true) (short : more.length ≤ maxNameChars) (before : Gap) (m : Members)
    (after : Text) : messages? (constantOpening first more ++ m.source before after) = some (m.source [] []) := by
  obtain ⟨later, hanchors⟩ := anchors_named (messagesConstant_named starts continues short (m.source before after))
  have hspaced : (' ' : Code) :: m.source before after = Gap.print (.space :: before) ++
      ('{' : Code) :: (m.print ++ ('}' : Code) :: after) := rfl
  rw [messages?, hanchors, List.findSome?_cons, hspaced, objectLiteral_source]
  exact congrArg some (upTo_literal m after)

/-- The messages of an artifact are found, whatever they say. -/
theorem messages_source (f : Frame) (m : Members) :
    messages? (f.source (m.source [] [])) = some (m.source [] []) := by
  obtain ⟨gap, more, hanchors⟩ := anchors_source f (m.print ++ ('}' : Code) :: f.closing)
  have hsource :
      f.source (m.source [] []) = f.opening ++ ('{' : Code) :: (m.print ++ ('}' : Code) :: f.closing) := by
    simp [Frame.source, Members.source, Gap.print]
  rw [messages?, hsource, hanchors, List.findSome?_cons, objectLiteral_source]
  exact congrArg some (upTo_literal m f.closing)

/-! ## Keys -/

theorem value_keySet (host : Host) (limits : Limits) {t literal : Text} (h : messages? t = some literal) :
    (keySet limits t host).run.value = (flattenOn host limits [] literal).run.value.map fun f => f.entries.keys := by
  simp only [keySet, h, flattenedKeys, Attempt.value_bind]
  cases (flattenOn host limits [] literal).run.value <;> rfl

/-- The keys of an artifact that was written are those of its table. -/
theorem keySet_source {limits : Limits} (f : Frame) {t : Table Text Text} (hvalid : t.keys.all Key.isValid = true)
    {indent : Text} (hindent : indent.all isBlank = true) (hfit : entriesFit limits t.entries = true)
    (hlen : (render indent t.entries).length ≤ limits.maxContentLength) :
    (keySet limits (f.source (render indent t.entries))).run.value = .ok t.keys := by
  have hmessages : messages? (f.source (render indent t.entries)) = some (render indent t.entries) := by
    obtain ⟨above, last, hsource⟩ := render_source hindent t.entries
    rw [hsource]
    exact messages_source f _
  have hall : (t.entries.filter fun e => Key.isValid e.1) = t.entries := by
    rw [Table.keys, List.all_map] at hvalid
    exact List.filter_eq_self.2 (List.all_eq_true.1 hvalid)
  have hkeys : (tabulate t.entries).entries.keys = t.keys := by
    rw [Table.keys, (tabulate_table t).1, hall, Table.keys]
  rw [value_keySet {} limits hmessages, flattenOn_eq (overflows_render hindent hfit []),
    flatten_entries hindent hfit hlen, Except.map, hkeys]

end MessageCatalog.Artifact
