/-
  MessageCatalog.Proofs.Literal.Progress — the scan gets on, and stays inside its text.

  Each loop over positions that is started in front of `stop` ends, at `stop` at the latest,
  where the cursor of the library stands (`Proofs.Literal.Walk`). So its position is as far on
  as what the cursor has taken. Trivia and the rest of a value may be nothing; a string, a name
  and every round of the scan take something.

  Proved: from every position of every text, under all limits, the loops get on like that, and
  a text is flattened without a look outside of it. On a host it fails if it is too long, and
  if an object is reached for which there is no more room, and in no other way
  (`flatten_progress`); the latter is met where objects are allowed to be nested very deep
  (`flatten_progress_deep`).
-/

import MessageCatalog.Literal.Position
import MessageCatalog.Proofs.Literal.Room
import MessageCatalog.Proofs.Literal.Walk.Scan

namespace MessageCatalog.Literal

open Walk

/-- How far the loops get that are started at `i`, where `c` stands, and what they find. -/
structure Progress (limits : Limits) (t : Text) (stop i : Nat) (c : Code) : Prop where
  get : t[i]? = some c
  trivia : ∃ p, Walk.skipTrivia t stop i = some p ∧ skipTriviaAt t i stop = p ∧ i ≤ p ∧ p ≤ stop
  string : ∃ p, Walk.skipString t stop i = some p ∧ skipStringAt t i stop = p ∧ i < p ∧ p ≤ stop
  /-- Only a string is read and passed. -/
  reading : ∀ maxLength, ∃ text p,
    Walk.readString t stop maxLength i = some (text, p) ∧ readStringAt t i stop maxLength = some (text, p) ∧
      i ≤ p ∧ p ≤ stop ∧ (i < p ↔ isQuote c = true)
  closing : ∃ found, Walk.closingBrace t stop 0 i = some found ∧ closingBraceAt t i stop = found ∧
    ∀ p ∈ found, i ≤ p ∧ p < stop ∧ t[p]? = some ('}' : Code)
  quoted : ∃ name p, Walk.quotedName t limits stop i = some (name, p) ∧
    Literal.quotedName limits c (t.window (i + 1) stop) = ⟨name, t.window p stop⟩ ∧ i < p ∧ p ≤ stop
  identifier : ∃ name p, Walk.identifierName t limits stop i = some (name, p) ∧
    Literal.identifierName limits c (t.window (i + 1) stop) = ⟨name, t.window p stop⟩ ∧ i < p ∧ p ≤ stop
  value : ∃ text p, Walk.readValue t limits stop i = some (text, p) ∧
    Literal.readValue limits (t.window i stop) = ⟨text, t.window p stop⟩ ∧ i ≤ p ∧ p ≤ stop ∧
      (i < p ↔ isQuote c = true)
  passed : ∃ p, Walk.skipValue t limits stop i = some p ∧
    Literal.skipValue [] limits.maxValueLength (t.window i stop) = t.window p stop ∧ i ≤ p ∧ p ≤ stop
  round : ∃ found, Walk.round t limits stop i = some found ∧ found.Advances stop i
  scan : ∀ base depth,
    Walk.scan t limits base depth stop i = some (Literal.scan limits base depth (t.window i stop))

section

variable {t : Text} {stop : Nat} (hstop : stop ≤ t.length) {c : Code} {r : Text} {i : Nat}
  (h : Stands t stop (c :: r) i)

include hstop h

theorem skipTrivia_progress :
    ∃ p, Walk.skipTrivia t stop i = some p ∧ skipTriviaAt t i stop = p ∧ i ≤ p ∧ p ≤ stop := by
  obtain ⟨p, hp, hrest⟩ := skipTrivia_stands hstop h
  refine ⟨p, hp, ?_, h.le_of_length hstop hrest (length_skipTrivia_le _), hrest.le⟩
  unfold skipTriviaAt
  rw [if_neg (Nat.not_le_of_lt h.cons.1), h.window, hrest.positionOf hstop]

theorem skipString_progress :
    ∃ p, Walk.skipString t stop i = some p ∧ skipStringAt t i stop = p ∧ i < p ∧ p ≤ stop := by
  obtain ⟨p, hp, hlt, hrest⟩ := skipString_stands hstop h
  refine ⟨p, hp, ?_, hlt, hrest.le⟩
  unfold skipStringAt
  rw [h.window]
  exact hrest.positionOf hstop

theorem reads_progress {reading : Reading} {read : Option Text × Nat} (hreads : Reads t stop reading read)
    (hquote : isQuote c = true → reading.rest.length < (c :: r).length)
    (hother : isQuote c = false → reading.rest = c :: r) :
    i ≤ read.2 ∧ read.2 ≤ stop ∧ (i < read.2 ↔ isQuote c = true) := by
  have hi := h.length hstop
  have hlen := hreads.rest.length hstop
  cases hq : isQuote c with
  | false =>
    rw [hother hq] at hlen
    refine ⟨by omega, hreads.rest.le, ?_⟩
    simp
    omega
  | true =>
    have hless := hquote hq
    exact ⟨by omega, hreads.rest.le, by simp; omega⟩

theorem readString_progress (maxLength : Option Nat) :
    ∃ text p, Walk.readString t stop maxLength i = some (text, p) ∧ readStringAt t i stop maxLength = some (text, p) ∧
      i ≤ p ∧ p ≤ stop ∧ (i < p ↔ isQuote c = true) := by
  obtain ⟨⟨text, p⟩, hread, hreads⟩ := readString_reads hstop maxLength h
  obtain ⟨hlt, hdrop, -⟩ := h.cons
  have hother (hq : isQuote c = false) : Literal.readString maxLength (c :: r) = ⟨none, c :: r⟩ := by
    simp [Literal.readString, hq]
  have hbounds := reads_progress hstop h hreads (length_readString_lt maxLength r) fun hq => by rw [hother hq]
  refine ⟨text, p, hread, ?_, hbounds⟩
  have hstart : ¬ stop ≤ i := by omega
  have hvalue : text = _ := hreads.value
  have hposition : _ = p := hreads.rest.positionOf hstop
  unfold readStringAt
  rw [hdrop]
  cases hq : isQuote c with
  | false =>
    rw [hother hq] at hvalue hposition
    rw [h.positionOf hstop] at hposition
    simp only [hq, Bool.not_false, if_true]
    rw [hvalue, hposition]
  | true =>
    simp only [hq, Bool.not_true, Bool.false_eq_true, if_false, if_neg hstart, h.window]
    rw [hvalue, hposition]

theorem closingBrace_progress :
    ∃ found, Walk.closingBrace t stop 0 i = some found ∧ closingBraceAt t i stop = found ∧
      ∀ p ∈ found, i ≤ p ∧ p < stop ∧ t[p]? = some ('}' : Code) := by
  obtain ⟨found, hfound, hclose⟩ := closingBrace_stands hstop 0 h
  refine ⟨found, hfound, ?_⟩
  unfold closingBraceAt
  rw [h.window]
  rcases hclose with ⟨rfl, hnone⟩ | ⟨p, rest, rfl, hsome, hrest⟩
  · rw [hnone]
    exact ⟨rfl, fun p hp => by cases hp⟩
  · have hle := h.le_of_length hstop hrest (length_closingBrace_le hsome)
    obtain ⟨-, u, rfl⟩ := closingBrace_suffix hsome
    rw [hsome, Option.map_some, hrest.positionOf hstop]
    refine ⟨rfl, fun p' hp' => ?_⟩
    obtain rfl := Option.some.inj hp'
    exact ⟨hle, hrest.cons.1, hrest.get⟩

theorem name_progress {n : Name} {walked : Option (Option Text × Nat)}
    (hread : ∃ read, walked = some read ∧ Reads t stop ⟨n.name, n.rest⟩ read) (hle : n.rest.length ≤ r.length) :
    ∃ name p, walked = some (name, p) ∧ n = ⟨name, t.window p stop⟩ ∧ i < p ∧ p ≤ stop := by
  obtain ⟨⟨name, p⟩, hread, hname, hrest⟩ := hread
  refine ⟨name, p, hread, ?_, h.cons.2.2.le_of_length hstop hrest hle, hrest.le⟩
  rw [hrest.window]
  obtain rfl : name = n.name := hname
  rfl

theorem readValue_progress (limits : Limits) :
    ∃ text p, Walk.readValue t limits stop i = some (text, p) ∧
      Literal.readValue limits (c :: r) = ⟨text, t.window p stop⟩ ∧ i ≤ p ∧ p ≤ stop ∧
        (i < p ↔ isQuote c = true) := by
  obtain ⟨⟨text, p⟩, hread, hreads⟩ := readValue_reads hstop limits h
  have hbounds := reads_progress hstop h hreads (length_readValue_lt limits r) fun hq => by
    simp [Literal.readValue, Literal.readString, hq]
  refine ⟨text, p, hread, ?_, hbounds⟩
  rw [hreads.rest.window]
  obtain rfl : text = (Literal.readValue limits (c :: r)).value := hreads.value
  rfl

theorem skipValue_progress (limits : Limits) :
    ∃ p, Walk.skipValue t limits stop i = some p ∧
      Literal.skipValue [] limits.maxValueLength (c :: r) = t.window p stop ∧ i ≤ p ∧ p ≤ stop := by
  obtain ⟨p, hp, hrest⟩ := skipValue_stands hstop limits h
  exact ⟨p, hp, hrest.window.symm, h.le_of_length hstop hrest (length_skipValue_le _ _ _), hrest.le⟩

theorem progress (limits : Limits) : Progress limits t stop i c where
  get := h.get
  trivia := skipTrivia_progress hstop h
  string := skipString_progress hstop h
  reading := readString_progress hstop h
  closing := closingBrace_progress hstop h
  quoted := by
    rw [h.cons.2.2.window]
    exact name_progress hstop h (quotedName_reads hstop limits h) (quotedName_suffix limits c r).length_le
  identifier := by
    rw [h.cons.2.2.window]
    exact name_progress hstop h (identifierName_reads hstop limits h) (identifierName_suffix limits c r).length_le
  value := by
    rw [h.window]
    exact readValue_progress hstop h limits
  passed := by
    rw [h.window]
    exact skipValue_progress hstop h limits
  round := by
    obtain ⟨found, hfound, hfinds⟩ := round_finds hstop limits h
    exact ⟨found, hfound, hfinds.advances hstop h⟩
  scan base depth := by
    rw [h.window]
    exact scan_stands limits base depth hstop h

end

/-- From every position of every text, under all limits and for every bound in front of its end, the
loops end and get on; and flattening a text looks at nothing outside of it. A host refuses what is
too long, fails where it has no room for an object that is allowed, and is no hindrance otherwise. -/
theorem flatten_progress (limits : Limits) (t : Text) :
    (∀ stop ≤ t.length, ∀ i < stop, ∃ c, Progress limits t stop i c) ∧
      ∀ base, Walk.flatten t limits base = some (flatten limits base t) ∧
        ∀ host,
          (∀ fault, (flattenOn host limits base t).run.value = .error fault ↔
            limits.maxContentLength < t.length ∧ fault = .literalTooLarge limits.maxContentLength t.length ∨
              t.length ≤ limits.maxContentLength ∧ Overflows host limits base t ∧ fault = .plain .tooDeep) ∧
          (¬ Overflows host limits base t → flattenOn host limits base t = flatten limits base t) := by
  constructor
  · intro stop hstop i hi
    have h : Stands t stop (t.window i stop) i := Stands.here (Nat.le_of_lt hi)
    cases hwindow : t.window i stop with
    | nil =>
      have hlen := Text.length_window hstop i
      rw [hwindow, List.length_nil] at hlen
      omega
    | cons c r =>
      rw [hwindow] at h
      exact ⟨c, progress hstop h limits⟩
  · refine fun base => ⟨flatten_eq limits base t, fun host => ⟨fun fault => ?_, flattenOn_eq⟩⟩
    rcases flattenOn_cases host limits base t with ⟨hlong, hf⟩ | ⟨hlen, hover, hf⟩ | ⟨hlen, hover, f, hf⟩
    · have hlen : ¬ t.length ≤ limits.maxContentLength := Nat.not_le_of_lt hlong
      simp [hf, hlong, hlen, eq_comm]
    · have hlong : ¬ limits.maxContentLength < t.length := Nat.not_lt_of_le hlen
      simp [hf, hlong, hlen, hover, eq_comm]
    · have hlong : ¬ limits.maxContentLength < t.length := Nat.not_lt_of_le hlen
      simp [hf, hlong, hover]

/-- A string whose first escape has digits on both sides of the fifth position. -/
def Source.cut : Text := "'\\u0041' + 'b'"

theorem flatten_progress_sample :
    let limits : Limits := { maxContentLength := 3 }
    (5 ≤ Source.cut.length ∧ 0 < 5 ∧ Walk.escape Source.cut 5 1 = some ([0x41], 7)) ∧
      (∃ c, Progress limits Source.cut 5 0 c ∧ Walk.readString Source.cut 5 none 0 = some (none, 5)) ∧
      (3 < Source.cut.length ∧ (flattenOn {} limits [] Source.cut).run.value = .error (.literalTooLarge 3 14)) ∧
      ¬ Overflows {} {} [] Source.cut ∧ flattenOn {} {} [] Source.cut = flatten {} [] Source.cut := by
  intro limits
  have hstop : 5 ≤ Source.cut.length := by decide +kernel
  have hlong : 3 < Source.cut.length := by decide +kernel
  have hlen : Source.cut.length = 14 := by decide +kernel
  obtain ⟨hprogress, hflatten⟩ := flatten_progress limits Source.cut
  obtain ⟨c, hc⟩ := hprogress 5 hstop 0 (by decide)
  obtain ⟨text, p, hwalked, hread, -⟩ := hc.reading none
  have hnone : readStringAt Source.cut 0 5 none = some (none, 5) := by decide +kernel
  rw [hnone] at hread
  have hroom : ¬ Overflows {} {} [] Source.cut := not_overflows (by decide)
  refine ⟨⟨hstop, by decide, by decide +kernel⟩, ⟨c, hc, hwalked.trans hread.symm⟩, ⟨hlong, ?_⟩, hroom, ?_⟩
  · rw [← hlen]
    exact (((hflatten []).2 {}).1 _).2 (.inl ⟨hlong, rfl⟩)
  · exact (((flatten_progress {} Source.cut).2 []).2 {}).2 hroom

/-- Objects that are allowed to be nested very deep, and are: the text is not too long, it is no
table that comes of it. -/
theorem flatten_progress_deep :
    (Source.nestedText 1500).length ≤ ({ maxDepth := 5000 } : Limits).maxContentLength ∧
      (flattenOn {} { maxDepth := 5000 } [] (Source.nestedText 1500)).run.value = .error (.plain .tooDeep) := by
  have hlen : (Source.nestedText 1500).length ≤ ({ maxDepth := 5000 } : Limits).maxContentLength := by
    rw [length_nestedText]
    decide
  have hover : Overflows {} { maxDepth := 5000 } [] (Source.nestedText 1500) :=
    (overflows_nested (by decide) [] 1500).2 ⟨by decide, by decide⟩
  exact ⟨hlen, congrArg Logged.value (flattenOn_overflow hlen hover)⟩

end MessageCatalog.Literal
