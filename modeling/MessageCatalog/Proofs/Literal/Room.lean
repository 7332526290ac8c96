/-
  MessageCatalog.Proofs.Literal.Room — runs of the scan on a host.

  A scan that leaves nothing unread for its depth is not held up by its cap, so it goes the same
  way under a higher one. On a host, a run that enters every object that is allowed is one without
  a host; one that comes to an object for which there is no more room ends there.

  Proved:
  - `flattenOn_eq` / `flattenOn_overflow`: where no object is reached for which there is no more
    room, flattening is what it is without a host, and it fails where one is.
  - `overflows_source`: in the source of a literal one is reached if objects are nested deeper than
    there is room for, and are allowed to be.
-/

import Mathlib.Data.List.TakeWhile
import MessageCatalog.Proofs.Attempt
import MessageCatalog.Proofs.Literal.Flatten

namespace MessageCatalog.Literal

open Source

/-! ## Higher caps -/

section

variable (limits : Limits) (d : Nat)

theorem joinStrings_maxDepth (value rest : Text) :
    joinStrings { limits with maxDepth := d } value rest = joinStrings limits value rest := by
  fun_induction joinStrings limits value rest with
  | case1 value rest h => rw [joinStrings_eq, h]
  | case2 value rest c r h hc h₂ =>
    rw [joinStrings_eq, h]
    simp only [hc, h₂, if_true]
  | case3 value rest c r h hc q body h₂ hq part next h₃ hlong =>
    rw [joinStrings_eq, h]
    simp only [hc, h₂, hq, h₃, if_true, if_pos hlong]
  | case4 value rest c r h hc q body h₂ hq part next h₃ hlong ih =>
    rw [joinStrings_eq, h]
    simp only [hc, h₂, hq, h₃, if_true, if_neg hlong, ih]
  | case5 value rest c r h hc q body h₂ hq next h₃ =>
    rw [joinStrings_eq, h]
    simp only [hc, h₂, hq, h₃, if_true]
  | case6 value rest c r h hc q body h₂ hq =>
    rw [joinStrings_eq, h]
    simp only [hc, h₂, if_true, if_neg hq]
  | case7 value rest c r h hc =>
    rw [joinStrings_eq, h]
    simp only [if_neg hc]

theorem readValue_maxDepth (t : Text) : readValue { limits with maxDepth := d } t = readValue limits t := by
  simp only [readValue, joinStrings_maxDepth]

end

theorem any_tooDeep {es : List Emission} : es.any Emission.isTooDeep = true ↔ ∃ key, .tooDeep key ∈ es := by
  rw [List.any_eq_true]
  constructor
  · rintro ⟨e, he, hdeep⟩
    cases e with
    | tooDeep key => exact ⟨key, he⟩
    | leaf => cases hdeep
  · rintro ⟨key, he⟩
    exact ⟨_, he, rfl⟩

/-- A cap under which nothing is left unread could as well be higher. -/
theorem scan_raised {limits : Limits} {d : Nat} (h : limits.maxDepth ≤ d) (base : Text) (depth : Nat) (t : Text)
    (hall : (scan limits base depth t).any Emission.isTooDeep = false) :
    scan { limits with maxDepth := d } base depth t = scan limits base depth t := by
  have hfront (t : Text) : front { limits with maxDepth := d } t = front limits t := rfl
  fun_induction scan limits base depth t with
  | case1 base depth t hf => rw [scan_eq, hfront, hf]
  | case2 base depth t rest hf ih =>
    rw [scan_eq, hfront, hf]
    exact ih hall
  | case3 base depth t name c r hf hc hclose =>
    rw [scan_eq, hfront, hf]
    simp only [scanProperty, if_pos hc, hclose]
  | case4 base depth t name c r hf key hc close hclose ih₂ ih₁ =>
    rw [List.any_append, Bool.or_eq_false_iff] at hall
    have hopen : ¬ limits.maxDepth < depth + 1 := by
      intro hdeep
      rw [if_pos hdeep] at hall
      cases hall.1
    rw [if_neg hopen] at hall
    have hraised : ¬ d < depth + 1 := by omega
    rw [scan_eq, hfront, hf]
    simp only [scanProperty, if_pos hc, hclose]
    rw [if_neg hopen, if_neg hraised, ih₂ hall.1, ih₁ hall.2]
  | case5 base depth t name c r hf key hc hq reading ih =>
    rw [List.any_append, Bool.or_eq_false_iff] at hall
    rw [scan_eq, hfront, hf]
    simp only [scanProperty, if_neg hc, if_pos hq, readValue_maxDepth]
    rw [ih hall.2]
  | case6 base depth t name c r hf hc hq ih =>
    rw [scan_eq, hfront, hf]
    simp only [scanProperty, if_neg hc, if_neg hq]
    exact ih hall

theorem emissions_raised {limits : Limits} {d : Nat} (h : limits.maxDepth ≤ d) (base t : Text)
    (hall : (emissions limits base t).any Emission.isTooDeep = false) :
    emissions { limits with maxDepth := d } base t = emissions limits base t := by
  unfold emissions at hall ⊢
  cases hb : objectLiteral t with
  | none => rfl
  | some b =>
    rw [hb] at hall
    exact scan_raised h base 0 b.inside hall

/-! ## Runs -/

/-- An object is reached that is allowed, and one level deeper than there is room for. -/
structure Overflows (host : Host) (limits : Limits) (base t : Text) : Prop where
  allowed : host.room < limits.maxDepth
  reached : ∃ key, .tooDeep key ∈ emissions { limits with maxDepth := host.room } base t

section

variable {host : Host} {limits : Limits} {base t : Text}

/-- There is room for whatever is allowed. -/
theorem not_overflows (h : limits.maxDepth ≤ host.room) : ¬ Overflows host limits base t :=
  fun hover => Nat.not_le_of_lt hover.allowed h

theorem runOn_whole (h : ¬ Overflows host limits base t) :
    runOn host limits base t = ⟨emissions limits base t, true⟩ := by
  unfold runOn
  by_cases hroom : limits.maxDepth ≤ host.room
  · rw [Nat.min_eq_left hroom, if_pos hroom]
  · have hlow : host.room ≤ limits.maxDepth := by omega
    have hnone : (emissions { limits with maxDepth := host.room } base t).any Emission.isTooDeep = false := by
      refine Bool.eq_false_iff.2 fun hany => h ⟨by omega, any_tooDeep.1 hany⟩
    have hcap : ({ limits with maxDepth := host.room } : Limits).maxDepth ≤ limits.maxDepth := hlow
    have hraised : emissions limits base t = emissions { limits with maxDepth := host.room } base t :=
      emissions_raised hcap base t hnone
    have hfull : (emissions { limits with maxDepth := host.room } base t).takeWhile (!·.isTooDeep) =
        emissions { limits with maxDepth := host.room } base t := by
      have hkept : ∀ e ∈ emissions { limits with maxDepth := host.room } base t, (!e.isTooDeep) = true := fun e he => by
        rw [Bool.eq_false_iff.2 (List.any_eq_false.1 hnone e he)]
        rfl
      exact List.takeWhile_eq_self_iff.2 hkept
    rw [Nat.min_eq_right hlow, if_neg hroom, hfull, hnone, hraised]
    rfl

theorem runOn_overflow (h : Overflows host limits base t) : (runOn host limits base t).isWhole = false := by
  have hroom : ¬ limits.maxDepth ≤ host.room := Nat.not_le_of_lt h.allowed
  unfold runOn
  rw [Nat.min_eq_right (Nat.le_of_lt h.allowed), if_neg hroom, any_tooDeep.2 h.reached]
  rfl

theorem flattenOn_eq (h : ¬ Overflows host limits base t) : flattenOn host limits base t = flatten limits base t := by
  unfold flattenOn
  rw [runOn_whole h]
  rfl

theorem flattenOn_overflow (hlen : t.length ≤ limits.maxContentLength) (h : Overflows host limits base t) :
    (flattenOn host limits base t).run = ⟨.error (.plain .tooDeep), []⟩ := by
  unfold flattenOn
  rw [if_neg (Nat.not_lt.2 hlen)]
  simp only [runOn_overflow h]
  rfl

theorem flattenOn_tooLarge (h : limits.maxContentLength < t.length) :
    (flattenOn host limits base t).run.value = .error (.literalTooLarge limits.maxContentLength t.length) := by
  rw [flattenOn, if_pos h]
  rfl

end

/-- What a host makes of a text: nothing if it is too long, nothing if it is nested deeper than there is
room for, and else what is made of it without a host. -/
theorem flattenOn_cases (host : Host) (limits : Limits) (base t : Text) :
    (limits.maxContentLength < t.length ∧
        (flattenOn host limits base t).run.value = .error (.literalTooLarge limits.maxContentLength t.length)) ∨
      (t.length ≤ limits.maxContentLength ∧ Overflows host limits base t ∧
        (flattenOn host limits base t).run.value = .error (.plain .tooDeep)) ∨
      (t.length ≤ limits.maxContentLength ∧ ¬ Overflows host limits base t ∧
        ∃ f, (flattenOn host limits base t).run.value = .ok f) := by
  by_cases hlen : t.length ≤ limits.maxContentLength
  · by_cases hover : Overflows host limits base t
    · exact .inr (.inl ⟨hlen, hover, congrArg Logged.value (flattenOn_overflow hlen hover)⟩)
    · have hrun : (flatten limits base t).run.value =
          .ok (tabulate ((emissions limits base t).filterMap Emission.entry?)) := flatten_run base hlen
      rw [← flattenOn_eq hover] at hrun
      exact .inr (.inr ⟨hlen, hover, _, hrun⟩)
  · exact .inl ⟨Nat.lt_of_not_le hlen, flattenOn_tooLarge (Nat.lt_of_not_le hlen)⟩

/-! ## Nesting -/

mutual

/-- How deep objects are nested among the members of an object. -/
def Source.Members.height : Members → Nat
  | .done _ => 0
  | .leaf _ _ tail => tail.height
  | .object _ _ inner tail => max (inner.height + 1) tail.height

def Source.Tail.height : Tail → Nat
  | .last _ => 0
  | .comma _ rest => rest.height

end

mutual

theorem members_tooDeep {limits : Limits} (m : Members) (base : Text) {depth : Nat} (hd : depth ≤ limits.maxDepth) :
    (m.emissions limits base depth).any Emission.isTooDeep = true ↔ limits.maxDepth < depth + m.height := by
  match m with
  | .done gap => simp [Members.emissions, Members.height, hd]
  | .leaf head value tail =>
    have hleaf : (value.denoted?.map (Emission.leaf depth (Key.under base head.name.denoted))).toList.any
        Emission.isTooDeep = false := by
      cases value.denoted? <;> rfl
    rw [Members.emissions, List.any_append, hleaf, Bool.false_or, tail_tooDeep tail base hd, Members.height]
  | .object head _ inner tail =>
    rw [Members.emissions, List.any_append, Bool.or_eq_true, tail_tooDeep tail base hd, Members.height]
    by_cases hdeep : limits.maxDepth < depth + 1
    · rw [if_pos hdeep]
      exact iff_of_true (.inl rfl) (by omega)
    · rw [if_neg hdeep, members_tooDeep inner _ (Nat.le_of_not_lt hdeep)]
      omega

theorem tail_tooDeep {limits : Limits} (l : Tail) (base : Text) {depth : Nat} (hd : depth ≤ limits.maxDepth) :
    (l.emissions limits base depth).any Emission.isTooDeep = true ↔ limits.maxDepth < depth + l.height := by
  match l with
  | .last gap => simp [Tail.emissions, Tail.height, hd]
  | .comma gap rest => exact members_tooDeep rest base hd

end

mutual

theorem fits_maxDepth {limits : Limits} {m : Members} (h : m.fits limits = true) (d : Nat) :
    m.fits { limits with maxDepth := d } = true := by
  match m with
  | .done gap => rfl
  | .leaf head value tail =>
    rw [Members.fits, Bool.and_eq_true] at h ⊢
    exact ⟨h.1, fits_maxDepth_tail h.2 d⟩
  | .object head _ inner tail =>
    rw [Members.fits, Bool.and_eq_true, Bool.and_eq_true] at h ⊢
    exact ⟨⟨h.1.1, fits_maxDepth h.1.2 d⟩, fits_maxDepth_tail h.2 d⟩

theorem fits_maxDepth_tail {limits : Limits} {l : Tail} (h : l.fits limits = true) (d : Nat) :
    l.fits { limits with maxDepth := d } = true := by
  match l with
  | .last gap => rfl
  | .comma gap rest => exact fits_maxDepth (m := rest) h d

end

/-- The source of a literal overflows if its objects are allowed to be nested deeper than there is
room for, and are. -/
theorem overflows_source {host : Host} {limits : Limits} {m : Members} (hm : m.fits limits = true) (base : Text)
    (before : Gap) (after : Text) :
    Overflows host limits base (before.print ++ ('{' : Code) :: (m.print ++ ('}' : Code) :: after)) ↔
      host.room < limits.maxDepth ∧ host.room < m.height := by
  have hreached : (∃ key, .tooDeep key ∈ emissions { limits with maxDepth := host.room } base
      (before.print ++ ('{' : Code) :: (m.print ++ ('}' : Code) :: after))) ↔ host.room < m.height := by
    rw [← any_tooDeep, emissions_source (fits_maxDepth hm host.room), members_tooDeep m base (Nat.zero_le _),
      Nat.zero_add]
  exact ⟨fun ⟨allowed, reached⟩ => ⟨allowed, hreached.1 reached⟩,
    fun ⟨allowed, hheight⟩ => ⟨allowed, hreached.2 hheight⟩⟩

/-! ## Objects in objects -/

def Source.Head.sample : Head := ⟨[], .quoted (.single "a" (by decide +kernel)) rfl, [], []⟩

theorem denoted_sample : Head.sample.name.denoted ≠ [] := by decide +kernel

def Source.Members.nested : Nat → Members
  | 0 => .done []
  | n + 1 => .object .sample denoted_sample (nested n) (.last [])

def Source.nestedText (n : Nat) : Text :=
  (List.replicate n ("\x7b'a':" : Text)).flatten ++ "\x7b\x7d" ++ List.replicate n ('}' : Code)

theorem nestedText_eq (n : Nat) : nestedText n = (Members.nested n).source [] [] := by
  induction n with
  | zero => rfl
  | succ n ih =>
    have hprint : (Members.nested (n + 1)).print = ("'a':" : Text) ++ nestedText n := by
      rw [ih]
      rfl
    rw [Members.source, hprint, nestedText, nestedText, List.replicate_succ, List.flatten_cons, List.replicate_succ']
    simp [Gap.print, Text.ofString]

theorem height_nested (n : Nat) : (Members.nested n).height = n := by
  induction n with
  | zero => rfl
  | succ n ih =>
    have hstep : (Members.nested (n + 1)).height = max ((Members.nested n).height + 1) 0 := rfl
    rw [hstep, ih, Nat.max_zero]

theorem fits_nested {limits : Limits} (h : 1 ≤ limits.maxKeyLength) (n : Nat) :
    (Members.nested n).fits limits = true := by
  induction n with
  | zero => rfl
  | succ n ih =>
    have hhead : Head.sample.fits limits = true := decide_eq_true h
    have hstep : (Members.nested (n + 1)).fits limits =
        (Head.sample.fits limits && (Members.nested n).fits limits && true) := rfl
    rw [hstep, hhead, ih]
    rfl

theorem length_nestedText (n : Nat) : (nestedText n).length = 6 * n + 2 := by
  have hopen : ("\x7b'a':" : Text).length = 5 := rfl
  have hbraces : ("\x7b\x7d" : Text).length = 2 := rfl
  simp only [nestedText, List.length_append, List.length_flatten, List.map_replicate, hopen, hbraces,
    List.sum_replicate_nat, List.length_replicate]
  omega

theorem overflows_nested {host : Host} {limits : Limits} (hkey : 1 ≤ limits.maxKeyLength) (base : Text) (n : Nat) :
    Overflows host limits base (nestedText n) ↔ host.room < limits.maxDepth ∧ host.room < n := by
  rw [nestedText_eq, Members.source, overflows_source (fits_nested hkey n), height_nested]

end MessageCatalog.Literal
