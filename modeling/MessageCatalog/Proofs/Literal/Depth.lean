/-
  MessageCatalog.Proofs.Literal.Depth — what the depth that is allowed does to a run.

  A scan that may not enter an object goes on behind the brace that closes it, where it would have
  gone on anyway, so two scans of a text with different caps read the same texts outside the
  objects that only one of them enters. Where names and values end does not depend on the cap at
  all; what is emitted is a filter of it.

  Proved: whatever the text, a run emits what a run with a higher cap emits at the depths that are
  allowed to it, in the same order and with the same values (`flatten_capped`).
-/

import MessageCatalog.Proofs.Literal.Paths
import MessageCatalog.Proofs.Literal.Room

namespace MessageCatalog.Literal

open Source

/-! ## What is read -/

section

variable (limits : Limits) (d : Nat)

/-- What is found does not depend on how deep a run may go. -/
theorem textsIn_maxDepth (t : Text) : textsIn { limits with maxDepth := d } t = textsIn limits t := by
  have hfront (t : Text) : front { limits with maxDepth := d } t = front limits t := rfl
  fun_induction textsIn limits t with
  | case1 t hf => rw [textsIn_eq, hfront, hf]
  | case2 t rest hf ih =>
    rw [textsIn_eq, hfront, hf]
    exact ih
  | case3 t name c r hf hc hclose =>
    rw [textsIn_eq, hfront, hf]
    simp only [propertyTexts, if_pos hc, hclose]
  | case4 t name c r hf hc close hclose ih₂ ih₁ =>
    rw [textsIn_eq, hfront, hf]
    simp only [propertyTexts, if_pos hc, hclose, ih₁, ih₂]
  | case5 t name c r hf hc hq ih =>
    rw [textsIn_eq, hfront, hf]
    simp only [propertyTexts, if_neg hc, if_pos hq, readValue_maxDepth, ih]
  | case6 t name c r hf hc hq ih =>
    rw [textsIn_eq, hfront, hf]
    simp only [propertyTexts, if_neg hc, if_neg hq, ih]

theorem isWithin_pred {limits : Limits} (h : 1 ≤ limits.maxDepth) :
    Entry.isWithin limits 1 = Entry.isWithin { limits with maxDepth := limits.maxDepth - 1 } 0 := by
  funext e
  refine decide_eq_decide.2 ?_
  show 1 + e.path.length ≤ limits.maxDepth + 1 ↔ 0 + e.path.length ≤ limits.maxDepth - 1 + 1
  omega

end

/-! ## What is emitted -/

/-- What a run emits, to be accepted or rejected: each key and its text, with the depth of the
object it was found in. -/
def emitted (limits : Limits) (base t : Text) : List (Nat × Text × Text) :=
  (emissions limits base t).filterMap Emission.tagged?

theorem flatten_emitted {limits : Limits} {t : Text} (base : Text) (h : t.length ≤ limits.maxContentLength) :
    (flatten limits base t).run.value = .ok (tabulate ((emitted limits base t).map (·.2))) := by
  rw [flatten_run base h, entries_eq_tagged]
  rfl

section

variable (limits : Limits) {d D : Nat} (h : d ≤ D)

include h

/-- An entry that a cap lets through is let through by a higher one. -/
theorem textsOf_capped (t : Text) :
    textsOf { limits with maxDepth := d } t =
      (textsOf { limits with maxDepth := D } t).filter (Entry.isWithin { limits with maxDepth := d } 0) := by
  unfold textsOf
  cases objectLiteral t with
  | none => rfl
  | some b =>
    dsimp only
    rw [textsIn_maxDepth limits d, textsIn_maxDepth limits D, List.filter_filter]
    refine List.filter_congr fun e _ => ?_
    rw [Bool.eq_iff_iff, Bool.and_eq_true]
    simp only [Entry.isWithin, decide_eq_true_eq]
    omega

theorem emitted_capped (base t : Text) :
    emitted { limits with maxDepth := d } base t =
      (emitted { limits with maxDepth := D } base t).filter (fun e => e.1 ≤ d) := by
  simp only [emitted, emissions_tagged]
  rw [textsOf_capped limits h, List.filter_map]
  congr 1
  refine List.filter_congr fun e _ => decide_eq_decide.2 ?_
  simp only [Entry.tagged]
  omega

end

/-- Among fewer texts no key is accepted or rejected that is not among more. -/
theorem tabulate_mono {es fs : List (Text × Text)} (h : es ⊆ fs) :
    (tabulate es).entries.keys ⊆ (tabulate fs).entries.keys ∧
      (tabulate es).rejected.toList ⊆ (tabulate fs).rejected.toList := by
  constructor
  · intro k hk
    obtain ⟨hvalid, v, hv⟩ := mem_keys_tabulate.1 hk
    exact mem_keys_tabulate.2 ⟨hvalid, v, h hv⟩
  · intro k hk
    obtain ⟨hinvalid, v, hv⟩ := mem_rejected_tabulate.1 hk
    exact mem_rejected_tabulate.2 ⟨hinvalid, v, h hv⟩

/-- The cap is a filter by depth. A text that is too large is not read, whatever the cap; of any
other, a lower cap gives the table of what it emits and no key that a higher one does not give. -/
theorem flatten_capped (limits : Limits) (base t : Text) {d D : Nat} (h : d ≤ D) :
    emitted { limits with maxDepth := d } base t =
        (emitted { limits with maxDepth := D } base t).filter (fun e => e.1 ≤ d) ∧
      (limits.maxContentLength < t.length → ∀ cap,
        (flatten { limits with maxDepth := cap } base t).run.value =
          .error (.literalTooLarge limits.maxContentLength t.length)) ∧
      (t.length ≤ limits.maxContentLength → ∃ f g : Flattened,
        (flatten { limits with maxDepth := d } base t).run.value = .ok f ∧
          (flatten { limits with maxDepth := D } base t).run.value = .ok g ∧
          f = tabulate ((emitted { limits with maxDepth := d } base t).map (·.2)) ∧
          g = tabulate ((emitted { limits with maxDepth := D } base t).map (·.2)) ∧
          f.entries.keys ⊆ g.entries.keys ∧ f.rejected.toList ⊆ g.rejected.toList) := by
  have hcapped := emitted_capped limits h base t
  refine ⟨hcapped, fun hlong cap => flatten_tooLarge base hlong, fun hlen => ?_⟩
  refine ⟨_, _, flatten_emitted base hlen, flatten_emitted base hlen, rfl, rfl, ?_⟩
  refine tabulate_mono (List.map_subset _ ?_)
  rw [hcapped]
  exact List.filter_sublist.subset

def Source.layered : Text :=
  "\x7b) a: \x7bb 'c d': 'x', ] e: \x7bf: \x7bg: 'y'\x7d, 'h i': 'z'\x7d\x7d, j k: `w`, a: 'v'\x7d"

theorem flatten_capped_sample :
    (1 : Nat) ≤ 3 ∧ Source.layered.length ≤ ({} : Limits).maxContentLength ∧
      (emitted { maxDepth := 1 } "p" Source.layered =
          (emitted { maxDepth := 3 } "p" Source.layered).filter (fun e => e.1 ≤ 1) ∧
        emitted { maxDepth := 3 } "p" Source.layered =
          ([(1, "p.a.c d", "x"), (3, "p.a.e.f.g", "y"), (2, "p.a.e.h i", "z"), (0, "p.k", "w"), (0, "p.a", "v")] :
            List (Nat × Text × Text))) ∧
      ∃ f g : Flattened, (flatten { maxDepth := 1 } "p" Source.layered).run.value = .ok f ∧
        (flatten { maxDepth := 3 } "p" Source.layered).run.value = .ok g ∧
        f.entries.keys = (["p.k", "p.a"] : List Text) ∧ f.rejected.toList = (["p.a.c d"] : List Text) ∧
        g.entries.keys = (["p.a.e.f.g", "p.k", "p.a"] : List Text) ∧
          g.rejected.toList = (["p.a.c d", "p.a.e.h i"] : List Text) := by
  have hle : (1 : Nat) ≤ 3 := by decide
  have hlen : Source.layered.length ≤ ({} : Limits).maxContentLength := by decide +kernel
  obtain ⟨hcapped, -, hshort⟩ := flatten_capped {} "p" Source.layered hle
  obtain ⟨f, g, hf, hg, hf', hg', -⟩ := hshort hlen
  refine ⟨hle, hlen, ⟨hcapped, ?_⟩, f, g, hf, hg, ?_⟩
  · decide +kernel
  · subst hf' hg'
    refine ⟨?_, ?_, ?_, ?_⟩
    all_goals decide +kernel

end MessageCatalog.Literal
