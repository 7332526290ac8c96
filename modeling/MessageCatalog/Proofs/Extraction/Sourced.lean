/-
  MessageCatalog.Proofs.Extraction.Sourced — the source that texts come from.

  A rule reads texts off nodes, a pass off lines, regions and what recognizers cut out of
  them. All of these are pieces of the source, and what is denoted by a literal in a piece
  comes from the piece. So whichever way a text gets into a collection, each of its code
  points stands in the source, is a Unicode character or is a surrogate that an escape in
  the source names.

  Proved: with any faithful parser, all texts and the plugin that are extracted from a
  source come from it (`extract_sourced`).
-/

import MessageCatalog.Proofs.Extraction.Regions
import MessageCatalog.Proofs.Literal.Surrogates
import MessageCatalog.Proofs.TypeScript.Pieces

namespace MessageCatalog.Extraction

open Literal (AllHeld)
open TypeScript (Node)

/-! ## The invariant -/

/-- It is the file's, and its texts and its plugin come from the source. -/
structure Collection.Sourced (path source : Text) (c : Collection) : Prop where
  file : c.file = path
  texts : ∀ e ∈ c.keys.entries, AllHeld source e.2
  plugin : ∀ id ∈ c.plugin, AllHeld source id

namespace Collection

variable {path source : Text} {c : Collection}

theorem init_sourced (path source : Text) (limits : Limits) : Sourced path source { file := path, limits } :=
  ⟨rfl, fun _ he => absurd he List.not_mem_nil, fun _ hid => by cases hid⟩

theorem add_sourced (hs : c.Sourced path source) (k : Text) {v : Text} (hv : AllHeld source v) :
    (c.add k v).Sourced path source := by
  rw [add]
  split
  · exact { hs with texts := Table.forall_value_insert hs.texts k hv }
  · exact { hs with }

theorem setPlugin_sourced (hs : c.Sourced path source) {id : Option Text} (hid : ∀ i ∈ id, AllHeld source i) :
    (c.setPlugin id).Sourced path source := by
  unfold setPlugin
  split
  · exact { hs with plugin := hid }
  · exact hs

theorem addLiteral_sourced (hs : c.Sourced path source) {literal : Text} (hliteral : literal <:+: source)
    (base : Text) : (c.addLiteral literal base).value.Sourced path source := by
  rcases addLiteral_cases c literal base with ⟨f, hf, hc⟩ | ⟨ws, hc⟩
  · have htexts : ∀ e ∈ f.entries.entries, AllHeld source e.2 := fun e he =>
      (Literal.flatten_held hf e he).mono hliteral
    rw [hc]
    exact { hs with texts := Table.forall_value_insertAll hs.texts htexts }
  · rw [hc]
    exact { hs with }

theorem foldlM_sourced {α : Type} {f : Collection → α → Logged Collection} {xs : List α}
    (hf : ∀ c, c.Sourced path source → ∀ x ∈ xs, (f c x).value.Sourced path source) (hs : c.Sourced path source) :
    (xs.foldlM f c).value.Sourced path source := by
  rw [Logged.value_foldlM]
  exact List.foldlRecOn xs _ hs fun c hc x hx => hf c hc x hx

end Collection

open Collection

/-! ## Nodes -/

namespace Shape

variable {t : Text} {n m : Node}

theorem child?_cut {r : TypeScript.Role} (h : n.Cut t) (hm : n.child? r = some m) : m.Cut t :=
  h.child m (List.mem_of_find?_eq_some hm)

theorem childOfKind?_cut {k : TypeScript.Kind} (h : n.Cut t) (hm : n.childOfKind? k = some m) : m.Cut t :=
  h.child m (List.mem_of_find?_eq_some hm)

theorem parts_cut (h : n.Cut t) : ∀ m ∈ n.parts, m.Cut t := fun m hm => h.child m (List.mem_filter.1 hm).1

mutual

theorem unwrap_cut {n m : Node} (h : n.Cut t) (hm : unwrap n = some m) : m.Cut t := by
  obtain ⟨k, r, s, cs⟩ := n
  rw [unwrap] at hm
  split at hm
  · split at hm
    · exact unwrapLast_cut h.child hm
    · exact unwrapFirst_cut h.child hm
  · cases hm
    exact h

theorem unwrapFirst_cut {ns : List Node} {m : Node} (h : ∀ n ∈ ns, n.Cut t) (hm : unwrapFirst ns = some m) :
    m.Cut t := by
  cases ns with
  | nil => cases hm
  | cons n ns =>
    obtain ⟨hn, hns⟩ := List.forall_mem_cons.1 h
    rw [unwrapFirst] at hm
    split at hm
    · exact unwrapFirst_cut hns hm
    · exact unwrap_cut hn hm

theorem unwrapLast_cut {ns : List Node} {m : Node} (h : ∀ n ∈ ns, n.Cut t) (hm : unwrapLast ns = some m) :
    m.Cut t := by
  cases ns with
  | nil => cases hm
  | cons n ns =>
    obtain ⟨hn, hns⟩ := List.forall_mem_cons.1 h
    rw [unwrapLast] at hm
    split at hm
    · split at hm
      · cases hm
      · exact unwrap_cut hn hm
    · exact unwrapLast_cut hns hm

end

/-- What a literal denotes comes from the text that its node is a piece of. -/
theorem stringValue_held (h : n.Cut t) : ∀ v ∈ stringValue n, AllHeld t v := by
  intro v hv
  obtain ⟨m, hm, hv⟩ := Option.bind_eq_some_iff.1 hv
  have hpiece := (unwrap_cut h hm).text_piece
  split at hv
  · exact (Literal.unquote_held hv).mono hpiece
  · split at hv
    · cases hv
    · exact (Literal.unquote_held hv).mono hpiece
  · cases hv

theorem pairs_cut (h : n.Cut t) : ∀ p ∈ pairs n, p.2.Cut t := by
  intro p hp
  obtain ⟨pair, hpair, hp⟩ := List.mem_filterMap.1 hp
  obtain ⟨v, hv, rfl⟩ := Option.map_eq_some_iff.1 hp
  exact child?_cut (h.child pair (List.mem_filter.1 hpair).1) hv

theorem property?_cut {name : Text} (h : n.Cut t) (hm : property? n name = some m) : m.Cut t := by
  obtain ⟨p, hp, rfl⟩ := Option.map_eq_some_iff.1 hm
  exact pairs_cut h p (List.mem_of_find?_eq_some hp)

theorem asObject_cut (h : n.Cut t) (hm : asObject n = some m) : m.Cut t :=
  unwrap_cut h (Option.filter_eq_some_iff.1 hm).1

theorem objectProperty?_cut {name : Text} (h : n.Cut t) (hm : objectProperty? n name = some m) : m.Cut t := by
  obtain ⟨p, hp, hm⟩ := Option.bind_eq_some_iff.1 hm
  exact asObject_cut (property?_cut h hp) hm

theorem textProperty?_held {name : Text} (h : n.Cut t) : ∀ v ∈ textProperty? n name, AllHeld t v := by
  intro v hv
  obtain ⟨p, hp, hv⟩ := Option.bind_eq_some_iff.1 hv
  exact stringValue_held (property?_cut h hp) v hv

theorem arguments_cut (h : n.Cut t) : ∀ m ∈ arguments n, m.Cut t := by
  unfold arguments
  split
  · rename_i a ha
    split
    · exact parts_cut (child?_cut h ha)
    · exact fun m hm => absurd hm List.not_mem_nil
  · exact fun m hm => absurd hm List.not_mem_nil

theorem firstObject?_cut (h : n.Cut t) (hm : firstObject? n = some m) : m.Cut t := by
  obtain ⟨a, ha, hm⟩ := Option.bind_eq_some_iff.1 hm
  exact asObject_cut (arguments_cut h a (List.mem_of_mem_head? ha)) hm

theorem literalType?_held (h : n.Cut t) : ∀ v ∈ literalType? n, AllHeld t v := by
  intro v hv
  obtain ⟨s, hs, hv⟩ := Option.bind_eq_some_iff.1 hv
  obtain ⟨l, hl, hs⟩ := Option.bind_eq_some_iff.1 hs
  have hinner := (Option.filter_eq_some_iff.1 hl).1
  have hl : l.Cut t := by
    split at hinner
    · exact h.child l (List.mem_of_mem_head? hinner)
    · cases hinner
      exact h
  exact stringValue_held (childOfKind?_cut hl hs) v hv

end Shape

/-! ## Rules -/

namespace KeyRule

variable {path source : Text} {c : Collection} {n : Node}

theorem gatherProperty_sourced (k : CallKind) (hn : n.Cut source) (hs : c.Sourced path source) :
    (gatherProperty k n c).value.Sourced path source := by
  rw [gatherProperty]
  split
  · rename_i literal hliteral
    obtain ⟨o, ho, hliteral⟩ := Option.bind_eq_some_iff.1 hliteral
    exact addLiteral_sourced hs (Shape.objectProperty?_cut (Shape.firstObject?_cut hn ho) hliteral).text_piece []
  · exact hs

theorem gatherDefinition_sourced (hn : n.Cut source) (hs : c.Sourced path source) :
    (gatherDefinition n c).value.Sourced path source := by
  refine gatherProperty_sourced .definition hn (setPlugin_sourced hs fun id hid => ?_)
  obtain ⟨o, ho, hid⟩ := Option.bind_eq_some_iff.1 hid
  exact Shape.textProperty?_held (Shape.firstObject?_cut hn ho) id hid

theorem addDescriptor_sourced (hs : c.Sourced path source) {p : Option Text × Node} (hp : p.2.Cut source) :
    (addDescriptor c p).Sourced path source := by
  rw [addDescriptor]
  split
  · rename_i name text _ htext
    obtain ⟨o, ho, htext⟩ := Option.bind_eq_some_iff.1 htext
    obtain ⟨field, -, htext⟩ := List.exists_of_findSome?_eq_some htext
    exact add_sourced hs name (Shape.textProperty?_held (Shape.asObject_cut hp ho) text htext)
  · exact hs

theorem gatherDescriptors_sourced (hn : n.Cut source) (hs : c.Sourced path source) :
    (gatherDescriptors n c).value.Sourced path source := by
  refine List.foldlRecOn _ _ hs fun c hc p hp => addDescriptor_sourced hc ?_
  cases ho : Shape.firstObject? n with
  | none =>
    rw [ho] at hp
    cases hp
  | some o =>
    rw [ho] at hp
    exact Shape.pairs_cut (Shape.firstObject?_cut hn ho) p hp

theorem messagesObject?_cut {d o : Node} (hd : d.Cut source) (ho : messagesObject? d = some o) : o.Cut source := by
  unfold messagesObject? at ho
  split at ho
  · split at ho
    · obtain ⟨v, hv, ho⟩ := Option.bind_eq_some_iff.1 ho
      exact Shape.asObject_cut (Shape.child?_cut hd hv) ho
    · cases ho
  · cases ho

theorem exportedDeclarators_cut (hn : n.Cut source) : ∀ d ∈ exportedDeclarators n, d.Cut source := by
  unfold exportedDeclarators
  split
  · rename_i d hd
    split
    · exact fun m hm => (Shape.child?_cut hn hd).child m (List.mem_filter.1 hm).1
    · exact fun m hm => absurd hm List.not_mem_nil
  · exact fun m hm => absurd hm List.not_mem_nil

theorem exportedMessages_sourced (hn : n.Cut source) (hs : c.Sourced path source) :
    (exportedMessages.gather n c).value.Sourced path source := by
  refine foldlM_sourced (fun c hc o ho => ?_) hs
  obtain ⟨d, hd, ho⟩ := List.mem_filterMap.1 ho
  exact addLiteral_sourced hc (messagesObject?_cut (exportedDeclarators_cut hn d hd) ho).text_piece []

theorem inlineKey?_held (hn : n.Cut source) : ∀ e ∈ inlineKey? n, AllHeld source e.2 := by
  intro e he
  have harguments := Shape.arguments_cut hn
  unfold inlineKey? at he
  split at he
  · cases he
  · rename_i k rest hk
    rw [hk] at harguments
    obtain ⟨hfirst, hrest⟩ := List.forall_mem_cons.1 harguments
    obtain ⟨key, hkey, rfl⟩ := Option.map_eq_some_iff.1 he
    cases hv : rest.head?.bind Shape.stringValue with
    | none => exact Shape.stringValue_held hfirst key hkey
    | some v =>
      obtain ⟨m, hm, hv⟩ := Option.bind_eq_some_iff.1 hv
      exact Shape.stringValue_held (hrest m (List.mem_of_mem_head? hm)) v hv

theorem inlineCall_sourced (hn : n.Cut source) (hs : c.Sourced path source) :
    (inlineCall.gather n c).value.Sourced path source := by
  have hheld := inlineKey?_held hn
  show Sourced path source ((inlineKey? n).elim c _)
  cases he : inlineKey? n with
  | none => exact hs
  | some e => exact add_sourced hs e.1 (hheld e he)

theorem attributeText?_held {value : Node} (hv : value.Cut source) :
    ∀ v ∈ attributeText? value, AllHeld source v := by
  intro v h
  unfold attributeText? at h
  split at h
  · have hbody : (value.text.drop 1).dropLast <:+: value.text :=
      (List.dropLast_prefix _).isInfix.trans (List.drop_suffix _ _).isInfix
    cases h
    exact Literal.held_of_piece (hbody.trans hv.text_piece)
  · split at h
    · rename_i inner hparts
      have hinner := Shape.parts_cut hv
      rw [hparts] at hinner
      exact Shape.stringValue_held (hinner inner List.mem_cons_self) v h
    · cases h
  · cases h

theorem elementKey?_held {attr : Node} (ha : attr.Cut source) : ∀ v ∈ elementKey? attr, AllHeld source v := by
  intro v h
  have hchildren := ha.child
  unfold elementKey? at h
  split at h
  · rename_i name value rest hcs
    rw [hcs] at hchildren
    split at h
    · exact attributeText?_held (hchildren _ (List.mem_cons_of_mem name (List.getLast_mem _))) v h
    · cases h
  · cases h

theorem translatedElement_sourced (hn : n.Cut source) (hs : c.Sourced path source) :
    (translatedElement.gather n c).value.Sourced path source := by
  refine List.foldlRecOn _ _ hs fun c hc k hk => add_sourced hc k ?_
  obtain ⟨attr, hattr, hk⟩ := List.mem_filterMap.1 hk
  exact elementKey?_held (hn.child attr hattr) k hk

theorem typedKeys?_cut {p : Node × Node} (hn : n.Cut source) (hp : typedKeys? n = some p) :
    p.1.Cut source ∧ p.2.Cut source := by
  obtain ⟨ty, hty, hp⟩ := Option.bind_eq_some_iff.1 hp
  obtain ⟨declared, hdeclared, hp⟩ := Option.bind_eq_some_iff.1 hp
  have hd := (Shape.child?_cut hn hty).child declared (List.mem_of_mem_head? hdeclared)
  have hcut (args : Node) (h : (declared.child? .typeArguments <|> declared.childOfKind? .typeArguments) = some args) :
      args.Cut source := by
    cases hrole : declared.child? .typeArguments with
    | some m =>
      rw [hrole] at h
      exact Shape.child?_cut hd (hrole.trans h)
    | none =>
      rw [hrole] at h
      exact Shape.childOfKind?_cut hd h
  split at hp
  · obtain ⟨name, -, hp⟩ := Option.bind_eq_some_iff.1 hp
    split at hp
    · obtain ⟨args, hargs, hp⟩ := Option.bind_eq_some_iff.1 hp
      have hparts := Shape.parts_cut (hcut args hargs)
      split at hp
      · rename_i plugin record hpair
        cases hp
        rw [hpair] at hparts
        exact ⟨hparts plugin (by simp), hparts record (by simp)⟩
      · cases hp
    · cases hp
  · cases hp

theorem typedKey?_held {m : Node} (hm : m.Cut source) : ∀ e ∈ typedKey? m, AllHeld source e.2 := by
  intro e he
  unfold typedKey? at he
  split at he
  · obtain ⟨name, -, he⟩ := Option.bind_eq_some_iff.1 he
    obtain ⟨key, -, he⟩ := Option.bind_eq_some_iff.1 he
    obtain ⟨ty, hty, he⟩ := Option.bind_eq_some_iff.1 he
    obtain ⟨value, hvalue, he⟩ := Option.bind_eq_some_iff.1 he
    cases he
    exact Shape.literalType?_held (Shape.child?_cut hm hty) value hvalue
  · cases he

theorem typeDeclaration_sourced (hn : n.Cut source) (hs : c.Sourced path source) :
    (typeDeclaration.gather n c).value.Sourced path source := by
  show Sourced path source ((typedKeys? n).elim c _)
  cases hp : typedKeys? n with
  | none => exact hs
  | some p =>
    obtain ⟨hplugin, hrecord⟩ := typedKeys?_cut hn hp
    have hnamed := setPlugin_sourced hs (Shape.literalType?_held hplugin)
    show Sourced path source (if p.2.kind = .objectType then _ else _)
    split
    · refine List.foldlRecOn _ _ hnamed fun c hc e he => ?_
      obtain ⟨m, hm, he⟩ := List.mem_filterMap.1 he
      exact add_sourced hc e.1 (typedKey?_held (hrecord.child m hm) e he)
    · exact hnamed

theorem gather_sourced {r : KeyRule} (hr : r ∈ all) (hn : n.Cut source) (hs : c.Sourced path source) :
    (r.gather n c).value.Sourced path source := by
  simp only [all, List.mem_cons, List.not_mem_nil, or_false] at hr
  rcases hr with rfl | rfl | rfl | rfl | rfl | rfl | rfl | rfl
  · exact gatherDefinition_sourced hn hs
  · exact gatherProperty_sourced .resource hn hs
  · exact gatherProperty_sourced .override hn hs
  · exact gatherDescriptors_sourced hn hs
  · exact exportedMessages_sourced hn hs
  · exact inlineCall_sourced hn hs
  · exact translatedElement_sourced hn hs
  · exact typeDeclaration_sourced hn hs

end KeyRule

theorem gatherNode_sourced {path source : Text} {c : Collection} (hs : c.Sourced path source) {n : Node}
    (hn : n.Cut source) : (gatherNode c n).value.Sourced path source := by
  refine foldlM_sourced (fun c hc r hr => KeyRule.gather_sourced ?_ hn hc) hs
  rw [KeyRule.forKind_filter] at hr
  exact (List.mem_filter.1 hr).1

theorem gatherTree_sourced {path source : Text} {c : Collection} (hs : c.Sourced path source) {root : Node}
    (hroot : root.Cut source) : (gatherTree c root).value.Sourced path source :=
  have hnodes := TypeScript.walk_cut (List.forall_mem_singleton.2 hroot)
  foldlM_sourced (fun _ hc n hn => gatherNode_sourced hc (hnodes n hn)) hs

/-! ## Lines -/

namespace LineScan

open Anchor

theorem lines_piece (t : Text) : ∀ l ∈ Text.lines t, l <:+: t := by
  have hcons : ∀ {line r t : Text} {ls : List Text}, r <:+ t → (∀ l ∈ ls, l <:+: r) →
      ∀ l ∈ line :: ls, l <:+: line ++ t :=
    fun hr hls => List.forall_mem_cons.2
      ⟨(List.prefix_append _ _).isInfix, fun l hl => (hls l hl).trans (hr.trans (List.suffix_append _ _)).isInfix⟩
  have hlast : ∀ line t : Text, ∀ l ∈ [line], l <:+: line ++ t := fun _ t =>
    List.forall_mem_singleton.2 (List.prefix_append _ t).isInfix
  have hgo : ∀ line t : Text, ∀ l ∈ Text.lines.go line t, l <:+: line.reverse ++ t := by
    intro line t
    fun_induction Text.lines.go line t with
    | case1 => exact fun l hl => absurd hl List.not_mem_nil
    | case2 | case3 => exact hlast _ _
    | case4 line c _ d s _ ih => exact hcons ((List.suffix_cons d s).trans (List.suffix_cons c _)) ih
    | case5 line c _ d s _ ih => exact hcons (List.suffix_cons c _) ih
    | case6 line c r _ _ ih => exact hcons (List.suffix_cons c r) ih
    | case7 line c r _ _ ih => simpa using ih
  exact hgo [] t

theorem quoted_piece {most : Nat} {t body r : Text} (h : quoted most t = some (body, r)) : body <:+: t ∧ r <:+ t := by
  obtain ⟨q, -, rfl⟩ := quoted_split h
  exact ⟨⟨[q], q :: r, by simp⟩, ⟨q :: (body ++ [q]), by simp⟩⟩

theorem inlineCallee_suffix {before : Option Code} {t r : Text} (h : inlineCallee before t = some r) : r <:+ t := by
  simp only [inlineCallee, Option.orElse_eq_orElse, Option.orElse_eq_or, Option.or_eq_some_iff] at h
  rcases h with h | ⟨-, h | ⟨-, h⟩⟩
  · split at h
    · cases h
    · exact dropStart_suffix h
  · obtain ⟨s, hs, h⟩ := Option.bind_eq_some_iff.1 h
    obtain ⟨w, hw, hs⟩ := Option.bind_eq_some_iff.1 hs
    exact (dropStart_suffix h).trans ((spaced_suffix hs).trans (word_suffix hw))
  · obtain ⟨u, hu, h⟩ := Option.bind_eq_some_iff.1 h
    obtain ⟨s, hs, hu⟩ := Option.bind_eq_some_iff.1 hu
    obtain ⟨w, hw, hs⟩ := Option.bind_eq_some_iff.1 hs
    obtain ⟨v, hv, h⟩ := Option.bind_eq_some_iff.1 h
    have hcall := (dropStart_suffix hu).trans ((spaced_suffix hs).trans (word_suffix hw))
    exact (dropStart_suffix h).trans ((spaced_suffix hv).trans hcall)

theorem inlineCall_piece {before : Option Code} {t r key : Text} {value : Option Text}
    (h : inlineCall before t = some ((key, value), r)) : r <:+ t ∧ key <:+: t ∧ ∀ v ∈ value, v <:+: t := by
  obtain ⟨s, hs, h⟩ := Option.bind_eq_some_iff.1 h
  obtain ⟨u, hu, h⟩ := Option.bind_eq_some_iff.1 h
  obtain ⟨⟨k, w⟩, hk, h⟩ := Option.bind_eq_some_iff.1 h
  have hstring := (spaced_suffix hu).trans (inlineCallee_suffix hs)
  obtain ⟨hkey, hw⟩ := quoted_piece hk
  have hbehind := hw.trans hstring
  dsimp only at h
  split at h
  · rename_i v x hv
    cases h
    obtain ⟨y, hy, hv⟩ := Option.bind_eq_some_iff.1 hv
    obtain ⟨hvalue, hrest⟩ := quoted_piece hv
    have hargument := (spaced_suffix hy).trans hbehind
    refine ⟨hrest.trans hargument, hkey.trans hstring.isInfix, ?_⟩
    rintro _ ⟨⟩
    exact hvalue.trans hargument.isInfix
  · cases h
    exact ⟨hbehind, hkey.trans hstring.isInfix, fun _ hv => by cases hv⟩

theorem elementKey_piece {before : Option Code} {t r key : Text} (h : elementKey before t = some (key, r)) :
    key <:+: t := by
  obtain ⟨w, q, rfl, -⟩ := elementKey_split h
  exact ⟨("i18nKey" : Text) ++ (w ++ [q]), q :: r, by simp⟩

variable {path source : Text} {c : Collection}

theorem scanLine_sourced (hs : c.Sourced path source) {line : Text} (hline : line <:+: source) :
    (scanLine c line).Sourced path source := by
  have hcalls : ((findAll inlineCall none line).foldl (fun c f => c.add f.value.1 (f.value.2.getD f.value.1))
      c).Sourced path source := by
    refine List.foldlRecOn _ _ hs fun c hc f hf => add_sourced hc _ ?_
    obtain ⟨hstart, b, hfound⟩ := mem_findAll (fun h => (inlineCall_piece h).1) hf
    obtain ⟨-, hkey, hvalue⟩ := inlineCall_piece hfound
    have hpiece := hstart.isInfix.trans hline
    cases hv : f.value.2 with
    | none => exact Literal.held_of_piece (hkey.trans hpiece)
    | some v => exact Literal.held_of_piece ((hvalue v hv).trans hpiece)
  refine List.foldlRecOn _ _ hcalls fun c hc f hf => add_sourced hc _ ?_
  obtain ⟨hstart, b, hfound⟩ := mem_findAll elementKey_suffix hf
  exact Literal.held_of_piece ((elementKey_piece hfound).trans (hstart.isInfix.trans hline))

/-! ## Regions -/

theorem scratch_sourced (c : Collection) {literal : Text} (hliteral : literal <:+: source) :
    (scratch c literal).Sourced c.file source :=
  addLiteral_sourced (init_sourced c.file source c.limits) hliteral descriptorRoot

theorem describedNames_texts {p : Text → Prop} {entries : List (Text × Text)} (h : ∀ e ∈ entries, p e.2) :
    ∀ e ∈ describedNames entries, p e.2 := by
  have hfields : ∀ d ∈ (descriptors entries).entries, ∀ e ∈ d.2.entries, p e.2 := by
    refine List.foldlRecOn
      (motive := fun ds : Table Text (Table Text Text) => ∀ d ∈ ds.entries, ∀ e ∈ d.2.entries, p e.2)
      entries _ (fun _ hd => absurd hd List.not_mem_nil) fun ds hds e he => ?_
    have hold : ∀ name, ∀ f ∈ ((ds.get? name).getD .empty).entries, p f.2 := by
      intro name
      cases hd : ds.get? name with
      | none => exact fun _ hf => absurd hf List.not_mem_nil
      | some d => exact hds _ (Table.mem_of_get? hd)
    show ∀ d ∈ (if (!(descriptorField e.1).1.isEmpty && descriptorFields.contains (descriptorField e.1).2) = true
      then _ else ds).entries, ∀ e ∈ d.2.entries, p e.2
    split
    · refine Table.forall_value_insert (p := fun d : Table Text Text => ∀ e ∈ d.entries, p e.2) hds _ ?_
      exact Table.forall_value_insert (hold _) _ (h e he)
    · exact hds
  intro e he
  obtain ⟨d, hd, hmap⟩ := List.mem_filterMap.1 he
  obtain ⟨t, ht, rfl⟩ := Option.map_eq_some_iff.1 hmap
  obtain ⟨field, -, hget⟩ := List.exists_of_findSome?_eq_some ht
  exact hfields d hd (field, t) (Table.mem_of_get? hget)

theorem addDescriptors_sourced (hs : c.Sourced path source) {literal : Text} (hliteral : literal <:+: source) :
    (addDescriptors c literal).value.Sourced path source := by
  rw [addDescriptors_eq]
  exact { hs with
    texts := Table.forall_value_insertAll hs.texts (describedNames_texts (scratch_sourced c hliteral).texts) }

theorem addCall_sourced (hs : c.Sourced path source) {r : Region CallKind} (hr : r.literal <:+: source) :
    (addCall c r).value.Sourced path source := by
  have hplugin : (if r.anchor = .definition then
      c.setPlugin ((findFirst (fun b t => textProperty "id" b t) none r.literal.dropLast).map (·.1))
      else c).Sourced path source := by
    split
    · refine setPlugin_sourced hs fun id hid => ?_
      obtain ⟨⟨body, rest⟩, hfound, rfl⟩ := Option.map_eq_some_iff.1 hid
      obtain ⟨b, t, ht, hfound⟩ := findFirst_found hfound
      obtain ⟨v, hv, hbody⟩ := Option.bind_eq_some_iff.1 hfound
      have hpiece := ((property_suffix hv).trans ht).isInfix.trans (List.dropLast_prefix r.literal).isInfix
      exact Literal.held_of_piece ((quoted_piece hbody).1.trans (hpiece.trans hr))
    · exact hs
  simp only [addCall]
  split
  · exact addDescriptors_sourced hplugin hr
  · split
    · rename_i literal hliteral
      exact addLiteral_sourced hplugin ((propertyLiteral_piece hliteral).trans hr) []
    · exact hplugin

theorem scan_sourced (hs : c.Sourced path source) : (scan c source).value.Sourced path source := by
  have hcalls : (scanCalls c source).value.Sourced path source :=
    foldlM_sourced (fun _ hc r hr => addCall_sourced hc (callRegions_within _ source r hr).literal_piece) hs
  have hexports : (scanExports (scanCalls c source).value source).value.Sourced path source :=
    foldlM_sourced (fun _ hc r hr => addLiteral_sourced hc (exportRegions_within _ source r hr).literal_piece [])
      hcalls
  exact List.foldlRecOn _ _ hexports fun _ hc line hline => scanLine_sourced hc (lines_piece source line hline)

end LineScan

/-! ## Results -/

/-- It is the file's, and all texts and the plugin come from the source. -/
structure Extracted.Sourced (path source : Text) (x : Extracted) : Prop where
  file : x.file = path
  texts : ∀ e ∈ x.keys.entries, AllHeld source e.2
  plugin : ∀ id ∈ x.plugin, AllHeld source id

theorem result_sourced {path source : Text} {c : Collection} (hs : c.Sourced path source) (usedFallback : Bool) :
    (c.result usedFallback).Sourced path source :=
  ⟨hs.file, hs.texts, hs.plugin⟩

theorem extract_sourced {parser : TypeScript.Parser} (hparser : parser.Faithful) (limits : Limits)
    (path source : Text) : (extract limits path source parser).value.Sourced path source := by
  have hinit := init_sourced path source limits
  simp only [extract]
  split
  · have hscan := LineScan.scan_sourced hinit
    exact ⟨hscan.file, hscan.texts, hscan.plugin⟩
  · rename_i root hroot
    have hgathered := result_sourced (gatherTree_sourced hinit (hparser _ _ _ hroot)) false
    simp only [Logged.value_bind]
    split
    · exact hgathered
    · exact hgathered

end MessageCatalog.Extraction
