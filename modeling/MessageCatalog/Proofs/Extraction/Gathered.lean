/-
  MessageCatalog.Proofs.Extraction.Gathered — what a tree gives, rule by rule and node by
  node.

  A rule never looks at what was gathered before: what it does to a collection is what it
  records from the node alone, put on top (`Additive`). So a tree gives what its sites,
  the nodes with the rules that apply to them, give alone, one on top of the other.

  Proved: extraction from a tree is the plain program, and of its sites in document order
  the last one decides the text of a key, the first one its place, and the first that
  offers a plugin's name the plugin (`extract_sites`).
-/

import MessageCatalog.Proofs.Extraction.ValidKeys

namespace MessageCatalog.Extraction

open TypeScript (Node)

namespace Collection

/-! ## Collections on top of each other -/

/-- The same file with nothing gathered from it. -/
def fresh (c : Collection) : Collection := { file := c.file, limits := c.limits }

/-- What `d` has gathered, put on top. -/
def merge (c d : Collection) : Collection :=
  { c with
    keys := c.keys.insertAll d.keys.entries
    plugin := c.plugin.or d.plugin
    rejected := c.rejected.addAll d.rejected.toList
    warnings := c.warnings ++ d.warnings }

@[simp] theorem fresh_merge (c d : Collection) : (c.merge d).fresh = c.fresh := rfl

@[simp] theorem fresh_fresh (c : Collection) : c.fresh.fresh = c.fresh := rfl

theorem merge_fresh (c : Collection) : c.merge c.fresh = c := by
  have hplugin : c.plugin.or none = c.plugin := by simp
  have hwarnings : c.warnings ++ [] = c.warnings := List.append_nil _
  show { c with plugin := c.plugin.or none, warnings := c.warnings ++ [] } = c
  rw [hplugin, hwarnings]

theorem merge_assoc (c d e : Collection) : (c.merge d).merge e = c.merge (d.merge e) := by
  simp only [merge, Table.insertAll_insertAll, Distinct.addAll_addAll, Option.or_assoc, List.append_assoc]

/-! ## Additive steps -/

/-- What is done does not depend on what was gathered before, and comes on top of it. -/
def Additive (f : Collection → Collection) : Prop := ∀ c, f c = c.merge (f c.fresh)

theorem Additive.id : Additive fun c => c := fun c => (merge_fresh c).symm

theorem Additive.comp {f g : Collection → Collection} (hf : Additive f) (hg : Additive g) :
    Additive fun c => g (f c) := by
  intro c
  have hfc : (f c).fresh = c.fresh := by rw [hf c, fresh_merge]
  have hff : (f c.fresh).fresh = c.fresh := by rw [hf c.fresh, fresh_merge, fresh_fresh]
  show g (f c) = c.merge (g (f c.fresh))
  rw [hg (f c), hg (f c.fresh), hfc, hff, ← merge_assoc, ← hf c]

theorem Additive.foldl {α : Type} {f : Collection → α → Collection} {xs : List α}
    (hf : ∀ x ∈ xs, Additive fun c => f c x) : Additive fun c => xs.foldl f c := by
  induction xs with
  | nil => exact .id
  | cons x xs ih => exact (hf x (by simp)).comp (ih fun y hy => hf y (List.mem_cons_of_mem x hy))

/-- One step after another: what each does alone, one on top of the other. -/
theorem foldl_merge {α : Type} {f : Collection → α → Collection} {xs : List α}
    (hf : ∀ x ∈ xs, Additive fun c => f c x) (c : Collection) :
    xs.foldl f c = (xs.map fun x => f c.fresh x).foldl merge c := by
  induction xs generalizing c with
  | nil => rfl
  | cons x xs ih =>
    have hx : f c x = c.merge (f c.fresh x) := hf x (by simp) c
    rw [List.foldl_cons, ih (fun y hy => hf y (List.mem_cons_of_mem x hy)), hx, fresh_merge, List.map_cons,
      List.foldl_cons]

/-! ## Each operation is one -/

/-- With entries written, a plugin offered, keys rejected and warnings given. -/
def put (c : Collection) (es : List (Text × Text)) (plugin : Option Text) (ks ws : List Text) : Collection :=
  { c with
    keys := c.keys.insertAll es
    plugin := c.plugin.or plugin
    rejected := c.rejected.addAll ks
    warnings := c.warnings ++ ws }

theorem merge_put (c d : Collection) (es : List (Text × Text)) (plugin : Option Text) (ks ws : List Text) :
    c.merge (d.put es plugin ks ws) = (c.merge d).put es plugin ks ws := by
  simp only [merge, put, Table.insertAll_insertAll, Distinct.addAll_addAll, Option.or_assoc, List.append_assoc]

theorem put_nothing (c : Collection) : c.put [] none [] [] = c := merge_fresh c

/-- A step is additive if what it puts depends on the file and the limits alone. -/
theorem additive_put {f : Collection → Collection}
    (h : ∀ c : Collection, ∃ es plugin ks ws, ∀ d : Collection, d.fresh = c.fresh → f d = d.put es plugin ks ws) :
    Additive f := by
  intro c
  obtain ⟨es, plugin, ks, ws, hput⟩ := h c
  rw [hput c rfl, hput c.fresh rfl, merge_put, merge_fresh]

theorem additive_add (k v : Text) : Additive fun c => c.add k v := by
  refine additive_put fun c => ?_
  by_cases hk : Key.isValid k = true
  · refine ⟨[(k, v)], none, [], [], fun d _ => ?_⟩
    simp [add, hk, put, Table.insertAll, Distinct.addAll]
  · refine ⟨[], none, [k], [], fun d _ => ?_⟩
    simp [add, hk, reject, put, Table.insertAll, Distinct.addAll]

def named (id : Option Text) : Option Text := id.filter fun n => !n.isEmpty

theorem setPlugin_put (c : Collection) (id : Option Text) : c.setPlugin id = c.put [] (named id) [] [] := by
  obtain ⟨file, limits, keys, plugin, rejected, warnings⟩ := c
  rcases plugin with _ | p
  · rcases id with _ | ⟨_ | ⟨x, xs⟩⟩ <;>
      simp [setPlugin, put, named, Table.insertAll, Distinct.addAll, Option.filter]
  · simp [setPlugin, put, Table.insertAll, Distinct.addAll]

theorem additive_setPlugin (id : Option Text) : Additive fun c => c.setPlugin id :=
  additive_put fun _ => ⟨[], named id, [], [], fun d _ => setPlugin_put d id⟩

theorem addLiteral_put (c : Collection) (literal base : Text) : ∃ es ks ws, ∀ d : Collection,
    d.fresh = c.fresh → (d.addLiteral literal base).value = d.put es none ks ws := by
  have hflatten : ∀ d : Collection, d.fresh = c.fresh →
      Literal.flatten d.limits base literal = Literal.flatten c.limits base literal := by
    intro d hd
    have hlimits : d.fresh.limits = c.fresh.limits := by rw [hd]
    exact congrArg (Literal.flatten · base literal) hlimits
  rcases hf : (Literal.flatten c.limits base literal).run.value with fault | f
  · rcases hr : fault.report? with _ | r
    · refine ⟨[], [], [], fun d hd => ?_⟩
      rw [addLiteral, Logged.value_bind, hflatten d hd, hf, put_nothing]
      simp only [hr]
      rfl
    · refine ⟨[], [], [r.message], fun d hd => ?_⟩
      rw [addLiteral, Logged.value_bind, hflatten d hd, hf]
      simp only [hr, Logged.value_bind, Logged.value_pure]
      simp [put, Table.insertAll, Distinct.addAll]
  · refine ⟨f.entries.entries, f.rejected.toList, [], fun d hd => ?_⟩
    rw [addLiteral, Logged.value_bind, hflatten d hd, hf]
    simp [put]

theorem additive_addLiteral (literal base : Text) : Additive fun c => (c.addLiteral literal base).value :=
  additive_put fun c => by
    obtain ⟨es, ks, ws, hput⟩ := addLiteral_put c literal base
    exact ⟨es, none, ks, ws, hput⟩

/-! ## Steps that offer no plugin -/

theorem plugin_add (c : Collection) (k v : Text) : (c.add k v).plugin = c.plugin := by
  unfold add
  split <;> rfl

theorem plugin_addLiteral (c : Collection) (literal base : Text) :
    (c.addLiteral literal base).value.plugin = c.plugin := by
  obtain ⟨es, ks, ws, hput⟩ := addLiteral_put c literal base
  rw [hput c rfl]
  exact Option.or_none

theorem plugin_setPlugin (c : Collection) (id : Option Text) : (c.setPlugin id).plugin = c.plugin.or (named id) := by
  rw [setPlugin_put]
  rfl

theorem plugin_foldl {α : Type} {f : Collection → α → Collection} (hf : ∀ c x, (f c x).plugin = c.plugin)
    (c : Collection) (xs : List α) : (xs.foldl f c).plugin = c.plugin := by
  induction xs generalizing c with
  | nil => rfl
  | cons x xs ih => rw [List.foldl_cons, ih, hf]

end Collection

open Collection

/-! ## Rules -/

namespace KeyRule

theorem additive_gatherProperty (k : CallKind) (n : Node) : Additive fun c => (gatherProperty k n c).value := by
  rcases h : (Shape.firstObject? n).bind fun o => Shape.objectProperty? o k.property with _ | literal
  · simp only [gatherProperty, h]
    exact .id
  · simp only [gatherProperty, h]
    exact additive_addLiteral literal.text []

theorem additive_addDescriptor (p : Option Text × Node) : Additive fun c => addDescriptor c p := by
  obtain ⟨name, value⟩ := p
  rcases name with _ | name
  · exact .id
  · rcases h : (Shape.asObject value).bind descriptorText with _ | text
    · simp only [addDescriptor, h]
      exact .id
    · simp only [addDescriptor, h]
      exact additive_add name text

theorem additive_typeDeclaration (n : Node) : Additive fun c => (typeDeclaration.gather n c).value := by
  rcases h : typedKeys? n with _ | ⟨plugin, record⟩
  · simp only [typeDeclaration, h]
    exact .id
  · by_cases hrecord : record.kind = .objectType
    · simp only [typeDeclaration, h, Option.elim_some, Logged.value_pure, if_pos hrecord]
      exact (additive_setPlugin _).comp (.foldl fun e _ => additive_add e.1 e.2)
    · simp only [typeDeclaration, h, Option.elim_some, Logged.value_pure, if_neg hrecord]
      exact additive_setPlugin _

/-- Every rule adds to what was gathered without looking at it. -/
theorem additive_gather {r : KeyRule} (hr : r ∈ all) (n : Node) : Additive fun c => (r.gather n c).value := by
  simp only [all, List.mem_cons, List.not_mem_nil, or_false] at hr
  rcases hr with rfl | rfl | rfl | rfl | rfl | rfl | rfl | rfl
  · exact (additive_setPlugin _).comp (additive_gatherProperty .definition n)
  · exact additive_gatherProperty .resource n
  · exact additive_gatherProperty .override n
  · exact .foldl fun p _ => additive_addDescriptor p
  · have hfold : Additive fun c => ((exportedDeclarators n).filterMap messagesObject?).foldl
        (fun c o => (c.addLiteral o.text).value) c := .foldl fun o _ => additive_addLiteral o.text []
    simpa only [exportedMessages, Logged.value_foldlM] using hfold
  · rcases h : inlineKey? n with _ | e
    · simp only [inlineCall, h]
      exact .id
    · simp only [inlineCall, h]
      exact additive_add e.1 e.2
  · exact .foldl fun k _ => additive_add k k
  · exact additive_typeDeclaration n

end KeyRule

/-! ## Sites -/

/-- A rule at a node that it applies to. -/
structure Site where
  rule : KeyRule
  node : Node

/-- The rules that apply to a node, in the order of the list. -/
def sitesAt (n : Node) : List Site := (KeyRule.all.filter (·.applies n)).map fun r => ⟨r, n⟩

/-- Every site of a tree, in the order of the text. -/
def sites (root : Node) : List Site := root.preorder.flatMap sitesAt

/-- What is recorded at a site alone. -/
def Site.alone (path : Text) (limits : Limits) (s : Site) : Collection :=
  (s.rule.gather s.node { file := path, limits }).value

theorem mem_sites {root : Node} {s : Site} (h : s ∈ sites root) : s.rule ∈ KeyRule.all := by
  obtain ⟨n, -, hn⟩ := List.mem_flatMap.1 h
  obtain ⟨r, hr, rfl⟩ := List.mem_map.1 hn
  exact (List.mem_filter.1 hr).1

theorem gatherNode_sites (c : Collection) (n : Node) :
    (gatherNode c n).value = (sitesAt n).foldl (fun c s => (s.rule.gather s.node c).value) c := by
  have hrules : (KeyRule.forKind n.kind).filter (·.test n) = KeyRule.all.filter (·.applies n) :=
    KeyRule.forKind_filter n
  rw [gatherNode, hrules, Logged.value_foldlM, sitesAt, List.foldl_map]

theorem gatherTree_sites (c : Collection) (root : Node) :
    (gatherTree c root).value = (sites root).foldl (fun c s => (s.rule.gather s.node c).value) c := by
  have hwalk : Node.walk [root] = root.preorder := by
    rw [walk_preorder, Node.preorderAll, Node.preorderAll, List.append_nil]
  rw [gatherTree, hwalk, Logged.value_foldlM, sites, List.foldl_flatMap]
  simp only [gatherNode_sites]

/-- A tree gives what its sites give alone, one on top of the other. -/
theorem gatherTree_alone (path : Text) (limits : Limits) (root : Node) :
    (gatherTree { file := path, limits } root).value =
      ((sites root).map (Site.alone path limits)).foldl merge { file := path, limits } := by
  rw [gatherTree_sites]
  exact foldl_merge (fun s hs => KeyRule.additive_gather (mem_sites hs) s.node) _

/-! ## Plugins -/

/-- The name that a node offers for the plugin: the `id` of a definition, or the first
argument of a declared type that carries its keys. -/
def offered (n : Node) : Option Text :=
  if KeyRule.definitionCall.applies n then (Shape.firstObject? n).bind fun o => Shape.textProperty? o "id"
  else if KeyRule.typeDeclaration.applies n then (KeyRule.typedKeys? n).bind fun p => Shape.literalType? p.1
  else none

namespace KeyRule

theorem plugin_gatherProperty (k : CallKind) (n : Node) (c : Collection) :
    (gatherProperty k n c).value.plugin = c.plugin := by
  unfold gatherProperty
  split
  · exact plugin_addLiteral _ _ _
  · rfl

theorem plugin_addDescriptor (c : Collection) (p : Option Text × Node) : (addDescriptor c p).plugin = c.plugin := by
  unfold addDescriptor
  split
  · exact plugin_add _ _ _
  · rfl

theorem plugin_definitionCall (n : Node) (c : Collection) : (definitionCall.gather n c).value.plugin =
    c.plugin.or (named ((Shape.firstObject? n).bind fun o => Shape.textProperty? o "id")) := by
  show (gatherProperty .definition n (c.setPlugin _)).value.plugin = _
  rw [plugin_gatherProperty, plugin_setPlugin]

theorem plugin_typeDeclaration (n : Node) (c : Collection) : (typeDeclaration.gather n c).value.plugin =
    c.plugin.or (named ((typedKeys? n).bind fun p => Shape.literalType? p.1)) := by
  rcases h : typedKeys? n with _ | ⟨plugin, record⟩
  · simp [typeDeclaration, h, named]
  · simp only [typeDeclaration, h, Option.elim_some, Logged.value_pure, Option.bind_some]
    rw [← plugin_setPlugin]
    split
    · exact plugin_foldl (fun c (e : Text × Text) => plugin_add c e.1 e.2) _ _
    · rfl

/-- The rules between the first and the last. -/
def nameless : List KeyRule :=
  [resourceCall, overrideCall, enumeratedCall, exportedMessages, inlineCall, translatedElement]

theorem plugin_nameless {r : KeyRule} (hr : r ∈ nameless) (n : Node) (c : Collection) :
    (r.gather n c).value.plugin = c.plugin := by
  simp only [nameless, List.mem_cons, List.not_mem_nil, or_false] at hr
  rcases hr with rfl | rfl | rfl | rfl | rfl | rfl
  · exact plugin_gatherProperty .resource n c
  · exact plugin_gatherProperty .override n c
  · exact plugin_foldl plugin_addDescriptor c _
  · simp only [exportedMessages, Logged.value_foldlM]
    exact plugin_foldl (fun c (o : Node) => plugin_addLiteral c o.text []) c _
  · rcases h : inlineKey? n with _ | e
    · simp [inlineCall, h]
    · simp only [inlineCall, h]
      exact plugin_add c e.1 e.2
  · exact plugin_foldl (fun c k => plugin_add c k k) c _

/-- No node is a call and a declaration. -/
theorem not_typeDeclaration {n : Node} (h : definitionCall.applies n = true) :
    typeDeclaration.applies n = false := by
  have hcall : n.kind = .call := by
    simp only [applies, definitionCall, Bool.and_eq_true] at h
    simpa using h.1
  simp [applies, typeDeclaration, hcall]

end KeyRule

open KeyRule

theorem findSome?_filter_cons {α β : Type} (p : α → Bool) (f : α → Option β) (x : α) (xs : List α) :
    ((x :: xs).filter p).findSome? f =
      (if p x then f x else none).or ((xs.filter p).findSome? f) := by
  by_cases hx : p x = true
  · rw [List.filter_cons_of_pos hx, if_pos hx, List.findSome?_cons]
    cases f x <;> rfl
  · rw [List.filter_cons_of_neg hx, if_neg hx, Option.none_or]

/-- The first plugin that is named at a node. -/
theorem plugin_sitesAt (path : Text) (limits : Limits) (n : Node) :
    (sitesAt n).findSome? (fun s => (s.alone path limits).plugin) = named (offered n) := by
  let plugin (r : KeyRule) : Option Text := (Site.alone path limits ⟨r, n⟩).plugin
  have hdefinition : plugin definitionCall = named _ := plugin_definitionCall n _
  have hdeclaration : plugin typeDeclaration = named _ := plugin_typeDeclaration n _
  have hmiddle : (nameless.filter (·.applies n)).findSome? plugin = none :=
    List.findSome?_eq_none_iff.2 fun r hr => plugin_nameless (List.mem_filter.1 hr).1 n _
  have hrules : (sitesAt n).findSome? (fun s => (s.alone path limits).plugin) =
      ((definitionCall :: (nameless ++ [typeDeclaration])).filter (·.applies n)).findSome? plugin := by
    rw [sitesAt, List.findSome?_map]
    rfl
  rw [hrules, findSome?_filter_cons, List.filter_append, List.findSome?_append, hmiddle, Option.none_or,
    findSome?_filter_cons, hdefinition, hdeclaration, offered]
  by_cases hd : definitionCall.applies n = true
  · simp [hd, not_typeDeclaration hd]
  · by_cases ht : typeDeclaration.applies n = true
    · simp [hd, ht]
    · simp [hd, ht, named]

theorem plugin_sites (path : Text) (limits : Limits) (root : Node) :
    (sites root).findSome? (fun s => (s.alone path limits).plugin) =
      root.preorder.findSome? fun n => named (offered n) := by
  rw [sites]
  induction root.preorder with
  | nil => rfl
  | cons n ns ih =>
    rw [List.flatMap_cons, List.findSome?_append, plugin_sitesAt, ih, List.findSome?_cons]
    cases named (offered n) <;> rfl

/-! ## All sites together -/

section

variable (ds : List Collection) (c : Collection)

theorem keys_merge : (ds.foldl merge c).keys = ds.foldl (fun t d => t.insertAll d.keys.entries) c.keys :=
  (List.foldl_hom Collection.keys fun _ _ => rfl).symm

theorem plugin_merge : (ds.foldl merge c).plugin = c.plugin.or (ds.findSome? (·.plugin)) := by
  induction ds generalizing c with
  | nil => exact Option.or_none.symm
  | cons d ds ih =>
    rw [List.foldl_cons, ih, List.findSome?_cons]
    show (c.plugin.or d.plugin).or _ = _
    rw [Option.or_assoc]
    cases d.plugin <;> rfl

theorem rejected_merge : (ds.foldl merge c).rejected = c.rejected.addAll (ds.flatMap fun d => d.rejected.toList) := by
  induction ds generalizing c with
  | nil => rfl
  | cons d ds ih => rw [List.foldl_cons, ih, List.flatMap_cons, Distinct.addAll_append]; rfl

theorem warnings_merge : (ds.foldl merge c).warnings = c.warnings ++ ds.flatMap (·.warnings) := by
  induction ds generalizing c with
  | nil => exact (List.append_nil _).symm
  | cons d ds ih => rw [List.foldl_cons, ih, List.flatMap_cons, ← List.append_assoc]; rfl

end

/-- What the result for a tree is made of. -/
structure FromSites (path : Text) (limits : Limits) (root : Node) (x : Extracted) : Prop where
  /-- It is that of the plain program. -/
  plain : x = (visit { file := path, limits } root).value.result
  /-- The text of a key is that of the last site with the key. -/
  texts : ∀ k, x.keys.get? k = (sites root).reverse.findSome? fun s => (s.alone path limits).keys.get? k
  /-- The keys stand in the order of the first sites that have them. -/
  order : x.keys.keys = dedup ((sites root).flatMap fun s => (s.alone path limits).keys.keys)
  /-- The plugin is the first that is offered by a name which is not empty. -/
  plugin : x.plugin = root.preorder.findSome? fun n => named (offered n)
  rejected : x.rejected = dedup ((sites root).flatMap fun s => (s.alone path limits).rejected.toList)
  warnings : x.warnings = (sites root).flatMap fun s => (s.alone path limits).warnings

theorem gatherTree_fromSites (path : Text) (limits : Limits) (root : Node) :
    FromSites path limits root (gatherTree { file := path, limits } root).value.result := by
  have htree := gatherTree_alone path limits root
  refine ⟨by rw [gatherTree_visit], fun k => ?_, ?_, ?_, ?_, ?_⟩
  · show (gatherTree _ root).value.keys.get? k = _
    rw [htree, keys_merge, List.foldl_map, Table.get?_foldl_insertAll]
    exact Option.or_none
  · have horder : (gatherTree { file := path, limits } root).value.keys.keySet =
        Distinct.ofList ((sites root).flatMap fun s => (s.alone path limits).keys.keys) := by
      rw [htree, keys_merge, List.foldl_map, Table.keySet_foldl_insertAll]
      rfl
    exact congrArg Distinct.toList horder
  · show (gatherTree _ root).value.plugin = _
    rw [htree, plugin_merge, List.findSome?_map]
    exact plugin_sites path limits root
  · show (gatherTree _ root).value.rejected.toList = _
    rw [htree, rejected_merge, List.flatMap_map]
    rfl
  · show (gatherTree _ root).value.warnings = _
    rw [htree, warnings_merge, List.flatMap_map]
    rfl

/-- Extraction from a tree is the plain program, whatever the tree: every node once, in the
order of the text, and at each every rule that applies, in the order of the list. So the
last site that has a key gives its text, the first one its place, and the first name that
is offered is the plugin's. -/
theorem extract_sites (path : Text) (limits : Limits) (root : Node) :
    gatherTree { file := path, limits } root = visit { file := path, limits } root ∧
      FromSites path limits root (gatherTree { file := path, limits } root).value.result ∧
      ∀ (parser : TypeScript.Parser) (source : Text), parser (allowsElements path) source = some root →
        FromSites path limits root (extract limits path source parser).value := by
  refine ⟨gatherTree_visit _ root, gatherTree_fromSites path limits root, fun parser source hroot => ?_⟩
  have hresult : (extract limits path source parser).value = (gatherTree { file := path, limits } root).value.result := by
    simp only [extract, hroot, Logged.value_bind]
    split <;> rfl
  rw [hresult]
  exact gatherTree_fromSites path limits root

end MessageCatalog.Extraction
