/-
The dump of a graph read back. Where names are words without commas the text tells how many values there are,
and of each its label, its kind, the spelling of its type, what it holds, and the labels of its operands
(`Graph.dump_determines`).
-/
import Lanewise.Proofs.Graph.Line
import Lanewise.Proofs.Graph.Soundness
import Lanewise.Proofs.Graph.Types

namespace Lanewise

open Text

/-! ## What a right-hand side tells -/

/-- The kind that the first words of a line tell together with the type: a constant of neither an integer nor a
floating point type is an aggregate. -/
def Stem.kind (type : TypeTree) : Stem → Kind
  | .constant =>
    match type with
    | .int _ => .constantInt
    | .float _ => .constantFloat
    | _ => .constantAggregate
  | .expr _ => .constantExpr
  | .undef => .undef
  | .argument => .argument
  | .op _ | .call _ => .instruction

/-- Payloads are printed alike: floating point literals when their texts are the same, and all others when they
are the same themselves. -/
def Payload.PrintedAlike : Payload → Payload → Prop
  | .float a, .float b => a.toDouble.display = b.toDouble.display
  | a, b => a = b

theorem Content.printedAlike_of_rest {c c' : Content} {labels labels' : List String}
    (hl : ∀ l ∈ labels, IsItem l.toList) (hl' : ∀ l ∈ labels', IsItem l.toList)
    (hn : labels.length = c.operands.size) (hn' : labels'.length = c'.operands.size) (hk : c.kind = c'.kind)
    (hs : c.stem = c'.stem) (hr : c.rest (", ".intercalate labels) = c'.rest (", ".intercalate labels')) :
    c.payload.PrintedAlike c'.payload ∧ labels = labels' := by
  have hleaf : c.operands = #[] → c'.operands = #[] → labels = labels' := fun he he' => by
    rw [List.eq_nil_of_length_eq_zero (hn.trans (by rw [he]; rfl)),
      List.eq_nil_of_length_eq_zero (hn'.trans (by rw [he']; rfl))]
  have hlist : (", ".intercalate labels).toList = (", ".intercalate labels').toList → labels = labels' := fun h =>
    intercalate_comma_inj hl hl' (String.toList_inj.1 h)
  cases c with
  | int value =>
    cases c' with
    | int value' => exact ⟨congrArg Payload.int (toString_toInt_inj (String.toList_inj.1 hr)), hleaf rfl rfl⟩
    | _ => cases hk
  | float literal =>
    cases c' with
    | float literal' => exact ⟨String.toList_inj.1 hr, hleaf rfl rfl⟩
    | _ => cases hk
  | aggregate elements =>
    cases c' with
    | aggregate elements' => exact ⟨rfl, hlist hr⟩
    | _ => cases hk
  | expr opcode operands =>
    cases c' with
    | expr opcode' operands' =>
      cases hs
      exact ⟨rfl, hlist hr⟩
    | _ => cases hk
  | undef | argument =>
    cases c' with
    | undef | argument => exact ⟨rfl, hleaf rfl rfl⟩
    | _ => cases hk
  | op opcode operands =>
    cases c' with
    | op opcode' operands' =>
      cases hs
      exact ⟨rfl, hlist hr⟩
    | _ => cases hs
  | call callee arguments =>
    cases c' with
    | call callee' arguments' =>
      cases hs
      exact ⟨rfl, hlist hr⟩
    | _ => cases hs

namespace Graph

variable {g g' : Graph} {v : ValueId} {node node' : Node} {line : String}

/-- In a graph made by building the first words and the type tell the kind. -/
theorem WF.kind_stem (h : g.WF) {type : TypeTree} (hn : g.node? v = some node)
    (ht : g.types.tree? node.type = some type) : node.content.stem.kind type = node.content.kind := by
  have hfit := h.fits v node hn
  rw [TypeTable.tree?_eq h.types] at ht
  obtain ⟨name, t, content⟩ := node
  cases content with
  | int value =>
    obtain ⟨bits, hf, -⟩ := hfit
    rw [hf] at ht
    cases ht
    rfl
  | float literal =>
    rw [show g.types.form? t = some (.float literal.precision) from hfit] at ht
    cases ht
    rfl
  | aggregate elements =>
    obtain ⟨form, hf, he⟩ := hfit
    have ha := he.isAggregate
    rw [hf, Option.bind_some] at ht
    cases form with
    | vector | array | struct =>
      obtain ⟨_, -, rfl⟩ := Option.map_eq_some_iff.1 ht
      rfl
    | _ => cases ha
  | _ => rfl

/-! ## Labels -/

/-- No name of a value has a blank or a comma. -/
def PlainNames (g : Graph) : Prop :=
  ∀ v node, g.node? v = some node → Solid node.name.toList ∧ ',' ∉ node.name.toList

theorem plainNames_iff : g.PlainNames ↔ ∀ node ∈ g.nodes.toList, Solid node.name.toList ∧ ',' ∉ node.name.toList := by
  constructor
  · intro h node hn
    obtain ⟨i, hi⟩ := List.mem_iff_getElem?.1 hn
    exact h ⟨i⟩ node (by rw [node?, ← Array.getElem?_toList, hi])
  · intro h v node hn
    rw [node?, ← Array.getElem?_toList] at hn
    exact h node (List.mem_of_getElem? hn)

instance : Decidable g.PlainNames :=
  decidable_of_iff _ plainNames_iff.symm

theorem PlainNames.label_isItem (hp : g.PlainNames) (hn : g.node? v = some node) : IsItem (node.label v).toList := by
  obtain ⟨hs, hc⟩ := hp v node hn
  have hdigits : Solid (Nat.toDigits 10 v.index) ∧ ',' ∉ Nat.toDigits 10 v.index :=
    ⟨solid_toDigits _, fun hm => absurd (isDigit_of_mem_decimal hm) (by decide)⟩
  rw [Node.label]
  split
  · rw [String.toList_append, Nat.toString_eq_repr, Nat.toList_repr]
    exact ⟨by simp, solid_append.2 ⟨by decide, hdigits.1⟩, by simpa using hdigits.2⟩
  · rw [String.toList_append]
    exact ⟨by simp, solid_append.2 ⟨by decide, hs⟩, by simpa using hc⟩

theorem Labels.label_eq {label : String} (h : g.Labels v label) : g.label v = .ok label := by
  obtain ⟨node, hn, rfl⟩ := h
  rw [Graph.label, node_eq_ok_iff.2 hn]
  rfl

theorem mapM_label {vs : List ValueId} {labels : List String} (h : List.Forall₂ g.Labels vs labels) :
    vs.mapM g.label = .ok labels := by
  induction h with
  | nil => rfl
  | cons hl _ ih =>
    rw [List.mapM_cons, hl.label_eq, ih]
    rfl

/-! ## Lines -/

/-- A line of the dump taken apart: the node it is of, and the type and the operand labels it shows. -/
structure Shows (g : Graph) (v : ValueId) (line : String) (node : Node) (type : TypeTree) (labels : List String) :
    Prop where
  found : g.node? v = some node
  unfolds : g.types.tree? node.type = some type
  labelled : List.Forall₂ g.Labels node.content.operands.toList labels
  text : line.toList = (node.label v).toList ++ ' ' :: '=' :: ' ' ::
    (node.content.bodyChars type.spelling (", ".intercalate labels) ++ ['\n'])

theorem PlainNames.labels_isItem (hp : g.PlainNames) {vs : List ValueId} {labels : List String}
    (h : List.Forall₂ g.Labels vs labels) : ∀ l ∈ labels, IsItem l.toList := by
  induction h with
  | nil => exact List.forall_mem_nil _
  | cons hl _ ih =>
    obtain ⟨node, hn, rfl⟩ := hl
    exact List.forall_mem_cons.2 ⟨hp.label_isItem hn, ih⟩

theorem WF.exists_shows (h : g.WF) (hp : g.PlainNames) (hl : g.Prints v line) :
    ∃ node type labels, g.Shows v line node type labels := by
  obtain ⟨node, labels, body, hn, hls, hb, rfl⟩ := hl
  obtain ⟨type, ht⟩ := Option.isSome_iff_exists.1
    (TypeTable.tree?_isSome h.types (h.sound hn).type.lt)
  rw [typeName, TypeTable.name_of_tree? ht] at hb
  refine ⟨node, type, labels, hn, ht, hls, ?_⟩
  -- trimming takes off just what stands after the right-hand side
  obtain ⟨blanks, hd, hblanks⟩ := Content.toList_describe? hb
  have hends := Content.bodyChars_endsSolid type (Content.rest_ends (hp.labels_isItem hls) node.content).1
  rw [String.toList_append, String.toList_append, String.toList_append,
    toList_trimEnd_of_endsSolid hd hblanks hends]
  simp

theorem Shows.isLine {type : TypeTree} {labels : List String} (hp : g.PlainNames)
    (h : g.Shows v line node type labels) : IsLine line := by
  have hlabel : '\n' ∉ (node.label v).toList := (hp.label_isItem h.found).solid.notMem (by decide)
  have hbody := Content.newline_notMem_bodyChars type (Content.rest_ends (hp.labels_isItem h.labelled) node.content).2
  refine ⟨(node.label v).toList ++ ' ' :: '=' :: ' ' ::
    node.content.bodyChars type.spelling (", ".intercalate labels), by simp [hlabel, hbody], ?_⟩
  rw [h.text]
  simp

/-- Nodes are shown alike, each in its graph. -/
structure ShownAlike (g g' : Graph) (v : ValueId) (node node' : Node) : Prop where
  label : node.label v = node'.label v
  kind : node.content.kind = node'.content.kind
  type : g.typeName node.type = g'.typeName node'.type
  payload : node.content.payload.PrintedAlike node'.content.payload
  operands : ∃ labels, node.content.operands.toList.mapM g.label = .ok labels ∧
    node'.content.operands.toList.mapM g'.label = .ok labels

theorem Shows.shownAlike {type type' : TypeTree} {labels labels' : List String} (hw : g.WF) (hw' : g'.WF)
    (hp : g.PlainNames) (hp' : g'.PlainNames) (h : g.Shows v line node type labels)
    (h' : g'.Shows v line node' type' labels') : g.ShownAlike g' v node node' := by
  have hblank : ' ' ∉ (node.label v).toList := (hp.label_isItem h.found).solid.notMem (by decide)
  have hblank' : ' ' ∉ (node'.label v).toList := (hp'.label_isItem h'.found).solid.notMem (by decide)
  -- the label ends at the first blank, and the rest of the line tells the words, the type and what follows it
  obtain ⟨hlabel, hbody⟩ := cut_inj hblank hblank' (h.text.symm.trans h'.text)
  simp only [List.cons.injEq, true_and, List.append_cancel_right_eq] at hbody
  obtain ⟨hstem, rfl, hrest⟩ := Stem.chars_append_inj hbody
  have hkind : node.content.kind = node'.content.kind := by
    rw [← hw.kind_stem h.found h.unfolds, ← hw'.kind_stem h'.found h'.unfolds, hstem]
  obtain ⟨hpayload, rfl⟩ := Content.printedAlike_of_rest (hp.labels_isItem h.labelled) (hp'.labels_isItem h'.labelled)
    h.labelled.length_eq.symm h'.labelled.length_eq.symm hkind hstem hrest
  exact {
    label := String.toList_inj.1 hlabel
    kind := hkind
    type := by rw [typeName, typeName, TypeTable.name_of_tree? h.unfolds, TypeTable.name_of_tree? h'.unfolds]
    payload := hpayload
    operands := ⟨labels, mapM_label h.labelled, mapM_label h'.labelled⟩ }

/-! ## The dump -/

theorem WF.isLine_of_prints (h : g.WF) (hp : g.PlainNames) {vs : List ValueId} {lines : List String}
    (hl : List.Forall₂ g.Prints vs lines) : ∀ l ∈ lines, IsLine l := by
  induction hl with
  | nil => exact List.forall_mem_nil _
  | cons hline _ ih =>
    obtain ⟨node, type, labels, hs⟩ := h.exists_shows hp hline
    exact List.forall_mem_cons.2 ⟨hs.isLine hp, ih⟩

/-- Graphs made by building whose names are words without commas have the same dump only when they have as many
values and show them alike, one by one in order of creation. -/
theorem dump_determines (h : g.Reachable) (h' : g'.Reachable) (hp : g.PlainNames) (hp' : g'.PlainNames)
    (hd : g.dump = g'.dump) :
    g.size = g'.size ∧ ∀ v node, g.node? v = some node →
      ∃ node', g'.node? v = some node' ∧ g.ShownAlike g' v node node' := by
  obtain ⟨lines, hl, hprints⟩ := h.wf.exists_dump
  obtain ⟨lines', hl', hprints'⟩ := h'.wf.exists_dump
  have htext : String.join lines = String.join lines' :=
    Except.ok.inj (hl.symm.trans (hd.trans hl'))
  obtain rfl := join_inj (h.wf.isLine_of_prints hp hprints) (h'.wf.isLine_of_prints hp' hprints') htext
  -- there is one line for each value, so the values of both graphs are at the same positions
  have hsize : g.size = g'.size := by
    simpa [values] using hprints.length_eq.trans hprints'.length_eq.symm
  have hvalues : g'.values = g.values := by rw [values, values, hsize]
  have hboth : List.Forall₂ (fun v line => g.Prints v line ∧ g'.Prints v line) g.values lines :=
    List.Forall₂.mp (fun _ _ => And.intro) hprints (hvalues ▸ hprints')
  refine ⟨hsize, fun v node hn => ?_⟩
  obtain ⟨i, rfl⟩ := List.mem_iff_get.1 (mem_values_iff.2 (node?_eq_some_lt hn))
  obtain ⟨hline, hline'⟩ := hboth.get i.2 (hboth.length_eq ▸ i.2)
  obtain ⟨shown, type, labels, hs⟩ := h.wf.exists_shows hp hline
  obtain ⟨node', type', labels', hs'⟩ := h'.wf.exists_shows hp' hline'
  obtain rfl : shown = node := Option.some.inj (hs.found.symm.trans hn)
  exact ⟨node', hs'.found, hs.shownAlike h.wf h'.wf hp hp' hs'⟩

/-- The values of the sample again, on types in another order and with a name that reads as a position. -/
def sampleAnew : Graph :=
  [.pointerType, .floatType .single, .vectorType ⟨1⟩ 2, .intType 8, .structType [⟨3⟩, ⟨2⟩], .constInt ⟨3⟩ 255,
    .setName ⟨0⟩ "0", .constFloat ⟨1⟩ (.ofBits .double 0x3FE0000000000000), .constSplat ⟨2⟩ ⟨1⟩,
    .constAggregate ⟨4⟩ [⟨0⟩, ⟨2⟩], .argument ⟨2⟩ "color", .phi ⟨2⟩, .setPhiIncoming ⟨5⟩ [⟨2⟩, ⟨4⟩]].foldl after empty

theorem sampleAnew_reachable : sampleAnew.Reachable :=
  Reachable.empty.foldl_after _

/-- The sample and its values made anew are different graphs with one dump. -/
theorem dump_determines_sample : sample.Reachable ∧ sampleAnew.Reachable ∧ sample ≠ sampleAnew ∧
    sample.PlainNames ∧ sampleAnew.PlainNames ∧
    sample.dump = .ok (String.join ["%0 = constant i8 -1\n", "%1 = constant float 0.5\n",
      "%2 = constant <2 x float> %1, %1\n", "%3 = constant \x7b i8, <2 x float> \x7d %0, %2\n",
      "%color = argument <2 x float>\n", "%5 = phi <2 x float> %2, %color\n"]) ∧ sample.dump = sampleAnew.dump ∧
    sample.size = sampleAnew.size ∧ ∀ v node, sample.node? v = some node →
      ∃ node', sampleAnew.node? v = some node' ∧ sample.ShownAlike sampleAnew v node node' := by
  have hp : sample.PlainNames := by decide +kernel
  have hp' : sampleAnew.PlainNames := by decide +kernel
  have hd : sample.dump = sampleAnew.dump := by decide +kernel
  exact ⟨sample_reachable, sampleAnew_reachable, by decide +kernel, hp, hp', by decide +kernel, hd,
    dump_determines sample_reachable sampleAnew_reachable hp hp' hd⟩

end Graph

end Lanewise
