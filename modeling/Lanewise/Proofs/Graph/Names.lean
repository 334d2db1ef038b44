/-
Names and the values they find. A name finds the value it was last given to, and a value carries the name it was
last given; one that is named anew is still found by its former names until those are given to others.
-/
import Lanewise.Proofs.Graph.WellFormed

namespace Lanewise

/-- The name that a command gave and the value it gave it to, as its answer tells. -/
def Command.naming? : Command → Except BuildError Reply → Option (String × ValueId)
  | .argument _ name, .ok (.value v) => some (name, v)
  | .setName v name, .ok .done => some (name, v)
  | _, _ => none

namespace Graph

variable {g g' : Graph} {c : Command} {r : Reply} {v : ValueId} {name : String}

/-- The namings of a run of commands from a graph, newest first. -/
def namings (g : Graph) : List Command → List (String × ValueId)
  | [] => []
  | c :: commands => namings (g.after c) commands ++ (c.naming? (c.perform g).1).toList

/-- The value is there and carries the name. -/
def Named (g : Graph) (v : ValueId) (name : String) : Prop :=
  ∃ node, g.node? v = some node ∧ node.name = name

/-- What a name finds carries it, and a name that is carried finds a value. -/
structure NamesAgree (g : Graph) : Prop where
  named : ∀ name v, g.lookup name = some v → g.Named v name
  finds : ∀ w name, g.Named w name → name ≠ "" → ∃ v, g.lookup name = some v ∧ g.Named v name

/-- The value was named after the name was last given. -/
def NamedSince (namings : List (String × ValueId)) (name : String) (v : ValueId) : Prop :=
  ∃ other, (other, v) ∈ namings.takeWhile fun n => n.1 ≠ name

/-! ## The names of a graph -/

theorem Accepts.names_eq (h : g.Accepts c r g') : g'.names = (c.naming? (.ok r)).toList ++ g.names := by
  cases h with
  | @type c form hc ha =>
    cases c with
    | setName | argument => cases hc
    | _ => rfl
  | value hm => cases hm <;> rfl
  | argument | setPhiIncoming | setName => rfl

theorem names_after (g : Graph) (c : Command) :
    (g.after c).names = (c.naming? (c.perform g).1).toList ++ g.names := by
  rcases hp : c.perform g with ⟨_ | r, g'⟩
  · -- a refused command tells of no naming
    rename_i e
    have hn : c.naming? (.error e) = none := by cases c <;> rfl
    rcases after_cases g c with he | ⟨r, ha⟩
    · rw [he, hn]
      rfl
    · rw [perform_eq_ok_iff.2 ha] at hp
      cases hp
  · rw [after, hp]
    exact (perform_eq_ok_iff.1 hp).names_eq

/-- A graph keeps the namings of the run that made it. -/
theorem names_foldl_after (g : Graph) (commands : List Command) :
    (commands.foldl after g).names = g.namings commands ++ g.names := by
  induction commands generalizing g with
  | nil => rfl
  | cons c commands ih => rw [List.foldl_cons, ih, names_after, namings, List.append_assoc]

/-! ## The names of nodes -/

/-- The name of the newest naming of a value, or none. -/
def lastName (namings : List (String × ValueId)) (v : ValueId) : String :=
  (namings.find? fun n => n.2 = v).elim "" Prod.fst

theorem lastName_cons (n : String × ValueId) (namings : List (String × ValueId)) (v : ValueId) :
    lastName (n :: namings) v = if n.2 = v then n.1 else lastName namings v := by
  unfold lastName
  by_cases h : n.2 = v
  · rw [if_pos h, List.find?_cons, decide_eq_true h]
    rfl
  · rw [if_neg h, List.find?_cons, decide_eq_false h]

/-- What the names of a graph and those of its nodes are to each other. -/
structure NamesMatch (g : Graph) : Prop where
  hasValue : ∀ n ∈ g.names, g.HasValue n.2
  name_eq : ∀ v node, g.node? v = some node → node.name = lastName g.names v

theorem namesMatch_empty : empty.NamesMatch where
  hasValue _ hn := nomatch hn
  name_eq v node hn := by simp [empty, node?] at hn

theorem NamesMatch.withNode (h : g.NamesMatch) (type : TypeId) (content : Content) :
    (g.withNode { type, content }).NamesMatch where
  hasValue n hn := (withNode_extends g _).hasValue (h.hasValue n hn)
  name_eq v node hn := by
    rw [node?_withNode] at hn
    split at hn
    · rename_i hv
      cases hn
      -- nothing has named the value before it was there
      have hnone : g.names.find? (fun n => n.2 = v) = none := by
        refine List.find?_eq_none.2 fun n hn hv' => ?_
        obtain ⟨m, hm⟩ := h.hasValue n hn
        rw [of_decide_eq_true hv'] at hm
        exact absurd hv (Nat.ne_of_lt (node?_eq_some_lt hm))
      show "" = (g.names.find? _).elim "" Prod.fst
      rw [hnone]
      rfl
    · exact h.name_eq v node hn

theorem NamesMatch.withName (h : g.NamesMatch) (hv : g.HasValue v) (name : String) :
    (g.withName v name).NamesMatch where
  hasValue n hn := by
    refine (withName_extends g v name).hasValue ?_
    rcases List.mem_cons.1 hn with rfl | hn
    · exact hv
    · exact h.hasValue n hn
  name_eq w node hn := by
    rw [node?_withName] at hn
    show node.name = lastName ((name, v) :: g.names) w
    rw [lastName_cons]
    split at hn
    · rename_i hw
      obtain ⟨m, -, rfl⟩ := Option.map_eq_some_iff.1 hn
      rw [if_pos hw]
    · rename_i hw
      rw [if_neg hw]
      exact h.name_eq w node hn

theorem NamesMatch.withIncoming (h : g.NamesMatch) (v : ValueId) (incoming : List ValueId) :
    (g.withIncoming v incoming).NamesMatch := by
  have hread : ∀ w node, (g.withIncoming v incoming).node? w = some node →
      ∃ m, g.node? w = some m ∧ m.name = node.name := by
    intro w node hn
    rw [node?_withIncoming] at hn
    split at hn
    · obtain ⟨m, hm, rfl⟩ := Option.map_eq_some_iff.1 hn
      exact ⟨m, hm, rfl⟩
    · exact ⟨node, hn, rfl⟩
  constructor
  · intro n hn
    obtain ⟨m, hm⟩ := h.hasValue n hn
    exact exists_node? (by rw [size_withIncoming]; exact node?_eq_some_lt hm)
  · intro w node hn
    obtain ⟨m, hm, he⟩ := hread w node hn
    exact he ▸ h.name_eq w m hm

theorem Accepts.namesMatch (h : g.Accepts c r g') (hm : g.NamesMatch) : g'.NamesMatch := by
  cases h with
  | type hc ha => exact ⟨hm.hasValue, hm.name_eq⟩
  | value => exact hm.withNode _ _
  | argument => exact (hm.withNode _ _).withName ⟨_, node?_withNode_self _⟩ _
  | setPhiIncoming => exact hm.withIncoming _ _
  | setName hv => exact hm.withName hv _

theorem Reachable.namesMatch (h : g.Reachable) : g.NamesMatch := by
  induction h with
  | empty => exact namesMatch_empty
  | @after g c hg ih =>
    rcases after_cases g c with he | ⟨r, ha⟩
    · rw [he]; exact ih
    · exact ha.namesMatch ih

/-! ## What a name finds -/

theorem NamesMatch.named_iff (h : g.NamesMatch) : g.Named v name ↔ g.HasValue v ∧ lastName g.names v = name := by
  constructor
  · rintro ⟨node, hn, rfl⟩
    exact ⟨⟨node, hn⟩, (h.name_eq v node hn).symm⟩
  · rintro ⟨⟨node, hn⟩, rfl⟩
    exact ⟨node, hn, h.name_eq v node hn⟩

/-- A name that finds a value was given to it, and to no value later. -/
theorem lookup_eq_some_split (h : g.lookup name = some v) : ∃ newer older,
    g.names = newer ++ (name, v) :: older ∧ ∀ n ∈ newer, n.1 ≠ name := by
  obtain ⟨newer, older, he, hn⟩ := List.lookup_eq_some_iff.1 h
  exact ⟨newer, older, he, fun n hm hc => by simpa [hc] using hn n hm⟩

/-- A name finds a value that carries it, unless the value was named again since. -/
theorem NamesMatch.named_iff_of_lookup (h : g.NamesMatch) (hl : g.lookup name = some v) :
    g.Named v name ↔ ¬ NamedSince g.names name v := by
  obtain ⟨newer, older, he, hnew⟩ := lookup_eq_some_split hl
  have hv : g.HasValue v := h.hasValue (name, v) (he ▸ List.mem_append_right _ (List.mem_cons_self ..))
  have hsince : (g.names.takeWhile fun n => n.1 ≠ name) = newer := by
    rw [he, List.takeWhile_append_of_pos fun n hn => decide_eq_true (hnew n hn),
      List.takeWhile_cons_of_neg (by simp), List.append_nil]
  rw [h.named_iff, and_iff_right hv, NamedSince, hsince, lastName, he, List.find?_append]
  cases hf : newer.find? fun n => n.2 = v with
  | none =>
    -- the naming that the lookup found is the newest of the value
    refine iff_of_true ?_ ?_
    · rw [Option.none_or, List.find?_cons, decide_eq_true rfl]
      rfl
    · rintro ⟨other, hm⟩
      exact List.find?_eq_none.1 hf _ hm (decide_eq_true rfl)
  | some n =>
    obtain ⟨other, w⟩ := n
    have hw := List.find?_some hf
    obtain rfl : w = v := of_decide_eq_true hw
    have hm := List.mem_of_find?_eq_some hf
    exact iff_of_false (hnew _ hm) (not_not.2 ⟨other, hm⟩)

theorem NamesMatch.exists_lookup (h : g.NamesMatch) (hn : g.Named v name) (hne : name ≠ "") :
    ∃ w, g.lookup name = some w := by
  obtain ⟨-, hlast⟩ := h.named_iff.1 hn
  unfold lastName at hlast
  cases hf : g.names.find? fun n => n.2 = v with
  | none =>
    rw [hf] at hlast
    exact absurd hlast.symm hne
  | some n =>
    rw [hf] at hlast
    cases hl : g.lookup name with
    | some w => exact ⟨w, rfl⟩
    | none =>
      have hnot := List.lookup_eq_none_iff.1 hl n (List.mem_of_find?_eq_some hf)
      rw [← hlast] at hnot
      simp at hnot

theorem not_namedSince_of_nodup (hd : (g.names.map Prod.snd).Nodup) (hl : g.lookup name = some v) :
    ¬ NamedSince g.names name v := by
  rintro ⟨other, hm⟩
  obtain ⟨newer, older, he, -⟩ := lookup_eq_some_split hl
  have hmem : (other, v) ∈ newer := by
    rw [he, List.takeWhile_append] at hm
    split at hm
    · rw [List.takeWhile_cons_of_neg (by simp), List.append_nil] at hm
      exact hm
    · exact List.takeWhile_subset _ hm
  rw [he, List.map_append, List.nodup_append] at hd
  exact hd.2.2 v (List.mem_map_of_mem hmem) v (List.mem_cons_self ..) rfl

/-! ## Runs -/

/-- What a run of commands leaves of names, and when names and nodes agree. -/
structure NamesTraced (commands : List Command) : Prop where
  found : ∀ name, (commands.foldl after empty).lookup name = (empty.namings commands).lookup name
  carried : ∀ v node, (commands.foldl after empty).node? v = some node →
    node.name = lastName (empty.namings commands) v
  finds : ∀ w name, (commands.foldl after empty).Named w name → name ≠ "" →
    ∃ v, (commands.foldl after empty).lookup name = some v
  named : ∀ name v, (commands.foldl after empty).lookup name = some v →
    ((commands.foldl after empty).Named v name ↔ ¬ NamedSince (empty.namings commands) name v)
  once : ((empty.namings commands).map Prod.snd).Nodup → (commands.foldl after empty).NamesAgree

/-- Every run leaves names so. -/
theorem run_namesTraced (commands : List Command) : NamesTraced commands := by
  have hm := (Reachable.empty.foldl_after commands).namesMatch
  have hn : (commands.foldl after empty).names = empty.namings commands :=
    (names_foldl_after empty commands).trans (List.append_nil _)
  constructor
  · exact fun name => by rw [lookup, hn]
  · exact fun v node h => hn ▸ hm.name_eq v node h
  · exact fun w name h hne => hm.exists_lookup h hne
  · exact fun name v h => hn ▸ hm.named_iff_of_lookup h
  · intro hd
    have hnamed : ∀ name v, (commands.foldl after empty).lookup name = some v →
        (commands.foldl after empty).Named v name := fun name v h =>
      (hm.named_iff_of_lookup h).2 (not_namedSince_of_nodup (hn ▸ hd) h)
    refine ⟨hnamed, fun w name hw hne => ?_⟩
    obtain ⟨v, hv⟩ := hm.exists_lookup hw hne
    exact ⟨v, hv, hnamed name v hv⟩

/-- Commands that give a name to two values and then name the second one anew. -/
def nameAnew : List Command :=
  [.intType 32, .argument ⟨0⟩ "a", .argument ⟨0⟩ "a", .setName ⟨1⟩ "b"]

/-- A name finds a value that was named anew, although another value still carries the name. -/
theorem renamed_still_found :
    (nameAnew.foldl after empty).lookup "a" = some ⟨1⟩ ∧ (nameAnew.foldl after empty).Named ⟨1⟩ "b" ∧
    (nameAnew.foldl after empty).Named ⟨0⟩ "a" ∧ ¬ (nameAnew.foldl after empty).Named ⟨1⟩ "a" ∧
    ¬ ∀ g : Graph, g.Reachable → g.NamesAgree := by
  have hl : (nameAnew.foldl after empty).lookup "a" = some ⟨1⟩ := by decide +kernel
  have h₀ : (nameAnew.foldl after empty).node? ⟨0⟩ =
      some { name := "a", type := ⟨0⟩, content := .argument } := by decide +kernel
  have h₁ : (nameAnew.foldl after empty).node? ⟨1⟩ =
      some { name := "b", type := ⟨0⟩, content := .argument } := by decide +kernel
  have hnot : ¬ (nameAnew.foldl after empty).Named ⟨1⟩ "a" := by
    rintro ⟨node, hn, he⟩
    rw [h₁] at hn
    cases hn
    exact absurd he (by decide)
  refine ⟨hl, ⟨_, h₁, rfl⟩, ⟨_, h₀, rfl⟩, hnot, fun h => ?_⟩
  exact hnot ((h _ (Reachable.empty.foldl_after nameAnew)).named "a" ⟨1⟩ hl)

end Graph

end Lanewise
