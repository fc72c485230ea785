import Stepwise.Proofs.Process.Routing

/-! What is found about the edges of a description. Compiled edges stand in the order of the described ones, each
with its place; so what makes an edge useless can be read off the edges before it, and the findings come in the
order of the edges. -/
namespace Stepwise

/-! ### Places -/

theorem exists_split_of_lt {α : Type} {items : List α} {place : Nat} (h : place < items.length) :
    ∃ before a after, items = before ++ a :: after ∧ before.length = place := by
  refine ⟨items.take place, items[place], items.drop (place + 1), ?_, ?_⟩
  · rw [List.getElem_cons_drop, List.take_append_drop]
  · rw [List.length_take, Nat.min_eq_left h.le]

namespace CompiledEdge

theorem compileAll_append_inv {before after : List Edge} : ∀ {index : Nat} {cs : List CompiledEdge},
    compileAll index (before ++ after) = .ok cs → ∃ earlier later, cs = earlier ++ later ∧
      compileAll index before = .ok earlier ∧ compileAll (index + before.length) after = .ok later := by
  induction before with
  | nil => exact fun {index cs} h => ⟨[], cs, rfl, rfl, h⟩
  | cons e rest ih =>
      intro index cs h
      obtain ⟨c, cs', rfl, hFirst, hRest⟩ := compileAll_cons h
      obtain ⟨earlier, later, rfl, hEarlier, hLater⟩ := ih hRest
      refine ⟨c :: earlier, later, rfl, ?_, ?_⟩
      · rw [compileAll, hFirst, hEarlier]
        rfl
      · rw [List.length_cons, Nat.add_comm rest.length, ← Nat.add_assoc]
        exact hLater

theorem length_of_compileAll {edges : List Edge} : ∀ {index : Nat} {cs : List CompiledEdge},
    compileAll index edges = .ok cs → cs.length = edges.length := by
  induction edges with
  | nil =>
      intro index cs h
      rw [compileAll_nil h]
      rfl
  | cons e rest ih =>
      intro index cs h
      obtain ⟨c, cs', rfl, -, hRest⟩ := compileAll_cons h
      rw [List.length_cons, List.length_cons, ih hRest]

theorem index_lt_of_mem {edges : List Edge} : ∀ {index : Nat} {cs : List CompiledEdge},
    compileAll index edges = .ok cs → ∀ c ∈ cs, c.index < index + edges.length := by
  induction edges with
  | nil =>
      intro index cs h c hc
      rw [compileAll_nil h] at hc
      cases hc
  | cons e rest ih =>
      intro index cs h c hc
      obtain ⟨first, cs, rfl, hFirst, hRest⟩ := compileAll_cons h
      rw [List.length_cons]
      rcases List.mem_cons.mp hc with rfl | hc
      · have hIndex := (compile_ok hFirst).1
        omega
      · have hIndex := ih hRest c hc
        omega

theorem le_index_of_mem {edges : List Edge} : ∀ {index : Nat} {cs : List CompiledEdge},
    compileAll index edges = .ok cs → ∀ c ∈ cs, index ≤ c.index := by
  induction edges with
  | nil =>
      intro index cs h c hc
      rw [compileAll_nil h] at hc
      cases hc
  | cons e rest ih =>
      intro index cs h c hc
      obtain ⟨first, cs, rfl, hFirst, hRest⟩ := compileAll_cons h
      rcases List.mem_cons.mp hc with rfl | hc
      · exact Nat.le_of_eq (compile_ok hFirst).1.symm
      · exact Nat.le_of_succ_le (ih hRest c hc)

/-- Compiled edges, split where the described ones are. -/
structure Split (before : List Edge) (e : Edge) (earlier : List CompiledEdge) (c : CompiledEdge)
    (later : List CompiledEdge) : Prop where
  beforeCompile : compileAll 0 before = .ok earlier
  edgeCompiles : compile before.length e = .ok c
  earlier_lt : ∀ other ∈ earlier, other.index < before.length
  lt_later : ∀ other ∈ later, before.length < other.index

theorem exists_split {before after : List Edge} {e : Edge} {cs : List CompiledEdge}
    (h : compileAll 0 (before ++ e :: after) = .ok cs) :
    ∃ earlier c later, cs = earlier ++ c :: later ∧ Split before e earlier c later := by
  obtain ⟨earlier, rest, rfl, hEarlier, hRest⟩ := compileAll_append_inv h
  rw [Nat.zero_add] at hRest
  obtain ⟨c, later, rfl, hEdge, hLater⟩ := compileAll_cons hRest
  refine ⟨earlier, c, later, rfl, hEarlier, hEdge, fun other hOther => ?_, le_index_of_mem hLater⟩
  have hIndex := index_lt_of_mem hEarlier other hOther
  rwa [Nat.zero_add] at hIndex

end CompiledEdge

/-! ### Findings -/

namespace Description

/-- What is found about an edge, given the edges before it. -/
def edgeFinding? (before : List Edge) (e : Edge) : Option Finding :=
  match e.condition with
  | some text => if Text.trim text = "" then some (.blankCondition before.length) else none
  | none =>
    (before.findIdx? fun other => other.isFallbackOf e.source).map
      (.shadowedFallback before.length e.source)

/-- What is found about the edges, in their order. -/
def edgeFindings (d : Description) : List Finding :=
  d.edges.zipIdx.filterMap fun (e, place) => edgeFinding? (d.edges.take place) e

theorem exists_of_mem_edgeFindings {d : Description} {f : Finding} (h : f ∈ d.edgeFindings) :
    ∃ before e after, d.edges = before ++ e :: after ∧ edgeFinding? before e = some f := by
  obtain ⟨⟨e, place⟩, hMem, hFinding⟩ := List.mem_filterMap.mp h
  obtain ⟨hPlace, hEdge⟩ := List.mem_zipIdx' hMem
  refine ⟨d.edges.take place, e, d.edges.drop (place + 1), ?_, hFinding⟩
  rw [hEdge, List.getElem_cons_drop hPlace, List.take_append_drop]

end Description

namespace CompiledEdge

/-- The first fallback stands where the first edge without a condition does. -/
theorem index_find?_isFallbackOf {edges : List Edge} : ∀ {index : Nat} {cs : List CompiledEdge},
    compileAll index edges = .ok cs → ∀ step : String,
      (cs.find? (isFallbackOf step)).map CompiledEdge.index =
        (edges.findIdx? fun e => e.isFallbackOf step).map (index + ·) := by
  induction edges with
  | nil =>
      intro index cs h step
      cases compileAll_nil h
      rfl
  | cons e rest ih =>
      intro index cs h step
      obtain ⟨c, cs', rfl, hFirst, hRest⟩ := compileAll_cons h
      rw [List.find?_cons, List.findIdx?_cons, isFallbackOf_of_compile hFirst]
      cases e.isFallbackOf step with
      | true => simp [(compile_ok hFirst).1]
      | false =>
          have hPlaces : (fun place => index + place) ∘ (fun place => place + 1) = (index + 1 + ·) := by
            funext place
            exact (Nat.add_assoc index place 1).symm.trans (Nat.add_right_comm index place 1)
          dsimp only
          rw [ih hRest step, if_neg Bool.false_ne_true, Option.map_map, hPlaces]

/-- What is found about a compiled edge is read off the edges of the description. -/
theorem finding?_eq {before : List Edge} {e : Edge} {earlier later : List CompiledEdge} {c : CompiledEdge}
    (h : Split before e earlier c later) :
    finding? (earlier ++ c :: later) c = Description.edgeFinding? before e := by
  have hEdge := h.edgeCompiles
  obtain ⟨hIndex, hSource, -⟩ := compile_ok hEdge
  unfold finding? Description.edgeFinding?
  cases hCondition : e.condition with
  | some text =>
      obtain ⟨condition, hCompile, hSome⟩ := condition_eq_some hEdge hCondition
      rw [hSome, hIndex]
      simp only [(Condition.compile_ok hCompile).2, String.isEmpty_iff]
  | none =>
      have hNone := condition_eq_none hEdge hCondition
      have hFallback : isFallbackOf e.source c = true := by simp [isFallbackOf, hNone, hSource]
      have hPlace := index_find?_isFallbackOf h.beforeCompile e.source
      rw [hNone, hSource, hIndex, List.find?_append, List.find?_cons_of_pos hFallback]
      cases hFind : earlier.find? (isFallbackOf e.source) with
      | none =>
          rw [hFind, Option.map_none, eq_comm, Option.map_eq_none_iff] at hPlace
          rw [hPlace]
          exact if_pos hIndex
      | some first =>
          have hLt := h.earlier_lt first (List.mem_of_find?_eq_some hFind)
          simp only [hFind, Option.map_some, Nat.zero_add, Option.map_id'] at hPlace
          rw [← hPlace]
          exact if_neg hLt.ne

/-- What is found about compiled edges is what is found about the described ones, place by place. -/
theorem filterMap_finding? {d : Description} {cs : List CompiledEdge} (h : compileAll 0 d.edges = .ok cs) :
    cs.filterMap (finding? cs) = d.edgeFindings := by
  have hLength := length_of_compileAll h
  have hEach : cs.map (finding? cs) =
      d.edges.zipIdx.map fun (e, place) => Description.edgeFinding? (d.edges.take place) e := by
    refine List.ext_getElem (by simpa using hLength) fun place hPlace _ => ?_
    rw [List.length_map, hLength] at hPlace
    rw [List.getElem_map, List.getElem_map, List.getElem_zipIdx, Nat.zero_add]
    obtain ⟨before, e, after, hEdges, rfl⟩ := exists_split_of_lt hPlace
    obtain ⟨earlier, c, later, rfl, hSplit⟩ := exists_split (hEdges ▸ h)
    dsimp only
    rw [List.getElem_of_append rfl (length_of_compileAll hSplit.beforeCompile),
      List.getElem_of_append hEdges rfl, hEdges, List.take_left]
    exact finding?_eq hSplit
  have hAll := congrArg (List.filterMap id) hEach
  rwa [List.filterMap_map, List.filterMap_map, Function.id_comp, Function.id_comp] at hAll

end CompiledEdge

end Stepwise
