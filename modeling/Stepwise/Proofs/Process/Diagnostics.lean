import Mathlib.Data.List.Nodup
import Stepwise.Process.Sample
import Stepwise.Proofs.Process.Findings

/-! All that is found about a graph. The search for unreachable steps finds exactly the declared steps to which no
guards and fallbacks lead from the start, whatever cycles there are. The findings about edges come before it, and
they are those of the description. -/
namespace Stepwise

open Relation

namespace Graph

/-- A guard or the fallback of a step leads to another step. The end is no step. -/
def Follows (nodes : Declarations Node) (source target : String) : Prop :=
  ∃ node, nodes.get? source = some node ∧
    ((∃ guarded ∈ node.route.guards, guarded.target = .step target) ∨ node.route.fallback = some (.step target))

theorem leads_iff_follows {nodes : Declarations Node} {source target : String} :
    leads nodes source target = true ↔ Follows nodes source target := by
  unfold leads Follows
  cases nodes.get? source with
  | none => simp
  | some node =>
      dsimp only
      rw [Route.targets, List.contains_iff_mem, List.mem_append, List.mem_map, Option.mem_toList]
      simp

/-- What is found about a graph is exact. The search leaves the declared steps, in their order and each once, to
which no row of guards and fallbacks leads from the start; the start is never among them, and with a round for
each other step the search is at its end, so that further rounds change nothing. A compiled graph has the
findings about the edges of its description in their order, and then those steps. -/
theorem findings_exact :
    (∀ (nodes : Declarations Node) (start : String),
      (∀ step, step ∈ unreachableSteps nodes start ↔
        step ∈ nodes.names ∧ ¬ ReflTransGen (Follows nodes) start step) ∧
      (unreachableSteps nodes start).Sublist nodes.names ∧
      (unreachableSteps nodes start).Nodup ∧
      start ∉ unreachableSteps nodes start ∧
      ∀ rounds ≥ (nodes.names.filter (· ≠ start)).length,
        unreachedIn (leads nodes) rounds (nodes.names.filter (· ≠ start)) [start] =
          unreachableSteps nodes start) ∧
    ∀ d strict g, compile d strict = .ok g →
      g.findings = d.edgeFindings ++ (unreachableSteps g.nodes g.start).map (.unreachableStep · g.start) := by
  classical
  refine ⟨fun nodes start => ?_, fun d strict g h => ?_⟩
  · have hFilter := unreachableSteps_eq_filter nodes start
    have hReached (step : String) :
        Reached (leads nodes) start step ↔ ReflTransGen (Follows nodes) start step := by
      rw [Reached, funext₂ fun source target => propext leads_iff_follows]
    refine ⟨fun step => ?_, ?_, ?_, ?_, fun rounds hRounds => ?_⟩
    · rw [hFilter, List.mem_filter, decide_eq_true_eq, hReached]
    · rw [hFilter]
      exact List.filter_sublist
    · rw [hFilter]
      exact List.Nodup.filter _ nodes.distinct
    · rw [hFilter, List.mem_filter, decide_eq_true_eq]
      exact fun hStart => hStart.2 .refl
    · have hSearch := searching_start nodes start
      exact (hSearch.unreachedIn_eq hRounds).trans (hSearch.unreachedIn_eq (Nat.le_refl _)).symm
  · obtain ⟨done, edges, -, hFindings⟩ := compile_findings h
    exact hFindings

/-- Two steps follow each other, and a third one only itself; the last edge comes too late. -/
private def islands : Description :=
  Sample.cycle
    |>.withStep "reef" (.ofKind "assign")
    |>.withEdge (.always "reef" "reef")
    |>.withEdge (.toEnd "ping")

theorem findings_exact_islands :
    islands.edgeFindings = [.shadowedFallback 3 "ping" 0] ∧
    ∃ g, compile islands false = .ok g ∧
      g.findings = islands.edgeFindings ++ [.unreachableStep "reef" "ping"] ∧
      ReflTransGen (Follows g.nodes) "ping" "pong" ∧ ¬ ReflTransGen (Follows g.nodes) "ping" "reef" := by
  have hParts : (compile islands false).map
      (fun g => (g.start, g.nodes.names, unreachableSteps g.nodes g.start)) =
      .ok ("ping", ["ping", "pong", "reef"], ["reef"]) := by decide +kernel
  obtain ⟨g, hGraph, hParts⟩ := map_eq_ok_iff.mp hParts
  simp only [Prod.mk.injEq] at hParts
  obtain ⟨hStart, hNames, hUnreachable⟩ := hParts
  obtain ⟨hSearch, hFindings⟩ := findings_exact
  obtain ⟨hExact, -⟩ := hSearch g.nodes g.start
  rw [hStart] at hUnreachable hExact
  rw [hUnreachable, hNames] at hExact
  refine ⟨by decide +kernel, g, hGraph, ?_, ?_, ((hExact "reef").mp (by simp)).2⟩
  · rw [hFindings islands false g hGraph, hStart, hUnreachable]
    rfl
  · by_contra hNot
    have hMissed := (hExact "pong").mpr ⟨by simp, hNot⟩
    simp at hMissed

end Graph

end Stepwise
