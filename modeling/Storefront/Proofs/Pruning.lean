import Storefront.Proofs.Drafting
import Storefront.Proofs.Escaping

/-!
# Loops nested too deep

How deep loops may be nested is a limit of rendering: a renderer counts the loops
that it is in, and shows a loop as it was written once the count is up. The count
depends on where a loop stands in the tree and on nothing else, neither on the data
nor on how often the loops around it run, so the limit may as well be applied to
the tree, before anything is rendered. In a *pruned* tree (`Node.pruned`) each loop
that is too deep is text, and it is rendered like the whole
(`Renderer.nodes_prunedAll`).

A tree whose loops are within the limit is its own pruning, and it is rendered
without regard to what its loops were written as (`Renderer.nodes_withSourcesAll`).
-/

namespace Storefront

/-! ## Trees -/

namespace Node

mutual

/-- **A node whose loops are cut off** where they stand in more than so many levels of loops: there
each is the text it was written as. -/
def pruned : (levels : Nat) → Node → Node
  | _, .text s => .text s
  | _, .variable path raw => .variable path raw
  | _, .phrase key => .phrase key
  | 0, .loop _ _ source _ => .text source
  | levels + 1, .loop path body source line => .loop path (prunedAll levels body) source line
  | levels, .conditional condition negated shown hidden line =>
    .conditional condition negated (prunedAll levels shown) (prunedAll levels hidden) line

/-- Nodes whose loops are cut off. -/
def prunedAll : (levels : Nat) → List Node → List Node
  | _, [] => []
  | levels, n :: rest => pruned levels n :: prunedAll levels rest

end

mutual

/-- **A node whose loops were written otherwise**, `respell` telling how. -/
def withSources (respell : String → String) : Node → Node
  | .text s => .text s
  | .variable path raw => .variable path raw
  | .phrase key => .phrase key
  | .loop path body source line =>
    .loop path (withSourcesAll respell body) (respell source) line
  | .conditional condition negated shown hidden line =>
    .conditional condition negated (withSourcesAll respell shown) (withSourcesAll respell hidden)
      line

/-- Nodes whose loops were written otherwise. -/
def withSourcesAll (respell : String → String) : List Node → List Node
  | [] => []
  | n :: rest => withSources respell n :: withSourcesAll respell rest

end

mutual

/-- **No more levels are left** than were asked for. -/
theorem loopDepth_pruned_le (n : Node) (levels : Nat) : (n.pruned levels).loopDepth ≤ levels := by
  cases n with
  | text | «variable» | phrase => rw [pruned, loopDepth]; exact Nat.zero_le levels
  | loop path body source line =>
    cases levels with
    | zero => exact Nat.le_of_eq (by rw [pruned, loopDepth])
    | succ levels =>
      rw [pruned, loopDepth]
      exact Nat.succ_le_succ (loopsDepth_prunedAll_le body levels)
  | conditional condition negated shown hidden line =>
    rw [pruned, loopDepth]
    exact Nat.max_le.2 ⟨loopsDepth_prunedAll_le shown levels, loopsDepth_prunedAll_le hidden levels⟩

theorem loopsDepth_prunedAll_le (ns : List Node) (levels : Nat) :
    loopsDepth (prunedAll levels ns) ≤ levels := by
  cases ns with
  | nil => rw [prunedAll, loopsDepth]; exact Nat.zero_le levels
  | cons n rest =>
    rw [prunedAll, loopsDepth]
    exact Nat.max_le.2 ⟨loopDepth_pruned_le n levels, loopsDepth_prunedAll_le rest levels⟩

end

mutual

/-- **Nothing is cut off** from a node that has no more levels. -/
theorem pruned_eq_self (n : Node) (levels : Nat) (h : n.loopDepth ≤ levels) :
    n.pruned levels = n := by
  cases n with
  | text | «variable» | phrase => rw [pruned]
  | loop path body source line =>
    rw [loopDepth] at h
    obtain ⟨levels, rfl⟩ : ∃ more, levels = more + 1 := ⟨levels - 1, by omega⟩
    rw [pruned, prunedAll_eq_self body levels (Nat.le_of_succ_le_succ h)]
  | conditional condition negated shown hidden line =>
    rw [loopDepth] at h
    obtain ⟨hshown, hhidden⟩ := Nat.max_le.1 h
    rw [pruned, prunedAll_eq_self shown levels hshown, prunedAll_eq_self hidden levels hhidden]

theorem prunedAll_eq_self (ns : List Node) (levels : Nat) (h : loopsDepth ns ≤ levels) :
    prunedAll levels ns = ns := by
  cases ns with
  | nil => rw [prunedAll]
  | cons n rest =>
    rw [loopsDepth] at h
    obtain ⟨hn, hrest⟩ := Nat.max_le.1 h
    rw [prunedAll, pruned_eq_self n levels hn, prunedAll_eq_self rest levels hrest]

end

end Node

/-! ## Rendering -/

namespace Renderer

open Node

variable (r : Renderer)

/-- A loop that is expanded shows its body once for each item. -/
theorem node_loop {depth : Nat} (h : depth < loopLimit) (ctx : Context) (path : String)
    (body : List Node) (source : String) (line : Nat) :
    r.node depth ctx (.loop path body source line) =
      String.join ((entered ctx (loopItems ctx path)).map
        fun inner => r.nodes (depth + 1) inner body) := by
  rw [node, if_neg (Nat.not_le.2 h)]

mutual

/-- **A node shows what is left of it** when the loops in it are cut off at the limit: the levels that
are left are those that the renderer has not yet entered. -/
theorem node_pruned (n : Node) (levels depth : Nat) (h : depth + levels = loopLimit)
    (ctx : Context) : r.node depth ctx (n.pruned levels) = r.node depth ctx n := by
  cases n with
  | text | «variable» | phrase => rw [pruned]
  | loop path body source line =>
    cases levels with
    | zero =>
      have hlimit : depth ≥ loopLimit := Nat.le_of_eq h.symm
      rw [pruned, node, node, if_pos hlimit]
    | succ levels =>
      have hdepth : depth < loopLimit := by omega
      have hbody : ∀ inner, r.nodes (depth + 1) inner (prunedAll levels body) =
          r.nodes (depth + 1) inner body :=
        nodes_prunedAll body levels (depth + 1) (by omega)
      rw [pruned, r.node_loop hdepth, r.node_loop hdepth]
      simp only [hbody]
  | conditional condition negated shown hidden line =>
    rw [pruned, node, node, nodes_prunedAll shown levels depth h,
      nodes_prunedAll hidden levels depth h]

/-- **Nodes show what is left of them** when the loops in them are cut off at the limit. -/
theorem nodes_prunedAll (ns : List Node) (levels depth : Nat) (h : depth + levels = loopLimit)
    (ctx : Context) : r.nodes depth ctx (prunedAll levels ns) = r.nodes depth ctx ns := by
  cases ns with
  | nil => rw [prunedAll]
  | cons n rest =>
    rw [prunedAll, nodes, nodes, node_pruned n levels depth h, nodes_prunedAll rest levels depth h]

end

mutual

/-- A node whose loops are within the limit is rendered however they were written. -/
theorem node_withSources (respell : String → String) (n : Node) (depth : Nat)
    (h : depth + n.loopDepth ≤ loopLimit) (ctx : Context) :
    r.node depth ctx (n.withSources respell) = r.node depth ctx n := by
  cases n with
  | text | «variable» | phrase => rw [withSources]
  | loop path body source line =>
    rw [loopDepth] at h
    have hdepth : depth < loopLimit := by omega
    have hbody : ∀ inner, r.nodes (depth + 1) inner (withSourcesAll respell body) =
        r.nodes (depth + 1) inner body :=
      nodes_withSourcesAll respell body (depth + 1) (by omega)
    rw [withSources, r.node_loop hdepth, r.node_loop hdepth]
    simp only [hbody]
  | conditional condition negated shown hidden line =>
    rw [loopDepth] at h
    rw [withSources, node, node, nodes_withSourcesAll respell shown depth (by omega),
      nodes_withSourcesAll respell hidden depth (by omega)]

/-- **Nodes whose loops are within the limit** are rendered however the loops were written. -/
theorem nodes_withSourcesAll (respell : String → String) (ns : List Node) (depth : Nat)
    (h : depth + loopsDepth ns ≤ loopLimit) (ctx : Context) :
    r.nodes depth ctx (withSourcesAll respell ns) = r.nodes depth ctx ns := by
  cases ns with
  | nil => rw [withSourcesAll]
  | cons n rest =>
    rw [loopsDepth] at h
    rw [withSourcesAll, nodes, nodes, node_withSources respell n depth (by omega),
      nodes_withSourcesAll respell rest depth (by omega)]

end

/-- **The limit on loops is one of the text of a template.** Whatever the context is, a template is
rendered like the one in which each loop that stands in ten others is the text it was written as. In
that one loops are nested ten deep at most. A template which is so already is left as it is, and then
what its loops were written as makes no difference: none of it is ever shown. -/
theorem template_pruned (t : Template) (ctx : Context) :
    r.template { t with nodes := prunedAll 10 t.nodes } ctx = r.template t ctx ∧
      loopsDepth (prunedAll 10 t.nodes) ≤ 10 ∧
      (loopsDepth t.nodes ≤ 10 → prunedAll 10 t.nodes = t.nodes ∧
        ∀ respell : String → String,
          r.template { t with nodes := withSourcesAll respell t.nodes } ctx = r.template t ctx) := by
  refine ⟨?_, loopsDepth_prunedAll_le t.nodes 10, fun hdepth =>
    ⟨prunedAll_eq_self t.nodes 10 hdepth, fun respell => ?_⟩⟩
  · rw [template_eq_nodes, template_eq_nodes]
    exact r.nodes_prunedAll t.nodes 10 0 rfl ctx
  · rw [template_eq_nodes, template_eq_nodes]
    exact r.nodes_withSourcesAll respell t.nodes 0 (by rw [Nat.zero_add]; exact hdepth) ctx

/-- Loops in one another over a list of one item, eleven and ten. -/
theorem template_pruned_eleven :
    let r := ofSettings {} {} .english none
    let ctx := Context.ofLayers [] [("a", .arr [.null])]
    let looped : List Node → List Node := fun ns => [.loop "a" ns "as written" 1]
    let nested : Nat → Template := fun levels => ⟨Nat.repeat looped levels [.text "x"], []⟩
    r.template (nested 11) ctx = "as written" ∧
      r.template { nested 11 with nodes := prunedAll 10 (nested 11).nodes } ctx = "as written" ∧
      loopsDepth (nested 10).nodes ≤ 10 ∧
      r.template { nested 10 with nodes := withSourcesAll (fun _ => "otherwise") (nested 10).nodes } ctx =
        "x" := by
  intro r ctx looped nested
  have hdeep : r.template (nested 11) ctx = "as written" := by decide +kernel
  have hdepth : loopsDepth (nested 10).nodes ≤ 10 := by decide
  have hwithin : r.template (nested 10) ctx = "x" := by decide +kernel
  obtain ⟨hpruned, -, -⟩ := r.template_pruned (nested 11) ctx
  obtain ⟨-, -, hlimit⟩ := r.template_pruned (nested 10) ctx
  exact ⟨hdeep, hpruned.trans hdeep, hdepth, ((hlimit hdepth).2 _).trans hwithin⟩

end Renderer

end Storefront
