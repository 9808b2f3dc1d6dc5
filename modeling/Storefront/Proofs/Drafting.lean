import Storefront.Render.Render

/-!
# Writing leaves the context as it was

A page is written with one context for all its nodes. A loop pushes the frames of
an item on it, one frame or two, and has to pop as many: with one frame too few
the fields of an item would be seen by everything that is written after the loop,
and with one too many the page would lose its own variables.

`Renderer.Adds` is what keeps the count right: a writer adds its text to a draft
and hands back the context that it was given. One pass of a loop is such a writer
as soon as its body is (`Adds.pass`), hence the whole loop is (`Adds.foldl_pass`),
and by the recursion of the tree so is every list of nodes (`writeNodes_eq`). What
nodes write in a context is therefore their text in it, whatever was written
before them.
-/

namespace Storefront

namespace Renderer

namespace Draft

variable (d : Draft)

@[simp] theorem ctx_put (s : String) : (d.put s).ctx = d.ctx := rfl

@[simp] theorem text_put (s : String) : (d.put s).text = d.text ++ s := rfl

theorem put_empty : d.put "" = d := by
  rw [put, String.append_empty]

theorem put_put (s t : String) : (d.put s).put t = d.put (s ++ t) := by
  rw [put, put, put, String.append_assoc]

end Draft

/-! ## Loops -/

/-- **The frames that are pushed for an item are popped again.** -/
theorem popped_enter (ctx : Context) (index count : Nat) (item : Value) :
    (enter ctx index count item).popped (frameCount item) = ctx := by
  cases item with
  | obj fields => rfl
  | null | bool | num | str | arr => rfl

/-- **A writer that only adds text**, which depends on the context alone: the draft keeps its
context. -/
def Adds (write : Draft → Draft) (shown : Context → String) : Prop :=
  ∀ d, write d = d.put (shown d.ctx)

section Adds

variable {body : Draft → Draft} {shown : Context → String} (h : Adds body shown)
include h

/-- One pass of a loop shows its body in the context of the item, and only adds that. -/
theorem Adds.pass (count : Nat) (d : Draft) (item : Value) (index : Nat) :
    pass body count d (item, index) = d.put (shown (enter d.ctx index count item)) := by
  rw [Renderer.pass, h]
  simp only [Draft.put, popped_enter]

/-- So do all passes together, each of which starts in the context of the first. -/
theorem Adds.foldl_pass (count : Nat) (items : List (Value × Nat)) (d : Draft) :
    items.foldl (Renderer.pass body count) d =
      d.put (String.join (items.map fun (item, index) => shown (enter d.ctx index count item))) := by
  induction items generalizing d with
  | nil => exact d.put_empty.symm
  | cons e rest ih =>
    obtain ⟨item, index⟩ := e
    rw [List.foldl_cons, h.pass, ih, Draft.put_put, Draft.ctx_put, List.map_cons, String.join_cons]

end Adds

/-! ## Nodes -/

mutual

/-- **A node is written as its text in the context**, and leaves the context as it was. -/
theorem writeNode_eq (r : Renderer) (n : Node) (depth : Nat) (d : Draft) :
    r.writeNode depth d n = d.put (r.node depth d.ctx n) := by
  cases n with
  | text s => rw [writeNode, node]
  | «variable» path raw => rw [writeNode, node]
  | phrase key => rw [writeNode, node]
  | loop path body source line =>
    have hbody : Adds (fun inner => r.writeNodes (depth + 1) inner body)
        (fun ctx => r.nodes (depth + 1) ctx body) := writeNodes_eq r body (depth + 1)
    rw [writeNode, node]
    split
    · rfl
    · rw [hbody.foldl_pass, entered, List.map_map]
      rfl
  | conditional condition negated shown hidden line =>
    rw [writeNode, node]
    split
    · exact writeNodes_eq r shown depth d
    · exact writeNodes_eq r hidden depth d

/-- **Nodes are written as their text in the context**, and leave the context as it was. -/
theorem writeNodes_eq (r : Renderer) (ns : List Node) (depth : Nat) (d : Draft) :
    r.writeNodes depth d ns = d.put (r.nodes depth d.ctx ns) := by
  cases ns with
  | nil => rw [writeNodes, nodes, Draft.put_empty]
  | cons n rest =>
    rw [writeNodes, nodes, writeNode_eq r n, writeNodes_eq r rest, Draft.put_put, Draft.ctx_put]

end

/-- A template shows the texts of its nodes in the context. -/
theorem template_eq_nodes (r : Renderer) (t : Template) (ctx : Context) :
    r.template t ctx = r.nodes 0 ctx t.nodes := by
  rw [template, writeNodes_eq, Draft.text_put, String.empty_append]

theorem nodes_append (r : Renderer) (depth : Nat) (ctx : Context) (a b : List Node) :
    r.nodes depth ctx (a ++ b) = r.nodes depth ctx a ++ r.nodes depth ctx b := by
  induction a with
  | nil => rw [List.nil_append, nodes, String.empty_append]
  | cons n rest ih => rw [List.cons_append, nodes, nodes, ih, String.append_assoc]

/-- **Rendering is compositional.** Whatever nodes are written, at any depth and with loops of any
kind among them, the context afterwards is the one before, frame by frame; so nodes that follow
others write what they write first of all in that same context, and a template put together of two
shows one after the other. -/
theorem writeNodes_append (r : Renderer) (depth : Nat) (d : Draft) (a b : List Node) :
    (r.writeNodes depth d a).ctx = d.ctx ∧
      r.writeNodes depth d (a ++ b) =
        (d.put (r.writeNodes depth ⟨d.ctx, ""⟩ a).text).put
          (r.writeNodes depth ⟨d.ctx, ""⟩ b).text ∧
      ∀ (ctx : Context) (ds es : List Diagnostic),
        r.template ⟨a ++ b, ds ++ es⟩ ctx = r.template ⟨a, ds⟩ ctx ++ r.template ⟨b, es⟩ ctx := by
  have halone : ∀ ns, (r.writeNodes depth ⟨d.ctx, ""⟩ ns).text = r.nodes depth d.ctx ns := fun ns => by
    rw [writeNodes_eq, Draft.text_put, String.empty_append]
  refine ⟨?_, ?_, fun ctx ds es => ?_⟩
  · rw [writeNodes_eq, Draft.ctx_put]
  · rw [writeNodes_eq, nodes_append, halone, halone, Draft.put_put]
  · rw [template_eq_nodes, template_eq_nodes, template_eq_nodes, nodes_append]

end Renderer

end Storefront
