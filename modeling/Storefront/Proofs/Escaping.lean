import Storefront.Proofs.Drafting

/-!
# What escaping keeps out of a page

Escaped text is *inert* in a page: it holds none of the characters that open or
close anything, and an ampersand in it begins one of the seven entities that
escaping writes. Inert texts may be put after one another
(`Markup.Inert.append`), so a page is inert as soon as each of its parts is.

A template contributes parts of its own, which are inert when its literal text
has no special characters and its loops are expanded. All other parts are
variables, and a variable has exactly one output that is not escaped, the
fragment for a product's stock status. What the value of a variable is and along
which way it became text does not matter: `Renderer.output` is escaped as a
whole, behind all those ways.
-/

namespace Storefront

namespace Markup

/-! ## Inert text -/

/-- The characters that open or close something in a page. -/
def marks : List Char := ['<', '>', '"', '\'', '\x60', '=']

/-- The characters that are written as entities. -/
def specials : List Char := '&' :: marks

/-- The entities that escaping writes. -/
def entities : List String :=
  ["&amp;", "&lt;", "&gt;", "&quot;", "&#x27;", "&#x60;", "&#x3D;"]

/-- **Text that is inert in a page**: it has no marks, and an ampersand in it begins an entity. -/
structure Inert (cs : List Char) : Prop where
  /-- There is no mark in it. -/
  unmarked : ∀ c ∈ cs, c ∉ marks
  /-- An ampersand begins an entity. -/
  entity_of_amp : ∀ before after, cs = before ++ '&' :: after →
    ∃ e ∈ entities, e.toList <+: '&' :: after

theorem Inert.nil : Inert [] where
  unmarked _ hc := absurd hc List.not_mem_nil
  entity_of_amp _ _ h := absurd h.symm (by simp)

theorem Inert.append {a b : List Char} (ha : Inert a) (hb : Inert b) : Inert (a ++ b) where
  unmarked c hc := (List.mem_append.1 hc).elim (ha.unmarked c) (hb.unmarked c)
  entity_of_amp before after h := by
    obtain ⟨rest, rfl, hrest⟩ | ⟨rest, rfl, hrest⟩ := List.append_eq_append_iff.1 h
    · exact hb.entity_of_amp rest after hrest
    · cases rest with
      | nil => exact hb.entity_of_amp [] after hrest.symm
      | cons c rest =>
        -- the ampersand is in the first text, and so is its whole entity
        obtain ⟨rfl, rfl⟩ := List.cons.inj hrest
        obtain ⟨e, he, hprefix⟩ := ha.entity_of_amp before rest rfl
        exact ⟨e, he, hprefix.trans (List.prefix_append ('&' :: rest) b)⟩

theorem Inert.flatMap {α : Type} {f : α → List Char} {l : List α} (h : ∀ a ∈ l, Inert (f a)) :
    Inert (l.flatMap f) := by
  induction l with
  | nil => exact .nil
  | cons a l ih =>
    obtain ⟨ha, hl⟩ := List.forall_mem_cons.1 h
    rw [List.flatMap_cons]
    exact ha.append (ih hl)

/-- Text without special characters is inert. -/
theorem inert_of_not_special {cs : List Char} (h : ∀ c ∈ cs, c ∉ specials) : Inert cs where
  unmarked c hc hmark := h c hc (List.mem_cons_of_mem _ hmark)
  entity_of_amp _ _ hcs :=
    absurd List.mem_cons_self (h '&' (hcs ▸ List.mem_append_right _ List.mem_cons_self))

/-! ## Escaping -/

theorem entity_of_not_special {c : Char} (hc : c ∉ specials) : entity c = [c] := by
  simp only [specials, marks, List.mem_cons, List.not_mem_nil, or_false, not_or] at hc
  unfold entity
  simp only [hc, if_false]

/-- Text without special characters stays as it is. -/
theorem escape_of_not_special {s : String} (h : ∀ c ∈ s.toList, c ∉ specials) : escape s = s := by
  have hentity : s.toList.map entity = s.toList.map fun c => [c] :=
    List.map_congr_left fun c hc => entity_of_not_special (h c hc)
  rw [escape, escapeChars, List.flatMap_def, hentity, ← List.flatMap_def, List.flatMap_singleton',
    String.ofList_toList]

/-- A character is written as itself or, when it is special, as an entity. -/
theorem entity_cases (c : Char) :
    (c ∉ specials ∧ entity c = [c]) ∨ ∃ e ∈ entities, entity c = e.toList := by
  by_cases hc : c ∈ specials
  · right
    simp only [specials, marks, List.mem_cons, List.not_mem_nil, or_false] at hc
    obtain rfl | rfl | rfl | rfl | rfl | rfl | rfl := hc
    · exact ⟨"&amp;", by decide, rfl⟩
    · exact ⟨"&lt;", by decide, rfl⟩
    · exact ⟨"&gt;", by decide, rfl⟩
    · exact ⟨"&quot;", by decide, rfl⟩
    · exact ⟨"&#x27;", by decide, rfl⟩
    · exact ⟨"&#x60;", by decide, rfl⟩
    · exact ⟨"&#x3D;", by decide, rfl⟩
  · exact .inl ⟨hc, entity_of_not_special hc⟩

/-- The only ampersand of an entity is its first character, and it has no marks. -/
theorem entities_shape : ∀ e ∈ entities,
    e.toList = '&' :: e.toList.tail ∧ ∀ c ∈ e.toList.tail, c ∉ specials := by
  simp [entities, specials, marks]

theorem inert_entities {e : String} (he : e ∈ entities) : Inert e.toList := by
  obtain ⟨hshape, htail⟩ := entities_shape e he
  constructor
  · intro c hc hmark
    rw [hshape] at hc
    obtain rfl | hc := List.mem_cons.1 hc
    · exact absurd hmark (by decide)
    · exact htail c hc (List.mem_cons_of_mem _ hmark)
  · intro before after h
    cases before with
    | nil => exact ⟨e, he, h ▸ List.prefix_rfl⟩
    | cons c before =>
      rw [hshape] at h
      obtain ⟨-, htl⟩ := List.cons.inj h
      exact absurd List.mem_cons_self
        (htail '&' (htl ▸ List.mem_append_right _ List.mem_cons_self))

theorem inert_entity (c : Char) : Inert (entity c) := by
  obtain ⟨hc, h⟩ | ⟨e, he, h⟩ := entity_cases c
  · rw [h]
    exact inert_of_not_special (List.forall_mem_singleton.2 hc)
  · rw [h]
    exact inert_entities he

/-- **Escaped text is inert.** -/
theorem inert_escape (s : String) : Inert (escape s).toList := by
  rw [escape, String.toList_ofList]
  exact Inert.flatMap fun c _ => inert_entity c

end Markup

/-! ## Templates -/

namespace Node

/-- **A node whose output is escaped or its own plain text**: it has no raw variable, no phrase, no
stock status of a product and no special character in its text. -/
inductive Guarded : Node → Prop
  | text {s : String} (h : ∀ c ∈ s.toList, c ∉ Markup.specials) : Guarded (.text s)
  | escaped {path : String} (h : Path.normalized path ≠ "product.stock_status") :
      Guarded (.variable path false)
  | loop {path : String} {body : List Node} {source : String} {line : Nat}
      (h : ∀ n ∈ body, Guarded n) : Guarded (.loop path body source line)
  | conditional {condition : String} {negated : Bool} {shown hidden : List Node} {line : Nat}
      (hshown : ∀ n ∈ shown, Guarded n) (hhidden : ∀ n ∈ hidden, Guarded n) :
      Guarded (.conditional condition negated shown hidden line)

mutual

/-- How deep loops are nested in a node. -/
def loopDepth : Node → Nat
  | .loop _ body _ _ => loopsDepth body + 1
  | .conditional _ _ shown hidden _ => max (loopsDepth shown) (loopsDepth hidden)
  | .text _ => 0
  | .variable _ _ => 0
  | .phrase _ => 0

/-- How deep loops are nested in a list of nodes. -/
def loopsDepth : List Node → Nat
  | [] => 0
  | n :: rest => max (loopDepth n) (loopsDepth rest)

end

end Node

namespace Renderer

open Markup

variable (r : Renderer)

theorem inert_variableText (ctx : Context) {path : String}
    (h : Path.normalized path ≠ "product.stock_status") :
    Inert (r.variableText ctx path false).toList := by
  have htext : ∃ s, r.output ctx path = .text s := by
    unfold output
    simp only [h, if_false]
    split
    · exact ⟨_, rfl⟩
    · split
      · exact ⟨_, rfl⟩
      · split
        · exact ⟨_, rfl⟩
        · exact ⟨_, rfl⟩
  obtain ⟨s, hs⟩ := htext
  rw [variableText, hs]
  exact inert_escape s

/-- The texts of inert nodes are inert together. -/
theorem inert_nodes {ns : List Node} {depth : Nat} {ctx : Context}
    (h : ∀ n ∈ ns, depth + n.loopDepth ≤ loopLimit → Inert (r.node depth ctx n).toList)
    (hdepth : depth + Node.loopsDepth ns ≤ loopLimit) : Inert (r.nodes depth ctx ns).toList := by
  induction ns with
  | nil => exact .nil
  | cons n ns ih =>
    obtain ⟨hn, hns⟩ := List.forall_mem_cons.1 h
    rw [Node.loopsDepth] at hdepth
    rw [nodes, String.toList_append]
    exact (hn (by omega)).append (ih hns (by omega))

/-- **A guarded node is inert** inside so many loops that its own are expanded. -/
theorem inert_node {n : Node} (h : n.Guarded) :
    ∀ (depth : Nat) (ctx : Context), depth + n.loopDepth ≤ loopLimit →
      Inert (r.node depth ctx n).toList := by
  induction h with
  | text hs => exact fun depth ctx _ => inert_of_not_special hs
  | escaped hpath => exact fun depth ctx _ => inert_variableText r ctx hpath
  | @loop path body source line _ ih =>
    intro depth ctx hdepth
    rw [Node.loopDepth] at hdepth
    rw [node, if_neg (by omega), String.toList_join, List.flatMap_map]
    refine Inert.flatMap fun inner _ => ?_
    exact inert_nodes r (fun n hn => ih n hn (depth + 1) inner) (by omega)
  | @conditional condition negated shown hidden line _ _ ihshown ihhidden =>
    intro depth ctx hdepth
    rw [Node.loopDepth] at hdepth
    rw [node]
    split
    · exact inert_nodes r (fun n hn => ihshown n hn depth ctx) (by omega)
    · exact inert_nodes r (fun n hn => ihhidden n hn depth ctx) (by omega)

/-- **No value can put markup into a page** through a template whose variables are escaped, whose
text is plain and whose loops are nested ten deep at most, whatever the context, the settings, the
store, the locale and the currency are. -/
theorem inert_template (settings : Settings) (store : Store) (locale : Locale)
    (override : Option String) (t : Template) (ctx : Context) (hguarded : ∀ n ∈ t.nodes, n.Guarded)
    (hdepth : Node.loopsDepth t.nodes ≤ 10) :
    Inert ((ofSettings settings store locale override).template t ctx).toList := by
  rw [template_eq_nodes]
  exact inert_nodes _ (fun n hn => inert_node _ (hguarded n hn) 0 ctx)
    (by rw [Nat.zero_add]; exact hdepth)

/-- A page that shows a name with markup in it and loops over values with marks and entities. -/
theorem inert_template_greeting :
    let t : Template :=
      ⟨[.text "Hello ", .variable "name" false,
        .loop "items" [.conditional "this" true [.text "none"] [.variable "this" false] 1]
          "<never shown>" 1], []⟩
    let ctx : Context := .ofLayers [] [("name", .str "<i title=\"x\">&lt;"),
      ("items", .arr [.str "a='b'", .null, .str "&amp;"])]
    ((∀ n ∈ t.nodes, n.Guarded) ∧ Node.loopsDepth t.nodes ≤ 10) ∧
      Inert ((ofSettings {} {} .english none).template t ctx).toList := by
  intro t ctx
  have hinloop : Node.Guarded
      (.conditional "this" true [.text "none"] [.variable "this" false] 1) := by
    refine .conditional (List.forall_mem_singleton.2 (.text ?_))
      (List.forall_mem_singleton.2 (.escaped (by decide)))
    simp [specials, marks]
  have hguarded : ∀ n ∈ t.nodes, n.Guarded := by
    refine List.forall_mem_cons.2 ⟨.text ?_, List.forall_mem_cons.2 ⟨.escaped (by decide), ?_⟩⟩
    · simp [specials, marks]
    · exact List.forall_mem_singleton.2 (.loop (List.forall_mem_singleton.2 hinloop))
  have hdepth : Node.loopsDepth t.nodes ≤ 10 := by decide
  exact ⟨⟨hguarded, hdepth⟩, inert_template {} {} .english none t ctx hguarded hdepth⟩

end Renderer

end Storefront
