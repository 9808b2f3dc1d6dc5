import Storefront.Proofs.Escaping
import Storefront.Text.Search

/-!
# Reading escaped text back

What a page shows is read off it from left to right: where one of the seven
entities begins, the character that it stands for is read, and anywhere else the
character that is there (`Markup.unescape`). Read in this way, escaped text is
the text that was escaped, also when that looked like an entity, whole or in
parts.

Reading is unambiguous for two reasons. An entity begins with an ampersand, and
no ampersand is left by escaping but at the beginning of an entity, so in a
character that was left alone nothing else is read
(`readEntity?_of_not_special`). And no entity goes on as another one, so where
one begins it is that one that is read, whatever comes behind it
(`readEntity?_append`).
-/

namespace Storefront.Markup

/-! ## Entities as they are read -/

/-- **What the entities stand for.** -/
def meanings : List (String × Char) :=
  [("&amp;", '&'), ("&lt;", '<'), ("&gt;", '>'), ("&quot;", '"'), ("&#x27;", '\''),
    ("&#x60;", '\x60'), ("&#x3D;", '=')]

/-- The character that the entity at the beginning of a text stands for, and what follows the
entity. -/
def readEntity? (cs : List Char) : Option (Char × List Char) :=
  meanings.findSome? fun (e, c) => (Text.after? e.toList cs).map fun rest => (c, rest)

theorem exists_of_readEntity? {cs rest : List Char} {c : Char} (h : readEntity? cs = some (c, rest)) :
    ∃ e, (e, c) ∈ meanings ∧ cs = e.toList ++ rest := by
  obtain ⟨⟨e, d⟩, hmem, hread⟩ := List.exists_of_findSome?_eq_some h
  obtain ⟨behind, hbehind, hpair⟩ := Option.map_eq_some_iff.1 hread
  obtain ⟨rfl, rfl⟩ := Prod.mk.inj hpair
  exact ⟨e, hmem, Text.after?_eq_some_iff.1 hbehind⟩

/-- The entities that are read are those that are written. -/
theorem mem_entities_of_mem_meanings {e : String} {c : Char} (h : (e, c) ∈ meanings) :
    e ∈ entities :=
  List.mem_map_of_mem (f := Prod.fst) h

/-- A character is written as the entity that stands for it. -/
theorem exists_meaning {c : Char} (hc : c ∈ specials) :
    ∃ e, (e, c) ∈ meanings ∧ entity c = e.toList := by
  have hwritten : ∀ p ∈ meanings, entity p.2 = p.1.toList := by decide
  obtain ⟨⟨e, d⟩, hmem, rfl⟩ := List.mem_map.1 (show c ∈ meanings.map Prod.snd from hc)
  exact ⟨e, hmem, hwritten (e, d) hmem⟩

theorem length_of_readEntity? {cs rest : List Char} {c : Char}
    (h : readEntity? cs = some (c, rest)) : rest.length < cs.length := by
  obtain ⟨e, hmem, rfl⟩ := exists_of_readEntity? h
  rw [(entities_shape e (mem_entities_of_mem_meanings hmem)).1, List.cons_append, List.length_cons,
    List.length_append]
  omega

/-- No entity begins with a character other than an ampersand. -/
theorem readEntity?_of_not_special {c : Char} (hc : c ∉ specials) (cs : List Char) :
    readEntity? (c :: cs) = none := by
  cases h : readEntity? (c :: cs) with
  | none => rfl
  | some read =>
    obtain ⟨e, hmem, hcs⟩ := exists_of_readEntity? h
    rw [(entities_shape e (mem_entities_of_mem_meanings hmem)).1, List.cons_append] at hcs
    obtain ⟨rfl, -⟩ := List.cons.inj hcs
    exact absurd List.mem_cons_self hc

/-- **No entity goes on as another one**: the entity at the beginning of a text is the one that is
read. -/
theorem readEntity?_append {e : String} {c : Char} (h : (e, c) ∈ meanings) (rest : List Char) :
    readEntity? (e.toList ++ rest) = some (c, rest) := by
  simp only [meanings, List.mem_cons, List.not_mem_nil, or_false, Prod.mk.injEq] at h
  obtain ⟨rfl, rfl⟩ | ⟨rfl, rfl⟩ | ⟨rfl, rfl⟩ | ⟨rfl, rfl⟩ | ⟨rfl, rfl⟩ | ⟨rfl, rfl⟩ | ⟨rfl, rfl⟩ := h
  all_goals rfl

/-! ## Texts as they are read -/

/-- Characters of a page as they are read: an entity as the character that it stands for, any other
character as itself. -/
def unescapeChars (cs : List Char) : List Char :=
  match cs with
  | [] => []
  | c :: cs =>
    match _ : readEntity? (c :: cs) with
    | some (d, rest) => d :: unescapeChars rest
    | none => c :: unescapeChars cs
termination_by cs.length
decreasing_by
  · exact length_of_readEntity? ‹_›
  · exact Nat.lt_succ_self _

/-- **A text of a page as it is read.** -/
def unescape (s : String) : String := String.ofList (unescapeChars s.toList)

theorem unescapeChars_of_readEntity? {cs rest : List Char} {c : Char}
    (h : readEntity? cs = some (c, rest)) : unescapeChars cs = c :: unescapeChars rest := by
  cases cs with
  | nil => exact absurd (length_of_readEntity? h) (Nat.not_lt_zero _)
  | cons d cs =>
    rw [unescapeChars]
    split
    · next hread =>
      obtain ⟨rfl, rfl⟩ := Prod.mk.inj (Option.some.inj (hread.symm.trans h))
      rfl
    · next hread => exact absurd (hread.symm.trans h) (Option.some_ne_none _).symm

theorem unescapeChars_of_readEntity?_eq_none {c : Char} {cs : List Char}
    (h : readEntity? (c :: cs) = none) : unescapeChars (c :: cs) = c :: unescapeChars cs := by
  rw [unescapeChars]
  split
  · next hread => exact absurd (h.symm.trans hread) (Option.some_ne_none _).symm
  · rfl

/-- **A character is read as it was**, whatever follows it. -/
theorem unescapeChars_entity_append (c : Char) (rest : List Char) :
    unescapeChars (entity c ++ rest) = c :: unescapeChars rest := by
  by_cases hc : c ∈ specials
  · obtain ⟨e, hmem, he⟩ := exists_meaning hc
    rw [he]
    exact unescapeChars_of_readEntity? (readEntity?_append hmem rest)
  · rw [entity_of_not_special hc]
    exact unescapeChars_of_readEntity?_eq_none (readEntity?_of_not_special hc rest)

theorem unescapeChars_escapeChars (cs : List Char) : unescapeChars (escapeChars cs) = cs := by
  induction cs with
  | nil => rw [escapeChars, List.flatMap_nil, unescapeChars]
  | cons c cs ih =>
    rw [escapeChars, List.flatMap_cons, unescapeChars_entity_append, ← escapeChars, ih]

/-! ## Escaping -/

theorem escape_append (s t : String) : escape (s ++ t) = escape s ++ escape t := by
  rw [escape, String.toList_append, escapeChars, List.flatMap_append, String.ofList_append]
  rfl

/-- **An entity is escaped like other text**: its ampersand is, and nothing else of it. -/
theorem escape_entity {name : String} (h : "&" ++ name ∈ entities) :
    escape ("&" ++ name) = "&amp;" ++ name := by
  obtain ⟨-, htail⟩ := entities_shape _ h
  rw [String.toList_append] at htail
  rw [escape_append, escape_of_not_special htail]
  rfl

/-- **Escaping can be undone.** Escaped text, with its entities read from left to right, is the text
that was escaped. It has no marks, and no ampersands but those that begin an entity. Texts are escaped
part by part, and an entity in a text is a part like any other: what stands in the page is its
escaped ampersand and its name, so that it is not taken for the character it stands for. -/
theorem escape_reversible (s t : String) :
    unescape (escape s) = s ∧ Inert (escape s).toList ∧ escape (s ++ t) = escape s ++ escape t ∧
      ∀ name, "&" ++ name ∈ entities →
        escape (s ++ ("&" ++ name) ++ t) = escape s ++ ("&amp;" ++ name) ++ escape t := by
  refine ⟨?_, inert_escape s, escape_append s t, fun name hname => ?_⟩
  · rw [unescape, escape, String.toList_ofList, unescapeChars_escapeChars, String.ofList_toList]
  · rw [escape_append, escape_append, escape_entity hname]

/-- A text with an entity in it, with parts of others around that, is not taken for markup. -/
theorem escape_reversible_entity :
    "&" ++ "lt;" ∈ entities ∧
      escape ("&#x27" ++ ("&" ++ "lt;") ++ "amp;<") = "&amp;#x27&amp;lt;amp;&lt;" ∧
      unescape "&amp;#x27&amp;lt;amp;&lt;" = "&#x27&lt;amp;<" := by
  have hmem : "&" ++ "lt;" ∈ entities := by decide
  obtain ⟨-, -, -, hentity⟩ := escape_reversible "&#x27" "amp;<"
  have hescape : escape ("&#x27" ++ ("&" ++ "lt;") ++ "amp;<") = "&amp;#x27&amp;lt;amp;&lt;" :=
    hentity "lt;" hmem
  obtain ⟨hread, -⟩ := escape_reversible ("&#x27" ++ ("&" ++ "lt;") ++ "amp;<") ""
  rw [hescape] at hread
  exact ⟨hmem, hescape, hread⟩

end Storefront.Markup
