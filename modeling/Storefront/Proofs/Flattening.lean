import Mathlib.Data.List.Nodup
import Storefront.Proofs.Merging

/-!
# Flat and nested tables

A table of phrases may be nested, as objects in objects, or flat, with each leaf under its full
path, which is the keys on the way with points between. It does not matter which: the same
phrases are found in both (`Catalog.phraseIn?_spread`).

Paths are compared key by key first, and there a leaf is found under the path that leads to it
(`Value.lookup_leaves`), since objects hold no key twice. No key has a point in it, so a path is
known from its text, and the text of a key that is looked up is taken apart in the one way in
which it may have been put together.

Each entry of a table may be flattened or not by itself (`Object.spread`). Nothing is found
twice: a key that is found whole in the flattened part would be found there by its segments only
if it has a single one, and a key that is found by its segments in the other part stands there
whole only if it has a single one.

It follows that two catalogs with the same tables, each of them in one form here and in another
there (`Catalog.Reshaped`), translate alike.
-/

namespace Storefront

/-! ## Nested tables -/

/-- **A nested value**: a leaf, or an object of nested values in whose keys there is no point and
of whose keys none is there twice. -/
inductive Value.Nested : Value → Prop where
  | leaf {v : Value} (h : v.object? = none) : Nested v
  | table {entries : Object} (distinct : entries.Distinct) (undotted : entries.Undotted)
      (values_nested : ∀ e ∈ entries, Nested e.2) : Nested (.obj entries)

mutual

/-- **The leaves of a value** that is reached by a path, each with its full path. -/
def Value.leaves (path : List (List Char)) : Value → List (List (List Char) × Value)
  | .obj entries => leavesIn path entries
  | v => [(path, v)]

/-- The leaves of the values in an object that is reached by a path. -/
def Value.leavesIn (path : List (List Char)) :
    List (String × Value) → List (List (List Char) × Value)
  | [] => []
  | (key, v) :: rest => leaves (path ++ [key.toList]) v ++ leavesIn path rest

end

/-- The text of a path: the keys with points between. -/
def dotted (path : List (List Char)) : String := String.ofList (['.'].intercalate path)

namespace Object

/-- The values of a table with their paths: the leaves of the entries that are flattened, and the
other entries as they are. -/
def places (flat : String → Bool) (table : Object) : List (List (List Char) × Value) :=
  table.flatMap fun (key, v) =>
    if flat key = true then v.leaves [key.toList] else [([key.toList], v)]

/-- **A table of which some entries are flattened**, each of their leaves under its full path. -/
def spread (table : Object) (flat : String → Bool) : Object :=
  (table.places flat).map fun (path, v) => (dotted path, v)

end Object

/-! ## Leaves by their paths -/

namespace Value

theorem Nested.of_obj {entries : Object} (h : (Value.obj entries).Nested) :
    entries.Distinct ∧ entries.Undotted ∧ ∀ e ∈ entries, e.2.Nested := by
  cases h with
  | leaf h => cases h
  | table distinct undotted values_nested => exact ⟨distinct, undotted, values_nested⟩

theorem leaves_of_object? {v : Value} (h : v.object? = none) (path : List (List Char)) :
    v.leaves path = [(path, v)] := by
  cases v with
  | obj entries => cases h
  | _ => rfl

theorem leavesIn_eq_flatMap (path : List (List Char)) (entries : Object) :
    leavesIn path entries = entries.flatMap fun e => e.2.leaves (path ++ [e.1.toList]) := by
  induction entries with
  | nil => rfl
  | cons e rest ih =>
    obtain ⟨key, v⟩ := e
    rw [leavesIn, ih, List.flatMap_cons]

theorem leaves_obj (path : List (List Char)) (entries : Object) :
    (Value.obj entries).leaves path = entries.flatMap fun e => e.2.leaves (path ++ [e.1.toList]) :=
  leavesIn_eq_flatMap path entries

/-- The path of a leaf begins with the path of the value that it is in. -/
theorem Nested.prefix_of_mem_leaves {v : Value} (h : v.Nested) {path : List (List Char)}
    {e : List (List Char) × Value} (he : e ∈ v.leaves path) : path <+: e.1 := by
  induction h generalizing path with
  | leaf h =>
    rw [leaves_of_object? h, List.mem_singleton] at he
    subst he
    exact List.prefix_rfl
  | table _ _ _ ih =>
    rw [leaves_obj] at he
    obtain ⟨f, hf, he⟩ := List.mem_flatMap.1 he
    exact (List.prefix_append _ _).trans (ih f hf he)

/-- Where values are put under paths that begin with their keys, what is under a path comes from
the value under its first key. -/
theorem lookup_flatMap {entries : Object} (h : entries.Distinct)
    {put : String × Value → List (List (List Char) × Value)} (path : List (List Char))
    (hput : ∀ e ∈ entries, ∀ f ∈ put e, path ++ [e.1.toList] <+: f.1) (s : List Char)
    (rest : List (List Char)) :
    (entries.flatMap put).lookup (path ++ s :: rest) =
      (entries.get? (String.ofList s)).bind fun v =>
        (put (String.ofList s, v)).lookup (path ++ s :: rest) := by
  induction entries with
  | nil => rfl
  | cons e entries ih =>
    obtain ⟨key, v⟩ := e
    obtain ⟨hkey, hentries⟩ := List.nodup_cons.1 h
    obtain ⟨he, hput⟩ := List.forall_mem_cons.1 hput
    rw [List.flatMap_cons, List.lookup_append, ih hentries hput]
    by_cases heq : key = String.ofList s
    · subst heq
      rw [Object.get?_cons_self, Object.get?_eq_none_iff.2 hkey, Option.bind_none, Option.or_none,
        Option.bind_some]
    · have hnone : (put (key, v)).lookup (path ++ s :: rest) = none := by
        refine List.lookup_eq_none_iff.2 fun f hf => bne_iff_ne.2 fun hpath => heq ?_
        have hbegins := he f hf
        rw [← hpath, List.prefix_append_right_inj, List.cons_prefix_cons] at hbegins
        rw [← hbegins.1, String.ofList_toList]
      rw [hnone, Option.none_or, Object.get?_cons_of_ne heq]

/-- Values that are put under paths that begin with their keys are under different paths. -/
theorem nodup_flatMap {entries : Object} (h : entries.Distinct)
    {put : String × Value → List (List (List Char) × Value)} (path : List (List Char))
    (hput : ∀ e ∈ entries, ∀ f ∈ put e, path ++ [e.1.toList] <+: f.1)
    (hnodup : ∀ e ∈ entries, ((put e).map Prod.fst).Nodup) :
    ((entries.flatMap put).map Prod.fst).Nodup := by
  induction entries with
  | nil => exact List.nodup_nil
  | cons e entries ih =>
    obtain ⟨hkey, hentries⟩ := List.nodup_cons.1 h
    obtain ⟨he, hput⟩ := List.forall_mem_cons.1 hput
    obtain ⟨hfirst, hnodup⟩ := List.forall_mem_cons.1 hnodup
    rw [List.flatMap_cons, List.map_append, List.nodup_append]
    refine ⟨hfirst, ih hentries hput hnodup, ?_⟩
    rintro _ ha _ hb rfl
    obtain ⟨f, hf, hpath⟩ := List.mem_map.1 ha
    obtain ⟨g, hg, rfl⟩ := List.mem_map.1 hb
    obtain ⟨e', he', hg⟩ := List.mem_flatMap.1 hg
    -- both keys come next in one path
    have hbegins : path ++ [e.1.toList] <+: path ++ [e'.1.toList] :=
      List.prefix_of_prefix_length_le (hpath ▸ he f hf) (hput e' he' g hg) (by simp)
    rw [List.prefix_append_right_inj, List.cons_prefix_cons] at hbegins
    exact hkey (List.mem_map.2 ⟨e', he', (String.toList_inj.1 hbegins.1).symm⟩)

/-- What a leaf leads to is itself. -/
theorem nested?_of_object? {v : Value} (h : v.object? = none) (s : List Char)
    (rest : List (List Char)) : Catalog.nested? v (s :: rest) = none := by
  cases v with
  | obj entries => cases h
  | _ => rfl

/-- **A leaf is found under the path that leads to it.** -/
theorem Nested.lookup_leaves {v : Value} (h : v.Nested) (path segments : List (List Char)) :
    (v.leaves path).lookup (path ++ segments) =
      (Catalog.nested? v segments).filter fun w => w.object?.isNone := by
  induction h generalizing path segments with
  | @leaf v h =>
    rw [leaves_of_object? h]
    cases segments with
    | nil =>
      rw [List.append_nil, List.lookup_cons_self, Catalog.nested?, Option.filter_some, h,
        Option.isNone_none, if_pos rfl]
    | cons s rest =>
      have hne : path ++ s :: rest ≠ path := by simp
      rw [nested?_of_object? h, Option.filter_none]
      exact List.lookup_eq_none_iff.2 (List.forall_mem_singleton.2 (bne_iff_ne.2 hne))
  | @table entries hdistinct _ hvalues ih =>
    have hput : ∀ e ∈ entries, ∀ f ∈ e.2.leaves (path ++ [e.1.toList]),
        path ++ [e.1.toList] <+: f.1 :=
      fun e he f hf => (hvalues e he).prefix_of_mem_leaves hf
    rw [leaves_obj]
    cases segments with
    | nil =>
      rw [Catalog.nested?, Option.filter_some, if_neg (by simp [object?]), List.lookup_eq_none_iff]
      intro f hf
      obtain ⟨e, he, hf⟩ := List.mem_flatMap.1 hf
      refine bne_iff_ne.2 fun hpath => ?_
      have hlength := (hput e he f hf).length_le
      rw [← hpath, List.append_nil, List.length_append, List.length_singleton] at hlength
      omega
    | cons s rest =>
      rw [lookup_flatMap hdistinct path hput, Catalog.nested?_obj]
      cases hv : entries.get? (String.ofList s) with
      | none => rfl
      | some v =>
        rw [Option.bind_some, Option.bind_some, String.toList_ofList,
          ← ih _ (Object.mem_of_get? hv) (path ++ [s]) rest, List.append_assoc,
          List.singleton_append]

theorem Nested.nodup_leaves {v : Value} (h : v.Nested) (path : List (List Char)) :
    ((v.leaves path).map Prod.fst).Nodup := by
  induction h generalizing path with
  | leaf h =>
    rw [leaves_of_object? h]
    exact List.nodup_singleton _
  | table hdistinct _ hvalues ih =>
    rw [leaves_obj]
    exact nodup_flatMap hdistinct path (fun e he f hf => (hvalues e he).prefix_of_mem_leaves hf)
      fun e he => ih e he _

/-- The leaves of a nested value are under paths without points. -/
theorem Nested.undotted_of_mem_leaves {v : Value} (h : v.Nested) {path : List (List Char)}
    (hpath : ∀ s ∈ path, '.' ∉ s) {e : List (List Char) × Value} (he : e ∈ v.leaves path) :
    ∀ s ∈ e.1, '.' ∉ s := by
  induction h generalizing path with
  | leaf h =>
    rw [leaves_of_object? h] at he
    rwa [List.mem_singleton.1 he]
  | table _ hundotted _ ih =>
    rw [leaves_obj] at he
    obtain ⟨f, hf, he⟩ := List.mem_flatMap.1 he
    have hkey : '.' ∉ f.1.toList := hundotted _ (List.mem_map_of_mem hf)
    exact ih f hf (List.forall_mem_append.2 ⟨hpath, List.forall_mem_singleton.2 hkey⟩) he

end Value

/-! ## Keys -/

theorem notMem_of_mem_splitOn {cs s : List Char} (h : s ∈ cs.splitOn '.') : '.' ∉ s := by
  induction cs generalizing s with
  | nil =>
    rw [List.splitOn_nil, List.mem_singleton] at h
    exact h ▸ List.not_mem_nil
  | cons c cs ih =>
    rw [List.splitOn_cons_eq_if_modifyHead] at h
    split at h
    · obtain rfl | h := List.mem_cons.1 h
      · exact List.not_mem_nil
      · exact ih h
    · next hc =>
      obtain ⟨first, rest, hsplit⟩ := List.exists_cons_of_ne_nil (List.splitOn_ne_nil '.' cs)
      rw [hsplit] at h ih
      obtain rfl | h := List.mem_cons.1 h
      · rw [List.mem_cons, not_or]
        exact ⟨fun heq => hc (heq ▸ beq_self_eq_true _), ih List.mem_cons_self⟩
      · exact ih (List.mem_cons_of_mem _ h)

/-- **A path of keys without points is known from its text.** -/
theorem dotted_eq_iff {path : List (List Char)} (hne : path ≠ []) (h : ∀ s ∈ path, '.' ∉ s)
    {key : String} : dotted path = key ↔ key.toList.splitOn '.' = path := by
  constructor
  · rintro rfl
    rw [dotted, String.toList_ofList, List.splitOn_intercalate _ h hne]
  · rintro rfl
    rw [dotted, List.intercalate_splitOn, String.ofList_toList]

theorem get?_map_dotted {places : List (List (List Char) × Value)}
    (h : ∀ e ∈ places, e.1 ≠ [] ∧ ∀ s ∈ e.1, '.' ∉ s) (key : String) :
    Object.get? (places.map fun (path, v) => (dotted path, v)) key =
      places.lookup (key.toList.splitOn '.') := by
  induction places with
  | nil => rfl
  | cons e places ih =>
    obtain ⟨path, v⟩ := e
    obtain ⟨⟨hne, hpath⟩, hplaces⟩ := List.forall_mem_cons.1 h
    have hdotted : dotted path = key ↔ key.toList.splitOn '.' = path := dotted_eq_iff hne hpath
    rw [List.map_cons, List.lookup_cons]
    by_cases hkey : key.toList.splitOn '.' = path
    · rw [hkey, beq_self_eq_true]
      exact if_pos (hdotted.2 hkey)
    · rw [beq_eq_false_iff_ne.2 hkey, ← ih hplaces]
      exact if_neg fun heq => hkey (hdotted.1 heq)

namespace Object

variable {table : Object}

/-- What is put under paths for an entry of a table. -/
theorem prefix_of_mem_places (h : (Value.obj table).Nested) (flat : String → Bool)
    {e : String × Value} (he : e ∈ table) {f : List (List Char) × Value}
    (hf : f ∈ if flat e.1 = true then e.2.leaves [e.1.toList] else [([e.1.toList], e.2)]) :
    [e.1.toList] <+: f.1 ∧ ∀ s ∈ f.1, '.' ∉ s := by
  obtain ⟨-, hundotted, hvalues⟩ := h.of_obj
  have hkey : ∀ s ∈ [e.1.toList], '.' ∉ s :=
    List.forall_mem_singleton.2 (hundotted _ (List.mem_map_of_mem he))
  split at hf
  · exact ⟨(hvalues e he).prefix_of_mem_leaves hf, (hvalues e he).undotted_of_mem_leaves hkey hf⟩
  · rw [List.mem_singleton.1 hf]
    exact ⟨List.prefix_rfl, hkey⟩

theorem forall_mem_places (h : (Value.obj table).Nested) (flat : String → Bool) :
    ∀ e ∈ table.places flat, e.1 ≠ [] ∧ ∀ s ∈ e.1, '.' ∉ s := by
  intro f hf
  obtain ⟨e, he, hf⟩ := List.mem_flatMap.1 hf
  obtain ⟨hbegins, hundotted⟩ := prefix_of_mem_places h flat he hf
  exact ⟨List.IsPrefix.ne_nil hbegins (List.cons_ne_nil _ _), hundotted⟩

/-- **What is under a key of a table of which some entries are flattened.** -/
theorem get?_spread (h : (Value.obj table).Nested) (flat : String → Bool) {key : String}
    {s : List Char} {rest : List (List Char)} (hkey : key.toList.splitOn '.' = s :: rest) :
    (table.spread flat).get? key =
      (table.get? (String.ofList s)).bind fun v =>
        if flat (String.ofList s) = true then
          (Catalog.nested? v rest).filter fun w => w.object?.isNone
        else if rest = [] then some v else none := by
  obtain ⟨hdistinct, -, hvalues⟩ := h.of_obj
  have hlookup := Value.lookup_flatMap hdistinct []
    (fun e he f hf => (prefix_of_mem_places h flat he hf).1) s rest
  rw [spread, get?_map_dotted (forall_mem_places h flat), hkey, places]
  refine hlookup.trans ?_
  cases hv : table.get? (String.ofList s) with
  | none => rfl
  | some v =>
    rw [Option.bind_some, Option.bind_some, List.nil_append, String.toList_ofList]
    split
    · exact (hvalues _ (mem_of_get? hv)).lookup_leaves [s] rest
    · rw [List.lookup_cons, List.lookup_nil]
      split
      · next heq => rw [if_pos (List.cons.inj (beq_iff_eq.1 heq)).2]
      · next hne =>
        rw [if_neg]
        rintro rfl
        exact Bool.false_ne_true (hne.symm.trans (beq_self_eq_true _))

theorem nodup_places (h : (Value.obj table).Nested) (flat : String → Bool) :
    ((table.places flat).map Prod.fst).Nodup := by
  obtain ⟨hdistinct, -, hvalues⟩ := h.of_obj
  have hentry : ∀ e ∈ table, ((if flat e.1 = true then e.2.leaves [e.1.toList]
      else [([e.1.toList], e.2)]).map Prod.fst).Nodup := by
    intro e he
    split
    · exact (hvalues e he).nodup_leaves _
    · exact List.nodup_singleton _
  exact Value.nodup_flatMap hdistinct []
    (fun e he f hf => (prefix_of_mem_places h flat he hf).1) hentry

/-- **No key is twice in a table of which some entries are flattened.** -/
theorem distinct_spread (h : (Value.obj table).Nested) (flat : String → Bool) :
    (table.spread flat).Distinct := by
  have hplaces := forall_mem_places h flat
  have hdotted : ((table.places flat).map Prod.fst).map dotted =
      (table.spread flat).map Prod.fst := by
    rw [spread, List.map_map, List.map_map]
    rfl
  rw [Distinct, ← hdotted]
  refine (nodup_places h flat).map_on fun path hpath other hother heq => ?_
  obtain ⟨e, he, rfl⟩ := List.mem_map.1 hpath
  obtain ⟨f, hf, rfl⟩ := List.mem_map.1 hother
  obtain ⟨hne, hundotted⟩ := hplaces e he
  obtain ⟨hne', hundotted'⟩ := hplaces f hf
  rw [← (dotted_eq_iff hne hundotted).1 heq, (dotted_eq_iff hne' hundotted').1 rfl]

theorem spread_of_none_flat (table : Object) : table.spread (fun _ => false) = table := by
  have hkey : ∀ key : String, dotted [key.toList] = key := fun key => by
    rw [dotted, List.intercalate_singleton, String.ofList_toList]
  induction table with
  | nil => rfl
  | cons e table ih =>
    obtain ⟨key, v⟩ := e
    exact congrArg₂ List.cons (congrArg (·, v) (hkey key)) ih

end Object

/-! ## Phrases -/

namespace Catalog

variable {table : Object}

theorem bind_str?_filter (v : Option Value) :
    (v.filter fun w => w.object?.isNone).bind Value.str? = v.bind Value.str? := by
  cases v with
  | none => rfl
  | some v => cases v <;> rfl

theorem nestedText?_of_splitOn (table : Object) {key : String} {s : List Char}
    {rest : List (List Char)} (hkey : key.toList.splitOn '.' = s :: rest) :
    nestedText? table key =
      ((table.get? (String.ofList s)).bind (nested? · rest)).bind Value.str? := by
  rw [nestedText?, hkey, nested?_obj]

/-- **A phrase is found by its segments in a nested table**, whichever entries are flattened. -/
theorem phraseIn?_spread (h : (Value.obj table).Nested) (flat : String → Bool) (key : String) :
    phraseIn? (table.spread flat) key = nestedText? table key := by
  obtain ⟨s, rest, hkey⟩ := List.exists_cons_of_ne_nil (List.splitOn_ne_nil '.' key.toList)
  have hs : '.' ∉ s := notMem_of_mem_splitOn (hkey ▸ List.mem_cons_self)
  have hfirst : (String.ofList s).toList.splitOn '.' = [s] := by
    rw [String.toList_ofList, List.splitOn_eq_singleton hs]
  rw [phraseIn?_eq, nestedText?_of_splitOn _ hkey, nestedText?_of_splitOn _ hkey, Object.getStr?_eq,
    Object.get?_spread h flat hkey, Object.get?_spread h flat hfirst]
  cases table.get? (String.ofList s) with
  | none => rfl
  | some v =>
    rw [Option.bind_some, Option.bind_some, Option.bind_some]
    cases hflat : flat (String.ofList s) with
    | true =>
      rw [if_pos rfl, if_pos rfl, bind_str?_filter, nested?, Option.filter_some]
      cases v.object? with
      | none => rw [Option.isNone_none, if_pos rfl, Option.bind_some, Option.or_self]
      | some entries =>
        rw [Option.isNone_some, if_neg Bool.false_ne_true, Option.bind_none, Option.bind_none,
          Option.or_none]
    | false =>
      rw [if_neg Bool.false_ne_true, if_neg Bool.false_ne_true, if_pos rfl, Option.bind_some]
      split
      · next hrest => rw [hrest, nested?, Option.or_self]
      · rw [Option.bind_none, Option.none_or]

end Catalog

/-! ## Forms of a table -/

namespace Object

/-- **A form of a table**: some of its entries are flattened, in any order. -/
structure IsForm (table form : Object) : Prop where
  distinct : form.Distinct
  exists_spread : ∃ flat, ∀ key, form.get? key = (table.spread flat).get? key

theorem isForm_spread {table : Object} (h : (Value.obj table).Nested) (flat : String → Bool) :
    table.IsForm (table.spread flat) :=
  ⟨distinct_spread h flat, flat, fun _ => rfl⟩

/-- A nested table is a form of itself. -/
theorem isForm_self {table : Object} (h : (Value.obj table).Nested) : table.IsForm table := by
  have hspread := isForm_spread h fun _ => false
  rwa [spread_of_none_flat] at hspread

/-- Entries that are put into an empty table keep their form. -/
theorem IsForm.extend_nil {table form : Object} (h : table.IsForm form) :
    table.IsForm (extend [] form) := by
  obtain ⟨flat, hget⟩ := h.exists_spread
  refine ⟨distinct_nil.extend form, flat, fun key => ?_⟩
  rw [get?_extend _ h.distinct, get?_nil, Option.or_none, hget]

/-- **Two forms of one nested table.** -/
def Reshaped (form other : Object) : Prop :=
  ∃ table : Object, (Value.obj table).Nested ∧ table.IsForm form ∧ table.IsForm other

theorem Reshaped.symm {form other : Object} (h : form.Reshaped other) : other.Reshaped form := by
  obtain ⟨table, htable, hform, hother⟩ := h
  exact ⟨table, htable, hother, hform⟩

theorem Reshaped.extend_nil {form other : Object} (h : form.Reshaped other) :
    (extend [] form).Reshaped (extend [] other) := by
  obtain ⟨table, htable, hform, hother⟩ := h
  exact ⟨table, htable, hform.extend_nil, hother.extend_nil⟩

end Object

namespace Catalog

theorem phraseIn?_of_isForm {table form : Object} (h : (Value.obj table).Nested)
    (hform : table.IsForm form) (key : String) : phraseIn? form key = nestedText? table key := by
  obtain ⟨flat, hget⟩ := hform.exists_spread
  rw [← phraseIn?_spread h flat key]
  exact readsOnly_phraseIn? key form _ fun name _ => hget name

/-- **The same phrases are found in all forms of a table.** -/
theorem phraseIn?_of_reshaped {form other : Object} (h : form.Reshaped other) (key : String) :
    phraseIn? form key = phraseIn? other key := by
  obtain ⟨table, htable, hform, hother⟩ := h
  rw [phraseIn?_of_isForm htable hform, phraseIn?_of_isForm htable hother]

/-- **Two catalogs with the same tables**, each in one form here and in another there. -/
def Reshaped (c c' : Catalog) : Prop :=
  ∀ language, Option.Rel Object.Reshaped (c.table? language) (c'.table? language)

theorem Reshaped.lookup? {c c' : Catalog} (h : c.Reshaped c') (language key : String) :
    c.lookup? language key = c'.lookup? language key := by
  unfold Catalog.lookup?
  have hlanguage := h language
  generalize c.table? language = form at hlanguage ⊢
  generalize c'.table? language = other at hlanguage ⊢
  cases hlanguage with
  | none => rfl
  | some hreshaped => exact phraseIn?_of_reshaped hreshaped key

theorem Reshaped.translate {c c' : Catalog} (h : c.Reshaped c') (key : String) (locale : Locale) :
    c.translate key locale = c'.translate key locale :=
  translate_congr key fun language _ key => h.lookup? language key

/-! ## Objects of languages -/

/-- A language that is new to two catalogs, with a table in one form here and in another there. -/
theorem Reshaped.add {c c' : Catalog} (h : c.Reshaped c') {language : String}
    (hnew : c.table? language = none) {form other : Object} (hform : form.Reshaped other) :
    (c.add language form).Reshaped (c'.add language other) := by
  intro l
  have hnew' : c'.table? language = none := by
    have hlanguage := h language
    rw [hnew] at hlanguage
    generalize c'.table? language = other at hlanguage ⊢
    cases hlanguage
    rfl
  rw [table?_add, table?_add, hnew, hnew', Option.getD_none]
  split
  · exact .some hform.extend_nil
  · exact h l

/-- An entry of an object of languages, with its table in one form here and in another there. -/
def ReshapedEntry (e e' : String × Value) : Prop :=
  e.1 = e'.1 ∧ Option.Rel Object.Reshaped e.2.object? e'.2.object?

theorem Reshaped.addEntry {c c' : Catalog} (h : c.Reshaped c') {e e' : String × Value}
    (hnew : c.table? e.1 = none) (he : ReshapedEntry e e') :
    (c.addEntry e).Reshaped (c'.addEntry e') := by
  obtain ⟨hlanguage, htable⟩ := he
  rw [addEntry_eq, addEntry_eq, ← hlanguage]
  generalize e.2.object? = form at htable ⊢
  generalize e'.2.object? = other at htable ⊢
  cases htable with
  | none => exact h
  | some hform => exact h.add hnew hform

theorem Reshaped.foldl {languages languages' : Object}
    (h : List.Forall₂ ReshapedEntry languages languages')
    (hdistinct : (languages.map fun e => Text.asciiLower e.1).Nodup) {c c' : Catalog}
    (hc : c.Reshaped c') (hnew : ∀ e ∈ languages, c.table? e.1 = none) :
    (languages.foldl Catalog.addEntry c).Reshaped (languages'.foldl Catalog.addEntry c') := by
  induction h generalizing c c' with
  | nil => exact hc
  | cons he _ ih =>
    obtain ⟨hfresh, hdistinct⟩ := List.nodup_cons.1 hdistinct
    obtain ⟨hfirst, hnew⟩ := List.forall_mem_cons.1 hnew
    refine ih hdistinct (hc.addEntry hfirst he) fun f hf => ?_
    rw [table?_addEntry_of_ne c fun heq => hfresh (List.mem_map.2 ⟨f, hf, heq⟩), hnew f hf]

/-- **The catalogs of two objects of languages**, no language of which is there twice. -/
theorem reshaped_ofObject {languages languages' : Object}
    (h : List.Forall₂ ReshapedEntry languages languages')
    (hdistinct : (languages.map fun e => Text.asciiLower e.1).Nodup) :
    (ofObject languages).Reshaped (ofObject languages') :=
  Reshaped.foldl h hdistinct (fun _ => .none) fun _ _ => rfl

/-- **Flat and nested tables are interchangeable.** Whichever entries of a nested table are
flattened, none, all or some of them, the same phrases are found under all keys, and so in all
languages and for all locales, whatever the form of each table of a catalog. -/
theorem forms_interchangeable :
    (∀ {table : Object}, (Value.obj table).Nested → ∀ flat, table.Reshaped (table.spread flat)) ∧
      (∀ {form other : Object}, form.Reshaped other →
        ∀ key, phraseIn? form key = phraseIn? other key) ∧
      (∀ {c c' : Catalog}, c.Reshaped c' →
        (∀ language key, c.lookup? language key = c'.lookup? language key) ∧
          ∀ key locale, c.translate key locale = c'.translate key locale) ∧
      ∀ {languages languages' : Object}, List.Forall₂ ReshapedEntry languages languages' →
        (languages.map fun e => Text.asciiLower e.1).Nodup →
          (ofObject languages).Reshaped (ofObject languages') :=
  ⟨fun h flat => ⟨_, h, Object.isForm_self h, Object.isForm_spread h flat⟩,
    fun h key => phraseIn?_of_reshaped h key, fun h => ⟨h.lookup?, h.translate⟩, reshaped_ofObject⟩

/-- One language is nested and the other flat, and the other way round. -/
theorem forms_interchangeable_cart :
    let english : Object :=
      [("cart", .obj [("title", .str "Cart"), ("empty", .str "Nothing")]), ("home", .str "Home")]
    let flat : Object :=
      [("cart.title", .str "Cart"), ("cart.empty", .str "Nothing"), ("home", .str "Home")]
    let dutch : Object := [("cart", .obj [("title", .str "Wagen")])]
    (Value.obj english).Nested ∧ english.spread (fun _ => true) = flat ∧ english.Reshaped flat ∧
      phraseIn? english "cart.empty" = phraseIn? flat "cart.empty" ∧
      phraseIn? english "cart" = phraseIn? flat "cart" ∧
      let c := ofObject [("en", .obj english), ("nl", .obj [("cart.title", .str "Wagen")])]
      let c' := ofObject [("en", .obj flat), ("nl", .obj dutch)]
      c.Reshaped c' ∧ c.lookup? "nl" "cart.title" = c'.lookup? "nl" "cart.title" ∧
        c.translate "cart.empty" ⟨"nl-BE"⟩ = c'.translate "cart.empty" ⟨"nl-BE"⟩ := by
  intro english flat dutch
  obtain ⟨hspread, hphrases, hcatalogs, hlanguages⟩ := forms_interchangeable
  have hleaf : ∀ s : String, (Value.str s).Nested := fun s => .leaf rfl
  have hcart : (Value.obj [("title", .str "Cart"), ("empty", .str "Nothing")]).Nested :=
    .table (by decide) (by decide) (by simp [hleaf])
  have henglish : (Value.obj english).Nested :=
    .table (by decide) (by decide) (by simp [english, hleaf, hcart])
  have hwagen : (Value.obj [("title", .str "Wagen")]).Nested :=
    .table (by decide) (by decide) (by simp [hleaf])
  have hdutch : (Value.obj dutch).Nested :=
    .table (by decide) (by decide) (by simp [dutch, hwagen])
  have hflat : english.spread (fun _ => true) = flat := rfl
  have hflat' : dutch.spread (fun _ => true) = [("cart.title", .str "Wagen")] := rfl
  have hen : english.Reshaped flat := hflat ▸ hspread henglish _
  have hnl : Object.Reshaped [("cart.title", .str "Wagen")] dutch :=
    (hflat' ▸ hspread hdutch _).symm
  have hentries : List.Forall₂ ReshapedEntry
      [("en", .obj english), ("nl", .obj [("cart.title", .str "Wagen")])]
      [("en", .obj flat), ("nl", .obj dutch)] :=
    .cons ⟨rfl, .some hen⟩ (.cons ⟨rfl, .some hnl⟩ .nil)
  have hreshaped := hlanguages hentries (by decide)
  exact ⟨henglish, hflat, hen, hphrases hen _, hphrases hen _, hreshaped,
    (hcatalogs hreshaped).1 _ _, (hcatalogs hreshaped).2 _ _⟩

end Catalog

end Storefront
