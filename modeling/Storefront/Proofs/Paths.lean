import Storefront.Proofs.Synonyms
import Storefront.Proofs.Naming
import Storefront.Proofs.Pruning
import Storefront.Proofs.Rereading
import Storefront.Proofs.Verbatim

/-!
# Paths by their segments

A path is written as its segments, one behind the other: the first as it is, and each
further one behind a point, in brackets, or in brackets behind a point
(`Path.Spells`). All spellings of the same segments have one normal form, with
points alone (`Path.Spells.normalizedChars_eq`).

What is at a path is told by its segments. The first is the name of a variable,
and the others lead from there through the keys of objects and the positions of
lists (`Path.Leads`). A name with a point in it would be found before that, so the
names of the context must have none (`Context.Undotted.resolve_eq_some_iff`).

Wherever a path is read, it is brought into its normal form first, with one
exception. An operand of a condition may be a number or a word that stands for
itself, and that is decided on the path as it was written. No path of more than one
segment is taken for either (`Path.Spells.isPath`), and one of a single segment
is only written in one way.
-/

namespace Storefront

namespace Path

/-! ## Spellings -/

/-- The characters that are not part of a segment, besides blanks. -/
def reserved : List Char := ['.', '[', ']', '\x7b', '\x7d', '"', '\'', '=', '<', '>', '!']

/-- **A segment of a path.** -/
structure IsSegment (s : List Char) : Prop where
  nonempty : s ≠ []
  solid : ∀ c ∈ s, Text.isBlank c = false
  unreserved : ∀ c ∈ s, c ∉ reserved

instance (s : List Char) : Decidable (IsSegment s) :=
  decidable_of_iff (s ≠ [] ∧ s.any Text.isBlank = false ∧ s.any reserved.contains = false)
    ⟨fun h => ⟨h.1, fun c hc => Bool.eq_false_iff.2 (List.any_eq_false.1 h.2.1 c hc),
        fun c hc hmem => List.any_eq_false.1 h.2.2 c hc (List.contains_iff_mem.2 hmem)⟩,
      fun h => ⟨h.nonempty,
        List.any_eq_false.2 fun c hc => Bool.eq_false_iff.1 (h.solid c hc),
        List.any_eq_false.2 fun c hc hmem => h.unreserved c hc (List.contains_iff_mem.1 hmem)⟩⟩

/-- **A character that a path may start with**: a letter, an underscore or an at sign. The letters
beyond ASCII are not told from the other characters there. -/
def IsStart (c : Char) : Prop := c.isAlpha = true ∨ c = '_' ∨ c = '@' ∨ 128 ≤ c.toNat

instance : DecidablePred IsStart := fun _ => inferInstanceAs (Decidable (_ ∨ _ ∨ _ ∨ _))

/-- **How segments are written behind the first one**, each in one of three ways. -/
inductive Continues : List (List Char) → List Char → Prop where
  | done : Continues [] []
  /-- Behind a point. -/
  | point {s rest cs} (h : Continues rest cs) : Continues (s :: rest) ('.' :: (s ++ cs))
  /-- In brackets. -/
  | bracket {s rest cs} (h : Continues rest cs) :
    Continues (s :: rest) ('[' :: (s ++ ']' :: cs))
  /-- In brackets behind a point. -/
  | both {s rest cs} (h : Continues rest cs) :
    Continues (s :: rest) ('.' :: '[' :: (s ++ ']' :: cs))

/-- **A path that is written as its segments**, the first of which names a variable. -/
structure Spells (path : String) (head : List Char) (rest : List (List Char)) : Prop where
  segments : ∀ s ∈ head :: rest, IsSegment s
  start : ∀ c ∈ head.head?, IsStart c
  written : ∃ cs, path.toList = head ++ cs ∧ Continues rest cs

/-- The spelling that has only points. -/
def pointed (rest : List (List Char)) : List Char := rest.flatMap ('.' :: ·)

section Characters

variable {rest : List (List Char)} {cs s : List Char}

theorem IsSegment.notMem (h : IsSegment s) {c : Char} (hc : c ∈ reserved) : c ∉ s :=
  fun hmem => h.unreserved c hmem hc

/-- The characters of a spelling are those of the segments, points and brackets. -/
theorem Continues.forall_mem {P : Char → Prop} (h : Continues rest cs)
    (hmarks : P '.' ∧ P '[' ∧ P ']') (hrest : ∀ s ∈ rest, ∀ c ∈ s, P c) : ∀ c ∈ cs, P c := by
  obtain ⟨hpoint, hopen, hclose⟩ := hmarks
  induction h with
  | done => nofun
  | point _ ih =>
    obtain ⟨hs, hrest⟩ := List.forall_mem_cons.1 hrest
    exact List.forall_mem_cons.2 ⟨hpoint, List.forall_mem_append.2 ⟨hs, ih hrest⟩⟩
  | bracket _ ih =>
    obtain ⟨hs, hrest⟩ := List.forall_mem_cons.1 hrest
    exact List.forall_mem_cons.2 ⟨hopen, List.forall_mem_append.2
      ⟨hs, List.forall_mem_cons.2 ⟨hclose, ih hrest⟩⟩⟩
  | both _ ih =>
    obtain ⟨hs, hrest⟩ := List.forall_mem_cons.1 hrest
    exact List.forall_mem_cons.2 ⟨hpoint, List.forall_mem_cons.2 ⟨hopen, List.forall_mem_append.2
      ⟨hs, List.forall_mem_cons.2 ⟨hclose, ih hrest⟩⟩⟩⟩

/-- The first segment behind another one is set off from it. -/
theorem Continues.mem_of_ne_nil (h : Continues rest cs) (hne : rest ≠ []) :
    '.' ∈ cs ∨ '[' ∈ cs := by
  cases h with
  | done => exact absurd rfl hne
  | point => exact .inl List.mem_cons_self
  | bracket => exact .inr List.mem_cons_self
  | both => exact .inl List.mem_cons_self

end Characters

/-! ## Normal forms -/

section Normal

variable {head : List Char} {rest : List (List Char)} {cs s : List Char}

/-- A segment is left as it is. -/
theorem bracketless_append (h : ∀ c ∈ s, c ∉ reserved) (cs : List Char) :
    bracketless (s ++ cs) = s ++ bracketless cs := by
  induction s with
  | nil => rfl
  | cons c s ih =>
    obtain ⟨hc, hs⟩ := List.forall_mem_cons.1 h
    have hne : ∀ {d : Char}, d ∈ reserved → c ≠ d := fun hd heq => hc (heq ▸ hd)
    rw [List.cons_append, bracketless, if_neg (hne (by decide)), if_neg (hne (by decide)), ih hs,
      List.cons_append]
    exact fun _ hpoint _ => hne (by decide) hpoint

/-- **Brackets become points.** -/
theorem bracketless_continues (h : Continues rest cs) (hrest : ∀ s ∈ rest, IsSegment s) :
    bracketless cs = pointed rest := by
  have hclose : ∀ cs, bracketless (']' :: cs) = bracketless cs := fun _ => rfl
  induction h with
  | done => rfl
  | @point s rest cs _ ih =>
    obtain ⟨hs, hrest⟩ := List.forall_mem_cons.1 hrest
    have hopen : ∀ more, s ++ cs ≠ '[' :: more := by
      intro more heq
      obtain ⟨c, s', rfl⟩ := List.exists_cons_of_ne_nil hs.nonempty
      exact hs.notMem (by decide : '[' ∈ reserved) ((List.cons.inj heq).1 ▸ List.mem_cons_self)
    rw [bracketless, if_neg (by decide), if_neg (by decide), bracketless_append hs.unreserved, ih hrest]
    · rfl
    · exact fun more _ => hopen more
  | bracket _ ih =>
    obtain ⟨hs, hrest⟩ := List.forall_mem_cons.1 hrest
    have hfirst : ∀ cs, bracketless ('[' :: cs) = '.' :: bracketless cs := fun _ => rfl
    rw [hfirst, bracketless_append hs.unreserved, hclose, ih hrest]
    rfl
  | both _ ih =>
    obtain ⟨hs, hrest⟩ := List.forall_mem_cons.1 hrest
    have hfirst : ∀ cs, bracketless ('.' :: '[' :: cs) = '.' :: bracketless cs := fun _ => rfl
    rw [hfirst, bracketless_append hs.unreserved, hclose, ih hrest]
    rfl

/-- A spelling without opening brackets has only points. -/
theorem Continues.eq_pointed (h : Continues rest cs) (hopen : '[' ∉ cs) : cs = pointed rest := by
  induction h with
  | done => rfl
  | @point s rest cs _ ih =>
    have hcs : '[' ∉ cs := fun hmem => hopen (List.mem_cons_of_mem _ (List.mem_append_right _ hmem))
    exact congrArg (fun cs => '.' :: (s ++ cs)) (ih hcs)
  | bracket => exact absurd List.mem_cons_self hopen
  | both => exact absurd (List.mem_cons_of_mem _ List.mem_cons_self) hopen

/-- **The normal form of a path**, whichever way its segments are written. -/
theorem normalizedChars_continues (h : Continues rest cs)
    (hsegments : ∀ s ∈ head :: rest, IsSegment s) :
    normalizedChars (head ++ cs) = head ++ pointed rest := by
  obtain ⟨hhead, hrest⟩ := List.forall_mem_cons.1 hsegments
  have hsolid : ∀ c ∈ head ++ cs, Text.isBlank c = false := List.forall_mem_append.2
    ⟨hhead.solid, h.forall_mem ⟨by decide, by decide, by decide⟩ fun s hs => (hrest s hs).solid⟩
  rw [normalizedChars, Text.trim_of_not_isBlank hsolid]
  split
  · rw [bracketless_append hhead.unreserved, bracketless_continues h hrest]
  · next hopen =>
    rw [List.contains_iff_mem, List.mem_append, not_or] at hopen
    rw [← h.eq_pointed hopen.2]

theorem continues_pointed (rest : List (List Char)) : Continues rest (pointed rest) := by
  induction rest with
  | nil => exact .done
  | cons s rest ih => exact .point ih

/-- The normal form is its own normal form. -/
theorem normalizedChars_pointed (hsegments : ∀ s ∈ head :: rest, IsSegment s) :
    normalizedChars (head ++ pointed rest) = head ++ pointed rest :=
  normalizedChars_continues (continues_pointed rest) hsegments

/-- **The segments of a path in normal form.** -/
theorem segments_pointed (hsegments : ∀ s ∈ head :: rest, IsSegment s) :
    segments (head ++ pointed rest) = head :: rest := by
  have hsplit : (head ++ pointed rest).splitOn '.' = head :: rest := by
    induction rest generalizing head with
    | nil =>
      rw [pointed, List.flatMap_nil, List.append_nil]
      exact List.splitOn_eq_singleton
        ((List.forall_mem_cons.1 hsegments).1.notMem (by decide : '.' ∈ reserved))
    | cons s rest ih =>
      obtain ⟨hhead, hrest⟩ := List.forall_mem_cons.1 hsegments
      rw [show head ++ pointed (s :: rest) = head ++ '.' :: (s ++ pointed rest) from rfl,
        List.splitOn_append_cons_self_of_not_mem (hhead.notMem (by decide : '.' ∈ reserved)),
        ih hrest]
  rw [segments, hsplit, List.filter_eq_self]
  intro s hs
  rw [List.isEmpty_eq_false_iff.2 (hsegments s hs).nonempty]
  rfl

end Normal

namespace Spells

variable {path other : String} {head : List Char} {rest : List (List Char)}

/-- **All spellings have the same normal form.** -/
theorem normalizedChars_eq (h : Spells path head rest) :
    normalizedChars path.toList = head ++ pointed rest := by
  obtain ⟨cs, hpath, hcs⟩ := h.written
  rw [hpath, normalizedChars_continues hcs h.segments]

/-- A single segment is written in one way. -/
theorem eq_of_nil (h : Spells path head []) (hother : Spells other head []) : path = other := by
  obtain ⟨cs, hpath, ⟨⟩⟩ := h.written
  obtain ⟨ds, hds, ⟨⟩⟩ := hother.written
  exact String.toList_inj.1 (hpath.trans hds.symm)

/-! ## The characters of a path -/

theorem forall_mem {P : Char → Prop} (h : Spells path head rest) (hmarks : P '.' ∧ P '[' ∧ P ']')
    (hsegments : ∀ s ∈ head :: rest, ∀ c ∈ s, P c) : ∀ c ∈ path.toList, P c := by
  obtain ⟨cs, hpath, hcs⟩ := h.written
  obtain ⟨hhead, hrest⟩ := List.forall_mem_cons.1 hsegments
  rw [hpath]
  exact List.forall_mem_append.2 ⟨hhead, hcs.forall_mem hmarks hrest⟩

theorem solid (h : Spells path head rest) : ∀ c ∈ path.toList, Text.isBlank c = false :=
  h.forall_mem ⟨by decide, by decide, by decide⟩ fun s hs => (h.segments s hs).solid

/-- A reserved character that is neither a point nor a bracket does not occur. -/
theorem notMem (h : Spells path head rest) {c : Char} (hc : c ∈ reserved)
    (hmarks : c ∉ ['.', '[', ']']) : c ∉ path.toList := by
  have hother : ∀ d ∈ path.toList, d ≠ c := by
    refine h.forall_mem ?_ fun s hs d hd heq => (h.segments s hs).unreserved d hd (heq ▸ hc)
    simp only [List.mem_cons, List.not_mem_nil, or_false, not_or] at hmarks
    exact ⟨Ne.symm hmarks.1, Ne.symm hmarks.2.1, Ne.symm hmarks.2.2⟩
  exact fun hmem => hother c hmem rfl

/-- A path starts as its first segment does. -/
theorem exists_start (h : Spells path head rest) : ∃ c cs, path.toList = c :: cs ∧ IsStart c := by
  obtain ⟨cs, hpath, -⟩ := h.written
  obtain ⟨c, head, rfl⟩ := List.exists_cons_of_ne_nil (h.segments _ List.mem_cons_self).nonempty
  exact ⟨c, head ++ cs, hpath, h.start c rfl⟩

theorem head?_ne (h : Spells path head rest) {c : Char} (hc : ¬IsStart c) :
    path.toList.head? ≠ some c := by
  obtain ⟨d, cs, hpath, hd⟩ := h.exists_start
  rw [hpath]
  exact fun heq => hc (Option.some.inj heq ▸ hd)

theorem ne_empty (h : Spells path head rest) : path ≠ "" := by
  rintro rfl
  obtain ⟨c, cs, hnil, -⟩ := h.exists_start
  cases hnil

/-- A path of more than one segment has a point or a bracket in it. -/
theorem mem_of_ne_nil (h : Spells path head rest) (hne : rest ≠ []) :
    '.' ∈ path.toList ∨ '[' ∈ path.toList := by
  obtain ⟨cs, hpath, hcs⟩ := h.written
  rw [hpath]
  exact (hcs.mem_of_ne_nil hne).imp (List.mem_append_right head) (List.mem_append_right head)

end Spells

end Path

/-! ## Numbers -/

/-- What a path may start with is no digit. -/
theorem Path.IsStart.not_isDigit {c : Char} (h : IsStart c) : c.isDigit = false := by
  refine Bool.eq_false_iff.2 fun hdigit => ?_
  simp only [Char.isDigit, Bool.and_eq_true, decide_eq_true_eq, UInt32.le_iff_toNat_le] at hdigit
  have hbound : c.toNat ≤ 57 := hdigit.2
  obtain halpha | rfl | rfl | hbeyond := h
  · have hletter : 65 ≤ c.toNat := by
      obtain hupper | hlower := (Bool.or_eq_true c.isUpper c.isLower).mp halpha
      · have hcapital : 'A'.val ≤ c.val ∧ c.val ≤ 'Z'.val := of_decide_eq_true hupper
        exact UInt32.le_iff_toNat_le.1 hcapital.1
      · have hsmall : (decide ('a'.val ≤ c.val) && decide (c.val ≤ 'z'.val)) = true := hlower
        rw [Bool.and_eq_true, decide_eq_true_iff, UInt32.le_iff_toNat_le] at hsmall
        exact Nat.le_trans (by decide) hsmall.1
    omega
  · exact absurd hbound (by decide)
  · exact absurd hbound (by decide)
  · omega

/-- **A text that starts as a path does and has a point or a bracket in it is no number.** -/
theorem Double.readChars?_eq_none {c : Char} {cs : List Char} (hc : Path.IsStart c)
    (hmark : '.' ∈ c :: cs ∨ '[' ∈ c :: cs) : readChars? (c :: cs) = none := by
  have hne : ∀ {d : Char}, ¬Path.IsStart d → c ≠ d := fun hd heq => hd (heq ▸ hc)
  have hword : ∀ word : List Char, '.' ∉ word → '[' ∉ word → (c :: cs).map Char.toLower ≠ word := by
    rintro _ hpoint hopen rfl
    have hmap : ∀ {d : Char}, d.toLower = d → d ∈ c :: cs → d ∈ (c :: cs).map Char.toLower :=
      fun hlower hmem => hlower ▸ List.mem_map_of_mem hmem
    exact hmark.elim (fun hmem => hpoint (hmap rfl hmem)) fun hmem => hopen (hmap rfl hmem)
  have hdigits : readDecimal? (c :: cs) = none := by
    rw [readDecimal?, List.takeWhile_cons_of_neg (Bool.eq_false_iff.1 hc.not_isDigit),
      List.dropWhile_cons_of_neg (Bool.eq_false_iff.1 hc.not_isDigit)]
    dsimp only
    split
    · next hpoint => exact absurd (List.cons.inj (by assumption)).1 (hne (by decide))
    · rfl
  rw [readChars?]
  · rw [readUnsigned?, if_neg, if_neg (hword _ (by decide) (by decide)), hdigits, Option.map_none]
    simp only [Bool.or_eq_true, decide_eq_true_eq, not_or]
    exact ⟨hword _ (by decide) (by decide), hword _ (by decide) (by decide)⟩
  · exact fun _ heq => hne (by decide) (List.cons.inj heq).1
  · exact fun _ heq => hne (by decide) (List.cons.inj heq).1

/-! ## Walking -/

namespace Path

/-- **Where segments lead to from a value**: through keys of objects and positions of lists. -/
inductive Leads : Value → List (List Char) → Value → Prop where
  | here (v : Value) : Leads v [] v
  /-- To an entry of an object. -/
  | entry {entries : Object} {s rest v w} (hkey : entries.get? (String.ofList s) = some v)
    (h : Leads v rest w) : Leads (.obj entries) (s :: rest) w
  /-- To an item of a list. -/
  | item {items : List Value} {s i rest v w} (hposition : position? s = some i)
    (hitem : items[i]? = some v) (h : Leads v rest w) : Leads (.arr items) (s :: rest) w

theorem walk_cons (v : Value) (s : List Char) (rest : List (List Char)) :
    walk v (s :: rest) = (step v s).bind (walk · rest) := List.foldlM_cons

theorem walk_concat (v : Value) (rest : List (List Char)) (s : List Char) :
    walk v (rest ++ [s]) = (walk v rest).bind (step · s) := by
  rw [walk, List.foldlM_append]
  refine congrArg (Option.bind (walk v rest)) (funext fun w => ?_)
  exact bind_pure (step w s)

/-- **A walk ends where the segments lead to.** -/
theorem walk_eq_some_iff {v w : Value} {rest : List (List Char)} :
    walk v rest = some w ↔ Leads v rest w := by
  constructor
  · intro h
    induction rest generalizing v with
    | nil =>
      obtain rfl := Option.some.inj h
      exact .here v
    | cons s rest ih =>
      rw [walk_cons] at h
      obtain ⟨u, hstep, hwalk⟩ := Option.bind_eq_some_iff.1 h
      cases v with
      | null | bool | num | str => cases hstep
      | obj entries => exact .entry hstep (ih hwalk)
      | arr items =>
        obtain ⟨i, hposition, hitem⟩ := Option.bind_eq_some_iff.1 hstep
        exact .item hposition hitem (ih hwalk)
  · intro h
    induction h with
    | here => rfl
    | entry hkey _ ih => rw [walk_cons, step, hkey, Option.bind_some, ih]
    | item hposition hitem _ ih =>
      rw [walk_cons, step, hposition, Option.bind_some, hitem, Option.bind_some, ih]

end Path

namespace Context

open Storefront.Path

variable {ctx : Context} {path : String} {head : List Char} {rest : List (List Char)}

/-- **A path in normal form is walked from its first segment.** -/
theorem Undotted.resolveNormal_pointed (h : ctx.Undotted)
    (hsegments : ∀ s ∈ head :: rest, IsSegment s) :
    ctx.resolveNormal (head ++ pointed rest) =
      (ctx.get? (String.ofList head)).bind (walk · rest) := by
  cases rest with
  | nil =>
    have hne : (head ++ pointed []).isEmpty = false := List.isEmpty_eq_false_iff.2
      (List.append_ne_nil_of_left_ne_nil (hsegments head List.mem_cons_self).nonempty _)
    rw [resolveNormal, hne, if_neg Bool.false_ne_true, segments_pointed hsegments, pointed,
      List.flatMap_nil, List.append_nil]
    cases hhead : ctx.get? (String.ofList head) with
    | none => exact congrArg (Option.bind · _) hhead
    | some v => rfl
  | cons s rest =>
    have hpoint : '.' ∈ head ++ pointed (s :: rest) := List.mem_append_right _ List.mem_cons_self
    exact h.resolveNormal_of_segments hpoint (segments_pointed hsegments)

/-- **What is at a path** is what is reached from the variable of its first segment. -/
theorem Undotted.resolve_spelled (h : ctx.Undotted) (hpath : Spells path head rest) :
    ctx.resolve path = (ctx.get? (String.ofList head)).bind (walk · rest) := by
  rw [resolve, hpath.normalizedChars_eq, h.resolveNormal_pointed hpath.segments]

theorem Undotted.resolve_eq_some_iff (h : ctx.Undotted) (hpath : Spells path head rest)
    (w : Value) : ctx.resolve path = some w ↔
      ∃ v, ctx.get? (String.ofList head) = some v ∧ Leads v rest w := by
  rw [h.resolve_spelled hpath, Option.bind_eq_some_iff]
  exact exists_congr fun v => and_congr_right fun _ => walk_eq_some_iff

/-- A path of one segment has no owner. -/
theorem owner?_of_nil (hpath : Spells path head []) : ctx.owner? path = none := by
  have hpoint : '.' ∉ head ++ pointed [] := by
    rw [pointed, List.flatMap_nil, List.append_nil]
    exact (hpath.segments head List.mem_cons_self).notMem (by decide)
  rw [owner?, hpath.normalizedChars_eq, Text.cutAtLast?_eq_none hpoint, Option.bind_none]

/-- **The owner of a path** is the object that all segments but the last lead to. -/
theorem Undotted.owner?_concat (h : ctx.Undotted) {s : List Char}
    (hpath : Spells path head (rest ++ [s])) :
    ctx.owner? path =
      ((ctx.get? (String.ofList head)).bind (walk · rest)).bind Value.object? := by
  have hlast : '.' ∉ s := (hpath.segments s (List.mem_cons_of_mem _
    (List.mem_append_right _ List.mem_cons_self))).notMem (by decide)
  have hsegments : ∀ t ∈ head :: rest, IsSegment t := fun t ht => hpath.segments t
    (List.cons_append ▸ List.mem_append_left [s] ht)
  have hpointed : head ++ pointed (rest ++ [s]) = head ++ pointed rest ++ '.' :: s := by
    simp [pointed]
  rw [owner?, hpath.normalizedChars_eq, hpointed, Text.cutAtLast?_append hlast, Option.bind_some]
  dsimp only
  rw [normalizedChars_pointed hsegments, h.resolveNormal_pointed hsegments]

/-- **An owner holds what is at the path** under its last segment. -/
theorem Undotted.resolve_of_owner? (h : ctx.Undotted) (hpath : Spells path head rest) {o : Object}
    (ho : ctx.owner? path = some o) :
    ctx.resolve path = o.get? (String.ofList (rest.getLastD head)) := by
  obtain rfl | ⟨init, s, rfl⟩ := rest.eq_nil_or_concat'
  · rw [owner?_of_nil hpath] at ho
    cases ho
  · rw [h.owner?_concat hpath] at ho
    obtain ⟨v, hv, hobject⟩ := Option.bind_eq_some_iff.1 ho
    obtain ⟨u, hu, hwalk⟩ := Option.bind_eq_some_iff.1 hv
    have hstep : step v s = o.get? (String.ofList s) := by
      cases v with
      | null | bool | num | str | arr => cases hobject
      | obj entries =>
        obtain rfl := Option.some.inj hobject
        rfl
    rw [h.resolve_spelled hpath, hu, Option.bind_some, walk_concat, hwalk, Option.bind_some, hstep,
      List.getLastD_concat]

end Context

/-! ## Conditions -/

/-- **A path of more than one segment is taken for nothing else** in a condition. -/
theorem Path.Spells.isPath {path : String} {head : List Char} {rest : List (List Char)}
    (h : Spells path head rest) (hne : rest ≠ []) : Condition.IsPath path where
  word := ⟨h.ne_empty, h.solid⟩
  unmarked := by
    have hreserved : Condition.operatorChars ⊆ reserved := by decide
    exact h.forall_mem ⟨by decide, by decide, by decide⟩
      fun s hs c hc hmem => (h.segments s hs).unreserved c hc (hreserved hmem)
  unquoted := ⟨h.notMem (by decide) (by decide), h.notMem (by decide) (by decide)⟩
  no_helper := h.head?_ne (by decide)
  no_number := by
    obtain ⟨c, cs, hcs, hstart⟩ := h.exists_start
    rw [Double.read?, hcs]
    exact Double.readChars?_eq_none hstart (hcs ▸ h.mem_of_ne_nil hne)
  no_constant := by
    have hmarks : ∀ word ∈ ["true", "false", "null"], '.' ∉ word.toList ∧ '[' ∉ word.toList := by
      decide
    exact fun hmem => (h.mem_of_ne_nil hne).elim (hmarks path hmem).1 (hmarks path hmem).2

namespace Condition

/-- A path alone. -/
theorem ofText_path {path : String} (h : IsPath path) : ofText path = .holds path := by
  obtain ⟨heq, hgt⟩ := no_helper_of_head? h.no_helper
  rw [ofText, Text.trim_of_not_isBlank h.word.solid, heq, hgt,
    readComparison?_eq_none fun o ho => h.unmarked.contains_eq_false ho, String.ofList_toList]

/-- **Two paths that conditions do not tell apart**, whether they stand alone, in a helper, or on
either side of an operator. -/
structure Alike (ctx : Context) (path other : String) : Prop where
  alone : ctx.satisfies path = ctx.satisfies other
  eqHelper {literal : String} {inside before between behind : List Char} :
    '"' ∉ literal.toList → HelperBlanks inside before between behind →
      let rest := '"' :: (literal.toList ++ '"' :: (behind ++ [')']))
      ctx.satisfies (String.ofList (helperText "eq" path inside before between rest)) =
        ctx.satisfies (String.ofList (helperText "eq" other inside before between rest))
  gtHelper {number : String} {inside before between behind : List Char} :
    IsWord number → HelperBlanks inside before between behind →
      let rest := number.toList ++ (behind ++ [')'])
      ctx.satisfies (String.ofList (helperText "gt" path inside before between rest)) =
        ctx.satisfies (String.ofList (helperText "gt" other inside before between rest))
  left {right spelling : String} {op : Comparison} {front back : List Char} :
    (spelling, op) ∈ operators → IsOperand right → (∀ c ∈ front ++ back, Text.isBlank c = true) →
      let rest := front ++ spelling.toList ++ (back ++ right.toList)
      ctx.satisfies (String.ofList (path.toList ++ rest)) =
        ctx.satisfies (String.ofList (other.toList ++ rest))
  right {left spelling : String} {op : Comparison} {front back : List Char} :
    (spelling, op) ∈ operators → IsOperand left → left.toList.head? ≠ some '(' →
      (∀ c ∈ front ++ back, Text.isBlank c = true) →
        let lead := left.toList ++ front ++ spelling.toList ++ back
        ctx.satisfies (String.ofList (lead ++ path.toList)) =
          ctx.satisfies (String.ofList (lead ++ other.toList))

theorem Alike.refl (ctx : Context) (path : String) : Alike ctx path path where
  alone := rfl
  eqHelper _ _ := rfl
  gtHelper _ _ := rfl
  left _ _ _ := rfl
  right _ _ _ _ := rfl

/-- **What is at its path is all that a condition asks for.** -/
theorem alike_of_resolve {ctx : Context} {path other : String} (hpath : IsPath path)
    (hother : IsPath other) (h : ctx.resolve path = ctx.resolve other) : Alike ctx path other where
  alone := by
    rw [Context.satisfies, Context.satisfies, ofText_path hpath, ofText_path hother, eval, eval, h]
  eqHelper hliteral hblanks := by
    dsimp only
    rw [Context.satisfies, Context.satisfies, ofText_eqHelper hpath.word hliteral hblanks,
      ofText_eqHelper hother.word hliteral hblanks, eval, eval, h]
  gtHelper hnumber hblanks := by
    dsimp only
    rw [Context.satisfies, Context.satisfies, ofText_gtHelper hpath.word hnumber hblanks,
      ofText_gtHelper hother.word hnumber hblanks, eval_exceeds, eval_exceeds, h]
  left {right spelling op front back} hop hright hblank := by
    have hread {p : String} (hp : IsPath p) :
        ofText (String.ofList (p.toList ++ (front ++ spelling.toList ++ (back ++ right.toList)))) =
          .compares p op right := by
      simpa only [List.append_assoc] using
        ofText_operator hop hp.isOperand hright hp.no_helper hblank
    dsimp only
    rw [Context.satisfies, Context.satisfies, hread hpath, hread hother, eval, eval,
      hpath.operand_eq, hother.operand_eq, h]
  right {left spelling op front back} hop hleft hhead hblank := by
    have hread {p : String} (hp : IsPath p) :
        ofText (String.ofList (left.toList ++ front ++ spelling.toList ++ back ++ p.toList)) =
          .compares left op p := by
      simpa only [List.append_assoc] using ofText_operator hop hleft hp.isOperand hhead hblank
    dsimp only
    rw [Context.satisfies, Context.satisfies, hread hpath, hread hother, eval, eval,
      hpath.operand_eq, hother.operand_eq, h]

end Condition

/-- **Conditions do not tell spellings apart.** -/
theorem Path.Spells.alike {path other : String} {head : List Char} {rest : List (List Char)}
    (h : Spells path head rest) (hother : Spells other head rest) (ctx : Context) :
    Condition.Alike ctx path other := by
  by_cases hne : rest = []
  · subst hne
    obtain rfl := h.eq_of_nil hother
    exact .refl ctx path
  · have hresolve : ctx.resolve path = ctx.resolve other := by
      rw [Context.resolve, Context.resolve, h.normalizedChars_eq, hother.normalizedChars_eq]
    exact Condition.alike_of_resolve (h.isPath hne) (hother.isPath hne) hresolve

/-! ## Templates of one directive -/

/-- The only token of a directive that stands alone. -/
theorem Token.ofTemplate_display {l : Lexeme} (h : l.Normal) (hl : l.isText = false) :
    ofTemplate l.display = [⟨l, l.display, 0, 1⟩] := by
  have hne : l.display.toList ≠ [] := by
    obtain ⟨rest, hrest⟩ := Piece.exists_display_eq_opener hl
    rw [hrest]
    exact List.cons_ne_nil _ _
  have hfirst := Piece.first_display h hl []
  rw [List.append_nil] at hfirst
  rw [ofTemplate, Piece.ofText_of_first hfirst hne, Piece.ofText, Piece.merged, List.foldr_cons,
    List.foldr_nil, Piece.prepend, located, located, String.ofList_toList]
  rfl

/-- The tree of a variable or phrase that stands alone. -/
theorem Template.nodes_of_leaf {source : String} {t : Token} {n : Node}
    (h : Token.ofTemplate source = [t]) (hleaf : t.leaf? = some n) : (parse source).nodes = [n] := by
  have hshows := shows_parse source
  have htokens := (Item.tokens_ofTemplate source).trans h
  generalize Item.ofTemplate source = items at hshows htokens
  generalize (parse source).nodes = ns at hshows ⊢
  have hnone : ∀ {items : List Item} {ns : List Node},
      Item.Shows source Node.prepend items ns → Item.tokens items = [] → ns = [] := by
    intro items ns hempty hnil
    cases hempty with
    | nil => rfl
    | leaf | words | loop | conditional => rw [Item.tokens] at hnil; cases hnil
  cases hshows with
  | nil => rw [Item.tokens] at htokens; cases htokens
  | leaf hn hrest =>
    rw [Item.tokens] at htokens
    obtain ⟨rfl, hnil⟩ := List.cons.inj htokens
    rw [hnone hrest hnil, Option.some.inj (hn.symm.trans hleaf)]
  | words hn _ =>
    rw [Item.tokens] at htokens
    rw [(List.cons.inj htokens).1, hleaf] at hn
    cases hn
  | loop | conditional =>
    -- a block has two tokens of its own
    rw [Item.tokens] at htokens
    exact absurd (congrArg List.length htokens) (by simp)

/-- **A variable or phrase that stands alone is rendered as such.** -/
theorem Renderer.render_leaf (r : Renderer) {source : String} {t : Token} {n : Node}
    (h : Token.ofTemplate source = [t]) (hleaf : t.leaf? = some n) (ctx : Context) :
    r.render source ctx = r.node 0 ctx n := by
  have hnodes := Template.nodes_of_leaf h hleaf
  rw [render]
  split
  · rw [template_eq_nodes, hnodes, nodes, nodes, String.append_empty]
  · next hpair =>
    have hstatic := Template.isStatic_parse (Bool.eq_false_iff.2 hpair)
    rw [Template.isStatic, hnodes, List.all_cons, List.all_nil, Bool.and_true] at hstatic
    obtain ⟨-, ⟨_, _, rfl⟩ | ⟨_, rfl⟩⟩ := Token.node_of_leaf? hleaf <;> cases hstatic

/-! ## Every spelling -/

namespace Path.Spells

variable {path other : String} {head : List Char} {rest : List (List Char)}

/-- A path is without braces. -/
theorem unbraced (h : Spells path head rest) : Text.Unbraced path.toList := by
  have hopen : '{' ∉ path.toList := h.notMem (by decide) (by decide)
  have hclose : '}' ∉ path.toList := h.notMem (by decide) (by decide)
  exact fun c hc => ⟨fun heq => hopen (heq ▸ hc), fun heq => hclose (heq ▸ hc)⟩

/-- A path of more than one segment is a variable between braces. -/
theorem normal_variable (h : Spells path head rest) (hne : rest ≠ []) :
    (Lexeme.variable path).Normal := by
  refine ⟨h.ne_empty, h.solid, h.unbraced, ⟨h.head?_ne (by decide), h.head?_ne (by decide)⟩, ?_⟩
  rintro rfl
  exact absurd (h.mem_of_ne_nil hne) (by decide)

theorem normal_raw (h : Spells path head rest) : (Lexeme.raw path).Normal := by
  refine ⟨h.ne_empty, ?_, h.unbraced⟩
  rw [Text.trimmed, Text.trim_of_not_isBlank h.solid, String.ofList_toList]

/-- **A variable is shown by the normal form of its path.** -/
theorem variableText_eq (h : Spells path head rest) (hother : Spells other head rest) (r : Renderer)
    (ctx : Context) (raw : Bool) : r.variableText ctx path raw = r.variableText ctx other raw := by
  have hnormalized : normalized path = normalized other := by
    rw [normalized, normalized, h.normalizedChars_eq, hother.normalizedChars_eq]
  rw [Renderer.variableText, Renderer.variableText, Renderer.output, Renderer.output, hnormalized]

end Path.Spells

namespace Context

open Storefront.Path

/-- **Two paths that a page does not tell apart**: not as a variable, escaped or raw, not as what
a loop runs over, and not in a condition. -/
structure Interchangeable (ctx : Context) (path other : String) : Prop where
  resolve : ctx.resolve path = ctx.resolve other
  escaped (r : Renderer) : r.render (Lexeme.variable path).display ctx =
    r.render (Lexeme.variable other).display ctx
  raw (r : Renderer) : r.render (Lexeme.raw path).display ctx =
    r.render (Lexeme.raw other).display ctx
  loop (r : Renderer) {depth : Nat} (h : depth < Renderer.loopLimit) (body : List Node)
    (source : String) (line : Nat) : r.node depth ctx (.loop path body source line) =
      r.node depth ctx (.loop other body source line)
  condition : Condition.Alike ctx path other

variable {ctx : Context} {path other : String} {head : List Char} {rest : List (List Char)}

/-- **Spellings of the same segments are interchangeable.** -/
theorem interchangeable_of_spells (hpath : Spells path head rest) (hother : Spells other head rest)
    (ctx : Context) : ctx.Interchangeable path other := by
  have hresolve : ctx.resolve path = ctx.resolve other := by
    rw [resolve, resolve, hpath.normalizedChars_eq, hother.normalizedChars_eq]
  have hrender (r : Renderer) {l : Lexeme} {p : String} {raw : Bool} (hl : l.Normal)
      (htext : l.isText = false)
      (hleaf : Token.leaf? ⟨l, l.display, 0, 1⟩ = some (.variable p raw)) :
      r.render l.display ctx = r.variableText ctx p raw := by
    rw [r.render_leaf (Token.ofTemplate_display hl htext) hleaf, Renderer.node]
  refine ⟨hresolve, fun r => ?_, fun r => ?_, fun r depth h body source line => ?_,
    hpath.alike hother ctx⟩
  · by_cases hne : rest = []
    · -- a single segment may be `else`, which is no variable
      subst hne
      rw [hpath.eq_of_nil hother]
    · rw [hrender r (hpath.normal_variable hne) rfl rfl,
        hrender r (hother.normal_variable hne) rfl rfl, hpath.variableText_eq hother]
  · rw [hrender r hpath.normal_raw rfl rfl, hrender r hother.normal_raw rfl rfl,
      hpath.variableText_eq hother]
  · rw [r.node_loop h, r.node_loop h, Renderer.loopItems, Renderer.loopItems, hresolve]

/-- **A path is read by its segments.** In a context without points in its names, what is at a path
is what its further segments lead to from the variable that the first one names, through the keys
of objects and the positions of lists, or nothing if they lead nowhere. Other spellings of these
segments are interchangeable with it. The object that is its owner, if there is one, has under the
last segment what is at the path, or nothing if there is nothing. -/
theorem resolves_by_segments (h : ctx.Undotted) (hpath : Spells path head rest) :
    (∀ w, ctx.resolve path = some w ↔
      ∃ v, ctx.get? (String.ofList head) = some v ∧ Leads v rest w) ∧
      (∀ other, Spells other head rest → ctx.Interchangeable path other) ∧
      ∀ o, ctx.owner? path = some o →
        ctx.resolve path = o.get? (String.ofList (rest.getLastD head)) :=
  ⟨h.resolve_eq_some_iff hpath, fun _ hother => interchangeable_of_spells hpath hother ctx,
    fun _ ho => h.resolve_of_owner? hpath ho⟩

/-- A name in the second tag of the first product. -/
theorem resolves_by_segments_tag :
    let tag : Object := [("name", .str "new")]
    let product : Object := [("tags", .arr [.null, .obj tag])]
    let ctx := Context.ofLayers [] [("products", .arr [.obj product])]
    let r := Renderer.ofSettings {} {} .english none
    let rest := ["0".toList, "tags".toList, "1".toList, "name".toList]
    (ctx.Undotted ∧ Spells "products.[0].tags[1].name" "products".toList rest ∧
      Spells "products[0].tags.1.[name]" "products".toList rest) ∧
      ctx.resolve "products.[0].tags[1].name" = some (.str "new") ∧
      r.render "\x7b\x7bproducts.[0].tags[1].name\x7d\x7d" ctx =
        r.render "\x7b\x7bproducts[0].tags.1.[name]\x7d\x7d" ctx ∧
      ctx.owner? "products.[0].tags[1].name" = some tag ∧
      ctx.resolve "products.[0].tags[1].name" = tag.get? "name" := by
  intro tag product ctx r rest
  have hctx : ctx.Undotted := by decide
  have hsegments : ∀ s ∈ "products".toList :: rest, IsSegment s := by decide
  have hstart : ∀ c ∈ "products".toList.head?, IsStart c := by
    rintro c ⟨⟩
    decide
  have hpath : Spells "products.[0].tags[1].name" "products".toList rest :=
    ⟨hsegments, hstart, _, by decide, .both (.point (.bracket (.point .done)))⟩
  have hother : Spells "products[0].tags.1.[name]" "products".toList rest :=
    ⟨hsegments, hstart, _, by decide, .bracket (.point (.point (.both .done)))⟩
  have hfirst : position? "0".toList = some 0 := by decide
  have hsecond : position? "1".toList = some 1 := by decide
  have howner : ctx.owner? "products.[0].tags[1].name" = some tag :=
    @Undotted.owner?_concat ctx _ _ ["0".toList, "tags".toList, "1".toList] hctx _ hpath
  obtain ⟨hresolve, hspellings, howned⟩ := resolves_by_segments hctx hpath
  refine ⟨⟨hctx, hpath, hother⟩, (hresolve _).2 ⟨.arr [.obj product], rfl, ?_⟩,
    (hspellings _ hother).escaped r, howner, howned tag howner⟩
  exact .item hfirst rfl (.entry rfl (.item hsecond rfl (.entry rfl (.here _))))

end Context

end Storefront
