import Storefront.Failure
import Storefront.Proofs.Conservation

/-!
# In which order complaints come

A template is checked by its first complaint, so it matters in which order they
come. They do not come in the order of the directives they are about: what is in
a loop is settled when the loop is grouped, so a loop is complained about before
everything that stands around it, also before what stands in front of it
(`Item.reported`).

So the order is that of the template exactly when *loops lead* (`Item.Leads`):
no directive without a place stands in front of a loop that has one in it, be it
outside of all loops or within one. Then the check of a template fails with the
mistake that comes first in it. When a loop does not lead, the check may report a
mistake further down instead (`Template.check_skips_first`).

The order of tokens is that of the places where they start. Two neighbouring
parts of a template keep it, with what is in their loops moved to the front, just
when each of them does and there is nothing to move over
(`Token.pairwise_before_moved`); blocks are taken apart by this one fact.
-/

namespace Storefront

/-! ## Tokens in order -/

namespace Token

/-- **One token comes before another** in a template. -/
structure Before (t u : Token) : Prop where
  /-- It starts further in front. -/
  start_lt : t.start < u.start
  /-- It is on the same line or on one further up. -/
  line_le : t.line ≤ u.line

theorem Before.asymm {t u : Token} (h : t.Before u) : ¬ u.Before t :=
  fun h' => Nat.lt_asymm h.start_lt h'.start_lt

/-- Located pieces do not come before the place where they are located. -/
theorem le_of_mem_located {start line : Nat} {ps : List Piece} {t : Token}
    (h : t ∈ located start line ps) : start ≤ t.start ∧ line ≤ t.line := by
  induction ps generalizing start line with
  | nil => cases h
  | cons p ps ih =>
    obtain rfl | h := List.mem_cons.1 h
    · exact ⟨Nat.le_refl _, Nat.le_refl _⟩
    · obtain ⟨hstart, hline⟩ := ih h
      exact ⟨Nat.le_of_add_right_le hstart, Nat.le_of_add_right_le hline⟩

theorem pairwise_before_located {ps : List Piece} (hps : ∀ p ∈ ps, p.source ≠ [])
    (start line : Nat) : (located start line ps).Pairwise Before := by
  induction ps generalizing start line with
  | nil => exact .nil
  | cons p ps ih =>
    obtain ⟨hp, hps⟩ := List.forall_mem_cons.1 hps
    refine .cons (fun t ht => ?_) (ih hps _ _)
    obtain ⟨hstart, hline⟩ := le_of_mem_located ht
    have hpos : 0 < (String.ofList p.source).utf8ByteSize := by
      refine Nat.pos_of_ne_zero fun hzero => hp ?_
      exact String.ofList_injective (String.utf8ByteSize_eq_zero_iff.1 hzero)
    exact ⟨Nat.lt_of_lt_of_le (Nat.lt_add_of_pos_right hpos) hstart, Nat.le_of_add_right_le hline⟩

/-- The tokens of a template come one before the other. -/
theorem pairwise_before_ofTemplate (template : String) :
    (ofTemplate template).Pairwise Before :=
  pairwise_before_located (fun p hp => (Piece.settled_of_mem_merged_ofText p hp).source_ne_nil) 0 1

/-- **Two parts of a template side by side**, each with some of it moved to its front. Moving both
fronts to the very front keeps the order just when each part is in order and nothing is moved
over anything. -/
theorem pairwise_before_moved {front back front' back' : List Token}
    (h : ∀ t ∈ front ++ back, ∀ u ∈ front' ++ back', t.Before u) :
    (front ++ front' ++ (back ++ back')).Pairwise Before ↔
      (front ++ back).Pairwise Before ∧ (front' ++ back').Pairwise Before ∧
        (back ≠ [] → front' = []) := by
  simp only [List.mem_append] at h
  simp only [List.pairwise_append, List.mem_append]
  constructor
  · rintro ⟨⟨hfront, hfront', -⟩, ⟨hback, hback', -⟩, hover⟩
    refine ⟨⟨hfront, hback, fun t ht u hu => hover t (.inl ht) u (.inl hu)⟩,
      ⟨hfront', hback', fun t ht u hu => hover t (.inr ht) u (.inr hu)⟩, fun hne => ?_⟩
    -- what is moved over something would be on both sides of it
    refine List.eq_nil_iff_forall_not_mem.2 fun u hu => ?_
    obtain ⟨t, ht⟩ := List.exists_mem_of_ne_nil back hne
    exact (h t (.inr ht) u (.inl hu)).asymm (hover u (.inr hu) t (.inl ht))
  · rintro ⟨⟨hfront, hback, hpart⟩, ⟨hfront', hback', hpart'⟩, hempty⟩
    refine ⟨⟨hfront, hfront', fun t ht u hu => h t (.inl ht) u (.inl hu)⟩,
      ⟨hback, hback', fun t ht u hu => h t (.inr ht) u (.inr hu)⟩, ?_⟩
    rintro t (ht | ht) u (hu | hu)
    · exact hpart t ht u hu
    · exact h t (.inl ht) u (.inr hu)
    · rw [hempty (List.ne_nil_of_mem hu)] at ht
      cases ht
    · exact hpart' t ht u hu

end Token

/-! ## Loops that lead -/

namespace Item

/-- **Loops lead**: no block directive without a place stands in front of a loop with one in it,
unless it is itself in a loop that ends before. -/
def Leads : List Item → Prop
  | [] => True
  | .token t :: rest => (t.isBlock = true → inside rest = []) ∧ Leads rest
  | .block .each _ body _ _ _ :: rest => Leads body ∧ Leads rest
  | .block _ _ shown _ hidden _ :: rest =>
    (outside shown ≠ [] → inside hidden = []) ∧
      (outside shown ++ outside hidden ≠ [] → inside rest = []) ∧
      Leads shown ∧ Leads hidden ∧ Leads rest

theorem leads_block_of_ne {kind : BlockKind} (hkind : kind ≠ .each) (opening : Token)
    (shown : List Item) (border : Option Token) (hidden : List Item) (closing : Token)
    (rest : List Item) :
    Leads (.block kind opening shown border hidden closing :: rest) ↔
      (outside shown ≠ [] → inside hidden = []) ∧
        (outside shown ++ outside hidden ≠ [] → inside rest = []) ∧
        Leads shown ∧ Leads hidden ∧ Leads rest := by
  rw [Leads]
  exact hkind

theorem mem_tokens_of_mem_reported {items : List Item} (h : Formed items) {t : Token}
    (ht : t ∈ reported items) : t ∈ tokens items :=
  (alone_sublist_tokens items).subset (List.mem_filter.1 ((reported_perm h).subset ht)).1

/-- The parts of a block and what follows it come one before the other. -/
theorem pairwise_before_block {kind : BlockKind} {opening : Token} {shown : List Item}
    {border : Option Token} {hidden : List Item} {closing : Token} {rest : List Item}
    (h : (tokens (.block kind opening shown border hidden closing :: rest)).Pairwise
      Token.Before) :
    ((tokens shown).Pairwise Token.Before ∧ (tokens hidden).Pairwise Token.Before ∧
      (tokens rest).Pairwise Token.Before) ∧
    (∀ t ∈ tokens shown, ∀ u ∈ tokens hidden, t.Before u) ∧
    (∀ t ∈ tokens shown, ∀ u ∈ tokens rest, t.Before u) ∧
    ∀ t ∈ tokens hidden, ∀ u ∈ tokens rest, t.Before u := by
  have hparts : (tokens shown ++ tokens hidden ++ tokens rest).Pairwise Token.Before := by
    refine h.sublist ?_
    rw [tokens]
    refine List.Sublist.cons opening (List.Sublist.append ?_ (List.sublist_cons_self closing _))
    exact List.Sublist.append (List.sublist_append_left _ _) (List.Sublist.refl _)
  obtain ⟨hbranches, hrest, hbefore⟩ := List.pairwise_append.1 hparts
  obtain ⟨hshown, hhidden, hbetween⟩ := List.pairwise_append.1 hbranches
  exact ⟨⟨hshown, hhidden, hrest⟩, hbetween,
    fun t ht => hbefore t (List.mem_append_left _ ht),
    fun t ht => hbefore t (List.mem_append_right _ ht)⟩

/-- **Complaints come in the order of the template exactly when loops lead.** -/
theorem pairwise_reported_iff {items : List Item} (hformed : Formed items)
    (horder : (tokens items).Pairwise Token.Before) :
    (reported items).Pairwise Token.Before ↔ Leads items := by
  induction items using forest_induction with
  | nil =>
    rw [Leads, reported, inside, outside]
    exact ⟨fun _ => trivial, fun _ => .nil⟩
  | token t rest ih =>
    rw [tokens] at horder
    obtain ⟨hfirst, hrest⟩ := List.pairwise_cons.1 horder
    rw [Formed] at hformed
    rw [Leads, ← ih hformed hrest, reported, inside, outside]
    have hbefore : ∀ u ∈ [] ++ (if t.isBlock then [t] else []), ∀ v ∈ inside rest ++ outside rest,
        u.Before v := by
      intro u hu v hv
      split at hu
      · obtain rfl := List.mem_singleton.1 hu
        exact hfirst v (mem_tokens_of_mem_reported hformed hv)
      · cases hu
    have hmoved := Token.pairwise_before_moved hbefore
    rw [List.nil_append, List.nil_append] at hmoved
    rw [hmoved]
    cases t.isBlock with
    | true => simp [reported, and_comm]
    | false => simp [reported]
  | block kind opening shown border hidden closing rest ihshown ihhidden ihrest =>
    obtain ⟨⟨hshown, hhidden, hrest⟩, hbetween, hshownrest, hhiddenrest⟩ :=
      pairwise_before_block horder
    rw [Formed] at hformed
    obtain ⟨hbounded, hformedshown, hformedhidden, hformedrest⟩ := hformed
    have hinshown := fun t => mem_tokens_of_mem_reported (t := t) hformedshown
    have hinhidden := fun t => mem_tokens_of_mem_reported (t := t) hformedhidden
    have hinrest := fun t => mem_tokens_of_mem_reported (t := t) hformedrest
    by_cases hkind : kind = .each
    · -- a loop is at the front as a whole
      subst hkind
      have hbefore : ∀ t ∈ reported shown ++ [], ∀ u ∈ reported rest, t.Before u := by
        intro t ht u hu
        rw [List.append_nil] at ht
        exact hshownrest t (hinshown t ht) u (hinrest u hu)
      have hmoved := Token.pairwise_before_moved hbefore
      rw [List.append_nil, List.nil_append] at hmoved
      rw [Leads, ← ihshown hformedshown hshown, ← ihrest hformedrest hrest, reported, inside,
        outside]
      exact hmoved.trans (by simp [reported])
    · have hbranches : ∀ t ∈ reported shown, ∀ u ∈ reported hidden, t.Before u :=
        fun t ht u hu => hbetween t (hinshown t ht) u (hinhidden u hu)
      have hbefore : ∀ t ∈ inside shown ++ inside hidden ++ (outside shown ++ outside hidden),
          ∀ u ∈ reported rest, t.Before u := by
        intro t ht u hu
        have hpart : t ∈ reported shown ∨ t ∈ reported hidden := by
          simp only [reported, List.mem_append] at ht ⊢
          tauto
        obtain ht | ht := hpart
        · exact hshownrest t (hinshown t ht) u (hinrest u hu)
        · exact hhiddenrest t (hinhidden t ht) u (hinrest u hu)
      rw [leads_block_of_ne hkind, ← ihshown hformedshown hshown, ← ihhidden hformedhidden hhidden,
        ← ihrest hformedrest hrest, reported, inside_block_of_ne hkind, outside_block_of_ne hkind,
        Token.pairwise_before_moved hbefore, Token.pairwise_before_moved hbranches]
      simp only [reported]
      tauto

/-- What is complained about is in the order of the template exactly when loops lead. -/
theorem reported_eq_strays_iff {items : List Item} (hformed : Formed items)
    (horder : (tokens items).Pairwise Token.Before) :
    reported items = strays items ↔ Leads items := by
  have hstrays : (strays items).Pairwise Token.Before :=
    horder.sublist (List.filter_sublist.trans (alone_sublist_tokens items))
  rw [← pairwise_reported_iff hformed horder]
  constructor
  · intro heq
    rwa [heq]
  · intro hreported
    exact (reported_perm hformed).eq_of_pairwise
      (fun t u _ _ htu hut => absurd hut htu.asymm) hreported hstrays

end Item

/-! ## Templates -/

namespace Template

theorem check_of_nil {template : String} (h : (parse template).diagnostics = []) (file : String) :
    check template file = .ok (parse template) := by
  simp only [check, h]

/-- The check of a template is about its first complaint. -/
theorem check_of_cons {template : String} {d : Diagnostic} {ds : List Diagnostic}
    (h : (parse template).diagnostics = d :: ds) (file : String) :
    check template file = .error (.template file d.line d.message) := by
  simp only [check, h]

/-- **Complaints about loops come first.** What is complained about is each block directive without
a place, those of a loop before all that is around it, so the order is that of the template exactly
when loops lead. In that case the lines of the complaints never decrease, and the check of the
template fails with the directive that comes first in it. -/
theorem parse_reports (template : String) :
    (parse template).diagnostics =
        (Item.reported (Item.ofTemplate template)).map Token.complaint ∧
      (Item.reported (Item.ofTemplate template)).Perm (Item.strays (Item.ofTemplate template)) ∧
      (Item.reported (Item.ofTemplate template) = Item.strays (Item.ofTemplate template) ↔
        Item.Leads (Item.ofTemplate template)) ∧
      (Item.Leads (Item.ofTemplate template) →
        ((parse template).diagnostics.map Diagnostic.line).Pairwise (· ≤ ·) ∧
          ∀ file, check template file =
            match Item.strays (Item.ofTemplate template) with
            | [] => .ok (parse template)
            | t :: _ => .error (.template file t.line t.complaint.message)) := by
  have hformed := Item.formed_ofTemplate template
  have horder : (Item.tokens (Item.ofTemplate template)).Pairwise Token.Before := by
    rw [Item.tokens_ofTemplate]
    exact Token.pairwise_before_ofTemplate template
  have hdiagnostics := Item.diagnostics_eq (Item.ofTemplate template)
  refine ⟨hdiagnostics, Item.reported_perm hformed, Item.reported_eq_strays_iff hformed horder,
    fun hleads => ⟨?_, fun file => ?_⟩⟩
  · show ((Item.diagnostics (Item.ofTemplate template)).map Diagnostic.line).Pairwise (· ≤ ·)
    rw [hdiagnostics, List.map_map, List.pairwise_map]
    exact ((Item.pairwise_reported_iff hformed horder).2 hleads).imp fun h => h.line_le
  · rw [(Item.reported_eq_strays_iff hformed horder).2 hleads] at hdiagnostics
    cases hstrays : Item.strays (Item.ofTemplate template) with
    | nil =>
      rw [hstrays] at hdiagnostics
      exact check_of_nil hdiagnostics file
    | cons t rest =>
      rw [hstrays] at hdiagnostics
      exact check_of_cons hdiagnostics file

/-- A loop with a mistake in it leads when the other mistake is behind it. -/
theorem parse_reports_behind_loop :
    let tag := Lexeme.braced
    let template := tag "#each a" ++ "\n" ++ tag "/if" ++ tag "/each" ++ tag "else"
    Item.Leads (Item.ofTemplate template) ∧
      ((parse template).diagnostics.map Diagnostic.line).Pairwise (· ≤ ·) ∧
      ∀ file, check template file = .error (.template file 2
        ("unexpected " ++ tag "/if" ++ " without a matching open")) := by
  intro tag template
  have htokens : Token.ofTemplate template =
      [⟨.opening .each "a", tag "#each a", 0, 1⟩, ⟨.text "\n", "\n", 11, 1⟩,
        ⟨.closing .ifTrue, tag "/if", 12, 2⟩, ⟨.closing .each, tag "/each", 19, 2⟩,
        ⟨.otherwise, tag "else", 28, 2⟩] := by
    decide +kernel
  have hitems : Item.ofTemplate template =
      [.block .each ⟨.opening .each "a", tag "#each a", 0, 1⟩
          [.token ⟨.text "\n", "\n", 11, 1⟩, .token ⟨.closing .ifTrue, tag "/if", 12, 2⟩] none []
          ⟨.closing .each, tag "/each", 19, 2⟩,
        .token ⟨.otherwise, tag "else", 28, 2⟩] := by
    rw [Item.ofTemplate, htokens]
    -- what the directives were written as plays no part in grouping
    generalize tag "#each a" = opens, tag "/if" = stray, tag "/each" = closes, tag "else" = divides
    cbv
  have hleads : Item.Leads (Item.ofTemplate template) := by
    rw [hitems]
    simp [Item.Leads, Item.inside, Token.isBlock]
  have hstrays : Item.strays (Item.ofTemplate template) =
      [⟨.closing .ifTrue, tag "/if", 12, 2⟩, ⟨.otherwise, tag "else", 28, 2⟩] := by
    rw [hitems]
    simp [Item.strays, Item.alone, Token.isBlock]
  obtain ⟨hlines, hcheck⟩ := (parse_reports template).2.2.2 hleads
  refine ⟨hleads, hlines, fun file => ?_⟩
  rw [hcheck file, hstrays]
  rfl

/-- **The check of a template may skip the directive that comes first in it**: the one on the third
line is in a loop, so it is complained about before the one on the first line. -/
theorem check_skips_first :
    let tag := Lexeme.braced
    let template := tag "/if" ++ "\n" ++ tag "#each a" ++ "\n" ++ tag "/if" ++ "\n" ++ tag "/each"
    (Item.strays (Item.ofTemplate template)).map Token.line = [1, 3] ∧
      (parse template).diagnostics.map Diagnostic.line = [3, 1] ∧
      ∀ file, check template file = .error (.template file 3
        ("unexpected " ++ tag "/if" ++ " without a matching open")) := by
  intro tag template
  have htokens : Token.ofTemplate template =
      [⟨.closing .ifTrue, tag "/if", 0, 1⟩, ⟨.text "\n", "\n", 7, 1⟩,
        ⟨.opening .each "a", tag "#each a", 8, 2⟩, ⟨.text "\n", "\n", 19, 2⟩,
        ⟨.closing .ifTrue, tag "/if", 20, 3⟩, ⟨.text "\n", "\n", 27, 3⟩,
        ⟨.closing .each, tag "/each", 28, 4⟩] := by
    decide +kernel
  have hstrays : Item.strays (Item.ofTemplate template) =
      [⟨.closing .ifTrue, tag "/if", 0, 1⟩, ⟨.closing .ifTrue, tag "/if", 20, 3⟩] := by
    rw [Item.ofTemplate, htokens]
    generalize tag "#each a" = opens, tag "/if" = stray, tag "/each" = closes
    cbv
  have hdiagnostics : (parse template).diagnostics =
      [⟨3, "unexpected " ++ tag "/if" ++ " without a matching open"⟩,
        ⟨1, "unexpected " ++ tag "/if" ++ " without a matching open"⟩] := by
    decide +kernel
  refine ⟨by rw [hstrays]; rfl, by rw [hdiagnostics]; rfl, check_of_cons hdiagnostics⟩

end Template

end Storefront
