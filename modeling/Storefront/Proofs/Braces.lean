import Storefront.Template.Token
import Storefront.Text.Blank
import Storefront.Text.Search

/-!
# Braces in texts

Both the directives of a template and the blocks of a label are delimited by
braces, so in both it matters where braces are and where they are not. A text
without any (`Text.Unbraced`) can stand before or behind another without making a
run of braces occur in it (`Text.contains_surrounded`), and blanks are such a text,
so trimming neither makes nor breaks one (`Text.contains_trim`).
-/

namespace Storefront

namespace Text

/-! ## Texts without braces -/

/-- **A text without braces.** -/
def Unbraced (cs : List Char) : Prop := ∀ c ∈ cs, c ≠ '{' ∧ c ≠ '}'

instance : DecidablePred Unbraced := fun cs => List.decidableBAll _ cs

theorem unbraced_nil : Unbraced [] := nofun

theorem unbraced_cons {c : Char} {cs : List Char} :
    Unbraced (c :: cs) ↔ (c ≠ '{' ∧ c ≠ '}') ∧ Unbraced cs :=
  List.forall_mem_cons

theorem unbraced_append {a b : List Char} : Unbraced (a ++ b) ↔ Unbraced a ∧ Unbraced b :=
  List.forall_mem_append

theorem unbraced_of_isBlank {cs : List Char} (h : ∀ c ∈ cs, isBlank c = true) : Unbraced cs := by
  intro c hc
  constructor
  · rintro rfl
    exact absurd (h _ hc) (by decide)
  · rintro rfl
    exact absurd (h _ hc) (by decide)

/-! ## Runs of braces -/

section

variable {mark : List Char} (hmark : ∀ c ∈ mark, c = '{' ∨ c = '}')

include hmark

/-- A run of braces has nothing in common with a text without braces. -/
theorem Unbraced.notMem_of_run {cs : List Char} (h : Unbraced cs) : ∀ c ∈ cs, c ∉ mark :=
  fun c hc hmem => (hmark c hmem).elim (h c hc).1 (h c hc).2

/-- **Text without braces around another does not change which runs of braces occur in it.** -/
theorem contains_surrounded {lead tail : List Char} (hlead : Unbraced lead) (htail : Unbraced tail)
    (cs : List Char) : contains mark (lead ++ cs ++ tail) = contains mark cs :=
  contains_between (hlead.notMem_of_run hmark) (htail.notMem_of_run hmark) cs

theorem contains_trim (cs : List Char) : contains mark (trim cs) = contains mark cs := by
  obtain ⟨lead, tail, hcs, hlead, htail⟩ := exists_append_trim cs
  have hsame := contains_surrounded hmark (unbraced_of_isBlank hlead) (unbraced_of_isBlank htail)
    (trim cs)
  rw [← hcs] at hsame
  exact hsame.symm

end

end Text

theorem BlockKind.unbraced_name (kind : BlockKind) : Text.Unbraced kind.name.toList := by
  cases kind <;> decide

end Storefront
