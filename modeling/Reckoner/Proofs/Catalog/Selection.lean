/-
# A selection from a catalog is a catalog

Restricting leaves operators, functions and constants out and keeps the
brackets, the separator and the order.  Nothing that is asked of a definition
asks for a part of it, so what is left is consistent as before:

    operators    in order, so still pairwise apart
    names        in order, so still all different
    texts        some of those used before
-/
import Reckoner.Catalog.Derivation
import Reckoner.Proofs.Catalog.Lookup

namespace Reckoner

namespace Definition

variable {d : Definition} (sel : Selection)

theorem uses_restrict_subset : (d.restrict sel).uses ⊆ d.uses := by
  refine List.append_subset.mpr ⟨?_, List.subset_append_right _ _⟩
  exact List.subset_append_of_subset_left _ (List.map_subset _ (List.filter_sublist.subset))

theorem names_restrict_sublist : List.Sublist (d.restrict sel).names d.names :=
  (List.filter_sublist.map _).append (List.filter_sublist.map _)

theorem Consistent.restrict (h : d.Consistent) : (d.restrict sel).Consistent where
  finite := fun op hop => h.finite op (List.mem_of_mem_filter hop)
  operators := h.operators.sublist List.filter_sublist
  letters := fun name hname => h.letters name ((names_restrict_sublist sel).subset hname)
  names := h.names.sublist (names_restrict_sublist sel)
  bounds := fun f hf => h.bounds f (List.mem_of_mem_filter hf)
  brackets := h.brackets
  texts := fun s hs => h.texts s (uses_restrict_subset sel hs)
  roles := fun s hs t ht => h.roles s (uses_restrict_subset sel hs) t (uses_restrict_subset sel ht)

end Definition

/-- Every selection from a catalog is a catalog. -/
theorem Catalog.exists_restrict (c : Catalog) (sel : Selection) :
    ∃ c', c.restrict sel = .ok c' :=
  (c.consistency.restrict sel).exists_ofDefinition

end Reckoner
