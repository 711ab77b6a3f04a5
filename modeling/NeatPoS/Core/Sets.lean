import NeatPoS.Core.StateDB

/-!
# Cached sets of addresses

A `CachedSet` is a set of addresses in three places: the cache, the state trie, and the bit that
says that the cache has to be written.  `Coherent` is what keeps the three together.  Where it
holds, the addresses in the set (`CachedSet.addresses`) do not change when the set is loaded,
written or loaded again by the next block.

It is not kept by all functions.  `clearByAddress` may leave an empty cache behind that counts as
not loaded, and `delete` takes an address from the cache alone; the refund set does not use either.
-/

set_option autoImplicit false

namespace NeatPoS

namespace CachedSet

/-- What the cache holds is in the trie, or is going to be written. -/
structure Coherent (c : CachedSet) : Prop where
  dirty : c.dirty = true → c.cache ≠ ∅
  clean : c.dirty = false → c.cache = ∅ ∨ c.stored = some c.cache

variable {c : CachedSet}

theorem addresses_of_cache (h : c.cache ≠ ∅) : c.addresses = c.cache := by
  rw [addresses, load, if_neg h]

theorem addresses_of_empty (h : c.cache = ∅) : c.addresses = c.stored.getD ∅ := by
  rw [addresses, load, if_pos h]

theorem Coherent.not_dirty (h : c.Coherent) (hc : c.cache = ∅) : c.dirty = false := by
  cases hd : c.dirty with
  | false => rfl
  | true => exact absurd hc (h.dirty hd)

theorem Coherent.load (h : c.Coherent) : c.load.Coherent := by
  rw [CachedSet.load]
  split
  · rename_i hc
    refine ⟨fun hd => absurd hd (by simp [h.not_dirty hc]), fun _ => ?_⟩
    cases hs : c.stored with
    | none => exact .inl rfl
    | some => exact .inr rfl
  · exact h

theorem Coherent.mark (h : c.Coherent) (a : Address) : (c.mark a).Coherent := by
  rw [CachedSet.mark]
  split
  · exact h.load
  · exact ⟨fun _ => Finset.insert_ne_empty a _, fun hd => Bool.noConfusion hd⟩

theorem mem_addresses_mark {a b : Address} :
    b ∈ (c.mark a).addresses ↔ b = a ∨ b ∈ c.addresses := by
  rw [mark]
  split
  · rename_i ha
    have hne : c.load.cache ≠ ∅ := Finset.ne_empty_of_mem ha
    rw [addresses_of_cache hne]
    constructor
    · exact .inr
    · rintro (rfl | hb)
      · exact ha
      · exact hb
  · rw [addresses_of_cache (Finset.insert_ne_empty a _), Finset.mem_insert]
    rfl

theorem Coherent.write (h : c.Coherent) : c.write.Coherent := by
  rw [CachedSet.write]
  split
  · rename_i hd
    exact ⟨fun _ => h.dirty hd, fun _ => .inr rfl⟩
  · exact h

theorem Coherent.addresses_write (h : c.Coherent) : c.write.addresses = c.addresses := by
  rw [CachedSet.write]
  split
  · rename_i hd
    rw [addresses_of_cache (h.dirty hd), addresses_of_cache]
    exact h.dirty hd
  · rfl

theorem coherent_reload (c : CachedSet) : c.reload.Coherent :=
  ⟨fun hd => Bool.noConfusion hd, fun _ => .inl rfl⟩

theorem coherent_clear : clear.Coherent :=
  ⟨fun hd => Bool.noConfusion hd, fun _ => .inl rfl⟩

theorem Coherent.addresses_reload_write (h : c.Coherent) :
    c.write.reload.addresses = c.addresses := by
  rw [addresses_of_empty rfl]
  cases hd : c.dirty with
  | true =>
    rw [addresses_of_cache (h.dirty hd)]
    simp [reload, CachedSet.write, hd]
  | false =>
    have hw : c.write.reload.stored = c.stored := by simp [reload, CachedSet.write, hd]
    rw [hw]
    rcases h.clean hd with hc | hs
    · rw [addresses_of_empty hc]
    · by_cases hc : c.cache = ∅
      · rw [addresses_of_empty hc]
      · rw [addresses_of_cache hc, hs]
        rfl

end CachedSet

end NeatPoS
