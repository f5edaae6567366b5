import Mathlib

/-!
# A map and its inverse index

A map from keys to values kept beside a table indexed by the values, from
whose rows the key can be read back. The two are mutually inverse when each
says the same pairs.
-/

namespace BuiltOnEnvoy.Foundations

variable {K V E : Type*} [DecidableEq K]

theorem erase_singleton (k : K) (v : V) :
    (AList.singleton k v : AList fun _ : K => V).erase k = ∅ := by
  apply AList.ext
  simp [AList.erase]

variable [DecidableEq V]

/-- `forward` maps `k` to `v` exactly when the row of `v` has the key `k`. -/
def MutuallyInverse (keyOf : V → E → K) (forward : AList fun _ : K => V)
    (rows : AList fun _ : V => E) : Prop :=
  ∀ k v, forward.lookup k = some v ↔ ∃ e, rows.lookup v = some e ∧ keyOf v e = k

namespace MutuallyInverse

variable {keyOf : V → E → K} {forward : AList fun _ : K => V} {rows : AList fun _ : V => E}

theorem empty : MutuallyInverse keyOf ∅ ∅ := by
  intro k v
  simp

theorem injective (h : MutuallyInverse keyOf forward rows) {k k' : K} {v : V}
    (hk : forward.lookup k = some v) (hk' : forward.lookup k' = some v) : k = k' := by
  obtain ⟨e, he, rfl⟩ := (h k v).mp hk
  obtain ⟨e', he', rfl⟩ := (h k' v).mp hk'
  rw [he] at he'
  cases he'
  rfl

theorem length_le (h : MutuallyInverse keyOf forward rows) :
    forward.keys.length ≤ rows.keys.length := by
  have hlookup : ∀ x ∈ forward.entries, forward.lookup x.1 = some x.2 := fun x hx =>
    AList.mem_lookup_iff.mpr hx
  have hnodup : (forward.entries.map Sigma.snd).Nodup := by
    refine List.Nodup.map_on ?_ (List.Nodup.of_map Sigma.fst forward.nodupKeys)
    intro ⟨k, v⟩ hk ⟨k', v'⟩ hk' heq
    obtain rfl : v = v' := heq
    obtain rfl : k = k' := h.injective (hlookup _ hk) (hlookup _ hk')
    rfl
  have hsubset : forward.entries.map Sigma.snd ⊆ rows.keys := by
    intro v hv
    obtain ⟨x, hx, rfl⟩ := List.mem_map.mp hv
    obtain ⟨e, he, -⟩ := (h x.1 x.2).mp (hlookup x hx)
    exact AList.mem_keys.mp (AList.lookup_isSome.mp (by simp [he]))
  have hlength := (List.subperm_of_subset hnodup hsubset).length_le
  simpa [AList.keys, List.keys] using hlength

theorem update (h : MutuallyInverse keyOf forward rows) {v : V} {e e' : E}
    (hv : rows.lookup v = some e) (hkey : keyOf v e' = keyOf v e) :
    MutuallyInverse keyOf forward (rows.insert v e') := by
  intro k w
  rw [h k w]
  by_cases hw : w = v
  · subst hw
    simp [hv, hkey]
  · rw [AList.lookup_insert_ne hw]

theorem insert (h : MutuallyInverse keyOf forward rows) {k : K} {v : V} {e : E}
    (hk : forward.lookup k = none) (hv : rows.lookup v = none) (hkey : keyOf v e = k) :
    MutuallyInverse keyOf (forward.insert k v) (rows.insert v e) := by
  intro k' w
  have hold := h k' w
  by_cases hk' : k' = k
  · subst hk'
    by_cases hw : w = v
    · subst hw
      simp [hkey]
    · have hnone : ¬∃ e, rows.lookup w = some e ∧ keyOf w e = k' := by
        rw [← hold, hk]
        simp
      rw [AList.lookup_insert, AList.lookup_insert_ne hw]
      constructor
      · intro heq
        exact absurd (Option.some.inj heq).symm hw
      · intro hex
        exact absurd hex hnone
  · rw [AList.lookup_insert_ne hk', hold]
    by_cases hw : w = v
    · subst hw
      simp only [hv, AList.lookup_insert, Option.some.injEq]
      constructor
      · intro ⟨e', hfalse, _⟩
        cases hfalse
      · intro ⟨e', he', hkey'⟩
        subst he'
        exact absurd (hkey'.symm.trans hkey) hk'
    · rw [AList.lookup_insert_ne hw]

theorem erase (h : MutuallyInverse keyOf forward rows) {k : K} {v : V}
    (hkey : ∀ e, rows.lookup v = some e → keyOf v e = k) :
    MutuallyInverse keyOf (if forward.lookup k = some v then forward.erase k else forward)
      (rows.erase v) := by
  intro k' w
  have hold := h k' w
  by_cases hw : w = v
  · subst hw
    simp only [AList.lookup_erase, reduceCtorEq, false_and, exists_false, iff_false]
    intro hk'
    split_ifs at hk' with hk
    · by_cases hne : k' = k
      · subst hne
        simp at hk'
      · rw [AList.lookup_erase_ne hne] at hk'
        exact hne (h.injective hk' hk)
    · grind
  · rw [AList.lookup_erase_ne hw, ← hold]
    split_ifs with hk
    · by_cases hne : k' = k
      · subst hne
        rw [AList.lookup_erase, hk]
        simp [Ne.symm hw]
      · rw [AList.lookup_erase_ne hne]
    · rfl

end MutuallyInverse

end BuiltOnEnvoy.Foundations
