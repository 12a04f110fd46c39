import HeaderSync.Proofs.ChainIndex.InsertionOrder
import HeaderSync.Proofs.Retarget.History

/-!
# The truncated history of a child

The index hands the rules only the newest of an entry's ancestors. These are all of them or as many
as either rule can look back on, so the rules answer, and as they would on the whole chain.
-/

namespace HeaderSync
attribute [local irreducible] Header.id Compact.work

namespace ChainIndex
variable {p : Params} {i : ChainIndex} {id : Digest} {e : Entry}

theorem samples_suffix (i : ChainIndex) (id : Digest) (count : Nat) :
    ((i.ancestors id).map Entry.sample).reverse =
      (((i.ancestors id).drop count).map Entry.sample).reverse ++ i.samples id count := by
  rw [samples, ← List.reverse_append, ← List.map_append, List.take_append_drop]

/-- The index always knows the bits of a child, and they are those that the rules give for all
ancestors of the parent, back to the first block. -/
theorem truncated_history_suffices (hp : p.Valid) (hi : i.Built) (he : i.get? id = some e)
    (time : Int) :
    ∃ bits, i.requiredAfter p id time = .ok bits ∧
      Retarget.required p ((i.ancestors id).map Entry.sample).reverse time = .ok bits := by
  obtain ⟨older, ha⟩ := get?_eq_some.mp he
  have hl : Lineage (i.ancestors id) := ha ▸ (hi.wellFormed.lineage ha).2
  have hlength : (i.ancestors id).length = e.height + 1 := by
    rw [hl.length_eq]
    simp [ha]
  have hlast : (i.samples id (sampleCount p)).getLast? = some e.sample := getLast?_samples ha
  have hlong : min (e.height + 1) (sampleCount p) ≤ (i.samples id (sampleCount p)).length := by
    rw [samples, List.length_reverse, List.length_map, List.length_take, hlength]
    omega
  obtain ⟨bits, hbits⟩ :
      ∃ bits, Retarget.required p (i.samples id (sampleCount p)) time = .ok bits :=
    Retarget.exists_required hp.window_ne_zero (hl.consecutive _) hlast hlong
  refine ⟨bits, ?_, ?_⟩
  · rw [requiredAfter_of_ancestors ha, hbits]
    rfl
  · have hall : Retarget.Consecutive ((i.ancestors id).map Entry.sample).reverse := by
      rw [← List.take_length (l := i.ancestors id)]
      exact hl.consecutive _
    rw [samples_suffix i id (sampleCount p)] at hall ⊢
    refine Retarget.required_append hall ?_ hbits
    intro hnil
    rw [hnil] at hlast
    cases hlast

/-- The third block of a chain, where the rules see two blocks at most. -/
theorem truncated_history_suffices_third :
    let p : Params := { Params.main with targetTimespan := 60, averagingWindow := 1 }
    let g : Header := ⟨1, .zero, .zero, 60, ⟨0x1e0fffff⟩, 0⟩
    let a : Header := ⟨1, g.id, .zero, 120, ⟨0x1e0fffff⟩, 0⟩
    let b : Header := ⟨1, a.id, .zero, 180, ⟨0x1e0fffff⟩, 0⟩
    p.Valid ∧ sampleCount p = 2 ∧ ∃ i e, ofHeaders g [a, b] = .ok i ∧ i.Built ∧
      i.get? b.id = some e ∧ e.height = 2 ∧ ∃ bits, i.requiredAfter p b.id 240 = .ok bits ∧
        Retarget.required p ((i.ancestors b.id).map Entry.sample).reverse 240 = .ok bits := by
  intro p g a b
  have hp : p.Valid := by decide +kernel
  have hids : ([g, a, b].map Header.id).Nodup :=
    nodup_id_fork.sublist (List.prefix_append [g.id, a.id, b.id] [_]).sublist
  have hparents : ParentsFirst [g] [a, b] :=
    ⟨⟨g, by simp, rfl⟩, ⟨a, by simp, rfl⟩, trivial⟩
  obtain ⟨i, hi, hbuilt, hheld, -⟩ := exists_ofHeaders (by decide) hids hparents
  have hg : i.ancestors a.parent = [.genesis g] := hheld.first
  obtain ⟨parent, older, hparent, ha⟩ := hheld.child a (by simp)
  cases hg.symm.trans hparent
  obtain ⟨parent, older, hparent, hb⟩ := hheld.child b (by simp)
  cases ha.symm.trans hparent
  have he := get?_eq_some.mpr ⟨_, hb⟩
  exact ⟨hp, by decide, i, _, hi, hbuilt, he, rfl, truncated_history_suffices hp hbuilt he 240⟩

end ChainIndex
end HeaderSync
