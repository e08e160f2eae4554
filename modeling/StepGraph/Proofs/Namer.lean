import StepGraph.Chain.Step

/-!
# Which name a namer gives

* `suffixed_inj`: different suffixes make different names.
* `firstFree_spec`: the search finds the least suffix, from where it starts, that is free.
* `nextName_not_mem`: a name that is given is free.
* `count_record`, `mem_taken_record`: what is noted of a step.
-/

namespace StepGraph
namespace Namer

theorem suffixed_inj {t : String} {m n : Nat} (h : suffixed t m = suffixed t n) : m = n := by
  have ht : (toString m).toList = (toString n).toList := by
    have := congrArg String.toList h
    simp only [suffixed, String.toList_append] at this
    exact List.append_cancel_left this
  simp only [Nat.toString_eq_repr, Nat.toList_repr] at ht
  rw [← Nat.ofDigitChars_ten_toDigits (n := m), ht, Nat.ofDigitChars_ten_toDigits]

theorem suffixed_ne (t : String) (n : Nat) : suffixed t n ≠ t := by
  intro h
  have hlength := congrArg (fun s => s.toList.length) h
  simp [suffixed] at hlength

/-- The search gives the least free suffix from `k` on. -/
theorem firstFree_spec (taken : List String) (t : String) (k : Nat) :
    ∃ n, k ≤ n ∧ firstFree taken t k = suffixed t n ∧ suffixed t n ∉ taken ∧
      ∀ m, k ≤ m → m < n → suffixed t m ∈ taken := by
  fun_induction firstFree taken t k with
  | case1 taken k hk ih =>
    obtain ⟨n, hkn, hn, hfree, hleast⟩ := ih
    -- A later suffix is not the one that has been dropped, so dropping it changes nothing there.
    have hmem {m : Nat} (hm : k + 1 ≤ m) :
        suffixed t m ∈ taken.erase (suffixed t k) ↔ suffixed t m ∈ taken :=
      List.mem_erase_of_ne fun h => by
        have := suffixed_inj h
        omega
    refine ⟨n, by omega, hn, fun h => hfree ((hmem hkn).mpr h), fun m hm hmn => ?_⟩
    obtain rfl | hlt := Nat.eq_or_lt_of_le hm
    · exact hk
    · exact (hmem hlt).mp (hleast m hlt hmn)
  | case2 taken k hk =>
    exact ⟨k, Nat.le_refl k, rfl, hk, fun m hm hmk => by omega⟩

/-- A name that is given is free. -/
theorem nextName_not_mem (n : Namer) (t : String) : n.nextName t ∉ n.taken := by
  unfold nextName
  split
  · rename_i h
    simpa [isTaken] using h.2
  · obtain ⟨k, -, hk, hfree, -⟩ := firstFree_spec n.taken t (n.count t + 1)
    rw [hk]
    exact hfree

theorem mem_taken_record (n : Namer) (name t x : String) :
    x ∈ (n.record name t).taken ↔ x = name ∨ x ∈ n.taken := List.mem_insert_iff

/-- A step counts for its transformation and for no other. -/
theorem count_record (n : Namer) (name t u : String) :
    (n.record name t).count u = n.count u + if t = u then 1 else 0 := by
  unfold record count
  rw [Dict.get?_insert]
  split
  · rename_i h
    rw [h]
    rfl
  · rfl

end Namer
end StepGraph
