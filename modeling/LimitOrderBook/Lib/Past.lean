/-!
# `Lib.Past` — what happened before

Past-time operators over the inputs that a run has read, the oldest first. A moment is an input together with
the inputs before it.
-/

namespace Past

variable {ι : Type}

/-- `P` held at some moment, and `Q` of every input since. -/
def Since (P : List ι → ι → Prop) (Q : ι → Prop) (is : List ι) : Prop :=
  ∃ before i after, is = before ++ i :: after ∧ P before i ∧ ∀ j ∈ after, Q j

/-- `P` held at some moment. -/
def Once (P : List ι → ι → Prop) (is : List ι) : Prop :=
  ∃ before i after, is = before ++ i :: after ∧ P before i

variable {P : List ι → ι → Prop} {Q : ι → Prop} {is : List ι} {i : ι}

theorem Since.now (h : P is i) (Q : ι → Prop) : Since P Q (is ++ [i]) :=
  ⟨is, i, [], rfl, h, by simp⟩

theorem Since.later (h : Since P Q is) (hi : Q i) : Since P Q (is ++ [i]) := by
  obtain ⟨before, j, after, rfl, hj, hafter⟩ := h
  refine ⟨before, j, after ++ [i], by simp, hj, ?_⟩
  intro k hk
  rcases List.mem_append.mp hk with hk | hk
  · exact hafter k hk
  · rw [List.mem_singleton.mp hk]
    exact hi

theorem Once.now (h : P is i) : Once P (is ++ [i]) := ⟨is, i, [], rfl, h⟩

theorem Once.later (h : Once P is) (i : ι) : Once P (is ++ [i]) := by
  obtain ⟨before, j, after, rfl, hj⟩ := h
  exact ⟨before, j, after ++ [i], by simp, hj⟩

end Past
