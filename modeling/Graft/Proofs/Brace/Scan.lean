import Graft.Brace.Balance
import Graft.Edit.Insertion

/-!
# What stands at the index of a brace

The scanner tells braces by their indices, and everything that is found by way of them is an index
too. The lemmas here lead from such an index back to the character that stands there.

> `getElem?_of_mem_braces`: a structural brace stands in the text.
> `getElem?_of_closeOf`: the partner of a brace is a closing brace behind it.
> `mem_braces_of_blockBrace?`: the brace of a header is a structural opening brace.
-/

namespace Graft

theorem Brace.eq_toChar {c : CodePoint} {b : Brace} (h : ofChar? c = some b) : c = b.toChar := by
  unfold ofChar? at h
  split at h
  · next hc =>
    cases h
    exact hc
  · split at h
    · next hc =>
      cases h
      exact hc
    · cases h

variable {t name : Text} {i j : Nat} {b : Brace} {bs : List BraceAt}

/-- A brace that the scanner finds stands where it says. -/
theorem ScanState.getElem?_of_mem_scan {s : ScanState} (h : ⟨j, b⟩ ∈ s.scan i t) :
    i ≤ j ∧ t[j - i]? = some b.toChar := by
  induction t generalizing s i with
  | nil => cases h
  | cons c r ih =>
    -- what is found in the rest stands one further on
    have hrest : ⟨j, b⟩ ∈ (s.next c r).scan (i + 1) r →
        i ≤ j ∧ (c :: r)[j - i]? = some b.toChar := by
      intro hmem
      obtain ⟨hle, hget⟩ := ih hmem
      refine ⟨by omega, ?_⟩
      rw [show j - i = j - (i + 1) + 1 by omega, List.getElem?_cons_succ, hget]
    unfold scan at h
    split at h
    · next b' hb' =>
      rcases List.mem_cons.1 h with heq | hmem
      · cases heq
        unfold brace? at hb'
        split at hb'
        · rw [Nat.sub_self, List.getElem?_cons_zero, Brace.eq_toChar hb']
          exact ⟨Nat.le_refl _, rfl⟩
        · cases hb'
      · exact hrest hmem
    · exact hrest h

theorem getElem?_of_mem_bracesFrom (h : ⟨j, b⟩ ∈ bracesFrom t i) :
    i ≤ j ∧ t[j]? = some b.toChar := by
  obtain ⟨hle, hget⟩ := ScanState.getElem?_of_mem_scan h
  rw [List.getElem?_drop, Nat.add_sub_cancel' hle] at hget
  exact ⟨hle, hget⟩

theorem getElem?_of_mem_braces (h : ⟨j, b⟩ ∈ braces t) : t[j]? = some b.toChar :=
  (getElem?_of_mem_bracesFrom h).2

/-- The structural braces come in order. -/
theorem ScanState.pairwise_scan (s : ScanState) (i : Nat) (t : Text) :
    (s.scan i t).Pairwise (·.index < ·.index) := by
  induction t generalizing s i with
  | nil => exact .nil
  | cons c r ih =>
    unfold scan
    split
    · refine List.pairwise_cons.2 ⟨?_, ih _ _⟩
      rintro ⟨j, b⟩ hmem
      exact (getElem?_of_mem_scan hmem).1
    · exact ih _ _

theorem pairwise_braces (t : Text) : (braces t).Pairwise (·.index < ·.index) :=
  ScanState.pairwise_scan _ _ _

theorem mem_of_closeAfter {depth : Nat} (h : closeAfter depth bs = some j) :
    ⟨j, .closing⟩ ∈ bs := by
  fun_induction closeAfter depth bs with
  | case1 => cases h
  | case2 depth i bs ih => exact List.mem_cons_of_mem _ (ih h)
  | case3 i bs =>
    cases h
    exact List.mem_cons_self
  | case4 depth i bs hdepth ih => exact List.mem_cons_of_mem _ (ih h)

/-- The partner of an opening brace is a closing brace behind it. -/
theorem getElem?_of_closeOf {i : Int} (h : closeOf t i = .ok j) :
    0 ≤ i ∧ i.toNat < j ∧ t[i.toNat]? = some (.char '{') ∧ t[j]? = some (.char '}') := by
  unfold closeOf at h
  split at h
  · next hopening =>
    obtain ⟨hle, hget⟩ := Bool.and_eq_true_iff.1 hopening
    split at h
    · next close hclose =>
      cases h
      obtain ⟨hij, hj⟩ := getElem?_of_mem_bracesFrom (mem_of_closeAfter hclose)
      have hi := eq_of_beq hget
      -- the two characters differ, so the indices do
      have hne : i.toNat ≠ j := by
        intro heq
        rw [heq, hj] at hi
        cases hi
      exact ⟨of_decide_eq_true hle, by omega, hi, hj⟩
    · cases h
  · cases h

theorem mem_of_mem_openDepths {depth d : Int} (h : (j, d) ∈ Insertion.openDepths depth bs) :
    ⟨j, .opening⟩ ∈ bs := by
  fun_induction Insertion.openDepths depth bs with
  | case1 => cases h
  | case2 depth i bs ih =>
    rcases List.mem_cons.1 h with heq | hmem
    · cases heq
      exact List.mem_cons_self
    · exact List.mem_cons_of_mem _ (ih hmem)
  | case3 depth i bs ih => exact List.mem_cons_of_mem _ (ih h)

/-- The brace of a header is a structural opening brace. -/
theorem mem_braces_of_blockBrace? (h : blockBrace? t name = some j) :
    ⟨j, .opening⟩ ∈ braces t := by
  unfold blockBrace? at h
  obtain ⟨⟨i, d⟩, hchosen, rfl⟩ := Option.map_eq_some_iff.1 h
  have hcandidate : (i, d) ∈ (Insertion.headerBraces name 0 none 0 t).filterMap fun i =>
      (Insertion.openDepths 0 (braces t)).find? (·.1 == i) := by
    rcases Option.or_eq_some_iff.1 hchosen with hfind | ⟨-, hhead⟩
    · exact List.mem_of_find?_eq_some hfind
    · exact List.mem_of_head? hhead
  obtain ⟨k, -, hk⟩ := List.mem_filterMap.1 hcandidate
  exact mem_of_mem_openDepths (List.mem_of_find?_eq_some hk)

end Graft
