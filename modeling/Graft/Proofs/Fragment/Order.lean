import Graft.Proofs.Edit.Standing
import Mathlib.Data.Fintype.EquivFin
import Mathlib.Data.List.Nodup
import Mathlib.Logic.Relation
import Mathlib.Order.WellFounded

/-!
# An order exists unless there is a circle

Fragments are taken one by one, always the first declared one that waits for nobody. Nothing is ever
put back, so that this fails only where everything that is left waits for something that is left.
Among finitely many fragments that means a circle (`exists_isReady`), and a circle is never taken
apart, since its fragments wait for one another until the end (`IsOrder.not_cyclic`).

A circle among chosen fragments is one among all of them. So a set that was accepted as a whole has
an order for every choice of its fragments.

> `insertionOrder_spec`: fragments are refused for their order exactly if they depend on one another
> in a circle; of an accepted set, any choice is taken in the order that dependencies and
> declarations dictate, and nothing else has a part in it.
-/

namespace Graft

namespace Fragment

variable {f g : Fragment} {fs chosen order pending before behind : List Fragment} {n : Nat}

/-! ## Dependencies -/

/-- A fragment depends on another one that it comes after, or that introduces the block it goes
into. It can name itself among those it comes after, but the block that it introduces itself does
not count. -/
def DependsOn (f g : Fragment) : Prop :=
  g.marker ∈ f.after ∨
    (f.anchor.isBlock = true ∧ g ≠ f ∧ ∃ name, f.anchor.block = some name ∧ g.block = some name)

/-- The dependencies among some fragments. -/
def Dependency (fs : List Fragment) (f g : Fragment) : Prop :=
  f ∈ fs ∧ g ∈ fs ∧ f.DependsOn g

/-- Some fragments depend on one another in a circle, or one of them on itself. -/
def Cyclic (fs : List Fragment) : Prop :=
  ∃ f, Relation.TransGen (Dependency fs) f f

/-- Some fragments pass all checks but the one of their order. -/
structure PassesOthers (fs : List Fragment) : Prop where
  each : checkEach [] fs = .ok ()
  relations : fs.forM (checkRelations fs) = .ok ()

theorem Cyclic.mono (hsub : fs ⊆ chosen) (h : Cyclic fs) : Cyclic chosen := by
  obtain ⟨f, hf⟩ := h
  exact ⟨f, hf.lift id fun _ _ h => ⟨hsub h.1, hsub h.2.1, h.2.2⟩⟩

/-! ## Waiting -/

/-- What waiting goes by among some fragments: who is who is told by markers, and who goes into a
block names it. -/
structure Told (fs : List Fragment) : Prop where
  nodup : (fs.map (·.marker)).Nodup
  named : ∀ f ∈ fs, f.anchor.isBlock = true → ∃ name, f.anchor.block = some name

theorem Told.sublist (h : Told fs) (hsub : chosen.Sublist fs) : Told chosen :=
  ⟨h.nodup.sublist (hsub.map _), fun f hf => h.named f (hsub.subset hf)⟩

theorem Told.nodup_fragments (h : Told fs) : fs.Nodup :=
  h.nodup.of_map _

theorem named_of_checkEach {seen : List Text} (h : checkEach seen fs = .ok ()) :
    ∀ f ∈ fs, f.anchor.isBlock = true → ∃ name, f.anchor.block = some name := by
  induction fs generalizing seen with
  | nil => simp
  | cons f fs ih =>
    unfold checkEach at h
    split at h
    · cases h
    · split at h
      · cases h
      · split at h
        · cases h
        · split at h
          · cases h
          · split at h
            · cases h
            · next hnamed =>
              refine List.forall_mem_cons.2 ⟨fun hblock => ?_, ih h⟩
              cases hname : f.anchor.block with
              | some name => exact ⟨name, rfl⟩
              | none => simp [hblock, hname, Text.allBlank] at hnamed

theorem PassesOthers.told (h : PassesOthers fs) : Told fs :=
  ⟨(markers_of_checkEach h.each).2, named_of_checkEach h.each⟩

/-- One fragment waits for another one exactly if it depends on it. -/
theorem Told.waitsFor_iff (h : Told fs) (hf : f ∈ fs) (hg : g ∈ fs) :
    f.waitsFor g = true ↔ f.DependsOn g := by
  have hsame : g.marker ≠ f.marker ↔ g ≠ f :=
    not_congr ⟨List.inj_on_of_nodup_map h.nodup hg hf, congrArg _⟩
  rw [waitsFor, DependsOn, Bool.or_eq_true, List.elem_iff, Bool.and_eq_true, Bool.and_eq_true,
    bne_iff_ne, hsame, beq_iff_eq, and_assoc]
  refine or_congr_right (and_congr_right fun hblock => and_congr_right fun _ => ?_)
  obtain ⟨name, hname⟩ := h.named f hf hblock
  rw [hname]
  simp

theorem Told.isReady_iff (h : Told pending) (hf : f ∈ pending) :
    isReady pending f = true ↔ ∀ g ∈ pending, ¬ f.DependsOn g := by
  rw [isReady, List.all_eq_true]
  refine forall₂_congr fun g hg => ?_
  rw [Bool.not_eq_true', ← Bool.not_eq_true, h.waitsFor_iff hf hg]

/-- **Without a circle, somebody waits for nobody.** -/
theorem exists_isReady (h : Told pending) (hne : pending ≠ []) (hcyclic : ¬ Cyclic pending) :
    ∃ f ∈ pending, isReady pending f = true := by
  let below : pending.toFinset → pending.toFinset → Prop := fun g f =>
    Relation.TransGen (Dependency pending) f g
  have : IsTrans _ below := ⟨fun _ _ _ hab hbc => hbc.trans hab⟩
  have : Std.Irrefl below := ⟨fun f hf => hcyclic ⟨f, hf⟩⟩
  -- going on from dependency to dependency comes to an end, as the fragments are finitely many
  have hwf : WellFounded below := Finite.wellFounded_of_trans_of_irrefl below
  obtain ⟨p, hp⟩ := List.exists_mem_of_ne_nil pending hne
  obtain ⟨⟨f, hf⟩, -, hmin⟩ := hwf.has_min Set.univ ⟨⟨p, List.mem_toFinset.2 hp⟩, trivial⟩
  rw [List.mem_toFinset] at hf
  refine ⟨f, hf, (h.isReady_iff hf).2 fun g hg hdepends => ?_⟩
  exact hmin ⟨g, List.mem_toFinset.2 hg⟩ trivial (.single ⟨hf, hg, hdepends⟩)

/-! ## Taking -/

/-- What is taken in order is what pends. -/
theorem takeReady_perm (h : takeReady n pending = .ok order) : order.Perm pending := by
  induction n generalizing pending order with
  | zero =>
    cases pending with
    | nil =>
      cases h
      exact .nil
    | cons f pending => cases h
  | succ n ih =>
    cases pending with
    | nil =>
      cases h
      exact .nil
    | cons p pending =>
      unfold takeReady at h
      split at h
      · next f hfind =>
        obtain ⟨rest, hrest, rfl⟩ := exists_of_map_eq_ok h
        have hmem := List.mem_of_find?_eq_some hfind
        exact ((ih hrest).cons f).trans (List.perm_cons_erase hmem).symm
      · cases h

/-- Without a circle, all that pends is taken. -/
theorem exists_takeReady (h : Told pending) (hn : pending.length ≤ n) (hcyclic : ¬ Cyclic pending) :
    ∃ order, takeReady n pending = .ok order := by
  induction n generalizing pending with
  | zero =>
    obtain rfl := List.length_eq_zero_iff.1 (Nat.le_zero.1 hn)
    exact ⟨[], rfl⟩
  | succ n ih =>
    cases pending with
    | nil => exact ⟨[], rfl⟩
    | cons p pending =>
      obtain ⟨g, hg, hready⟩ := exists_isReady h (List.cons_ne_nil p pending) hcyclic
      cases hfind : (p :: pending).find? (isReady (p :: pending)) with
      | none => exact absurd hready (List.find?_eq_none.1 hfind g hg)
      | some f =>
        have hmem := List.mem_of_find?_eq_some hfind
        have hlength := List.length_erase_of_mem hmem
        rw [List.length_cons] at hn hlength
        have hle : ((p :: pending).erase f).length ≤ n := by omega
        obtain ⟨order, horder⟩ := ih (h.sublist List.erase_sublist) hle
          fun hcyclic' => hcyclic (hcyclic'.mono List.erase_subset)
        refine ⟨f :: order, ?_⟩
        rw [takeReady.eq_3 _ _ (List.cons_ne_nil p pending), hfind]
        dsimp only
        rw [horder]
        rfl

/-- Fragments are only ever refused for waiting. -/
theorem exists_cycle_of_takeReady {e : DefinitionError} (h : takeReady n pending = .error e) :
    ∃ markers, e = .cycle markers := by
  fun_induction takeReady n pending with
  | case1 => cases h
  | case2 =>
    cases h
    exact ⟨_, rfl⟩
  | case3 n pending hne f hfind ih =>
    cases hrest : takeReady n (pending.erase f) with
    | ok order =>
      rw [hrest] at h
      cases h
    | error e' =>
      rw [hrest] at h
      cases h
      exact ih hrest
  | case4 =>
    cases h
    exact ⟨_, rfl⟩

/-- What is taken next is the first one, among those left, that waits for none of those left. -/
theorem takeReady_next (hnodup : pending.Nodup) (h : takeReady n pending = .ok order)
    (horder : order = before ++ f :: behind) :
    (pending.filter (· ∉ before)).find? (isReady (pending.filter (· ∉ before))) = some f := by
  induction before generalizing n pending order with
  | nil =>
    have hall : pending.filter (fun g => decide (g ∉ ([] : List Fragment))) = pending := by simp
    rw [hall]
    subst horder
    unfold takeReady at h
    split at h
    · cases h
    · cases h
    · split at h
      · next hfind =>
        obtain ⟨rest, -, heq⟩ := exists_of_map_eq_ok h
        rw [hfind, (List.cons.inj heq).1]
      · cases h
  | cons x before ih =>
    subst horder
    unfold takeReady at h
    split at h
    · cases h
    · cases h
    · split at h
      · next y hfind =>
        obtain ⟨rest, hrest, heq⟩ := exists_of_map_eq_ok h
        obtain ⟨rfl, rfl⟩ := List.cons.inj heq
        have hleft : (pending.erase y).filter (fun g => decide (g ∉ before)) =
            pending.filter fun g => decide (g ∉ y :: before) := by
          rw [hnodup.erase_eq_filter, List.filter_filter]
          apply List.filter_congr
          intro g _
          rw [Bool.eq_iff_iff]
          simp [and_comm]
        rw [← hleft]
        exact ih (hnodup.erase y) hrest rfl
      · cases h

/-! ## Orders -/

/-- Of some chosen fragments, some of which have been taken before, one is taken next: a new one, of
which all that it depends on among the chosen ones has been taken, while every one that is declared
before it has been taken already or depends on one that has not. -/
structure IsNext (chosen before : List Fragment) (f : Fragment) : Prop where
  new : f ∉ before
  free : ∀ g ∈ chosen, f.DependsOn g → g ∈ before
  earliest : ∃ above below, chosen = above ++ f :: below ∧
    ∀ g ∈ above, g ∈ before ∨ ∃ d ∈ chosen, g.DependsOn d ∧ d ∉ before

/-- Chosen fragments in the order in which they are taken: each of them once, and always the one
that is next. -/
structure IsOrder (chosen order : List Fragment) : Prop where
  perm : order.Perm chosen
  nodup : order.Nodup
  next : ∀ before f behind, order = before ++ f :: behind → IsNext chosen before f

theorem isNext_of_find? (h : Told chosen)
    (hfind : (chosen.filter (· ∉ before)).find? (isReady (chosen.filter (· ∉ before))) = some f) :
    IsNext chosen before f := by
  have hleft : Told (chosen.filter (· ∉ before)) := h.sublist List.filter_sublist
  obtain ⟨hready, as, bs, heq, hnot⟩ := List.find?_eq_some_iff_append.1 hfind
  have hmem : f ∈ chosen.filter (· ∉ before) := heq ▸ by simp
  -- the fragments above it in declaration order are those left above it and those taken before
  obtain ⟨above, below, rfl, habove, hbelow⟩ := List.filter_eq_append_iff.1 heq
  obtain ⟨taken, rest, rfl, htaken, -, -⟩ := List.filter_eq_cons_iff.1 hbelow
  refine ⟨by simpa using (List.mem_filter.1 hmem).2, fun g hg hdepends => ?_,
    above ++ taken, rest, by simp, fun g hg => ?_⟩
  · by_contra hnew
    exact (hleft.isReady_iff hmem).1 hready g (List.mem_filter.2 ⟨hg, by simpa using hnew⟩) hdepends
  · refine or_iff_not_imp_left.2 fun hnew => ?_
    have hgabove : g ∈ above := (List.mem_append.1 hg).resolve_right fun hg => by
      simpa [hnew] using htaken g hg
    have hgas : g ∈ as := habove ▸ List.mem_filter.2 ⟨hgabove, by simpa using hnew⟩
    have hwaits := hnot g hgas
    have hgleft := heq ▸ List.mem_append_left (f :: bs) hgas
    rw [Bool.not_eq_true', ← Bool.not_eq_true, hleft.isReady_iff hgleft] at hwaits
    push Not at hwaits
    obtain ⟨d, hd, hdepends⟩ := hwaits
    obtain ⟨hd, hnew'⟩ := List.mem_filter.1 hd
    exact ⟨d, hd, hdepends, by simpa using hnew'⟩

/-- **What is taken is an order.** -/
theorem isOrder_of_takeReady (h : Told chosen) (hok : takeReady n chosen = .ok order) :
    IsOrder chosen order where
  perm := takeReady_perm hok
  nodup := (takeReady_perm hok).nodup_iff.2 h.nodup_fragments
  next _ _ _ heq := isNext_of_find? h (takeReady_next h.nodup_fragments hok heq)

/-- **What has an order has no circle**, as along dependencies the place in the order gets lower. -/
theorem IsOrder.not_cyclic (h : IsOrder chosen order) : ¬ Cyclic chosen := by
  rintro ⟨f, hf⟩
  have hlower : ∀ f g, Dependency chosen f g → order.idxOf g < order.idxOf f := by
    rintro f g ⟨hf, hg, hdepends⟩
    obtain ⟨before, behind, horder⟩ := List.append_of_mem (h.perm.mem_iff.2 hf)
    obtain ⟨hnew, hfree, -⟩ := h.next before f behind horder
    rw [horder, List.idxOf_append_of_mem (hfree g hg hdepends), List.idxOf_append_of_notMem hnew]
    exact Nat.lt_add_right _ (List.idxOf_lt_length_of_mem (hfree g hg hdepends))
  have hlt : Relation.TransGen (fun i j : Nat => j < i) (order.idxOf f) (order.idxOf f) :=
    hf.lift order.idxOf hlower
  have htrans : IsTrans Nat fun i j => j < i := ⟨fun _ _ _ hij hjk => Nat.lt_trans hjk hij⟩
  rw [Relation.transGen_eq_self] at hlt
  exact Nat.lt_irrefl _ hlt

/-- Of fragments that pass the other checks, exactly those without a circle pass them all. -/
theorem PassesOthers.checkAll_cases (h : PassesOthers fs) :
    (¬ Cyclic fs ∧ checkAll fs = .ok ()) ∨
      (Cyclic fs ∧ ∃ ms, checkAll fs = .error (.cycle ms)) := by
  have hchosen : insertionOrder fs (fs.map (·.marker)) = takeReady fs.length fs := by
    have hall : (fs.filter fun f => (fs.map (·.marker)).elem f.marker) = fs :=
      List.filter_eq_self.2 fun f hf => List.elem_iff.2 (List.mem_map_of_mem hf)
    rw [insertionOrder, hall]
  have hcheck : checkAll fs = (insertionOrder fs (fs.map (·.marker)) >>= fun _ => .ok ()) := by
    rw [checkAll, h.each, h.relations]
    rfl
  rw [hcheck, hchosen]
  cases hok : takeReady fs.length fs with
  | ok order => exact .inl ⟨(isOrder_of_takeReady h.told hok).not_cyclic, rfl⟩
  | error e =>
    obtain ⟨ms, rfl⟩ := exists_cycle_of_takeReady hok
    refine .inr ⟨?_, ms, rfl⟩
    by_contra hcyclic
    obtain ⟨order, horder⟩ := exists_takeReady h.told (Nat.le_refl _) hcyclic
    rw [hok] at horder
    cases horder

end Fragment

namespace FragmentSet

open Fragment

variable (set : FragmentSet)

theorem passesOthers : PassesOthers set.fragments := by
  obtain ⟨_, heach, hrest⟩ := exists_of_bind_eq_ok set.checked
  obtain ⟨_, hrelations, -⟩ := exists_of_bind_eq_ok hrest
  exact ⟨heach, hrelations⟩

theorem not_cyclic : ¬ Cyclic set.fragments := by
  rcases set.passesOthers.checkAll_cases with ⟨hcyclic, -⟩ | ⟨-, ms, herror⟩
  · exact hcyclic
  · rw [set.checked] at herror
    cases herror

/-- A list is made a set or refused as it passes the check or not. -/
theorem ofList_cases (fs : List Fragment) :
    (checkAll fs = .ok () ∧ ∃ set, ofList fs = .ok set) ∨
      ∃ e, checkAll fs = .error e ∧ ofList fs = .error e := by
  unfold ofList
  split
  · next h => exact .inl ⟨h, _, rfl⟩
  · next e h => exact .inr ⟨e, h, rfl⟩

end FragmentSet

open Fragment

/-- **Fragments are refused for their order exactly if they depend on one another in a circle**, and
every choice from a set that was accepted has its order, whichever way it is asked for. -/
theorem insertionOrder_spec :
    (∀ fs, PassesOthers fs →
      ((∃ ms, FragmentSet.ofList fs = .error (.cycle ms)) ↔ Cyclic fs) ∧
      ((∃ set, FragmentSet.ofList fs = .ok set) ↔ ¬ Cyclic fs)) ∧
    ∀ (set : FragmentSet) (markers : List Text), ∃ order,
      set.insertionOrder markers = .ok order ∧
      IsOrder (set.fragments.filter (·.marker ∈ markers)) order ∧
      ∀ markers', (∀ f ∈ set.fragments, f.marker ∈ markers' ↔ f.marker ∈ markers) →
        set.insertionOrder markers' = .ok order := by
  refine ⟨fun fs hfs => ?_, fun set markers => ?_⟩
  · rcases hfs.checkAll_cases with ⟨hcyclic, hcheck⟩ | ⟨hcyclic, ms, hcheck⟩
    · rcases FragmentSet.ofList_cases fs with ⟨-, set, hset⟩ | ⟨e, he, -⟩
      · simp [hcyclic, hset]
      · rw [hcheck] at he
        cases he
    · rcases FragmentSet.ofList_cases fs with ⟨hok, -⟩ | ⟨e, he, herror⟩
      · rw [hcheck] at hok
        cases hok
      · rw [hcheck] at he
        cases he
        simp [hcyclic, herror]
  · have hsub : (set.fragments.filter (·.marker ∈ markers)).Sublist set.fragments :=
      List.filter_sublist
    have htold := set.passesOthers.told.sublist hsub
    -- a circle among the chosen fragments would be one among all
    obtain ⟨order, horder⟩ := exists_takeReady htold (Nat.le_refl _)
      fun hcyclic => set.not_cyclic (hcyclic.mono hsub.subset)
    have hasked : ∀ markers', (∀ f ∈ set.fragments, f.marker ∈ markers' ↔ f.marker ∈ markers) →
        set.insertionOrder markers' = .ok order := by
      intro markers' hsame
      have hchosen : (set.fragments.filter fun f => markers'.elem f.marker) =
          set.fragments.filter (·.marker ∈ markers) := by
        refine List.filter_congr fun f hf => ?_
        rw [Bool.eq_iff_iff, List.elem_iff, decide_eq_true_eq, hsame f hf]
      rw [FragmentSet.insertionOrder, insertionOrder, hchosen, horder]
    exact ⟨order, hasked markers fun _ _ => Iff.rfl, isOrder_of_takeReady htold horder, hasked⟩

/-- Goes into a block that another fragment introduces. -/
def innerFragment : Fragment where
  marker := "// inner".toText
  template := "setting 'on'".toText
  anchor := .inBlock "foo".toText

/-- Introduces that block, and comes after some fragments. -/
def outerFragment (after : List Text) : Fragment where
  marker := "// outer".toText
  template := "foo \x7b\n\x7d".toText
  anchor := .endOfFile
  block := some "foo".toText
  after := after

/-- Comes after the one that goes into the block. -/
def finalFragment : Fragment where
  marker := "// final".toText
  template := "closing 'time'".toText
  anchor := .endOfFile
  after := ["// inner".toText]

/-- Markers in a wrong order, one of them twice, and one of no fragment. -/
def askedMarkers : List Text :=
  ["// final", "// x", "// inner", "// final", "// outer"].map (·.toText)

/-- If the block came after what comes after what goes into it, the three would wait for one
another; if it does not, they are taken in order. -/
theorem insertionOrder_spec_inBlock :
    (PassesOthers [innerFragment, outerFragment ["// final".toText], finalFragment] ∧
      ∃ ms, FragmentSet.ofList [innerFragment, outerFragment ["// final".toText], finalFragment] =
        .error (.cycle ms)) ∧
    PassesOthers [innerFragment, outerFragment [], finalFragment] ∧
      ∃ set, FragmentSet.ofList [innerFragment, outerFragment [], finalFragment] = .ok set ∧
        set.insertionOrder askedMarkers = .ok [outerFragment [], innerFragment, finalFragment] ∧
        IsOrder (set.fragments.filter (·.marker ∈ askedMarkers))
          [outerFragment [], innerFragment, finalFragment] := by
  have hinner : ∀ after, innerFragment.DependsOn (outerFragment after) := fun after =>
    .inr ⟨beq_self_eq_true _, fun h => Option.some_ne_none _ (congrArg Fragment.block h),
      "foo".toText, rfl, rfl⟩
  have hpasses : ∀ after ∈ [["// final".toText], []],
      PassesOthers [innerFragment, outerFragment after, finalFragment] := by
    unfold innerFragment outerFragment finalFragment
    repeat rw [String.toText_ofList]
    intro after hafter
    rcases List.mem_cons.1 hafter with rfl | hafter
    · exact ⟨eq_ok_of_toOption (by decide), eq_ok_of_toOption (by decide)⟩
    · obtain rfl := List.mem_singleton.1 hafter
      exact ⟨eq_ok_of_toOption (by decide), eq_ok_of_toOption (by decide)⟩
  have hcircle := hpasses ["// final".toText] (by simp)
  have hchain := hpasses [] (by simp)
  -- round the circle: by the block, by `after`, and by `after` again
  have hcyclic : Cyclic [innerFragment, outerFragment ["// final".toText], finalFragment] := by
    have hfinal : finalFragment.DependsOn innerFragment := .inl List.mem_cons_self
    have houter : (outerFragment ["// final".toText]).DependsOn finalFragment :=
      .inl List.mem_cons_self
    refine ⟨innerFragment, .head ⟨?_, ?_, hinner _⟩ (.head ⟨?_, ?_, houter⟩
      (.single ⟨?_, ?_, hfinal⟩))⟩ <;> simp
  obtain ⟨set, hset⟩ : ∃ set, FragmentSet.ofList [innerFragment, outerFragment [], finalFragment] =
      .ok set := by
    have hcheck : checkAll [innerFragment, outerFragment [], finalFragment] = .ok () := by
      unfold innerFragment outerFragment finalFragment
      repeat rw [String.toText_ofList]
      exact eq_ok_of_toOption (by decide)
    rcases FragmentSet.ofList_cases [innerFragment, outerFragment [], finalFragment] with
      ⟨-, hset⟩ | ⟨e, he, -⟩
    · exact hset
    · rw [hcheck] at he
      cases he
  have hrun : set.insertionOrder askedMarkers =
      .ok [outerFragment [], innerFragment, finalFragment] := by
    rw [FragmentSet.insertionOrder, FragmentSet.fragments_of_ofList hset]
    unfold askedMarkers innerFragment outerFragment finalFragment
    simp only [List.map_cons, List.map_nil]
    repeat rw [String.toText_ofList]
    exact eq_ok_of_toOption (by decide)
  obtain ⟨order, horder, hisOrder, -⟩ := insertionOrder_spec.2 set askedMarkers
  obtain rfl := Except.ok.inj (hrun.symm.trans horder)
  have hrefused := (insertionOrder_spec.1 _ hcircle).1.2 hcyclic
  exact ⟨⟨hcircle, hrefused⟩, hchain, set, hset, hrun, hisOrder⟩

end Graft
