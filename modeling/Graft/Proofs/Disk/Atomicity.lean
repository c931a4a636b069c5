import Graft.Disk.Commit
import Graft.Proofs.Disk.Frame
import Graft.Proofs.Text.Digits

/-!
# Commits are atomic

Whatever goes wrong during a commit, a file is left at the target with all of the new content or
with all of the old. The exception is a commit that could neither move the new file to its place nor
the old one back: there the old file stands under the name it was set aside with.

A commit touches three locations: the target, the temporary file and the file set aside. Each step
is followed by what it does to these three, and by `SameBut` for everything else. `OldKept` is what
holds until the new file has its place, and `Installed` from then on. `swap_outcome` follows the
detour over the file set aside, `replace_outcome` and `fill_outcome` build on it, and
`commit_atomic` adds the removal of the temporary file, with which every commit ends.

> `commit_atomic`: the new content or the old, whichever calls fail.
> `commit_of_createFile`: if none fails, a commit succeeds, so that it is the new one.
-/

namespace Graft

namespace Commit

open Disk

/-! ## Names beside the target -/

/-- Where the `n`-th file of a mark beside a target stands. -/
def besideLocation (l : Location) (target : Path) (mark token : Text) (n : Nat) : Location :=
  l.dropLast ++ [(besideName target mark token n).name]

variable {faults : Faults} {encoding : Encoding} {content token mark : Text} {target temp : Path}
  {l t a : Location} {f g : File} {d d' : Disk}

theorem name_besideName (target : Path) (mark token : Text) (n : Nat) :
    (besideName target mark token n).name =
      target.name ++ .char '.' :: mark ++ .char '.' :: token ++ .char '.' :: Text.ofNat n :=
  Path.name_child _ _

/-- A name beside the target is longer than the target's by more than two characters. -/
theorem length_name_besideName (target : Path) (mark token : Text) (n : Nat) :
    target.name.length + 2 < (besideName target mark token n).name.length := by
  rw [name_besideName]
  simp only [List.length_append, List.length_cons]
  omega

theorem name_besideName_ne_up (n : Nat) : (besideName target mark token n).name ≠ Path.up := by
  intro h
  have := length_name_besideName target mark token n
  rw [h] at this
  simp only [Path.up, List.length_cons, List.length_nil] at this
  omega

theorem isEntry_besideName (n : Nat) : (besideName target mark token n).isEntry = true := by
  have hne : (besideName target mark token n).name ≠ [] := by
    intro h
    have := length_name_besideName target mark token n
    rw [h] at this
    simp at this
  simp [Path.isEntry, hne, name_besideName_ne_up]

theorem besideLocation_ne (hl : l = l.dropLast ++ [target.name]) (n : Nat) :
    besideLocation l target mark token n ≠ l := by
  intro h
  rw [besideLocation, hl, List.dropLast_concat] at h
  have hname := List.cons.inj (List.append_cancel_left h)
  have := length_name_besideName target mark token n
  rw [hname.1] at this
  omega

/-- The temporary file and the file set aside have different names. -/
theorem besideLocation_marks_ne (i j : Nat) :
    besideLocation l target asideMark token j ≠ besideLocation l target tempMark token i := by
  intro h
  have hname := (List.cons.inj (List.append_cancel_left h)).1
  rw [name_besideName, name_besideName] at hname
  simp only [List.append_assoc, List.cons_append] at hname
  -- what comes after the name of the target starts with the marks, which differ
  have hmark := List.append_cancel_left hname
  rw [List.cons.injEq] at hmark
  exact absurd (List.append_inj_left hmark.2 (by decide)) (by decide)

theorem length_besideLocation (hl : l = l.dropLast ++ [target.name]) (n : Nat) :
    (besideLocation l target mark token n).length = l.length := by
  conv => rhs; rw [hl]
  simp [besideLocation]

theorem locate_besideName {n : Nat} (hl : d.locate target = .ok l) (he : target.isEntry = true)
    (h : d.locate (besideName target mark token n) = .ok a) :
    a = besideLocation l target mark token n := by
  refine locate_sibling hl he (name_besideName_ne_up n) ?_
  rw [name_besideName]
  exact h

/-- A name that is free leads to nothing. -/
theorem freeName_eq_ok {blocked : Bool} {p : Path}
    (h : freeName d blocked target mark token = .ok p) :
    ∃ n, p = besideName target mark token n ∧ d.isPresent p = false := by
  unfold freeName at h
  split at h
  · next n hn =>
    split at h
    · cases h
    · cases h
      have := List.find?_some hn
      exact ⟨n, rfl, by simpa using this⟩
  · cases h

theorem at?_of_not_isPresent {p : Path} (h : d.isPresent p = false) (hl : d.locate p = .ok l) :
    d.at? l = none := by
  unfold isPresent node? at h
  rw [hl] at h
  simpa using h

/-! ## Single calls -/

theorem attempt_eq_ok {fault : Option Text} {call : Except OsError Disk}
    (h : attempt fault call = .ok d') : fault = none ∧ call = .ok d' := by
  cases fault with
  | some reason => cases h
  | none =>
    cases call with
    | error e => cases h
    | ok d =>
      cases h
      exact ⟨rfl, rfl⟩

/-- A call that would succeed changes the disk as it would. -/
theorem eq_of_attempt_eq_ok {fault : Option Text} (h : attempt fault (.ok d) = .ok d') : d' = d :=
  (Except.ok.inj (attempt_eq_ok h).2).symm

/-- A call that would succeed fails only if it is bound to. -/
theorem attempt_eq_error {fault : Option Text} {e : Cause}
    (h : attempt fault (.ok d) = .error e) : fault.isSome = true := by
  cases fault with
  | some reason => rfl
  | none => cases h

theorem discard_file {kept : Bool} {p : Path} (hn : d.Names p l)
    (hf : d.at? l = some (.file f)) : discard kept p d = if kept then d else d.erase l := by
  unfold discard
  rw [removeFile_file hn hf]

theorem discard_missing {kept : Bool} {p : Path} (hl : d.locate p = .ok l)
    (hk : d.at? l = none) : discard kept p d = d := by
  unfold discard
  rw [removeFile_missing hl hk]
  split
  · rfl
  · rfl

/-- The temporary file takes over the permission bits of the target. -/
theorem copyMode_eq (ht : d.locate target = .ok l) (hold : d.at? l = some (.file f))
    (htemp : d.locate temp = .ok t) (hnew : d.at? t = some (.file g)) :
    copyMode d target temp = d.put t (.file { g with mode := .ofNat f.mode }) := by
  unfold copyMode node?
  rw [ht]
  simp only [hold, Option.map_some, setMode_file htemp hnew]

/-! ## What a commit leaves behind -/

/-- The new file `g` has the place of the target, and nothing else is left but, if it could not be
removed, the old file `f` under the name it was set aside with. -/
structure Installed (faults : Faults) (l t a : Location) (f g : File) (d d' : Disk) : Prop where
  change : SameBut [l, t, a] d d'
  target : d'.at? l = some (.file g)
  temp : d.at? t = none ∧ d'.at? t = none
  aside : d'.at? a = d.at? a ∨
    faults.replaceForbidden = true ∧ faults.keepAside = true ∧ d.at? a = none ∧
      d'.at? a = some (.file f)

/-- The old file `f` has the place of the target, or it stands where it was set aside, if neither
the new file nor the old one could be moved to the target. -/
structure OldKept (faults : Faults) (l t a : Location) (f : File) (d d' : Disk) : Prop where
  change : SameBut [l, t, a] d d'
  target : d'.at? l = some (.file f) ∧ d'.at? a = d.at? a ∨
    faults.moveIn.isSome = true ∧ faults.moveBack.isSome = true ∧ d'.at? l = none ∧
      d.at? a = none ∧ d'.at? a = some (.file f)

/-- A commit under way from the disk `d₀`: the old file stands at the target, and a temporary file
at a location that was free. -/
structure Underway (d₀ : Disk) (target temp : Path) (l t : Location) (f g : File) (d : Disk) :
    Prop where
  change : SameBut [t] d₀ d
  free : d₀.at? t = none
  target : d.Names target l
  temp : d.Names temp t
  old : d.at? l = some (.file f)
  new : d.at? t = some (.file g)
  ne : t ≠ l
  len : t.length = l.length

section Underway

variable {d₀ : Disk}

/-- Rewriting the temporary file keeps a commit under way. -/
theorem Underway.put (h : Underway d₀ target temp l t f g d) (g' : File) :
    Underway d₀ target temp l t f g' (d.put t (.file g')) := by
  have hput : SameBut [t] d (d.put t (.file g')) := sameBut_put List.mem_cons_self _
  have hkeeps : KeepsDirectories d (d.put t (.file g')) :=
    hput.keepsDirectories_of_not (not_directory_of_file h.new)
  exact {
    change := h.change.trans hput
    free := h.free
    target := h.target.of_keeps hkeeps
    temp := h.temp.of_keeps hkeeps
    old := by rw [at?_put_of_ne _ _ h.ne.symm, h.old]
    new := at?_put_self _ _ _
    ne := h.ne
    len := h.len }

/-- As long as nothing was moved, the old file is kept. -/
theorem Underway.oldKept (h : Underway d₀ target temp l t f g d) (ha : a ≠ t) :
    OldKept faults l t a f d₀ d where
  change := h.change.mono (by simp)
  target := .inl ⟨h.old, h.change.elsewhere fun hmem => ha (List.mem_singleton.1 hmem)⟩

theorem Underway.rename (h : Underway d₀ target temp l t f g d) :
    d.rename temp target = .ok ((d.erase t).put l (.file g)) :=
  rename_file h.temp h.target h.new (not_directory_of_file h.old) h.ne h.len

end Underway

/-- The old file was set aside, and nothing is at the target. -/
structure SetAside (d₀ : Disk) (target temp aside : Path) (l t a : Location) (f g : File)
    (d : Disk) : Prop where
  change : SameBut [l, t, a] d₀ d
  free : d₀.at? t = none ∧ d₀.at? a = none
  target : d.Names target l
  temp : d.Names temp t
  aside : d.Names aside a
  gone : d.at? l = none
  new : d.at? t = some (.file g)
  old : d.at? a = some (.file f)
  ne : t ≠ l ∧ a ≠ l ∧ a ≠ t
  len : t.length = l.length ∧ a.length = l.length

section SetAside

variable {d₀ : Disk} {aside : Path}

/-- The target takes the free name that it is to be set aside with. -/
theorem Underway.setAside (h : Underway d₀ target temp l t f g d) (haside : d.Names aside a)
    (hfree : d.at? a = none) (hne : a ≠ l ∧ a ≠ t) (hlen : a.length = l.length) :
    d.rename target aside = .ok ((d.erase l).put a (.file f)) ∧
      SetAside d₀ target temp aside l t a f g ((d.erase l).put a (.file f)) := by
  have hmove : d.rename target aside = .ok ((d.erase l).put a (.file f)) :=
    rename_file h.target haside h.old (not_directory_of_none hfree) hne.1.symm hlen.symm
  have hchange : SameBut [l, a] d ((d.erase l).put a (.file f)) :=
    sameBut_moved d _ (by simp) (by simp)
  have hkeeps : KeepsDirectories d ((d.erase l).put a (.file f)) := by
    refine hchange.keepsDirectories ?_
    intro k hk m hm
    rcases List.mem_cons.1 hk with rfl | hk
    · exact absurd hm (not_directory_of_file h.old m)
    · obtain rfl := List.mem_singleton.1 hk
      exact absurd hm (not_directory_of_none hfree m)
  have hnew : ((d.erase l).put a (.file f)).at? t = d.at? t :=
    hchange.elsewhere (by simp [h.ne, hne.2.symm])
  refine ⟨hmove, ?_⟩
  exact {
    change := (h.change.mono (by simp)).trans (hchange.mono (by simp))
    free := ⟨h.free, by
      rw [← h.change.elsewhere fun hmem => hne.2 (List.mem_singleton.1 hmem)]
      exact hfree⟩
    target := h.target.of_keeps hkeeps
    temp := h.temp.of_keeps hkeeps
    aside := haside.of_keeps hkeeps
    gone := at?_moved_old d _ h.target.ne_nil hne.1.symm
    new := hnew.trans h.new
    old := at?_moved_new d _
    ne := ⟨h.ne, hne⟩
    len := ⟨h.len, hlen⟩ }

theorem SetAside.rename (h : SetAside d₀ target temp aside l t a f g d) :
    d.rename temp target = .ok ((d.erase t).put l (.file g)) :=
  rename_file h.temp h.target h.new (not_directory_of_none h.gone) h.ne.1 h.len.1

theorem SetAside.restore (h : SetAside d₀ target temp aside l t a f g d) :
    d.rename aside target = .ok ((d.erase a).put l (.file f)) :=
  rename_file h.aside h.target h.old (not_directory_of_none h.gone) h.ne.2.1 h.len.2

/-- Once the new file was moved in, only the file set aside is left to be removed. -/
theorem SetAside.installed (h : SetAside d₀ target temp aside l t a f g d)
    (hforbidden : faults.replaceForbidden = true) :
    Installed faults l t a f g d₀
      (discard faults.keepAside aside ((d.erase t).put l (.file g))) := by
  obtain ⟨htl, hal, hat⟩ := h.ne
  have hchange : SameBut [t, l] d ((d.erase t).put l (.file g)) :=
    sameBut_moved d _ (by simp) (by simp)
  have hkeeps : KeepsDirectories d ((d.erase t).put l (.file g)) := by
    refine hchange.keepsDirectories ?_
    intro k hk m hm
    rcases List.mem_cons.1 hk with rfl | hk
    · exact absurd hm (not_directory_of_file h.new m)
    · obtain rfl := List.mem_singleton.1 hk
      exact absurd hm (not_directory_of_none h.gone m)
  have hold : ((d.erase t).put l (.file g)).at? a = some (.file f) := by
    rw [hchange.elsewhere (by simp [hal, hat]), h.old]
  have htemp : ((d.erase t).put l (.file g)).at? t = none :=
    at?_moved_old d _ h.temp.ne_nil htl
  have hall : SameBut [l, t, a] d₀ ((d.erase t).put l (.file g)) :=
    h.change.trans (hchange.mono (by simp))
  rw [discard_file (h.aside.of_keeps hkeeps) hold]
  cases hkeep : faults.keepAside with
  | true =>
    exact {
      change := hall
      target := at?_moved_new d _
      temp := ⟨h.free.1, htemp⟩
      aside := .inr ⟨hforbidden, hkeep, h.free.2, hold⟩ }
  | false =>
    exact {
      change := hall.trans (sameBut_erase (by simp))
      target := by
        rw [if_neg (by simp), at?_erase_of_ne _ hal.symm]
        exact at?_moved_new d _
      temp := ⟨h.free.1, by
        rw [if_neg (by simp), at?_erase_of_ne _ hat.symm]
        exact htemp⟩
      aside := .inl (by
        rw [if_neg (by simp), at?_erase_self _ _ h.aside.ne_nil, h.free.2]) }

/-- Once the old file was moved back, it is as if nothing had happened. -/
theorem SetAside.oldKept (h : SetAside d₀ target temp aside l t a f g d) :
    OldKept faults l t a f d₀ ((d.erase a).put l (.file f)) ∧
      ((d.erase a).put l (.file f)).at? t = some (.file g) := by
  obtain ⟨htl, hal, hat⟩ := h.ne
  have hchange : SameBut [a, l] d ((d.erase a).put l (.file f)) :=
    sameBut_moved d _ (by simp) (by simp)
  refine ⟨⟨h.change.trans (hchange.mono (by simp)), .inl ⟨?_, ?_⟩⟩, ?_⟩
  · exact at?_moved_new d _
  · rw [at?_moved_old d _ h.aside.ne_nil hal, h.free.2]
  · rw [hchange.elsewhere (by simp [htl, hat.symm]), h.new]

end SetAside

/-! ## The steps of a commit -/

/-- What the replacement of the target comes to: the new file is installed, or the old one is kept
and the temporary file is still there. -/
def Outcome (faults : Faults) (l t a : Location) (f g : File) (d₀ : Disk) :
    Disk × Except Cause Unit → Prop
  | (d, .ok ()) => Installed faults l t a f g d₀ d
  | (d, .error _) => OldKept faults l t a f d₀ d ∧ ∃ g', d.at? t = some (.file g')

section Steps

variable {d₀ : Disk} {i : Nat}

/-- The detour over the file set aside. -/
theorem swap_outcome
    (h : Underway d₀ target temp l (besideLocation l target tempMark token i) f g d)
    (hforbidden : faults.replaceForbidden = true) :
    ∃ j, Outcome faults l (besideLocation l target tempMark token i)
      (besideLocation l target asideMark token j) f g d₀ (swap faults token d temp target) := by
  have hl := eq_dropLast_concat h.target.located h.target.entry
  have kept : ∀ j, OldKept faults l (besideLocation l target tempMark token i)
      (besideLocation l target asideMark token j) f d₀ d :=
    fun j => h.oldKept (besideLocation_marks_ne i j)
  unfold swap
  cases hname : freeName d faults.noAsideName target asideMark token with
  | error e => exact ⟨0, kept 0, g, h.new⟩
  | ok aside =>
    obtain ⟨j, rfl, hpresent⟩ := freeName_eq_ok hname
    refine ⟨j, ?_⟩
    dsimp only
    cases hset : attempt faults.setAside (d.rename target (besideName target asideMark token j)) with
    | error e => exact ⟨kept j, g, h.new⟩
    | ok d₁ =>
      -- the name leads to the free place beside the target, as the target was moved there
      have hrename := (attempt_eq_ok hset).2
      obtain ⟨a, ha⟩ := locate_of_rename hrename
      have hfree := at?_of_not_isPresent hpresent ha
      obtain rfl := locate_besideName h.target.located h.target.entry ha
      have haside : d.Names (besideName target asideMark token j)
          (besideLocation l target asideMark token j) := by
        refine Names.beside (q := target) (n := target.name) ?_ ha (isEntry_besideName j)
        rw [besideLocation, List.dropLast_concat, ← hl]
        exact h.target
      obtain ⟨hmove, hstage⟩ := h.setAside haside hfree
        ⟨besideLocation_ne hl j, besideLocation_marks_ne i j⟩ (length_besideLocation hl j)
      rw [hmove, Except.ok.injEq] at hrename
      subst hrename
      dsimp only
      rw [hstage.rename]
      cases hin : attempt faults.moveIn _ with
      | ok d₂ =>
        obtain rfl := eq_of_attempt_eq_ok hin
        exact hstage.installed hforbidden
      | error e =>
        -- both files are still where they were, and the old one can be moved back
        have hmoveIn := attempt_eq_error hin
        dsimp only
        rw [hstage.restore]
        cases hback : attempt faults.moveBack _ with
        | ok d₂ =>
          obtain rfl := eq_of_attempt_eq_ok hback
          obtain ⟨hkept, htemp⟩ := hstage.oldKept
          exact ⟨hkept, g, htemp⟩
        | error e' =>
          have hmoveBack := attempt_eq_error hback
          exact ⟨⟨hstage.change, .inr ⟨hmoveIn, hmoveBack, hstage.gone, hstage.free.2,
            hstage.old⟩⟩, g, hstage.new⟩

/-- The replacement, in one step or over the detour. -/
theorem replace_outcome
    (h : Underway d₀ target temp l (besideLocation l target tempMark token i) f g d) :
    ∃ j, Outcome faults l (besideLocation l target tempMark token i)
      (besideLocation l target asideMark token j) f g d₀ (replace faults token d temp target) := by
  unfold replace
  cases hforbidden : faults.replaceForbidden with
  | true =>
    rw [if_pos rfl]
    exact swap_outcome h hforbidden
  | false =>
    refine ⟨0, ?_⟩
    rw [if_neg (by simp), h.rename]
    cases hmove : attempt faults.replace _ with
    | error e => exact ⟨h.oldKept (besideLocation_marks_ne i 0), g, h.new⟩
    | ok d₁ =>
      obtain rfl := eq_of_attempt_eq_ok hmove
      have hne : besideLocation l target asideMark token 0 ≠ l :=
        besideLocation_ne (eq_dropLast_concat h.target.located h.target.entry) 0
      have hchange : SameBut [besideLocation l target tempMark token i, l] d₀
          ((d.erase (besideLocation l target tempMark token i)).put l (.file g)) :=
        (h.change.mono (by simp)).trans (sameBut_moved d _ (by simp) (by simp))
      exact {
        change := hchange.mono (by simp)
        target := at?_moved_new d _
        temp := ⟨h.free, at?_moved_old d _ h.temp.ne_nil h.ne⟩
        aside := .inl (hchange.elsewhere (by simp [hne, besideLocation_marks_ne i 0])) }

/-- The filling of the temporary file, and the replacement. The new file has the text in the
encoding and the permission bits of the old one. -/
theorem fill_outcome
    (h : Underway d₀ target temp l (besideLocation l target tempMark token i) f
      ⟨.empty, Mode.newFile⟩ d) :
    ∃ j, match fill faults token encoding d temp target content with
      | (d', .ok ()) => ∃ bytes, encoding.encode content = .ok bytes ∧
          Installed faults l (besideLocation l target tempMark token i)
            (besideLocation l target asideMark token j) f ⟨bytes, .ofNat f.mode⟩ d₀ d'
      | (d', .error _) =>
          OldKept faults l (besideLocation l target tempMark token i)
            (besideLocation l target asideMark token j) f d₀ d' ∧
          ∃ g, d'.at? (besideLocation l target tempMark token i) = some (.file g) := by
  unfold fill
  cases hencode : encoding.encode content with
  | error e => exact ⟨0, h.oldKept (besideLocation_marks_ne i 0), _, h.new⟩
  | ok bytes =>
    dsimp only
    rw [writeFile_file h.temp.located h.new (Mode.grants_newFile .write)]
    dsimp only
    -- until the replacement only the temporary file changes, whichever call fails
    have hwritten := h.put ⟨bytes, Mode.newFile.afterWrite⟩
    cases faults.sync with
    | some reason => exact ⟨0, hwritten.oldKept (besideLocation_marks_ne i 0), _, hwritten.new⟩
    | none =>
      dsimp only
      rw [copyMode_eq hwritten.target.located hwritten.old hwritten.temp.located hwritten.new]
      obtain ⟨j, hj⟩ := replace_outcome (hwritten.put ⟨bytes, .ofNat f.mode⟩)
      refine ⟨j, ?_⟩
      revert hj
      generalize replace faults token _ temp target = outcome
      intro hj
      match outcome, hj with
      | (d', .ok ()), hj => exact ⟨bytes, rfl, hj⟩
      | (d', .error e), hj => exact hj

end Steps

/-! ## The whole commit -/

/-- The old file is kept, and nothing is left of the temporary file unless it could not be
removed. -/
structure Abandoned (faults : Faults) (l t a : Location) (f : File) (d d' : Disk) : Prop extends
    OldKept faults l t a f d d' where
  temp : d'.at? t = d.at? t ∨
    faults.keepTemp = true ∧ d.at? t = none ∧ ∃ g, d'.at? t = some (.file g)

theorem abandoned_refl (hf : d.at? l = some (.file f)) : Abandoned faults l t a f d d where
  change := .refl _ d
  target := .inl ⟨hf, rfl⟩
  temp := .inl rfl

/-- No directory is touched while the old file is replaced. -/
theorem Installed.keepsDirectories (h : Installed faults l t a f g d d')
    (hf : d.at? l = some (.file f)) : KeepsDirectories d d' := by
  refine h.change.keepsDirectories ?_
  intro k hk m hm
  simp only [List.mem_cons, List.not_mem_nil, or_false] at hk
  rcases hk with rfl | rfl | rfl
  · exact absurd hm (not_directory_of_file hf m)
  · exact absurd hm (not_directory_of_none h.temp.1 m)
  · rcases h.aside with hsame | ⟨-, -, hfree, -⟩
    · exact hsame
    · exact absurd hm (not_directory_of_none hfree m)

/-- Nor is one while it is kept. -/
theorem OldKept.keepsDirectories (h : OldKept faults l t a f d d')
    (hf : d.at? l = some (.file f)) (ht : d.at? t = none) : KeepsDirectories d d' := by
  refine h.change.keepsDirectories ?_
  intro k hk m hm
  simp only [List.mem_cons, List.not_mem_nil, or_false] at hk
  rcases hk with rfl | rfl | rfl
  · exact absurd hm (not_directory_of_file hf m)
  · exact absurd hm (not_directory_of_none ht m)
  · rcases h.target with ⟨-, hsame⟩ | ⟨-, -, -, hfree, -⟩
    · exact hsame
    · exact absurd hm (not_directory_of_none hfree m)

/-- When the old file is kept, the temporary file is removed if that is possible. -/
theorem OldKept.abandoned {p : Path} (h : OldKept faults l t a f d d') (hname : d'.Names p t)
    (ht : d.at? t = none) (hg : d'.at? t = some (.file g)) (hne : t ≠ l ∧ a ≠ t) :
    Abandoned faults l t a f d (discard faults.keepTemp p d') := by
  rw [discard_file hname hg]
  cases hkeep : faults.keepTemp with
  | true => exact ⟨h, .inr ⟨hkeep, ht, g, hg⟩⟩
  | false =>
    rw [if_neg (by simp)]
    refine ⟨⟨h.change.trans (sameBut_erase (by simp)), ?_⟩, .inl ?_⟩
    · rw [at?_erase_of_ne _ hne.1.symm, at?_erase_of_ne _ hne.2]
      exact h.target
    · rw [at?_erase_self _ _ hname.ne_nil, ht]

/-- The names beside a target hold no null character. -/
theorem hasNull_besideName (htarget : target.hasNull = false) (hmark : CodePoint.ofNat 0 ∉ mark)
    (htoken : CodePoint.ofNat 0 ∉ token) (n : Nat) :
    (besideName target mark token n).hasNull = false := by
  have hparts : ∀ part ∈ target.parts, CodePoint.ofNat 0 ∉ part := by
    simpa [Path.hasNull] using htarget
  have hname : CodePoint.ofNat 0 ∉ target.name := by
    rw [Path.name]
    cases hlast : target.parts.getLast? with
    | none => simp
    | some last => exact hparts last (List.mem_of_getLast? hlast)
  have hdigits : CodePoint.ofNat 0 ∉ Text.ofNat n := by
    intro hmem
    exact absurd (Text.isDigit_of_mem_ofNat hmem) (by decide)
  have hnew : CodePoint.ofNat 0 ∉ (besideName target mark token n).name := by
    rw [name_besideName]
    simp only [List.mem_append, List.mem_cons, not_or]
    exact ⟨⟨⟨hname, by decide, hmark⟩, by decide, htoken⟩, by decide, hdigits⟩
  show (target.parts.dropLast ++ [_]).any _ = false
  rw [List.any_append, List.any_cons, List.any_nil, Bool.or_false, Bool.or_eq_false_iff,
    List.any_eq_false]
  constructor
  · intro part hpart
    simpa using hparts part ((List.dropLast_sublist _).subset hpart)
  · rw [← name_besideName]
    simpa using hnew

/-- A file is not refused for a null character that its path does not hold. -/
theorem createFile_ne_nullCharacter {p : Path} {bytes : ByteArray} (h : p.hasNull = false) :
    d.createFile p bytes ≠ .error .nullCharacter := by
  intro he
  unfold createFile at he
  cases hl : d.locate p with
  | error e =>
    rw [hl] at he
    cases he
    exact locate_ne_nullCharacter h hl
  | ok k =>
    simp only [hl, bind, Except.bind] at he
    split at he
    · cases he
    · cases hh : d.holder p k with
      | ok m =>
        rw [hh] at he
        cases he
      | error e =>
        rw [hh] at he
        cases he
        unfold holder at hh
        repeat' split at hh
        all_goals cases hh

/-- A temporary file that was just made stands beside the target, and the commit is under way. -/
theorem underway_of_createFile {i : Nat} (hl : d.locate target = .ok l)
    (he : target.isEntry = true) (hf : d.at? l = some (.file f))
    (h : d.createFile (besideName target tempMark token i) .empty = .ok d') :
    d.Names (besideName target tempMark token i) (besideLocation l target tempMark token i) ∧
      Underway d target (besideName target tempMark token i) l
        (besideLocation l target tempMark token i) f ⟨.empty, Mode.newFile⟩ d' := by
  obtain ⟨t, m, ht, hfree, hheld, rfl⟩ := createFile_eq_ok h
  obtain rfl := locate_besideName hl he ht
  -- what was put there is a file beside the target, so that the target is as it was
  have hne : besideLocation l target tempMark token i ≠ l :=
    besideLocation_ne (eq_dropLast_concat hl he) i
  have hchange : SameBut [besideLocation l target tempMark token i] d
      (d.put (besideLocation l target tempMark token i) (.file ⟨.empty, Mode.newFile⟩)) :=
    sameBut_put List.mem_cons_self _
  have hkeeps := hchange.keepsDirectories_of_not (not_directory_of_none hfree)
  have htemp : d.Names (besideName target tempMark token i)
      (besideLocation l target tempMark token i) :=
    ⟨ht, isEntry_besideName i, m, hheld⟩
  refine ⟨htemp, ?_⟩
  exact {
    change := hchange
    free := hfree
    target := (htemp.beside hl he).of_keeps hkeeps
    temp := htemp.of_keeps hkeeps
    old := by rw [hchange.elsewhere (by simp [hne.symm]), hf]
    new := at?_put_self _ _ _
    ne := hne
    len := length_besideLocation (eq_dropLast_concat hl he) i }

/-- Once the temporary file was made, the new file is installed or the commit is abandoned. -/
theorem fill_settled {i : Nat} {d₁ : Disk} (hl : d.locate target = .ok l)
    (he : target.isEntry = true) (hf : d.at? l = some (.file f))
    (h : d.createFile (besideName target tempMark token i) .empty = .ok d₁) :
    ∃ j, match fill faults token encoding d₁ (besideName target tempMark token i) target
        content with
      | (d₂, .ok ()) => ∃ bytes, encoding.encode content = .ok bytes ∧
          Installed faults l (besideLocation l target tempMark token i)
            (besideLocation l target asideMark token j) f ⟨bytes, .ofNat f.mode⟩ d
            (discard faults.keepTemp (besideName target tempMark token i) d₂)
      | (d₂, .error _) => Abandoned faults l (besideLocation l target tempMark token i)
          (besideLocation l target asideMark token j) f d
          (discard faults.keepTemp (besideName target tempMark token i) d₂) := by
  obtain ⟨htemp, hway⟩ := underway_of_createFile hl he hf h
  obtain ⟨j, hj⟩ := fill_outcome hway
  refine ⟨j, ?_⟩
  revert hj
  generalize fill faults token encoding d₁ _ target content = outcome
  intro hj
  match outcome, hj with
  | (d₂, .ok ()), ⟨bytes, hbytes, hinstalled⟩ =>
    -- the temporary file has become the target, so there is none to discard
    have hloc := locate_of_keeps (hinstalled.keepsDirectories hf) htemp.located
    dsimp only
    rw [discard_missing hloc hinstalled.temp.2]
    exact ⟨bytes, hbytes, hinstalled⟩
  | (d₂, .error e), ⟨hkept, g, hg⟩ =>
    have hnames := htemp.of_keeps (hkept.keepsDirectories hf hway.free)
    exact hkept.abandoned hnames hway.free hg ⟨hway.ne, besideLocation_marks_ne i j⟩

/-- What a commit comes to: the new text is installed in its encoding and with the permission bits
of the old file, or the commit says that the target could not be written, and is abandoned. -/
def Settled (faults : Faults) (encoding : Encoding) (content : Text) (target : Path)
    (l t a : Location) (f : File) (d : Disk) : Disk × Except Failure Durability → Prop
  | (d', .ok _) => ∃ bytes, encoding.encode content = .ok bytes ∧
      Installed faults l t a f ⟨bytes, .ofNat f.mode⟩ d d'
  | (d', .error e) => (∃ cause, e = .unwritten target cause) ∧ Abandoned faults l t a f d d'

/-- **Commits are atomic.** Whichever calls fail while a file that is there is written to: if the
commit succeeds, the target has exactly the encoded text and the permission bits of the old file,
and no file but the old one may be left over, set aside, if removing it failed. If the commit fails,
it says that the target could not be written, and the old file is as it was, or, if neither the new
file nor the old one could be moved to the target, it stands where it was set aside; a temporary
file is left only if removing it failed. Nothing else on the disk is touched. -/
theorem commit_atomic (faults : Faults) (token : Text) (encoding : Encoding) (content : Text)
    {d : Disk} {target : Path} {l : Location} {f : File} (htree : d.isTree = true)
    (htoken : CodePoint.ofNat 0 ∉ token) (hl : d.locate target = .ok l)
    (hf : d.at? l = some (.file f)) :
    ∃ i j, Settled faults encoding content target l (besideLocation l target tempMark token i)
      (besideLocation l target asideMark token j) f d
      (commit faults token encoding d target content) := by
  have he := isEntry_of_isTree htree hl hf
  have hnull := (refusal?_eq_none_iff.1 (locate_eq_ok_iff.1 hl).1).2
  unfold commit
  rw [Path.name_isEmpty_of_isEntry he, if_neg (by simp)]
  cases hfree : freeName d faults.noTempName target tempMark token with
  | error e => exact ⟨0, 0, ⟨e, rfl⟩, abandoned_refl hf⟩
  | ok temp =>
    obtain ⟨i, rfl, -⟩ := freeName_eq_ok hfree
    refine ⟨i, ?_⟩
    dsimp only
    cases hcreate : d.createFile (besideName target tempMark token i) .empty with
    | error e =>
      refine ⟨0, ?_⟩
      cases e with
      | nullCharacter =>
        -- this error alone would not be told as one of writing, but no name here can cause it
        have hnull' : (besideName target tempMark token i).hasNull = false :=
          hasNull_besideName hnull (by decide) htoken i
        exact absurd hcreate (createFile_ne_nullCharacter hnull')
      | _ => exact ⟨⟨_, rfl⟩, abandoned_refl hf⟩
    | ok d₁ =>
      obtain ⟨j, hj⟩ := fill_settled hl he hf hcreate
      refine ⟨j, ?_⟩
      dsimp only
      revert hj
      generalize fill faults token encoding d₁ _ target content = outcome
      intro hj
      match outcome, hj with
      | (d₂, .ok ()), hj => exact hj
      | (d₂, .error e), hj => exact ⟨⟨e, rfl⟩, hj⟩

/-- A disk with one file, which only its owner can read. -/
def lonelyFile : Disk :=
  ⟨[(.of [[.char 'f']], .file ⟨.empty, 0o600⟩)], []⟩

/-- The target cannot be replaced, and once it was set aside, neither file can be moved there. -/
def stuckDetour : Faults :=
  { replaceForbidden := true, moveIn := some [], moveBack := some [] }

/-- The target cannot be replaced, and once that is done on the detour, the old file stays
behind. -/
def litteringDetour : Faults :=
  { replaceForbidden := true, keepAside := true }

theorem commit_litteringDetour :
    ∃ d' r, commit litteringDetour [.char 't'] .utf8 lonelyFile ⟨.here, [[.char 'f']]⟩
      [.char 'x'] = (d', .ok r) := by
  have hok : (commit litteringDetour [.char 't'] .utf8 lonelyFile ⟨.here, [[.char 'f']]⟩
      [.char 'x']).2.isOk = true := by decide +kernel
  generalize commit litteringDetour [.char 't'] .utf8 lonelyFile ⟨.here, [[.char 'f']]⟩
    [.char 'x'] = outcome at hok
  match outcome, hok with
  | (d', .ok r), _ => exact ⟨d', r, rfl⟩

/-- A commit to a lonely file that gets stuck on the detour, and one that comes through. -/
theorem commit_atomic_lonelyFile :
    lonelyFile.isTree = true ∧ CodePoint.ofNat 0 ∉ [.char 't'] ∧
      lonelyFile.locate ⟨.here, [[.char 'f']]⟩ = .ok [[.char 'f']] ∧
      lonelyFile.at? [[.char 'f']] = some (.file ⟨.empty, 0o600⟩) ∧
      (∃ i j, Settled stuckDetour .utf8 [.char 'x'] ⟨.here, [[.char 'f']]⟩ [[.char 'f']]
        (besideLocation [[.char 'f']] ⟨.here, [[.char 'f']]⟩ tempMark [.char 't'] i)
        (besideLocation [[.char 'f']] ⟨.here, [[.char 'f']]⟩ asideMark [.char 't'] j)
        ⟨.empty, 0o600⟩ lonelyFile
        (commit stuckDetour [.char 't'] .utf8 lonelyFile ⟨.here, [[.char 'f']]⟩ [.char 'x'])) ∧
      ∃ i j d' r, commit litteringDetour [.char 't'] .utf8 lonelyFile ⟨.here, [[.char 'f']]⟩
          [.char 'x'] = (d', .ok r) ∧
        Settled litteringDetour .utf8 [.char 'x'] ⟨.here, [[.char 'f']]⟩ [[.char 'f']]
          (besideLocation [[.char 'f']] ⟨.here, [[.char 'f']]⟩ tempMark [.char 't'] i)
          (besideLocation [[.char 'f']] ⟨.here, [[.char 'f']]⟩ asideMark [.char 't'] j)
          ⟨.empty, 0o600⟩ lonelyFile (d', .ok r) := by
  have htree : lonelyFile.isTree = true := by decide
  have htoken : CodePoint.ofNat 0 ∉ [.char 't'] := by decide
  have hl : lonelyFile.locate ⟨.here, [[.char 'f']]⟩ = .ok [[.char 'f']] :=
    locate_eq_ok_iff.2 ⟨by decide, by decide +kernel, fun _ => rfl, rfl⟩
  have hf : lonelyFile.at? [[.char 'f']] = some (.file ⟨.empty, 0o600⟩) := by decide
  obtain ⟨d', r, hcommit⟩ := commit_litteringDetour
  obtain ⟨i, j, hsettled⟩ : ∃ i j, Settled litteringDetour .utf8 [.char 'x']
      ⟨.here, [[.char 'f']]⟩ [[.char 'f']]
      (besideLocation [[.char 'f']] ⟨.here, [[.char 'f']]⟩ tempMark [.char 't'] i)
      (besideLocation [[.char 'f']] ⟨.here, [[.char 'f']]⟩ asideMark [.char 't'] j)
      ⟨.empty, 0o600⟩ lonelyFile (d', .ok r) := by
    rw [← hcommit]
    exact commit_atomic litteringDetour [.char 't'] .utf8 [.char 'x'] htree htoken hl hf
  exact ⟨htree, htoken, hl, hf,
    commit_atomic stuckDetour [.char 't'] .utf8 [.char 'x'] htree htoken hl hf, i, j, d', r,
    hcommit, hsettled⟩

/-! ## Commits that succeed -/

/-- If a temporary file can be made beside a file that is there, and nothing goes wrong, a commit to
the file of a text that can be written succeeds. -/
theorem commit_of_createFile {d₁ : Disk} (hl : d.locate target = .ok l)
    (he : target.isEntry = true) (hf : d.at? l = some (.file f))
    (hfree : freeName d false target tempMark token = .ok temp)
    (hcreate : d.createFile temp .empty = .ok d₁) (hwrites : encoding.writes content = true) :
    ∃ d' r, commit {} token encoding d target content = (d', .ok r) := by
  obtain ⟨i, rfl, -⟩ := freeName_eq_ok hfree
  obtain ⟨-, hway⟩ := underway_of_createFile hl he hf hcreate
  have hwritten := hway.put ⟨encoding.bytes content, Mode.newFile.afterWrite⟩
  have hmoved := (hwritten.put ⟨encoding.bytes content, .ofNat f.mode⟩).rename
  have hfill : ∃ d₂, fill {} token encoding d₁ (besideName target tempMark token i) target
      content = (d₂, .ok ()) := by
    rw [fill, Encoding.encode_of_writes hwrites]
    dsimp only
    rw [writeFile_file hway.temp.located hway.new (Mode.grants_newFile .write)]
    dsimp only
    rw [copyMode_eq hwritten.target.located hwritten.old hwritten.temp.located hwritten.new,
      replace, if_neg (by simp), hmoved]
    exact ⟨_, rfl⟩
  obtain ⟨d₂, hfill⟩ := hfill
  rw [commit, Path.name_isEmpty_of_isEntry he, if_neg (by simp), hfree]
  dsimp only
  rw [hcreate]
  dsimp only
  rw [hfill]
  exact ⟨_, _, rfl⟩

/-- Only what is an entry can be replaced. -/
theorem isEntry_of_replace (h : replace faults token d temp target = (d', .ok ())) :
    target.isEntry = true := by
  unfold replace at h
  split at h
  · unfold swap at h
    cases hname : freeName d faults.noAsideName target asideMark token with
    | error e => simp [hname] at h
    | ok aside =>
      simp only [hname] at h
      cases hset : attempt faults.setAside (d.rename target aside) with
      | error e => simp [hset] at h
      | ok d₁ => exact (isEntry_of_rename (attempt_eq_ok hset).2).1
  · cases hmove : attempt faults.replace (d.rename temp target) with
    | error e => simp [hmove] at h
    | ok d₁ => exact (isEntry_of_rename (attempt_eq_ok hmove).2).2

theorem isEntry_of_fill (h : fill faults token encoding d temp target content = (d', .ok ())) :
    target.isEntry = true := by
  unfold fill at h
  split at h
  · cases h
  · split at h
    · cases h
    · split at h
      · cases h
      · exact isEntry_of_replace h

/-- After a commit that succeeds, the file that could be read holds the new content and has its
permission bits. -/
theorem fileAt_of_commit {r : Durability} (hread : d.fileAt target = .ok f)
    (h : commit faults token encoding d target content = (d', .ok r)) :
    ∃ bytes, encoding.encode content = .ok bytes ∧
      d'.fileAt target = .ok ⟨bytes, .ofNat f.mode⟩ := by
  obtain ⟨l, hl, hf, hright⟩ := fileAt_eq_ok_iff.1 hread
  unfold commit at h
  split at h
  · cases h
  · cases hfree : freeName d faults.noTempName target tempMark token with
    | error e => simp [hfree] at h
    | ok temp =>
      obtain ⟨i, rfl, -⟩ := freeName_eq_ok hfree
      simp only [hfree] at h
      cases hcreate : d.createFile (besideName target tempMark token i) .empty with
      | error e =>
        rw [hcreate] at h
        cases e <;> cases h
      | ok d₁ =>
        rw [hcreate] at h
        dsimp only at h
        cases hfill : fill faults token encoding d₁ (besideName target tempMark token i) target
            content with
        | mk d₂ result =>
          rw [hfill] at h
          cases result with
          | error e => cases h
          | ok u =>
            cases h
            obtain ⟨j, hj⟩ := fill_settled hl (isEntry_of_fill hfill) hf hcreate
            rw [hfill] at hj
            obtain ⟨bytes, hbytes, hinstalled⟩ := hj
            refine ⟨bytes, hbytes, fileAt_eq_ok_iff.2 ⟨l, ?_, hinstalled.target, ?_⟩⟩
            · exact locate_of_keeps (hinstalled.keepsDirectories hf) hl
            · rw [Mode.grants_ofNat]
              exact hright

end Commit

end Graft
