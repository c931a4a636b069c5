import Graft.Proofs.Document
import Graft.Proofs.Edit.Standing
import Graft.Proofs.Text.Occurrences
import Mathlib.Data.List.Infix

/-!
# Line breaks there and back

Taking carriage returns out and putting them in are not inverse to each other: a content of mixed
line breaks loses some of them, and a text that has a carriage return before a line feed loses it
unless one more is put in. Which of the two is done to a text on the way out is kept as a flag, and
the flag is read off the content anew on the way in. This file says exactly when nothing is lost.

> `withCarriageReturns_withLineFeeds`: nothing is lost of a content where every line feed follows a
> carriage return, whatever other carriage returns it has.
> `withLineFeeds_eq_self_iff`: nothing is taken out of a content without such a pair, and of no
> other.
> `isMostlyCrlf_withCarriageReturns`: the flag is read off what was written with carriage returns
> as soon as there is a line.

Put together they are `read_written`, about documents that are read from a file.
-/

namespace Graft

/-- A file at a path has some content. -/
def Disk.HasContent (d : Disk) (path : Path) (content : Text) : Prop :=
  ∃ f, d.fileAt path = .ok f ∧ Encoding.decode f.content = some content

namespace Document

open Text

variable {t u : Text} {c : CodePoint}

/-! ## Content of one kind of line breaks -/

/-- Every line feed follows a carriage return. -/
def FeedsFollowReturns (t : Text) : Prop :=
  ∀ above below, t = above ++ .char '\n' :: below → above.getLast? = some (.char '\r')

/-- No line feed follows a carriage return. -/
def FeedsStandAlone (t : Text) : Prop :=
  ∀ above below, t = above ++ .char '\n' :: below → above.getLast? ≠ some (.char '\r')

/-- No line feed follows a carriage return where the pair of them does not occur. -/
theorem feedsStandAlone_iff : FeedsStandAlone t ↔ ¬ [.char '\r', .char '\n'] <:+: t := by
  constructor
  · rintro h ⟨above, below, rfl⟩
    exact h (above ++ [.char '\r']) below (by simp) List.getLast?_concat
  · rintro h above below rfl hlast
    obtain ⟨front, rfl⟩ := List.getLast?_eq_some_iff.1 hlast
    exact h ⟨front, below, by simp⟩

/-- What comes behind the start of such a text is such a text, if the cut is not in a pair. -/
theorem FeedsFollowReturns.of_append (h : FeedsFollowReturns (u ++ t))
    (hcut : ∀ r, u.getLast? = some (.char '\r') → t ≠ .char '\n' :: r) : FeedsFollowReturns t := by
  rintro above below rfl
  have hlast := h (u ++ above) below (by simp)
  cases above with
  | nil =>
    rw [List.append_nil] at hlast
    exact absurd rfl (hcut below hlast)
  | cons c r => rwa [List.getLast?_append_of_ne_nil u (List.cons_ne_nil c r)] at hlast

/-- Every line feed gets its carriage return. -/
theorem feedsFollowReturns_withCarriageReturns (t : Text) :
    FeedsFollowReturns (withCarriageReturns t) := by
  induction t with
  | nil =>
    intro above below h
    cases above <;> cases h
  | cons c r ih =>
    intro above below h
    unfold withCarriageReturns at h
    split at h
    · -- the line feed is the one that was put the carriage return before, or it is further on
      cases above with
      | nil => cases h
      | cons d above =>
        cases above with
        | nil =>
          cases h
          rfl
        | cons e more =>
          obtain ⟨rfl, rfl, hrest⟩ : .char '\r' = d ∧ .char '\n' = e ∧
              withCarriageReturns r = more ++ .char '\n' :: below := by simpa using h
          have hmore := ih more below hrest
          cases more with
          | nil => cases hmore
          | cons f more => simpa using hmore
    · next hc =>
      cases above with
      | nil => exact absurd (List.cons.inj h).1 hc
      | cons d more =>
        have hrest := (List.cons.inj h).2
        have hmore := ih more below hrest
        cases more with
        | nil => cases hmore
        | cons f more => rwa [List.getLast?_cons_cons]

/-- **Carriage returns that were taken out are put in again**, if every line feed had one. -/
theorem withCarriageReturns_withLineFeeds (h : FeedsFollowReturns t) :
    withCarriageReturns (withLineFeeds t) = t := by
  fun_induction withLineFeeds t with
  | case1 => rfl
  | case2 r ih =>
    have hrest : FeedsFollowReturns r :=
      FeedsFollowReturns.of_append (u := [.char '\r', .char '\n']) h fun _ hlast => by cases hlast
    rw [withCarriageReturns, if_pos rfl, ih hrest]
  | case3 c r hpair ih =>
    have hc : c ≠ .char '\n' := by
      rintro rfl
      cases h [] r rfl
    have hrest : FeedsFollowReturns r :=
      FeedsFollowReturns.of_append (u := [c]) h fun s hlast => hpair s (Option.some.inj hlast)
    rw [withCarriageReturns, if_neg hc, ih hrest]

/-! ## Content that stays as it is -/

theorem length_withLineFeeds_le (t : Text) : (withLineFeeds t).length ≤ t.length := by
  fun_induction withLineFeeds t with
  | case1 => exact Nat.le_refl _
  | case2 r ih =>
    simp only [List.length_cons]
    omega
  | case3 c r hpair ih =>
    simp only [List.length_cons]
    omega

/-- **Nothing is taken out of a content exactly if no line feed in it follows a carriage return.** -/
theorem withLineFeeds_eq_self_iff : withLineFeeds t = t ↔ FeedsStandAlone t := by
  rw [feedsStandAlone_iff]
  fun_induction withLineFeeds t with
  | case1 => simp
  | case2 r ih =>
    refine iff_of_false ?_ (not_not_intro ⟨[], r, rfl⟩)
    intro h
    -- the text got shorter
    have hlength := congrArg List.length h
    have := length_withLineFeeds_le r
    simp only [List.length_cons] at hlength
    omega
  | case3 c r hpair ih =>
    have hfront : ¬ [.char '\r', .char '\n'] <+: c :: r := by
      rintro ⟨below, hbelow⟩
      obtain ⟨rfl, rfl⟩ := List.cons.inj hbelow
      exact hpair below rfl rfl
    rw [List.cons.injEq, and_iff_right rfl, ih, List.infix_cons_iff, not_or, and_iff_right hfront]

/-! ## The flag -/

/-- Where carriage returns were put in, they and the line feeds are counted alike. -/
theorem count_withCarriageReturns (t : Text) :
    count [.char '\r', .char '\n'] (withCarriageReturns t) =
    count [.char '\n'] (withCarriageReturns t) := by
  show countSkipping [.char '\r', .char '\n'] 0 _ = countSkipping [.char '\n'] 0 _
  induction t with
  | nil => rfl
  | cons c r ih =>
    unfold withCarriageReturns
    split
    · show 1 + countSkipping [.char '\r', .char '\n'] 0 (withCarriageReturns r) =
        1 + countSkipping [.char '\n'] 0 (withCarriageReturns r)
      rw [ih]
    · next hc =>
      have hpair : List.isPrefixOf [.char '\r', .char '\n']
          (c :: withCarriageReturns r) = false := by
        rw [Bool.eq_false_iff, Ne, List.isPrefixOf_iff_prefix]
        rintro ⟨below, hbelow⟩
        exact withCarriageReturns_ne_cons r below (List.cons.inj hbelow).2.symm
      have hfeed : List.isPrefixOf [.char '\n'] (c :: withCarriageReturns r) = false := by
        simp [List.isPrefixOf, Ne.symm hc]
      rw [countSkipping, countSkipping, hpair, hfeed, if_neg (by simp), if_neg (by simp), ih]

theorem lineFeed_mem_withCarriageReturns_iff : .char '\n' ∈ withCarriageReturns t ↔
    .char '\n' ∈ t := by
  induction t with
  | nil => rfl
  | cons c r ih =>
    unfold withCarriageReturns
    split
    · next hc => simp [hc]
    · rw [List.mem_cons, List.mem_cons, ih]

/-- **What was written with carriage returns is told by its line feeds.** -/
theorem isMostlyCrlf_withCarriageReturns :
    isMostlyCrlf (withCarriageReturns t) = true ↔ .char '\n' ∈ t := by
  have hzero : count [.char '\n'] (withCarriageReturns t) = 0 ↔ .char '\n' ∉ t := by
    rw [count_eq_zero_iff (by simp), contains_eq_false_iff, search_eq_none_iff,
      List.singleton_infix_iff, lineFeed_mem_withCarriageReturns_iff]
  rw [isMostlyCrlf, count_withCarriageReturns, decide_eq_true_eq]
  constructor
  · intro hlt
    by_contra hnot
    have := hzero.2 hnot
    omega
  · intro hmem
    have : count [.char '\n'] (withCarriageReturns t) ≠ 0 := fun h => hzero.1 h hmem
    omega

theorem isMostlyCrlf_eq_false (h : FeedsStandAlone t) : isMostlyCrlf t = false := by
  have hnone : count [.char '\r', .char '\n'] t = 0 := by
    rw [count_eq_zero_iff (by simp), contains_eq_false_iff, search_eq_none_iff]
    exact feedsStandAlone_iff.1 h
  rw [isMostlyCrlf, hnone]
  rfl

/-! ## There and back -/

/-- A content of one kind of line breaks is written as it was read. -/
theorem content_ofContent (h : FeedsFollowReturns t ∨ FeedsStandAlone t) :
    (ofContent t).content = t := by
  show serialize (isMostlyCrlf t) (withLineFeeds t) = t
  rcases h with h | h
  · have hback := withCarriageReturns_withLineFeeds h
    cases hflag : isMostlyCrlf t with
    | true => exact hback
    | false =>
      -- there is no line feed then, so that nothing was taken out
      have hnone : .char '\n' ∉ t := by
        rw [← hback, lineFeed_mem_withCarriageReturns_iff, ← isMostlyCrlf_withCarriageReturns,
          hback, hflag]
        simp
      refine withLineFeeds_eq_self_iff.2 ?_
      rintro above below rfl
      exact absurd (by simp) hnone
  · rw [isMostlyCrlf_eq_false h]
    exact withLineFeeds_eq_self_iff.2 h

/-- **A content of one kind of line breaks is written as it was read**, stray carriage returns
included. **A text is read as it was written** exactly if carriage returns are put into it or none of
its line feeds follows one, and then the flag is the one it was written with, unless it asks for
carriage returns and there is no line feed to put one before. -/
theorem read_written {d : Disk} {path : Path} :
    (∀ raw, d.HasContent path raw → FeedsFollowReturns raw ∨ FeedsStandAlone raw →
      ∃ doc, read d path = .ok (.ok doc) ∧ doc.content = raw) ∧
    ∀ written : Document, d.HasContent path written.content →
      ∃ doc, read d path = .ok (.ok doc) ∧
        (doc.text = written.text ↔ written.crlf = true ∨
            ¬ [.char '\r', .char '\n'] <:+: written.text) ∧
        (doc.text = written.text →
          (doc.crlf = written.crlf ↔ written.crlf = false ∨ .char '\n' ∈ written.text)) := by
  constructor
  · rintro raw ⟨f, hfile, hraw⟩ hkind
    exact ⟨ofContent raw, read_eq_ok_iff.2 ⟨f, raw, hfile, hraw, rfl⟩, content_ofContent hkind⟩
  · rintro ⟨loaded, text, crlf⟩ ⟨f, hfile, hcontent⟩
    refine ⟨_, read_eq_ok_iff.2 ⟨f, _, hfile, hcontent, rfl⟩, ?_⟩
    dsimp only [content, ofContent]
    cases crlf with
    | true =>
      have htext : withLineFeeds (serialize true text) = text :=
        withLineFeeds_withCarriageReturns text
      have hflag : isMostlyCrlf (serialize true text) = true ↔ .char '\n' ∈ text :=
        isMostlyCrlf_withCarriageReturns
      simp [htext, hflag]
    | false =>
      have htext : withLineFeeds (serialize false text) = text ↔ FeedsStandAlone text :=
        withLineFeeds_eq_self_iff
      rw [htext, feedsStandAlone_iff]
      refine ⟨by simp, fun halone => ?_⟩
      have hflag : isMostlyCrlf (serialize false text) = false :=
        isMostlyCrlf_eq_false (feedsStandAlone_iff.2 halone)
      simp [hflag]

/-! ### A stray carriage return -/

/-- A text in which a carriage return stands before a line feed, to be written with more of them. -/
def strayDocument : Document :=
  ⟨[], "a\r\nb\r\r\n".toText, true⟩

/-- The path of its file. -/
def strayPath : Path := ⟨.here, [[.char 'f']]⟩

/-- A disk with nothing but the file. -/
def strayDisk : Disk :=
  ⟨[(.of [[.char 'f']], .file ⟨Encoding.utf8.bytes strayDocument.content, Mode.newFile⟩)], []⟩

theorem hasContent_strayDisk : strayDisk.HasContent strayPath strayDocument.content :=
  ⟨_, Disk.fileAt_eq_ok_iff.2 ⟨[[.char 'f']],
    Disk.locate_eq_ok_iff.2 ⟨by decide, by decide +kernel, fun _ => rfl, rfl⟩, rfl, by decide⟩,
    Encoding.decode_bytes (by decide)⟩

/-- Nothing is lost of a text that is written with carriage returns beside those that it has, and
its file is written as it was read. -/
theorem read_written_strayDocument :
    strayDisk.HasContent strayPath strayDocument.content ∧
      FeedsFollowReturns strayDocument.content ∧ [.char '\r', .char '\n'] <:+: strayDocument.text ∧
      (∃ doc, read strayDisk strayPath = .ok (.ok doc) ∧ doc.content = strayDocument.content) ∧
      ∃ doc, read strayDisk strayPath = .ok (.ok doc) ∧ doc.text = strayDocument.text ∧
        doc.crlf = true := by
  have hcontent := hasContent_strayDisk
  have hkind : FeedsFollowReturns strayDocument.content :=
    feedsFollowReturns_withCarriageReturns strayDocument.text
  obtain ⟨hthere, hback⟩ := @read_written strayDisk strayPath
  obtain ⟨doc, hread, htext, hflag⟩ := hback strayDocument hcontent
  have htext := htext.2 (.inl rfl)
  exact ⟨hcontent, hkind, ⟨[.char 'a'], "b\r\r\n".toText, rfl⟩, hthere _ hcontent (.inl hkind),
    doc, hread, htext, (hflag htext).2 (.inr (by decide))⟩

end Document

end Graft
