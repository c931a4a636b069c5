import Graft.Document
import Graft.Proofs.Disk.Frame

/-!
# What is written is read back

A document keeps its text with line feeds alone, and carriage returns go back in when it is written.
The two sides of this meet:

> `text_ofContent_serialize`: a text without carriage returns is read back as it was written.

Carriage returns that stand before a line feed are all taken out on the way in, so that a text has
none left exactly when the content had none elsewhere (`mem_withLineFeeds_iff`).
-/

namespace Graft

namespace Document

/-! ## Line breaks -/

/-- Whether every carriage return stands right before a line feed. -/
def returnsEndLines : Text → Bool
  | [] => true
  | .char '\r' :: .char '\n' :: r => returnsEndLines r
  | c :: r => c != .char '\r' && returnsEndLines r

/-- The carriage returns that are left are those that do not stand before a line feed. -/
theorem mem_withLineFeeds_iff (t : Text) :
    .char '\r' ∈ withLineFeeds t ↔ returnsEndLines t = false := by
  fun_induction withLineFeeds t with
  | case1 => simp [returnsEndLines]
  | case2 r ih =>
    rw [returnsEndLines, List.mem_cons]
    exact ⟨fun h => ih.1 (h.resolve_left (by decide)), fun h => .inr (ih.2 h)⟩
  | case3 c r hpair ih =>
    rw [returnsEndLines.eq_3 _ _ hpair, List.mem_cons, Bool.and_eq_false_iff, ih]
    by_cases hc : c = .char '\r'
    · simp [hc]
    · simp [hc, Ne.symm hc]

theorem withLineFeeds_of_not_mem {t : Text} (h : .char '\r' ∉ t) : withLineFeeds t = t := by
  fun_induction withLineFeeds t with
  | case1 => rfl
  | case2 r ih => exact absurd List.mem_cons_self h
  | case3 c r hpair ih => rw [ih fun hmem => h (List.mem_cons_of_mem c hmem)]

/-- What can be written can be written without the carriage returns. -/
theorem writes_withLineFeeds {t : Text} (h : Encoding.utf8.writes t = true) :
    Encoding.utf8.writes (withLineFeeds t) = true := by
  fun_induction withLineFeeds t with
  | case1 => rfl
  | case2 r ih =>
    simp only [Encoding.writes_cons, Bool.and_eq_true] at h ⊢
    exact ⟨rfl, ih h.2.2⟩
  | case3 c r hpair ih =>
    simp only [Encoding.writes_cons, Bool.and_eq_true] at h ⊢
    exact ⟨h.1, ih h.2⟩

/-- What carriage returns were put into does not start with a line feed. -/
theorem withCarriageReturns_ne_cons (t r : Text) : withCarriageReturns t ≠ .char '\n' :: r := by
  intro h
  cases t with
  | nil => cases h
  | cons c t =>
    unfold withCarriageReturns at h
    split at h
    · cases h
    · next hc => exact hc (List.cons.inj h).1

/-- The carriage returns that were put in are taken out again, whatever others there are. -/
theorem withLineFeeds_withCarriageReturns (t : Text) :
    withLineFeeds (withCarriageReturns t) = t := by
  induction t with
  | nil => rfl
  | cons c r ih =>
    unfold withCarriageReturns
    by_cases hc : c = .char '\n'
    · rw [if_pos hc, withLineFeeds, ih, hc]
    · rw [if_neg hc]
      rw [withLineFeeds.eq_3 _ _ fun s _ hs => withCarriageReturns_ne_cons r s hs, ih]

/-- What can be written can be written with either line breaks. -/
theorem writes_serialize (crlf : Bool) (t : Text) :
    Encoding.utf8.writes (serialize crlf t) = Encoding.utf8.writes t := by
  cases crlf with
  | false => rfl
  | true =>
    show Encoding.utf8.writes (withCarriageReturns t) = _
    fun_induction withCarriageReturns t with
    | case1 => rfl
    | case2 r ih => simp [ih]
    | case3 c r hc ih => simp [ih]

/-- A text without carriage returns is read back as it was written. -/
theorem text_ofContent_serialize {t : Text} (h : .char '\r' ∉ t) (crlf : Bool) :
    (ofContent (serialize crlf t)).text = t := by
  show withLineFeeds (serialize crlf t) = t
  cases crlf with
  | false => exact withLineFeeds_of_not_mem h
  | true => exact withLineFeeds_withCarriageReturns t

/-! ## Reading -/

variable {d : Disk} {path : Path} {doc : Document}

/-- There is a document where there is a file that can be read and is text. -/
theorem read_eq_ok_iff : read d path = .ok (.ok doc) ↔
    ∃ f content, d.fileAt path = .ok f ∧ Encoding.decode f.content = some content ∧
      doc = ofContent content := by
  constructor
  · intro h
    unfold read at h
    split at h
    · cases h
    · next f hlook =>
      split at h
      · cases h
      · next g hg =>
        split at h
        · cases h
        · next content hcontent =>
          cases h
          exact ⟨g, content, hg, hcontent, rfl⟩
    · cases h
  · rintro ⟨f, content, hf, hcontent, rfl⟩
    obtain ⟨l, hl, hnode, -⟩ := Disk.fileAt_eq_ok_iff.1 hf
    have hlook : d.look path = .ok (some (.file f)) := by
      rw [Disk.look, hl]
      exact congrArg Except.ok hnode
    rw [read, hlook, hf]
    dsimp only
    rw [hcontent]

/-- What was read can be written. -/
theorem writes_of_read (h : read d path = .ok (.ok doc)) :
    Encoding.utf8.writes doc.text = true := by
  obtain ⟨f, content, -, hcontent, rfl⟩ := read_eq_ok_iff.1 h
  exact writes_withLineFeeds (Encoding.writes_of_decode hcontent)

end Document

end Graft
