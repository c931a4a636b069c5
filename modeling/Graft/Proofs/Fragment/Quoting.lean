import Graft.Proofs.Brace.InCode
import Graft.Proofs.Fragment.Recognition

/-!
# How declaration lines are read

A declaration line is a quoted value in a frame of characters that mean nothing to the scanner. What
is put in place of the placeholders of a template goes into the value, so that lines which match the
line of a template are of the same form. They may well be read otherwise than they look: a backslash
before the second quote hides it, and the string goes on. But it ends with the line, and the value
holds all that could be taken for a brace.

> `IsQuotedLine.isIdle`: a line of this form that begins in code holds no structural brace, and the
> line below begins in code.
> `Declaration.Matches.isQuotedLine`: what matches a declaration line is of this form.
-/

namespace Graft

open Text Reading

/-- Whether a character may stand around the value of a declaration line. -/
def isFrame (c : CodePoint) : Bool :=
  isWord c || isIndent c || c == .char '.' || c == .char '(' || c == .char ')'

/-- A line is a quoted value in a frame. -/
def IsQuotedLine (line : Text) : Prop :=
  ∃ (k : Text) (q : Quote) (v z : Text), line = k ++ q.toChar :: (v ++ q.toChar :: z) ∧
    k.all isFrame = true ∧ v.all Declaration.isValueChar = true ∧ z.all isFrame = true

variable {k t u v w z line head : Text} {c : CodePoint} {q : Quote} {r : Reading}

/-! ## Reading -/

theorem isPlain_of_isFrame (hc : isFrame c = true) : isPlain c = true := by
  simp only [isFrame, Bool.or_eq_true, beq_iff_eq] at hc
  rcases hc with (((hc | hc) | rfl) | rfl) | rfl
  · exact isPlain_of_isWord hc
  · exact isPlain_of_isIndent hc
  · decide
  · decide
  · decide

theorem all_isPlain_of_isFrame (ht : t.all isFrame = true) : t.all isPlain = true :=
  List.all_eq_true.2 fun c hc => isPlain_of_isFrame (List.all_eq_true.1 ht c hc)

theorem not_mem_of_isFrame (hc : isFrame c = false) (ht : t.all isFrame = true) : c ∉ t := by
  intro hmem
  rw [List.all_eq_true.1 ht c hmem] at hc
  cases hc

theorem met_eq_nil_of_isFrame (ht : t.all isFrame = true) (r : Reading) (i : Nat) :
    r.met i t = [] :=
  met_eq_nil (not_mem_of_isFrame (by decide) ht) (not_mem_of_isFrame (by decide) ht) r i

theorem isFrame_of_isIndent (hc : isIndent c = true) : isFrame c = true := by
  simp [isFrame, hc]

theorem all_isFrame_of_isIndent (ht : t.all isIndent = true) : t.all isFrame = true :=
  List.all_eq_true.2 fun c hc => isFrame_of_isIndent (List.all_eq_true.1 ht c hc)

/-- Within the value, the automaton is in the string that the first quote began. -/
theorem run_value (hv : v.all Declaration.isValueChar = true)
    (hr : r = one q ∨ r = quoted q ∨ r = escaped q) :
    r.run v = one q ∨ r.run v = quoted q ∨ r.run v = escaped q := by
  induction v generalizing r with
  | nil => exact hr
  | cons c v ih =>
    obtain ⟨hc, hv⟩ := Bool.and_eq_true_iff.1 hv
    obtain ⟨⟨hsingle, hdouble⟩, hfeed⟩ : (c ≠ .char '\'' ∧ c ≠ .char '"') ∧ c ≠ .char '\n' := by
      simpa [Declaration.isValueChar] using hc
    have hquote : c ≠ q.toChar := by
      cases q with
      | single => exact hsingle
      | double => exact hdouble
    have hquoted : ofQuoted q c = quoted q ∨ ofQuoted q c = escaped q := by
      by_cases hhide : c = .char '\\'
      · rw [ofQuoted, if_pos hhide]
        exact .inr rfl
      · rw [ofQuoted, if_neg hhide, if_neg hquote, if_neg hfeed]
        exact .inl rfl
    refine ih hv ?_
    rcases hr with rfl | rfl | rfl
    · rw [step, if_neg hquote]
      exact .inr hquoted
    · exact .inr hquoted
    · exact .inr (.inl rfl)

/-- The value holds nothing that counts. -/
theorem met_value (hv : v.all Declaration.isValueChar = true) (q : Quote) (i : Nat) :
    (one q).met i v = [] := by
  refine met_eq_nil_of_forall (fun k _ => ?_) i
  have hpart : (v.take k).all Declaration.isValueChar = true :=
    List.all_eq_true.2 fun c hc => List.all_eq_true.1 hv c (List.take_subset k v hc)
  rcases run_value hpart (.inl rfl) with h | h | h <;> rw [h] <;> rfl

/-- Behind the second quote the string is over, or else it goes on to the end of the line. -/
theorem run_value_quote (hv : v.all Declaration.isValueChar = true) (hz : z.all isFrame = true) :
    ((one q).run (v ++ q.toChar :: z)).step (.char '\n') = code := by
  have hquote : ((one q).run v).step q.toChar = two q ∨ ((one q).run v).step q.toChar = code ∨
      ((one q).run v).step q.toChar = quoted q := by
    rcases run_value hv (.inl rfl) with h | h | h <;> rw [h] <;> cases q <;> decide
  rw [run_append]
  show ((((one q).run v).step q.toChar).run z).step (.char '\n') = code
  by_cases hne : z = []
  · rw [hne]
    rcases hquote with h | h | h <;> rw [h] <;> cases q <;> rfl
  · rw [run_plain hne (all_isPlain_of_isFrame hz)]
    rcases hquote with h | h | h <;> rw [h] <;> cases q <;> rfl

/-- A line that begins in code holds no structural brace, and the line below begins in code. -/
structure IsIdle (line : Text) : Prop where
  next : (code.run line).step (.char '\n') = code
  met : ∀ i, code.met i line = []

/-- **A quoted line is idle.** -/
theorem IsQuotedLine.isIdle (h : IsQuotedLine line) : IsIdle line := by
  obtain ⟨k, q, v, z, rfl, hk, hv, hz⟩ := h
  have hbefore := run_code_plain (all_isPlain_of_isFrame hk)
  have hfirst : code.step q.toChar = one q := by cases q <;> rfl
  have hquote : ∀ (r : Reading) i t, r.met i (q.toChar :: t) = (r.step q.toChar).met (i + 1) t := by
    intro r i t
    cases q <;> exact met_cons_of_ne (by decide) (by decide) r i t
  constructor
  · rw [run_append, hbefore]
    show ((code.step q.toChar).run (v ++ q.toChar :: z)).step (.char '\n') = code
    rw [hfirst]
    exact run_value_quote hv hz
  · intro i
    rw [met_append, met_eq_nil_of_isFrame hk, hbefore, hquote, hfirst, met_append, met_value hv,
      hquote, met_eq_nil_of_isFrame hz]
    rfl

theorem isIdle_of_allBlank (hline : allBlank line = true) : IsIdle line where
  next := by
    rw [run_code_blanks hline]
    rfl
  met := met_eq_nil (not_mem_of_allBlank (by decide) hline)
    (not_mem_of_allBlank (by decide) hline) code

/-- Idle lines below the end of a line lead to the end of a line, and nothing is met on the way. -/
theorem reading_idle {ls : List Text} (hls : ∀ l ∈ ls, IsIdle l) (hr : r.step (.char '\n') = code) :
    (r.run (ls.flatMap (.char '\n' :: ·))).step (.char '\n') = code ∧
      ∀ i, r.met i (ls.flatMap (.char '\n' :: ·)) = [] := by
  induction ls generalizing r with
  | nil => exact ⟨hr, fun _ => rfl⟩
  | cons l ls ih =>
    obtain ⟨hl, hls⟩ := List.forall_mem_cons.1 hls
    obtain ⟨hnext, hmet⟩ := ih hls hl.next
    have hline : r.run (.char '\n' :: l) = code.run l := by
      rw [← hr]
      rfl
    refine ⟨?_, fun i => ?_⟩
    · rw [List.flatMap_cons, run_append, hline]
      exact hnext
    · rw [List.flatMap_cons, met_append, met_cons_of_ne (by decide) (by decide), hr, hl.met, hline,
        hmet]
      rfl

/-! ## The form of declaration lines -/

/-- A text is another one behind a frame. -/
def Framed (t u : Text) : Prop :=
  ∃ k, t = k ++ u ∧ k.all isFrame = true

theorem Framed.trans (htu : Framed t u) (huv : Framed u v) : Framed t v := by
  obtain ⟨k, rfl, hk⟩ := htu
  obtain ⟨k', rfl, hk'⟩ := huv
  exact ⟨k ++ k', (List.append_assoc ..).symm, by rw [List.all_append, hk, hk']; rfl⟩

theorem framed_dropWhile {p : CodePoint → Bool} (hp : ∀ c, p c = true → isFrame c = true)
    (t : Text) :
    Framed t (t.dropWhile p) :=
  ⟨t.takeWhile p, List.takeWhile_append_dropWhile.symm,
    List.all_eq_true.2 fun c hc => hp c (List.all_eq_true.1 List.all_takeWhile c hc)⟩

theorem framed_dropIndent (t : Text) : Framed t (Declaration.dropIndent t) :=
  framed_dropWhile (fun _ => isFrame_of_isIndent) t

theorem framed_dropOne (hc : isFrame c = true) (t : Text) : Framed t (Declaration.dropOne c t) := by
  cases t with
  | nil => exact ⟨[], rfl, rfl⟩
  | cons d r =>
    rw [Declaration.dropOne]
    split
    · next hd =>
      subst hd
      exact ⟨[d], rfl, by rw [List.all_cons, hc]; rfl⟩
    · exact ⟨[], rfl, rfl⟩

theorem framed_keyword (hc : isIdentifierStart c = true) (r : Text) :
    Framed (c :: r) (r.dropWhile fun d => isWord d || d == .char '.') := by
  have hpart : ∀ d, (isWord d || d == .char '.') = true → isFrame d = true := by
    intro d hd
    rcases Bool.or_eq_true_iff.1 hd with hd | hd <;> simp [isFrame, hd]
  have hfirst : Framed (c :: r) r :=
    ⟨[c], rfl, by simp [isFrame, Template.isWord_of_isIdentifierStart hc]⟩
  exact hfirst.trans (framed_dropWhile hpart r)

/-- What ends a declaration line after its value. -/
theorem all_isFrame_of_atEnd (hfeed : .char '\n' ∉ t)
    (h : Declaration.atEnd (Declaration.dropIndent (Declaration.dropOne (.char ')')
      (Declaration.dropIndent t))) = true) : t.all isFrame = true := by
  have hparenthesis := framed_dropOne (c := .char ')') (by decide) (Declaration.dropIndent t)
  obtain ⟨k, hk, hframe⟩ :=
    ((framed_dropIndent t).trans hparenthesis).trans (framed_dropIndent _)
  rcases Bool.or_eq_true_iff.1 h with h | h
  · rw [hk, eq_of_beq h, List.append_nil]
    exact hframe
  · rw [hk, eq_of_beq h] at hfeed
    exact absurd (List.mem_append_right k (List.mem_singleton_self _)) hfeed

/-- **A declaration line is a quoted line.** -/
theorem isQuotedLine_of_isDeclaration (h : Declaration.isDeclaration line = true)
    (hfeed : .char '\n' ∉ line) : IsQuotedLine line := by
  unfold Declaration.isDeclaration at h
  split at h
  · cases h
  · next c r hline =>
    obtain ⟨hc, hvalue⟩ := Bool.and_eq_true_iff.1 h
    -- all that stands before the value is taken off from the front
    have hfront := ((((framed_dropIndent line).trans (hline ▸ framed_keyword hc r)).trans
      (framed_dropIndent _)).trans (framed_dropOne (c := .char '(') (by decide) _)).trans
        (framed_dropIndent _)
    obtain ⟨k, hk, hframe⟩ := hfront
    unfold Declaration.endsAfterValue at hvalue
    split at hvalue
    · cases hvalue
    · next quote value hquoted =>
      obtain ⟨hquote, hvalue⟩ := Bool.and_eq_true_iff.1 hvalue
      obtain ⟨q, rfl⟩ : ∃ q : Quote, quote = q.toChar := by
        rcases Bool.or_eq_true_iff.1 hquote with hquote | hquote
        · exact ⟨.single, eq_of_beq hquote⟩
        · exact ⟨.double, eq_of_beq hquote⟩
      have hsplit := List.takeWhile_append_dropWhile (p := Declaration.isValueChar) (l := value)
      split at hvalue
      · next d z hz =>
        obtain ⟨hd, hend⟩ := Bool.and_eq_true_iff.1 hvalue
        obtain rfl := eq_of_beq hd
        rw [hquoted, ← hsplit, hz] at hk
        refine ⟨k, q, _, z, hk, hframe, List.all_takeWhile, all_isFrame_of_atEnd ?_ hend⟩
        intro hmem
        exact hfeed (by rw [hk]; simp [hmem])
      · cases hvalue

/-! ## Lines that match -/

namespace Template

variable {p : Text}

/-- Where no dollar sign stands, nothing changes. -/
theorem Refilled.of_append (hp : .char '$' ∉ p) (h : Refilled (p ++ t) u) :
    ∃ v, u = p ++ v ∧ Refilled t v := by
  induction p generalizing u with
  | nil => exact ⟨u, rfl, h⟩
  | cons c r ih =>
    rw [List.mem_cons, not_or] at hp
    generalize hw : c :: r ++ t = w at h
    cases h with
    | nil => cases hw
    | char hc h =>
      obtain ⟨rfl, rfl⟩ := List.cons.inj hw
      obtain ⟨v, rfl, hv⟩ := ih hp.2 h
      exact ⟨v, rfl, hv⟩
    | placeholder => exact absurd (List.cons.inj hw).1.symm hp.1

theorem Refilled.eq_of_not_mem (ht : .char '$' ∉ t) (h : Refilled t u) : u = t := by
  rw [← List.append_nil t] at h
  obtain ⟨v, rfl, hv⟩ := h.of_append ht
  cases hv
  exact List.append_nil t

/-- What is put in place of placeholders in a value stays within its quotes. -/
theorem Refilled.exists_value (h : Refilled (v ++ q.toChar :: z) u)
    (hv : v.all Declaration.isValueChar = true) (hz : .char '$' ∉ z) :
    ∃ v', u = v' ++ q.toChar :: z ∧ v'.all Declaration.isValueChar = true := by
  generalize ht : v ++ q.toChar :: z = t at h
  induction h generalizing v with
  | nil => simp at ht
  | @char c t u hc h ih =>
    cases v with
    | nil =>
      obtain ⟨rfl, rfl⟩ := List.cons.inj ht
      exact ⟨[], by rw [h.eq_of_not_mem hz]; rfl, rfl⟩
    | cons d v =>
      obtain ⟨rfl, hrest⟩ := List.cons.inj ht
      obtain ⟨hd, hv⟩ := Bool.and_eq_true_iff.1 hv
      obtain ⟨v', rfl, hv'⟩ := ih hv hrest
      exact ⟨d :: v', rfl, by rw [List.all_cons, hd, hv']; rfl⟩
  | @placeholder p name value t u hp hvalue h ih =>
    cases v with
    | nil =>
      have hquote := (List.cons.inj ht).1
      cases q <;> cases hquote
    | cons d v =>
      have hrest : v ++ q.toChar :: z = p ++ t := (List.cons.inj ht).2
      -- the placeholder is over before the quote
      have hquote : q.toChar ∉ p := by
        intro hmem
        have := isWord_of_mem_placeholder hp _ hmem
        revert this
        cases q <;> decide
      obtain ⟨more, rfl⟩ : p <+: v := by
        rcases List.prefix_or_prefix_of_prefix ⟨t, hrest.symm⟩ (List.prefix_append v _) with
          hprefix | ⟨more, rfl⟩
        · exact hprefix
        · cases more with
          | nil => simp
          | cons e more =>
            rw [List.append_assoc, List.append_cancel_left_eq] at hrest
            exact absurd (by simp [(List.cons.inj hrest).1]) hquote
      rw [List.append_assoc] at hrest
      rw [List.all_cons, List.all_append, Bool.and_eq_true, Bool.and_eq_true] at hv
      obtain ⟨v', rfl, hv'⟩ := ih hv.2.2 (List.append_cancel_left hrest)
      exact ⟨value ++ v', by rw [List.append_assoc], by rw [List.all_append, hvalue, hv']; rfl⟩

end Template

theorem IsQuotedLine.refilled (h : IsQuotedLine t) (hw : Template.Refilled t w) :
    IsQuotedLine w := by
  obtain ⟨k, q, v, z, rfl, hk, hv, hz⟩ := h
  have hdollar : ∀ {x : Text}, x.all isFrame = true → .char '$' ∉ x :=
    not_mem_of_isFrame (by decide)
  have hfront : .char '$' ∉ k ++ [q.toChar] := by
    have hquote : .char '$' ≠ q.toChar := by cases q <;> decide
    simpa using ⟨hdollar hk, hquote⟩
  rw [List.append_cons] at hw
  obtain ⟨_, rfl, hvalue⟩ := hw.of_append hfront
  obtain ⟨v', rfl, hv'⟩ := hvalue.exists_value hv (hdollar hz)
  exact ⟨k, q, v', z, by simp, hk, hv', hz⟩

theorem trimLeft_append_cons (hc : isBlank c = false) (t u : Text) :
    trimLeft (t ++ c :: u) = trimLeft t ++ c :: u := by
  induction t with
  | nil => exact List.dropWhile_cons_of_neg (by simp [hc])
  | cons d t ih =>
    by_cases hd : isBlank d = true
    · rw [trimLeft, List.cons_append, List.dropWhile_cons_of_pos hd, trimLeft,
        List.dropWhile_cons_of_pos hd]
      exact ih
    · rw [trimLeft, List.cons_append, List.dropWhile_cons_of_neg hd, trimLeft,
        List.dropWhile_cons_of_neg hd]
      rfl

theorem IsQuotedLine.trim (h : IsQuotedLine line) : IsQuotedLine (trim line) := by
  obtain ⟨k, q, v, z, rfl, hk, hv, hz⟩ := h
  have hquote : isBlank q.toChar = false := by cases q <;> decide
  have hsplit : Text.trimLeft k ++ q.toChar :: (v ++ q.toChar :: z) =
      ((Text.trimLeft k ++ q.toChar :: v) ++ [q.toChar]) ++ z := by simp
  refine ⟨Text.trimLeft k, q, v, Text.trimRight z, ?_, ?_, hv, ?_⟩
  · rw [Text.trim, trimLeft_append_cons hquote, hsplit,
      trimRight_append List.getLast?_concat hquote]
    simp
  · exact List.all_eq_true.2 fun c hc =>
      List.all_eq_true.1 hk c ((List.dropWhile_sublist _).subset hc)
  · obtain ⟨b, hb, -⟩ := exists_trimRight_append z
    rw [hb, List.all_append, Bool.and_eq_true] at hz
    exact hz.1

/-- **What matches a declaration line is a quoted line.** -/
theorem Declaration.Matches.isQuotedLine (h : Matches head line) (hhead : isDeclaration head = true)
    (hfeed : .char '\n' ∉ head) : IsQuotedLine line := by
  obtain ⟨indent, w, trail, rfl, hindent, hrefilled, htrail⟩ := h
  obtain ⟨k, q, v, z, rfl, hk, hv, hz⟩ :=
    (isQuotedLine_of_isDeclaration hhead hfeed).trim.refilled hrefilled
  refine ⟨indent ++ k, q, v, z ++ trail, by simp, ?_, hv, ?_⟩
  · rw [List.all_append, all_isFrame_of_isIndent hindent, hk]
    rfl
  · rw [List.all_append, all_isFrame_of_isIndent htrail, hz]
    rfl

end Graft
