import Graft.Proofs.Brace.InCode
import Graft.Proofs.Edit.Anchors
import Mathlib.Order.Bounds.Defs

/-!
# Which header is chosen, and how it is read

The headers of a name are looked for in the raw text, and only their braces are held against the
scanner. No header is missed on the way, so that the choice falls on the least index there is
(`blockBrace?_isLeast`). But nothing asks how the name itself is read. A name and the brace behind
it are read alike if they are on one line, and also if the name is in a comment or a string that
goes on over lines. A comment or a string that ends with its line, though, may hold the name of a
brace further down.

> `blockBrace?_isLeast`: the brace that is chosen has the least index among the headers at the top
> level, or among all headers if none is there; no brace is chosen exactly if there is no header.
> `blockBrace?_reading`: the name before the brace that is chosen is read in code, unless a comment
> or a string is open behind it that ends with its line.
-/

namespace Graft

open Text Insertion

variable {name t p gap p' gap' : Text} {b i k : Nat}

/-! ## The choice -/

theorem isChoice_iff_isLeast : IsChoice name t i ↔
    IsLeast {j | IsAnchor name t j ∧ depthAt t j = 0} i ∨
      ((∀ j, IsAnchor name t j → depthAt t j ≠ 0) ∧ IsLeast {j | IsAnchor name t j} i) := by
  constructor
  · rintro ⟨hanchor, ⟨hzero, hfirst⟩ | ⟨hnone, hfirst⟩⟩
    · refine .inl ⟨⟨hanchor, hzero⟩, fun j hj => Nat.le_of_not_lt fun hlt => ?_⟩
      exact hfirst j hlt hj.1 hj.2
    · exact .inr ⟨hnone, hanchor, fun j hj => Nat.le_of_not_lt fun hlt => hfirst j hlt hj⟩
  · rintro (⟨⟨hanchor, hzero⟩, hleast⟩ | ⟨hnone, hanchor, hleast⟩)
    · refine ⟨hanchor, .inl ⟨hzero, fun j hlt hj hzero' => ?_⟩⟩
      exact Nat.not_le.2 hlt (hleast ⟨hj, hzero'⟩)
    · exact ⟨hanchor, .inr ⟨hnone, fun j hlt hj => Nat.not_le.2 hlt (hleast hj)⟩⟩

/-- **Which header is chosen**: the first one at the top level if there is one, and otherwise the
first of all; none is chosen only if there is none. -/
theorem blockBrace?_isLeast (hname : .char '{' ∉ name) :
    (∀ i, blockBrace? t name = some i ↔
      IsLeast {j | IsAnchor name t j ∧ depthAt t j = 0} i ∨
        ((∀ j, IsAnchor name t j → depthAt t j ≠ 0) ∧ IsLeast {j | IsAnchor name t j} i)) ∧
    (blockBrace? t name = none ↔ ∀ j, ¬ IsAnchor name t j) :=
  ⟨fun _ => (blockBrace?_eq_some_iff hname).trans isChoice_iff_isLeast,
    blockBrace?_eq_none_iff hname⟩

/-- A text with a name in a comment, in a block, as the end of a longer one, and at the top level.
-/
def headersText : Text :=
  "// foo \x7b\nbar \x7b\n  foo \x7b\n  \x7d\n\x7d\nx.foo \x7b\n\x7d\nfoo\n\x7b\n\x7d\n".toText

/-- The last one is chosen, although the one in the block comes before it. -/
theorem blockBrace?_isLeast_headersText : .char '{' ∉ "foo".toText ∧
    blockBrace? headersText "foo".toText = some 43 ∧
    IsLeast {j | IsAnchor "foo".toText headersText j ∧ depthAt headersText j = 0} 43 := by
  have hname : .char '{' ∉ "foo".toText := by decide
  have hchosen : blockBrace? headersText "foo".toText = some 43 := by
    unfold headersText
    repeat rw [String.toText_ofList]
    decide
  have hdepth : depthAt headersText 43 = 0 := by
    unfold headersText
    rw [String.toText_ofList]
    decide
  refine ⟨hname, hchosen, ?_⟩
  rcases ((blockBrace?_isLeast hname).1 43).1 hchosen with hleast | ⟨hnone, hanchor, -⟩
  · exact hleast
  · exact absurd hdepth (hnone 43 hanchor)

/-! ## The reading of the name -/

/-- Before an index of a text there are blanks, and before them a name. -/
structure NamedBefore (name t : Text) (b : Nat) (p gap : Text) : Prop where
  take_eq : t.take b = p ++ (name ++ gap)
  blank : allBlank gap = true

theorem NamedBefore.unique (hne : name ≠ []) (hname : ∀ c ∈ name, isBlank c = false)
    (h : NamedBefore name t b p gap) (h' : NamedBefore name t b p' gap') : p' = p ∧ gap' = gap := by
  have hlast : ∀ q : Text, ∃ c, (q ++ name).getLast? = some c ∧ isBlank c = false := by
    intro q
    refine ⟨name.getLast hne, ?_, hname _ (List.getLast_mem hne)⟩
    rw [List.getLast?_append, List.getLast?_eq_some_getLast hne]
    rfl
  obtain ⟨c, hc, hblank⟩ := hlast p
  obtain ⟨c', hc', hblank'⟩ := hlast p'
  have heq : (p' ++ name) ++ gap' = (p ++ name) ++ gap := by
    rw [List.append_assoc, List.append_assoc, ← h.take_eq, h'.take_eq]
  have hfront := eq_of_append_blanks hc' hblank' hc hblank h'.blank h.blank heq
  rw [hfront] at heq
  exact ⟨List.append_cancel_right hfront, List.append_cancel_left heq⟩

theorem exists_namedBefore (h : Headed name none t b) : ∃ p gap, NamedBefore name t b p gap := by
  obtain ⟨p, gap, r, rfl, hgap, -, rfl⟩ := h
  refine ⟨p, gap, ?_, hgap⟩
  rw [← List.append_assoc name, ← List.append_assoc p, List.take_left' (by simp; omega)]

theorem isPlain_of_isJoint {c : CodePoint} (hc : isJoint c = true) : Reading.isPlain c = true := by
  rcases Bool.or_eq_true_iff.1 hc with hc | hc
  · exact Reading.isPlain_of_isWord hc
  · rw [eq_of_beq hc]
    decide

theorem isBlank_of_isJoint {c : CodePoint} (hc : isJoint c = true) : isBlank c = false := by
  refine Bool.eq_false_iff.2 fun hblank => ?_
  rw [isJoint_of_isBlank hblank] at hc
  cases hc

/-- **How the name before a structural brace is read**: as a whole in code, unless a comment or a
string is open behind it that ends with its line. -/
theorem NamedBefore.reading (h : NamedBefore name t b p gap) (hne : name ≠ [])
    (hname : ∀ c ∈ name, isJoint c = true) (hb : inCodeAt t b = true) :
    (∀ k < name.length, inCodeAt t (p.length + k) = (Reading.code.run (p ++ name)).inCode) ∧
      ((Reading.code.run (p ++ name)).inCode = true ∨
        ((Reading.code.run (p ++ name)).IsLeftOpen ∧ .char '\n' ∈ gap)) := by
  have hplain : name.all Reading.isPlain = true :=
    List.all_eq_true.2 fun c hc => isPlain_of_isJoint (hname c hc)
  have hrun : Reading.code.run (p ++ name) = (Reading.code.run p).settle := by
    rw [Reading.run_append, Reading.run_plain hne hplain]
  refine ⟨fun k hk => ?_, ?_⟩
  · have hlength := congrArg List.length h.take_eq
    rw [List.length_take, List.length_append, List.length_append] at hlength
    have htake : t.take (p.length + k) = p ++ name.take k := by
      rw [← Nat.min_eq_left (show p.length + k ≤ b by omega), ← List.take_take, h.take_eq,
        List.take_length_add_append, List.take_append_of_le_length (Nat.le_of_lt hk)]
    have hpart : (name.take k).all Reading.isPlain = true :=
      List.all_eq_true.2 fun c hc => List.all_eq_true.1 hplain c (List.take_subset k name hc)
    rw [inCodeAt, htake, Reading.run_append, Reading.inCode_run_plain hpart, hrun,
      Reading.inCode_settle]
  · rw [inCodeAt, h.take_eq, ← List.append_assoc, Reading.run_append, hrun,
      ← Reading.settle_settle] at hb
    have hcode := Reading.inCode_of_run_blanks h.blank hb
    rwa [Reading.settle_settle, ← hrun] at hcode

/-- **The name before the brace that is chosen** is read in code, unless a comment or a string is
open behind it that ends with its line. Then no part of it is read in code, and the brace is on a
line further down. -/
theorem blockBrace?_reading (hne : name ≠ []) (hname : ∀ c ∈ name, isJoint c = true)
    (h : blockBrace? t name = some b) :
    ⟨b, .opening⟩ ∈ braces t ∧ ∃ p gap, NamedBefore name t b p gap ∧
      ((∀ k < name.length, inCodeAt t (p.length + k) = true) ↔
        ¬ (Reading.code.run (p ++ name)).IsLeftOpen) ∧
      ((Reading.code.run (p ++ name)).IsLeftOpen → .char '\n' ∈ gap ∧
        ∀ k < name.length, inCodeAt t (p.length + k) = false) := by
  have hbrace : .char '{' ∉ name := fun hmem => absurd (hname _ hmem) (by decide)
  have hanchor := (isChoice_of_blockBrace? hbrace h).1
  obtain ⟨p, gap, hnamed⟩ := exists_namedBefore hanchor.headed
  obtain ⟨hread, hcases⟩ := hnamed.reading hne hname (mem_braces_iff.1 hanchor.structural).2
  have hopen : (Reading.code.run (p ++ name)).IsLeftOpen →
      (Reading.code.run (p ++ name)).inCode = false := by
    rintro (hr | ⟨q, hr⟩) <;> rw [hr] <;> rfl
  refine ⟨hanchor.structural, p, gap, hnamed, ⟨fun hcode hleft => ?_, fun hnot k hk => ?_⟩,
    fun hleft => ⟨?_, fun k hk => ?_⟩⟩
  · have hfirst := hcode 0 (List.length_pos_iff.2 hne)
    rw [hread 0 (List.length_pos_iff.2 hne), hopen hleft] at hfirst
    cases hfirst
  · rw [hread k hk]
    exact hcases.resolve_right fun hleft => hnot hleft.1
  · refine (hcases.resolve_left fun hcode => ?_).2
    rw [hopen hleft] at hcode
    cases hcode
  · rw [hread k hk, hopen hleft]

/-- A text with a name in a comment, and a brace on the line below. -/
def commentedHeader : Text := "// dependencies\n\x7b\n\x7d\n".toText

/-- The name in the text. -/
def commentedName : Text := "dependencies".toText

theorem blockBrace?_commentedHeader : blockBrace? commentedHeader commentedName = some 16 := by
  unfold commentedHeader commentedName
  repeat rw [String.toText_ofList]
  decide

theorem isJoint_commentedName : commentedName ≠ [] ∧ ∀ c ∈ commentedName, isJoint c = true := by
  unfold commentedName
  rw [String.toText_ofList]
  decide

/-- It stands there once. -/
theorem eq_of_namedBefore_commentedHeader (h : NamedBefore commentedName commentedHeader 16 p gap) :
    p = "// ".toText := by
  obtain ⟨hne, hjoint⟩ := isJoint_commentedName
  have hnamed : NamedBefore commentedName commentedHeader 16 "// ".toText [.char '\n'] := by
    refine ⟨?_, by decide⟩
    unfold commentedHeader commentedName
    repeat rw [String.toText_ofList]
    decide
  exact (hnamed.unique hne (fun c hc => isBlank_of_isJoint (hjoint c hc)) h).1

theorem inCodeAt_commentedHeader : inCodeAt commentedHeader 3 = false := by
  unfold commentedHeader
  rw [String.toText_ofList]
  decide

/-- The brace is chosen, while the name is in a comment that ends with its line. -/
theorem blockBrace?_reading_commentedHeader : commentedName ≠ [] ∧
    (∀ c ∈ commentedName, isJoint c = true) ∧
    blockBrace? commentedHeader commentedName = some 16 ∧
    ⟨16, .opening⟩ ∈ braces commentedHeader ∧
    (Reading.code.run ("// ".toText ++ commentedName)).IsLeftOpen := by
  obtain ⟨hne, hjoint⟩ := isJoint_commentedName
  refine ⟨hne, hjoint, blockBrace?_commentedHeader, ?_⟩
  obtain ⟨hstructural, p, gap, hnamed, hread, -⟩ :=
    blockBrace?_reading hne hjoint blockBrace?_commentedHeader
  obtain rfl := eq_of_namedBefore_commentedHeader hnamed
  refine ⟨hstructural, Decidable.byContradiction fun hnot => ?_⟩
  have hcode := hread.2 hnot 0 (List.length_pos_iff.2 hne)
  rw [show "// ".toText.length + 0 = 3 by decide, inCodeAt_commentedHeader] at hcode
  cases hcode

/-- **A header may be named in a comment**: what is chosen here has no name before it that is read
in code. -/
theorem anchor_named_in_comment : blockBrace? commentedHeader commentedName = some 16 ∧
    ∀ p gap, NamedBefore commentedName commentedHeader 16 p gap →
      ¬ ∀ k < commentedName.length, inCodeAt commentedHeader (p.length + k) = true := by
  refine ⟨blockBrace?_commentedHeader, fun p gap hnamed hcode => ?_⟩
  obtain rfl := eq_of_namedBefore_commentedHeader hnamed
  have hfirst := hcode 0 (List.length_pos_iff.2 isJoint_commentedName.1)
  rw [show "// ".toText.length + 0 = 3 by decide, inCodeAt_commentedHeader] at hfirst
  cases hfirst

end Graft
