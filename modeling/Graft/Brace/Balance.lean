import Graft.Brace.Basic
import Graft.Text.Place

/-!
# Balance

A text is balanced when every structural brace has its partner: reading from the left, no closing
brace comes without an open block, and none is left open at the end. `balance` decides it and, where
it fails, names the first closing brace that is unexpected or else the outermost block left open.
`closeOf` finds the partner of one opening brace by counting depth from it.
-/

namespace Graft

/-- Why the braces of a text do not pair up. -/
inductive Imbalance where
  /-- There is no opening brace at the place asked about. -/
  | noOpening (place : Place)
  /-- The block opened at this place is never closed. -/
  | neverClosed (place : Place)
  /-- The closing brace at this place closes no block. -/
  | unexpected (place : Place)
  /-- This many blocks are left open, the outermost of them opened at this place. -/
  | unclosed (count : Nat) (outermost : Place)
  deriving DecidableEq, Repr

namespace Imbalance

/-- The place that the imbalance is reported at. -/
def place : Imbalance → Place
  | noOpening p => p
  | neverClosed p => p
  | unexpected p => p
  | unclosed _ p => p

/-- The imbalance in words. -/
def message : Imbalance → Text
  | noOpening p => "no opening brace at ".toText ++ p.describe
  | neverClosed p => "block opened at ".toText ++ p.describe ++ " is never closed".toText
  | unexpected p => "unexpected '\x7d' at ".toText ++ p.describe
  | unclosed n p =>
    Text.ofNat n ++ " unclosed block(s); outermost opened at ".toText ++ p.describe

end Imbalance

/-- What reading braces in order comes to, given the indices of the blocks open so far, innermost
first: the index of an unexpected closing brace, or the blocks left open at the end. -/
def openBlocks : List Nat → List BraceAt → Except Nat (List Nat)
  | opened, [] => .ok opened
  | opened, ⟨i, .opening⟩ :: bs => openBlocks (i :: opened) bs
  | [], ⟨i, .closing⟩ :: _ => .error i
  | _ :: opened, ⟨_, .closing⟩ :: bs => openBlocks opened bs

/-- Refuses a text whose structural braces do not pair up. -/
def balance (t : Text) : Except Imbalance Unit :=
  match openBlocks [] (braces t) with
  | .error i => .error (.unexpected (Place.of t i))
  | .ok opened =>
    match opened.getLast? with
    | none => .ok ()
    | some outermost => .error (.unclosed opened.length (Place.of t outermost))

/-- Whether the structural braces of a text pair up. -/
def isBalanced (t : Text) : Bool :=
  (balance t).isOk

/-- The index of the brace that brings the depth from `depth` back to zero. -/
def closeAfter : Nat → List BraceAt → Option Nat
  | _, [] => none
  | depth, ⟨_, .opening⟩ :: bs => closeAfter (depth + 1) bs
  | depth, ⟨i, .closing⟩ :: bs => if depth = 1 then some i else closeAfter (depth - 1) bs

/-- The index of the closing brace that is the partner of the opening brace at `i`. An index before
the text or past its end is reported at the nearest place that the text has. -/
def closeOf (t : Text) (i : Int) : Except Imbalance Nat :=
  if 0 ≤ i && t[i.toNat]? == some (.char '{') then
    match closeAfter 0 (bracesFrom t i.toNat) with
    | some close => .ok close
    | none => .error (.neverClosed (Place.of t i.toNat))
  else .error (.noOpening (Place.of t (min i.toNat t.length)))

end Graft
