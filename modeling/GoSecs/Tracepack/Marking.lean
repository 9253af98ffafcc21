import GoSecs.Lib.Splice
import GoSecs.Tracepack.Tlv

-- The rules that the redaction entries of a pack and of one record keep.

open Run

namespace Tracepack.Marking

open Splice (Span)

def framePrefixLen : Nat := 14
def sivLen : Nat := 16
def maxInt64 : Nat := 2 ^ 63 - 1

inductive Kind
  | other
  | data
  | annotation
deriving DecidableEq

structure Entry where
  seq : Nat
  ranges : List Span
  malformed : Bool
  hasSIV : Bool
  sivLen : Nat
deriving DecidableEq

structure Record where
  seq : Nat
  kind : Kind
  redacted : Bool
  payload : Bytes

structure Defect where
  entry : Option Nat
  err   : Err
deriving DecidableEq

-- The ranges from number `i` on, behind the range `prev`. The sum of a checked range does not wrap.
def checkRangesFrom : Nat → Option Span → List Span → Option Err
  | _, _,    [] => none
  | i, prev, r :: rs =>
    if maxInt64 < r.offset ∨ maxInt64 < r.length then
      some (.wrap "range %d: %w" [.nat i] (.sentinel .rangesMalformed))
    else if r.length = 0 then
      some (.wrap "range %d: %w" [.nat i] (.sentinel .rangeLength))
    else if prev.any fun p : Span => r.offset ≤ p.stop then
      some (.wrap "range %d at %d after one ending at %d: %w"
        [.nat i, .nat r.offset, .nat (prev.elim 0 Span.stop)] (.sentinel .rangeOrder))
    else
      checkRangesFrom (i + 1) (some r) rs

def checkRanges (e : Entry) : Option Err :=
  if e.malformed then
    some (.sentinel .rangesMalformed)
  else if e.ranges = [] then
    some (.sentinel .rangesEmpty)
  else
    checkRangesFrom 0 none e.ranges

def checkEntry (e : Entry) : List Err :=
  (checkRanges e).toList ++
  if e.hasSIV ∧ e.sivLen ≠ Marking.sivLen then
    [.wrap "siv of %d bytes: %w" [.nat e.sivLen] (.sentinel .sivLength)]
  else
    []

-- Entries are ordered by seq and then by their first offsets.
def checkOrder (prev cur : Entry) : Option Err :=
  let after : Bool :=
    match prev.ranges, cur.ranges with
    | p :: _, c :: _ => cur.seq < prev.seq ∨ prev.seq = cur.seq ∧ c.offset < p.offset
    | _,      _ => cur.seq < prev.seq
  if after then
    some (.wrap "an entry for seq %d follows one for seq %d: %w" [.nat cur.seq, .nat prev.seq]
      (.sentinel .entryOrder))
  else
    none

-- The ranges of the annotation's text and raw values, none for a payload that does not decode.
def annotationValues (payload : Bytes) : Option (List (Nat × Nat)) :=
  match Tlv.decode payload with
  | .ok entries =>
    some ((entries.filter fun e => e.tag = 0x0005 ∨ e.tag = 0x0006).map fun e =>
      (e.offset + Tlv.headerLen, e.offset + Tlv.headerLen + e.value.length))
  | .error _ => none

def checkBoundsFrom (rec : Record) (values : Option (List (Nat × Nat))) :
    Nat → List Span → Option Err
  | _, [] => none
  | i, r :: rs =>
    let n := rec.payload.length
    if n < r.offset ∨ n - r.offset < r.length then
      some (.wrap "range %d (%d, %d) of a %d-byte payload: %w"
        [.nat i, .nat r.offset, .nat r.length, .nat n] (.sentinel .rangeOutside))
    else if rec.kind ≠ Kind.annotation then
      if r.offset < framePrefixLen then
        some (.wrap "range %d at offset %d: %w" [.nat i, .nat r.offset] (.sentinel .rangePrefix))
      else
        checkBoundsFrom rec values (i + 1) rs
    else if values.any fun vs => vs.any fun (lo, hi) => lo ≤ r.offset ∧ r.stop ≤ hi then
      checkBoundsFrom rec values (i + 1) rs
    else
      some (.wrap "range %d (%d, %d): %w" [.nat i, .nat r.offset, .nat r.length]
        (.sentinel .rangeValue))

def checkBounds (rec : Record) (e : Entry) (values : Option (List (Nat × Nat))) : Option Err :=
  checkBoundsFrom rec values 0 e.ranges

-- A range of the encrypted entry with number `entry`.
structure Piece where
  off   : Nat
  stop  : Nat
  entry : Nat
deriving DecidableEq

def piecesOf (entries : List Entry) : List Piece :=
  entries.zipIdx.flatMap fun (e, i) =>
    if e.hasSIV then
      e.ranges.map fun r =>
        let stop := r.stop % 2 ^ 64
        ⟨r.offset, if stop < r.offset then 2 ^ 64 - 1 else stop, i⟩
    else
      []

def Piece.le (a b : Piece) : Prop :=
  a.off < b.off ∨ a.off = b.off ∧ a.entry ≤ b.entry

instance : DecidableRel Piece.le :=
  fun _ _ => inferInstanceAs (Decidable (_ ∨ _))

-- The two pieces of different entries that reach furthest so far. The first round has none.
def overlapFrom : Piece → Piece → List Piece → Option Nat
  | _,     _,      [] => none
  | first, second, s :: ss =>
    let other := if first.entry = s.entry then second else first
    if s.off < other.stop then
      some (max s.entry other.entry)
    else if first.stop < s.stop ∧ s.entry = first.entry then
      overlapFrom s second ss
    else if first.stop < s.stop then
      overlapFrom s first ss
    else if s.entry ≠ first.entry ∧ second.stop < s.stop then
      overlapFrom first s ss
    else
      overlapFrom first second ss

def encryptedOverlap (entries : List Entry) : Option Nat :=
  match (piecesOf entries).insertionSort Piece.le with
  | [] => none
  | s :: ss => overlapFrom s ⟨0, 0, 0⟩ ss

def checkRecordEntry (rec : Record) (values : Option (List (Nat × Nat))) (encrypted : Bool)
    (i : Nat) (e : Entry) : List Defect :=
  let maskable := rec.kind = .data ∨ rec.kind = Kind.annotation
  let seq :=
    if e.seq ≠ rec.seq then
      [Defect.mk (some i) (.wrap "entry for seq %d, record %d: %w" [.nat e.seq, .nat rec.seq]
        (.sentinel .seq))]
    else
      []
  let bounds := if maskable then (checkBounds rec e values).toList.map (Defect.mk (some i)) else []
  let siv :=
    if maskable ∧ encrypted ∧ rec.kind = .data ∧ ¬e.hasSIV then
      [Defect.mk (some i) (.wrap "seq %d: %w" [.nat rec.seq] (.sentinel .sivMissing))]
    else if maskable ∧ encrypted ∧ rec.kind = Kind.annotation ∧ e.hasSIV then
      [Defect.mk (some i) (.wrap "seq %d: %w" [.nat rec.seq] (.sentinel Sentinel.sivAnnotation))]
    else
      []
  seq ++ bounds ++ siv

def checkRecord (rec : Record) (entries : List Entry) (encrypted : Bool) : List Defect :=
  let maskable := rec.kind = .data ∨ rec.kind = Kind.annotation
  let bit :=
    if rec.redacted ≠ decide (entries ≠ []) then
      [Defect.mk none (.wrap "seq %d, redacted %t, %d entries: %w"
        [.nat rec.seq, .bool rec.redacted, .nat entries.length] (.sentinel .redactedBit))]
    else
      []
  let kind :=
    if ¬maskable ∧ (rec.redacted ∨ entries ≠ []) then
      [Defect.mk none (.wrap "seq %d: %w" [.nat rec.seq] (.sentinel .kindNotMaskable))]
    else
      []
  let values := if rec.kind = Kind.annotation then annotationValues rec.payload else some []
  let each := entries.zipIdx.flatMap fun (e, i) => checkRecordEntry rec values encrypted i e
  let overlap := (encryptedOverlap entries).toList.map fun i =>
    Defect.mk (some i) (.wrap "seq %d: %w" [.nat rec.seq] (.sentinel .encryptedOverlap))
  bit ++ kind ++ each ++ overlap

end Tracepack.Marking
