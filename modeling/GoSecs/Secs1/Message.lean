import GoSecs.Secs1.Block

open Secs2 Hsms

namespace Secs1

-- The blocks of a message that goes on: one header, ascending numbers from `n` on, no end.
def Numbered (h : MessageHeader) (n : Nat) (blocks : List Block) : Prop :=
  ∀ i b, blocks[i]? = some b →
    b.blockNumber.toNat = n + i ∧ b.eBit = false ∧ b.messageHeader = h

-- The end of the line with `cfg` is to take the block.
def Ours (cfg : Config) (b : Block) : Prop :=
  b.deviceID = cfg.deviceID ∧ b.rBit ≠ cfg.isEquip

instance (cfg : Config) (b : Block) : Decidable (Ours cfg b) :=
  inferInstanceAs (Decidable (_ ∧ _))

-- A whole message for the end of the line with `cfg`. A single block may have the number zero.
structure Message (cfg : Config) where
  header : MessageHeader
  init : List Block
  last : Block
  deviceID : header.deviceID = cfg.deviceID
  rBit : header.rBit ≠ cfg.isEquip
  numbered : Numbered header 1 init
  lastHeader : last.messageHeader = header
  eBit : last.eBit = true
  number : last.blockNumber.toNat = init.length + 1 ∨ init = [] ∧ last.blockNumber = 0

namespace Message

variable {cfg : Config}

def blocks (m : Message cfg) : List Block :=
  m.init ++ [m.last]

def frame (m : Message cfg) : Bytes :=
  (frameHeader m.header).bytes ++ m.blocks.flatMap (·.body)

end Message

section Numbered

variable {h : MessageHeader} {n : Nat} {b : Block} {bs cs : List Block}

theorem numbered_nil : Numbered h n [] := by
  simp [Numbered]

theorem numbered_cons :
    Numbered h n (b :: bs) ↔
      (b.blockNumber.toNat = n ∧ b.eBit = false ∧ b.messageHeader = h) ∧ Numbered h (n + 1) bs := by
  constructor
  case mp =>
    intro hn
    refine ⟨hn 0 b rfl, fun i c hi => ?_⟩
    have := hn (i + 1) c hi
    rwa [← Nat.add_assoc, Nat.add_right_comm] at this
  case mpr =>
    intro ⟨hb, hn⟩ i c hi
    cases i
    case zero => cases hi; exact hb
    case succ i =>
      have := hn i c hi
      rwa [Nat.add_right_comm, Nat.add_assoc] at this

theorem numbered_append :
    Numbered h n (bs ++ cs) ↔ Numbered h n bs ∧ Numbered h (n + bs.length) cs := by
  induction bs generalizing n
  case nil => simp [numbered_nil]
  case cons c bs hi =>
    rw [List.cons_append, numbered_cons, hi, numbered_cons, List.length_cons, Nat.add_assoc,
      Nat.add_comm 1]
    exact and_assoc.symm

theorem numbered_concat :
    Numbered h n (bs ++ [b]) ↔
      Numbered h n bs ∧ b.blockNumber.toNat = n + bs.length ∧ b.eBit = false ∧
        b.messageHeader = h := by
  simp [numbered_append, numbered_cons, numbered_nil]

theorem Numbered.header (hn : Numbered h n bs) (hb : b ∈ bs) : b.messageHeader = h := by
  have ⟨_, hi⟩ := List.getElem?_of_mem hb
  exact (hn _ _ hi).right.right

end Numbered

end Secs1
