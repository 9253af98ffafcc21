import GoSecs.Secs1.Assembler
import GoSecs.Secs1.Message

open Secs2

namespace Secs1

-- A block on its first arrival, and what arrives before the first arrival of the next one.
structure Copies where
  first : Arrival
  rest  : List Arrival

namespace Copies

def arrivals (c : Copies) : List Arrival :=
  c.first :: c.rest

-- Only repetitions and blocks for others follow.
def Repeated (cfg : Config) (c : Copies) : Prop :=
  ∀ x ∈ c.rest, x.block = c.first.block ∨ ¬Ours cfg x.block

end Copies

-- All that arrives before the first of the blocks in `copies`, and from then on.
def received (noise : List Arrival) (copies : List Copies) : List Arrival :=
  noise ++ copies.flatMap Copies.arrivals

-- What an end of the line receives while its peer sends messages and repeats blocks, and while
-- there are blocks for others.
structure Stream (cfg : Config) (t4 : Int) where
  messages : List (Message cfg)
  noise : List Arrival
  copies : List Copies
  sent : copies.map (·.first.block) = messages.flatMap Message.blocks
  distinct : (messages.flatMap Message.blocks).IsChain fun b c => b.header ≠ c.header
  foreign : ∀ x ∈ noise, ¬Ours cfg x.block
  repeated : ∀ c ∈ copies, c.Repeated cfg
  ordered : (received noise copies).IsChain fun x y => x.now ≤ y.now
  timer : ∀ x ∈ received noise copies, x.t4 = t4

namespace Stream

variable {cfg : Config} {t4 : Int}

def arrivals (s : Stream cfg t4) : List Arrival :=
  received s.noise s.copies

-- No gap between two blocks of a message exceeds T4, where a repeated block counts as one.
def Steady (s : Stream cfg t4) : Prop :=
  (s.arrivals.filter fun x => decide (Ours cfg x.block)).IsChain fun x y =>
    x.block.eBit = false → y.now - x.now ≤ t4

-- Every block but the first of a message comes at most T4 after the block before it came first.
def Prompt (s : Stream cfg t4) : Prop :=
  s.copies.IsChain fun c d => c.first.block.eBit = false → d.first.now - c.first.now ≤ t4

end Stream

end Secs1
