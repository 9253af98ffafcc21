import GoSecs.Secs1.Theorems.Assembler

open Secs2 Hsms List

namespace Secs1

namespace Assembler

variable {cfg : Config} {a : Assembler} {xs : List Arrival} {cs : List Copies} {t4 : Int}
variable {ms : List (Message cfg)} {m : Message cfg}

theorem feed_once (hw : a.Whole) (hm : xs.map (·.block) = m.blocks)
    (ht : xs.IsChain fun x y => y.now - x.now ≤ y.t4)
    (hd : ∀ x ∈ xs.head?, a.haveLast → x.block.header ≠ a.lastHeader) :
    frames (a.feed cfg xs).2 = [m.frame] := by
  have hxs : (xs.map fun x => Copies.mk x []).flatMap Copies.arrivals = xs := by
    simp [flatMap_map, Copies.arrivals]
  have hm : (xs.map fun x => Copies.mk x []).map (·.first.block) = m.blocks := by
    rw [map_map]
    exact hm
  have := feed_message hw hm (by simp [Copies.Repeated])
    (isChain_map_of_isChain _ (fun x y h => ⟨by simp, h⟩) ht) (by simpa using hd)
  rw [hxs] at this
  exact this.right.left

-- Whatever arrives: the partial message is the beginning of one that can be assembled, no block is
-- complained about twice, and the next whole message gets through unless its first block looks like
-- a repetition.
theorem resynchronises (hr : (assembler cfg).Reachable a) :
    (a.isOpen →
      a.blocks ≠ [] ∧ Numbered a.header 1 a.blocks ∧ a.expected.toNat = a.blocks.length + 1) ∧
    (∀ x, (a.accept cfg x).err = none ∧ (violations (a.accept cfg x).effects).length ≤ 1) ∧
    ∀ (m : Message cfg) (xs : List Arrival), xs.map (·.block) = m.blocks →
      (xs.IsChain fun x y => y.now - x.now ≤ y.t4) →
      (∀ x ∈ xs.head?, a.haveLast → x.block.header ≠ a.lastHeader) →
      frames (a.feed cfg xs).2 = [m.frame] := by
  have hw := whole_of_reachable hr
  refine ⟨fun ho => ⟨hw.nonempty ho, hw.numbered ho, hw.expected ho⟩, fun x => ?_, ?_⟩
  · exact (accept_whole hw).right
  · intro m xs hm ht hd
    exact feed_once hw hm ht hd

section Example

def equipment : Config where
  isEquip := true
  deviceID := 1
  deviceID_le := by decide

def sample : MessageHeader where
  deviceID := 1
  rBit := false
  stream := 1
  function := 3
  waitBit := true
  systemBytes := { s0 := 0, s1 := 0, s2 := 0, s3 := 7 }

def sampleBlock (number : UInt16) (last : Bool) (body : Bytes) : Block where
  header := buildHeader sample number last
  body   := body

def foreignBlock : Block where
  header := buildHeader { sample with deviceID := 9 } 2 false
  body   := []

def sampleMessage : Message equipment where
  header := sample
  init := [sampleBlock 1 false [1, 2]]
  last := sampleBlock 2 true [3]
  deviceID := rfl
  rBit := by decide
  numbered := numbered_cons.mpr ⟨by decide, numbered_nil⟩
  lastHeader := by decide
  eBit := by decide
  number := by decide

def seconds (n : Int) : Int :=
  n * 1000000000

def at45 (b : Block) (now : Int) : Arrival :=
  { block := b, now := seconds now, t4 := seconds 45 }

end Example

-- A block that does not belong to any message leaves the assembler ready for the next message.
theorem resynchronises_after_garbage :
    frames
      ((newAssembler.accept equipment (at45 (sampleBlock 5 false []) 0)).state.feed equipment
        [at45 (sampleBlock 1 false [1, 2]) 50, at45 (sampleBlock 2 true [3]) 90]).2 =
      [sampleMessage.frame] := by
  have hr : (assembler equipment).Reachable
      (newAssembler.accept equipment (at45 (sampleBlock 5 false []) 0)).state :=
    .step (m := assembler equipment) (a := at45 (sampleBlock 5 false []) 0) (.init rfl) trivial
  exact (resynchronises hr).right.right sampleMessage _ rfl (by decide) (by decide)

theorem chain_within {R : Copies → Copies → Prop} {bs : List Block} {b : Block}
    (hm : cs.map (·.first.block) = bs ++ [b]) (hb : ∀ b ∈ bs, b.eBit = false)
    (h : cs.IsChain fun c d => c.first.block.eBit = false → R c d) : cs.IsChain R := by
  induction cs generalizing bs
  case nil => exact .nil
  case cons c cs hi =>
    match cs, bs with
    | [], _ => exact .singleton _
    | d :: cs, [] => simp at hm
    | d :: cs, e :: bs =>
      have ⟨hc, hm⟩ : c.first.block = e ∧ (d :: cs).map (·.first.block) = bs ++ [b] := by
        simpa using hm
      have ⟨hcd, h⟩ := isChain_cons_cons.mp h
      refine .cons_cons (hcd (hb _ (by simp [hc]))) (hi hm (fun b' hb' => hb b' (by simp [hb'])) h)

-- Induction over the messages: each one is delivered, and leaves only its last header behind.
theorem feed_messages (ho : a.isOpen = false)
    (hs : cs.map (·.first.block) = ms.flatMap Message.blocks)
    (hdist : (ms.flatMap Message.blocks).IsChain fun b c => b.header ≠ c.header)
    (hrep : ∀ c ∈ cs, c.Repeated cfg)
    (ht : cs.IsChain fun c d => c.first.block.eBit = false → Timely cfg c d)
    (hd : ∀ c ∈ cs.head?, a.haveLast → c.first.block.header ≠ a.lastHeader) :
    Yields (a.feed cfg (cs.flatMap Copies.arrivals)).2 (ms.map Message.frame) := by
  induction ms generalizing a cs
  case nil =>
    have : cs = [] := by simpa using hs
    rw [this]
    exact ⟨rfl, forall_mem_nil _⟩
  case cons m ms hi =>
    rw [flatMap_cons] at hs hdist
    obtain ⟨cs₁, cs₂, hcs, hs₁, hs₂⟩ := map_eq_append_iff.mp hs
    obtain ⟨_, hdist₂, hnext⟩ := isChain_append.mp hdist
    rw [hcs] at hrep ht hd ⊢
    obtain ⟨ht₁, ht₂, _⟩ := isChain_append.mp ht
    have hne : cs₁ ≠ [] := by
      intro hn
      rw [hn] at hs₁
      simp [Message.blocks] at hs₁
    have ht₁ := chain_within hs₁ (fun b hb => by
      obtain ⟨_, h⟩ := getElem?_of_mem hb
      exact (m.numbered _ _ h).right.left) ht₁
    obtain ⟨hst, _, hy⟩ := feed_message (m := m) (whole_of_not_open ho) hs₁
      (fun c hc => hrep c (by simp [hc])) ht₁
      (fun c hc => hd c (by rw [head?_append_of_ne_nil _ hne]; exact hc))
    have hy₂ := hi (a := closed m.last) rfl hs₂ hdist₂ (fun c hc => hrep c (by simp [hc])) ht₂ ?_
    · rw [flatMap_append, feed_append, hst]
      exact (hy ho).append hy₂
    · intro c hc _
      refine (hnext m.last (by simp [Message.blocks]) c.first.block ?_).symm
      rw [← hs₂, head?_map]
      exact Option.mem_map_of_mem _ hc

theorem chain_timely (ho : (cs.flatMap Copies.arrivals).Pairwise fun x y => x.now ≤ y.now)
    (htm : ∀ x ∈ cs.flatMap Copies.arrivals, x.t4 = t4)
    (hp : cs.IsChain fun c d => c.first.block.eBit = false → d.first.now - c.first.now ≤ t4) :
    cs.IsChain fun c d => c.first.block.eBit = false → Timely cfg c d := by
  induction cs
  case nil => exact .nil
  case cons c cs hi =>
    match cs with
    | [] => exact .singleton _
    | d :: cs =>
      have ⟨hcd, hp⟩ := isChain_cons_cons.mp hp
      rw [flatMap_cons] at ho htm
      have ⟨_, ho, hle⟩ := pairwise_append.mp ho
      refine .cons_cons (fun he => ⟨fun x hx _ => ?_, ?_⟩)
        (hi ho (fun x hx => htm x (mem_append_right _ hx)) hp)
      · have hx' : x ∈ c.arrivals := mem_cons_of_mem _ hx
        have := hle x hx' d.first (by simp [Copies.arrivals])
        have := hcd he
        rw [htm x (mem_append_left _ hx')]
        omega
      · rw [htm d.first (by simp [Copies.arrivals])]
        exact hcd he

-- Whatever is repeated and whoever else is addressed, the messages arrive once each and in order.
theorem exactly_once (s : Stream cfg t4) (hp : s.Prompt) :
    frames (newAssembler.feed cfg s.arrivals).2 = s.messages.map Message.frame ∧
      ∀ v ∈ violations (newAssembler.feed cfg s.arrivals).2, v = .deviceIDMismatch := by
  have : IsTrans Arrival fun x y => x.now ≤ y.now := ⟨fun _ _ _ => le_trans⟩
  have ⟨_, ho, _⟩ := List.pairwise_append.mp (List.isChain_iff_pairwise.mp s.ordered)
  have hn := feed_foreign (a := newAssembler) s.foreign
  have hm := feed_messages (a := newAssembler) rfl s.sent s.distinct s.repeated
    (chain_timely ho (fun x hx => s.timer x (List.mem_append_right _ hx)) hp) nofun
  rw [Stream.arrivals, received, feed_append, hn.left]
  exact hn.right.append hm

-- Block 1 is repeated after 20 seconds, among a block for another device.
def promptStream : Stream equipment (seconds 45) where
  messages := [sampleMessage]
  noise := []
  copies := [
    { first := at45 (sampleBlock 1 false [1, 2]) 0
      rest  := [at45 (sampleBlock 1 false [1, 2]) 20, at45 foreignBlock 30] },
    { first := at45 (sampleBlock 2 true [3]) 40, rest := [] }
  ]
  sent := by decide
  distinct := by decide
  foreign := by decide
  repeated := by simp [Copies.Repeated]; decide
  ordered := by decide
  timer := by decide

theorem exactly_once_repeated :
    frames (newAssembler.feed equipment promptStream.arrivals).2 = [sampleMessage.frame] ∧
      ∀ v ∈ violations (newAssembler.feed equipment promptStream.arrivals).2,
        v = .deviceIDMismatch :=
  exactly_once promptStream (by simp [Stream.Prompt]; decide)

-- Each gap is 30 seconds, but block 2 comes 60 seconds after block 1 was taken.
def slowStream : Stream equipment (seconds 45) where
  messages := [sampleMessage]
  noise := []
  copies := [
    { first := at45 (sampleBlock 1 false [1, 2]) 0
      rest  := [at45 (sampleBlock 1 false [1, 2]) 30] },
    { first := at45 (sampleBlock 2 true [3]) 60, rest := [] }
  ]
  sent := by decide
  distinct := by decide
  foreign := by decide
  repeated := by simp [Copies.Repeated]; decide
  ordered := by decide
  timer := by decide

-- A repeated block does not restart T4, so the message is lost and its last block is reported.
theorem repeated_block_times_out :
    slowStream.Steady ∧ frames (newAssembler.feed equipment slowStream.arrivals).2 = [] ∧
      violations (newAssembler.feed equipment slowStream.arrivals).2 = [.invalidFirstBlock] := by
  refine ⟨?_, ?_, ?_⟩
  · unfold Stream.Steady
    decide
  · decide
  · decide

end Assembler

end Secs1
