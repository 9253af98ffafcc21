import GoSecs.Secs1.Stream
import GoSecs.Secs1.Theorems.Block

open Secs2 Hsms List

namespace Secs1

section Assembly

variable {h : MessageHeader} {bs : List Block} {b : Block} {i : Nat}

theorem checkBlocks_numbered {count : Nat} (hn : Numbered h (i + 1) bs)
    (hb : b.blockNumber.toNat = i + 1 + bs.length) (he : b.eBit = true) (hh : b.messageHeader = h)
    (hc : count = i + bs.length + 1) : checkBlocks h false count i (bs ++ [b]) = none := by
  induction bs generalizing i
  case nil =>
    simp only [nil_append, checkBlocks, length_nil, Nat.add_zero] at *
    simp [hb, he, hh, hc]
  case cons c bs hi =>
    have ⟨⟨hnum, hce, hch⟩, hn⟩ := numbered_cons.mp hn
    rw [length_cons] at hb hc
    have hlt : (i == count - 1) = false := by simp; omega
    simp only [cons_append, checkBlocks, hnum, hce, hch, hlt]
    simpa using hi hn (by omega) (by omega)

theorem assembleFrame_concat (hn : Numbered h 1 bs) (hh : b.messageHeader = h)
    (he : b.eBit = true)
    (hb : b.blockNumber.toNat = bs.length + 1 ∨ bs = [] ∧ b.blockNumber = 0) :
    assembleFrame (bs ++ [b]) =
      .ok ((frameHeader h).bytes ++ (bs ++ [b]).flatMap (·.body)) := by
  cases bs
  case nil =>
    have hc : checkBlocks h (b.blockNumber == 0) 1 0 [b] = none := by
      rcases hb with hb | ⟨_, hb⟩
      · have hz : b.blockNumber ≠ 0 := by
          intro h0
          simp [h0] at hb
        simp [checkBlocks, hb, he, hh, hz]
      · simp [checkBlocks, hb, he, hh]
    simp [assembleFrame, hh, hc]
  case cons c bs =>
    have hb : b.blockNumber.toNat = 0 + 1 + (c :: bs).length := by
      rcases hb with hb | ⟨hb, _⟩
      · omega
      · exact nomatch hb
    have hl : (bs ++ [b]).length + 1 = 0 + (c :: bs).length + 1 := by simp
    have hc := checkBlocks_numbered hn hb he hh hl
    have hch := (numbered_cons.mp hn).left.right.right
    have hs : ((bs ++ [b]).isEmpty && c.blockNumber == 0) = false := by simp
    simp only [cons_append, assembleFrame, hs, hch]
    rw [← cons_append, hc]

end Assembly

section Effects

variable {es fs : List Effect} {c : Counter} {v : Sentinel} {hd : Header} {f : Bytes}

@[simp]
theorem frames_nil : frames [] = [] :=
  rfl

@[simp]
theorem frames_count : frames (.count c :: es) = frames es :=
  rfl

@[simp]
theorem frames_report : frames (.report v hd :: es) = frames es :=
  rfl

@[simp]
theorem frames_deliver : frames (.deliver f :: es) = f :: frames es :=
  rfl

@[simp]
theorem frames_append : frames (es ++ fs) = frames es ++ frames fs :=
  filterMap_append

@[simp]
theorem violations_nil : violations [] = [] :=
  rfl

@[simp]
theorem violations_count : violations (.count c :: es) = violations es :=
  rfl

@[simp]
theorem violations_report : violations (.report v hd :: es) = v :: violations es :=
  rfl

@[simp]
theorem violations_deliver : violations (.deliver f :: es) = violations es :=
  rfl

@[simp]
theorem violations_append : violations (es ++ fs) = violations es ++ violations fs :=
  filterMap_append

end Effects

namespace Assembler

def opened (h : MessageHeader) (bs : List Block) (last : Block) (t : Int) : Assembler where
  isOpen := true
  header := h
  blocks := bs ++ [last]
  expected := last.blockNumber + 1
  lastBlockTime := t
  lastHeader := last.header
  haveLast := true

def closed (last : Block) : Assembler :=
  { newAssembler with lastHeader := last.header, haveLast := true }

-- The open message is the beginning of one that the assembly accepts.
structure Whole (a : Assembler) : Prop where
  numbered : a.isOpen → Numbered a.header 1 a.blocks
  nonempty : a.isOpen → a.blocks ≠ []
  expected : a.isOpen → a.expected.toNat = a.blocks.length + 1

variable {cfg : Config} {a : Assembler} {x : Arrival} {h : MessageHeader} {bs : List Block}
variable {blk : Block} {t now : Int}

section Whole

theorem toNat_expected (b : Block) : (b.blockNumber + 1).toNat = b.blockNumber.toNat + 1 := by
  have := blockNumber_lt b
  rw [UInt16.toNat_add]
  simp
  omega

theorem whole_of_not_open (hc : a.isOpen = false) : a.Whole where
  numbered ho := absurd ho (by simp [hc])
  nonempty ho := absurd ho (by simp [hc])
  expected ho := absurd ho (by simp [hc])

theorem whole_opened (hn : Numbered h 1 (bs ++ [blk])) : (opened h bs blk t).Whole where
  numbered _ := hn
  nonempty _ := by simp [opened]
  expected _ := by
    have := (numbered_concat.mp hn).right.left
    simp only [opened, toNat_expected, this, length_append, length_singleton]
    omega

end Whole

-- What taking a block does: it goes on with `bs`, or it ends the message and delivers it.
def taken (h : MessageHeader) (bs : List Block) (blk : Block) (now : Int) : Outcome :=
  if blk.eBit then
    { state := closed blk
      effects := [.deliver ((frameHeader h).bytes ++ (bs ++ [blk]).flatMap (·.body))]
      err := none }
  else
    { state := opened h bs blk now, effects := [], err := none }

section Steps

theorem validFirst_number (hv : validFirst blk) :
    blk.blockNumber.toNat = 1 ∨ blk.blockNumber = 0 ∧ blk.eBit = true := by
  simp only [validFirst, Bool.or_eq_true, Bool.and_eq_true, beq_iff_eq] at hv
  exact hv.imp_left fun hv => by simp [hv]

theorem startMessage_valid (hv : validFirst blk) (n : Bool) :
    a.startMessage blk now n = taken blk.messageHeader [] blk now := by
  rw [startMessage, if_pos hv, taken, completeOn]
  split
  case isTrue he =>
    have hf := assembleFrame_concat numbered_nil rfl he
      ((validFirst_number hv).imp_right fun hz => ⟨rfl, hz.left⟩)
    simp only [complete, nil_append] at hf ⊢
    rw [hf]
    rfl
  case isFalse => rfl

theorem appendBlock_next (ho : a.isOpen) (hn : Numbered a.header 1 a.blocks)
    (hb : blk.blockNumber.toNat = a.blocks.length + 1) (hh : blk.messageHeader = a.header) :
    a.appendBlock blk now = taken a.header a.blocks blk now := by
  rw [appendBlock, taken, completeOn]
  split
  case isTrue he =>
    have hf := assembleFrame_concat hn hh he (.inl hb)
    simp only [complete]
    rw [hf]
    rfl
  case isFalse => simp [opened, ho]

theorem accept_foreign (hf : ¬Ours cfg x.block) :
    (a.accept cfg x).state = a ∧ (a.accept cfg x).err = none ∧
      frames (a.accept cfg x).effects = [] ∧
      violations (a.accept cfg x).effects =
        if x.block.deviceID ≠ cfg.deviceID then [.deviceIDMismatch] else [] := by
  unfold accept
  by_cases hd : x.block.deviceID = cfg.deviceID
  case neg => simp [hd]
  case pos =>
    have hr : x.block.rBit = cfg.isEquip := not_not.mp fun hr => hf ⟨hd, hr⟩
    simp [hd, hr]

theorem accept_prompt (ho : Ours cfg x.block)
    (ht : a.isOpen → x.now - a.lastBlockTime ≤ x.t4) : a.accept cfg x = a.place x.block x.now := by
  rw [accept, if_neg (by simp [ho.left]), if_neg ho.right, if_neg]
  intro ⟨hop, hl⟩
  exact absurd (ht hop) (not_le.mpr hl)

theorem accept_late (ho : Ours cfg x.block) (hop : a.isOpen)
    (ht : x.now - a.lastBlockTime > x.t4) :
    a.accept cfg x = (a.reset.place x.block x.now).after [.count .partialTimeout] := by
  rw [accept, if_neg (by simp [ho.left]), if_neg ho.right, if_pos ⟨hop, ht⟩]

theorem place_repeat (hl : a.haveLast) (hh : blk.header = a.lastHeader) :
    a.place blk now = { state := a, effects := [.count .blockDupDrop], err := none } := by
  rw [place, if_pos ⟨hl, hh⟩]

theorem place_next (hw : a.Whole) (hd : ¬(a.haveLast ∧ blk.header = a.lastHeader))
    (ho : a.isOpen) (hb : blk.blockNumber = a.expected) (hh : blk.messageHeader = a.header) :
    a.place blk now = taken a.header a.blocks blk now := by
  rw [place, if_neg hd, if_pos ho, if_pos ⟨hb, hh⟩]
  exact appendBlock_next ho (hw.numbered ho) (hb ▸ hw.expected ho) hh

theorem place_other (now : Int) (hd : ¬(a.haveLast ∧ blk.header = a.lastHeader))
    (hn : a.isOpen → ¬(blk.blockNumber = a.expected ∧ blk.messageHeader = a.header)) :
    ∃ es n, frames es = [] ∧ (violations es).length + (if n then 1 else 0) ≤ 1 ∧
      a.place blk now =
        ((if a.isOpen then a.reset else a).startMessage blk now n).after es := by
  rw [place, if_neg hd]
  split
  case isTrue ho =>
    rw [if_neg (hn ho)]
    exact ⟨_, _, rfl, le_rfl, rfl⟩
  case isFalse => exact ⟨[], true, rfl, le_rfl, rfl⟩

theorem startMessage_invalid (hv : ¬validFirst blk) (now : Int) (n : Bool) :
    (a.startMessage blk now n).state = a ∧ (a.startMessage blk now n).err = none ∧
      frames (a.startMessage blk now n).effects = [] ∧
      (violations (a.startMessage blk now n).effects).length = if n then 1 else 0 := by
  rw [startMessage, if_neg hv]
  cases n <;> simp

end Steps

section Accept

-- All that can happen to a block for us: it is dropped, with the partial or without, or taken.
inductive Handled (a : Assembler) (blk : Block) (now : Int) (o : Outcome) : Prop
  | dropped : o.state = a ∨ o.state = a.reset → frames o.effects = [] → Handled a blk now o
  | taken {cs : List Block} :
    Numbered blk.messageHeader 1 cs → blk.blockNumber.toNat = cs.length + 1 ∨ cs = [] ∧ blk.eBit →
    o.state = (taken blk.messageHeader cs blk now).state →
    frames o.effects = frames (taken blk.messageHeader cs blk now).effects → Handled a blk now o

theorem taken_quiet (h : MessageHeader) (bs : List Block) (blk : Block) (now : Int) :
    (taken h bs blk now).err = none ∧ violations (taken h bs blk now).effects = [] := by
  unfold taken
  split <;> exact ⟨rfl, rfl⟩

theorem place_handled (blk : Block) (now : Int) (hw : a.Whole) :
    Handled a blk now (a.place blk now) ∧ (a.place blk now).err = none ∧
      (violations (a.place blk now).effects).length ≤ 1 := by
  by_cases hd : a.haveLast ∧ blk.header = a.lastHeader
  case pos =>
    rw [place_repeat hd.left hd.right]
    exact ⟨.dropped (.inl rfl) rfl, rfl, Nat.zero_le _⟩
  by_cases hn : a.isOpen ∧ blk.blockNumber = a.expected ∧ blk.messageHeader = a.header
  case pos =>
    have ⟨ho, hb, hh⟩ := hn
    rw [place_next hw hd ho hb hh]
    have ⟨he, hv⟩ := taken_quiet a.header a.blocks blk now
    refine ⟨?_, he, by simp [hv]⟩
    exact .taken (hh ▸ hw.numbered ho) (.inl (hb ▸ hw.expected ho)) (by rw [hh]) (by rw [hh])
  case neg =>
    have ⟨es, n, hf, hv, heq⟩ := place_other now hd (not_and.mp hn)
    rw [heq]
    by_cases hvf : validFirst blk
    case pos =>
      rw [startMessage_valid hvf]
      have ⟨he, hv'⟩ := taken_quiet blk.messageHeader [] blk now
      refine ⟨.taken numbered_nil ?_ rfl ?_, he, ?_⟩
      · exact (validFirst_number hvf).imp_right fun hz => ⟨rfl, hz.right⟩
      · simp [Outcome.after, hf]
      · simp only [Outcome.after, violations_append, hv', append_nil]
        omega
    case neg =>
      have ⟨hst, he, hf', hv'⟩ :=
        startMessage_invalid (a := if a.isOpen then a.reset else a) hvf now n
      refine ⟨.dropped ?_ (by simp [Outcome.after, hf, hf']), he, ?_⟩
      · simp only [Outcome.after, hst]
        split
        case isTrue  => exact .inr rfl
        case isFalse => exact .inl rfl
      · simpa [Outcome.after, hv'] using hv

theorem whole_reset : a.reset.Whole :=
  whole_of_not_open rfl

theorem Handled.whole {o : Outcome} (hh : Handled a blk now o) (hw : a.Whole) : o.state.Whole := by
  cases hh
  case dropped hs _ =>
    rcases hs with hs | hs
    · exact hs ▸ hw
    · exact hs ▸ whole_reset
  case taken bs hn hb hs _ =>
    rw [hs, Assembler.taken]
    split
    case isTrue => exact whole_of_not_open rfl
    case isFalse he =>
      refine whole_opened (numbered_concat.mpr ⟨hn, ?_, by simpa using he, rfl⟩)
      rcases hb with hb | ⟨_, hb⟩
      · omega
      · exact absurd hb he

theorem accept_whole (hw : a.Whole) :
    (a.accept cfg x).state.Whole ∧ (a.accept cfg x).err = none ∧
      (violations (a.accept cfg x).effects).length ≤ 1 := by
  by_cases ho : Ours cfg x.block
  case neg =>
    have ⟨hs, he, _, hv⟩ := accept_foreign (a := a) ho
    refine ⟨by rw [hs]; exact hw, he, ?_⟩
    rw [hv]
    split <;> simp
  case pos =>
    by_cases hl : a.isOpen ∧ x.now - a.lastBlockTime > x.t4
    case pos =>
      have ⟨hh, he, hv⟩ := place_handled x.block x.now (whole_reset (a := a))
      rw [accept_late ho hl.left hl.right]
      exact ⟨hh.whole whole_reset, he, by simpa [Outcome.after] using hv⟩
    case neg =>
      have ⟨hh, he, hv⟩ := place_handled x.block x.now hw
      rw [accept_prompt ho fun hop => not_lt.mp fun hlt => hl ⟨hop, hlt⟩]
      exact ⟨hh.whole hw, he, hv⟩

theorem whole_of_reachable (hr : (assembler cfg).Reachable a) : a.Whole := by
  refine hr.invariant ?_ ?_
  · rintro _ rfl
    exact whole_of_not_open rfl
  · intro _ _ _ hw _
    exact (accept_whole hw).left

end Accept

-- Effects that deliver `fs` and report nothing but blocks for other devices.
def Yields (es : List Effect) (fs : List Bytes) : Prop :=
  frames es = fs ∧ ∀ v ∈ violations es, v = .deviceIDMismatch

-- The deadline is met by the repetitions, and by the next block.
def Timely (cfg : Config) (c d : Copies) : Prop :=
  (∀ x ∈ c.rest, Ours cfg x.block → x.now - c.first.now ≤ x.t4) ∧
    d.first.now - c.first.now ≤ d.first.t4

section Feed

variable {es es' : List Effect} {fs fs' : List Bytes} {xs ys : List Arrival} {c : Copies}
variable {cs : List Copies} {m : Message cfg} {b : Block}

theorem Yields.append (h : Yields es fs) (h' : Yields es' fs') :
    Yields (es ++ es') (fs ++ fs') := by
  refine ⟨by rw [frames_append, h.left, h'.left], fun v hv => ?_⟩
  rw [violations_append, mem_append] at hv
  exact hv.elim (h.right v) (h'.right v)

theorem feed_append :
    a.feed cfg (xs ++ ys) =
      (((a.feed cfg xs).1.feed cfg ys).1,
        (a.feed cfg xs).2 ++ ((a.feed cfg xs).1.feed cfg ys).2) := by
  induction xs generalizing a
  case nil => rfl
  case cons x xs hi => simp [feed, hi]

theorem accept_foreign_yields (hf : ¬Ours cfg x.block) :
    (a.accept cfg x).state = a ∧ Yields (a.accept cfg x).effects [] := by
  have ⟨hs, _, hfr, hv⟩ := accept_foreign (a := a) hf
  refine ⟨hs, hfr, fun v hm => ?_⟩
  rw [hv] at hm
  split at hm <;> simp_all

theorem feed_foreign (hf : ∀ x ∈ xs, ¬Ours cfg x.block) :
    (a.feed cfg xs).1 = a ∧ Yields (a.feed cfg xs).2 [] := by
  induction xs
  case nil => exact ⟨rfl, rfl, nofun⟩
  case cons x xs hi =>
    have ⟨his, hiy⟩ := hi fun y hy => hf y (by simp [hy])
    have ⟨hs, hy⟩ := accept_foreign_yields (a := a) (hf x (by simp))
    simp only [feed, hs]
    exact ⟨his, hy.append hiy⟩

theorem feed_repeats (hl : a.haveLast) (hh : a.lastHeader = blk.header)
    (hx : ∀ x ∈ xs, x.block = blk ∨ ¬Ours cfg x.block)
    (ht : a.isOpen → ∀ x ∈ xs, Ours cfg x.block → x.now - a.lastBlockTime ≤ x.t4) :
    (a.feed cfg xs).1 = a ∧ Yields (a.feed cfg xs).2 [] := by
  induction xs
  case nil => exact ⟨rfl, rfl, nofun⟩
  case cons x xs hi =>
    have ⟨his, hiy⟩ := hi (fun y hy => hx y (by simp [hy])) fun ho y hy => ht ho y (by simp [hy])
    have hacc : (a.accept cfg x).state = a ∧ Yields (a.accept cfg x).effects [] := by
      by_cases ho : Ours cfg x.block
      case neg => exact accept_foreign_yields ho
      case pos =>
        have hb : x.block = blk := (hx x (by simp)).resolve_right (not_not.mpr ho)
        rw [accept_prompt ho fun hop => ht hop x (by simp) ho, place_repeat hl (by rw [hb, hh])]
        exact ⟨rfl, rfl, nofun⟩
    simp only [feed, hacc.left]
    exact ⟨his, hacc.right.append hiy⟩

theorem ours_of_header (hd : h.deviceID = cfg.deviceID) (hr : h.rBit ≠ cfg.isEquip)
    (hb : b.messageHeader = h) : Ours cfg b :=
  ⟨congrArg MessageHeader.deviceID hb |>.trans hd, congrArg MessageHeader.rBit hb |>.trans_ne hr⟩

theorem accept_next (hn : Numbered h 1 (bs ++ [blk])) (ho : Ours cfg x.block)
    (hb : x.block.blockNumber.toNat = bs.length + 2) (hh : x.block.messageHeader = h)
    (ht : x.now - t ≤ x.t4) :
    (opened h bs blk t).accept cfg x = taken h (bs ++ [blk]) x.block x.now := by
  have hblk := (numbered_concat.mp hn).right.left
  rw [accept_prompt ho fun _ => ht]
  refine place_next (whole_opened hn) ?_ rfl ?_ hh
  · intro ⟨_, heq⟩
    have : x.block.blockNumber = blk.blockNumber := by
      unfold Block.blockNumber
      rw [show x.block.header = blk.header from heq]
    rw [this] at hb
    omega
  · apply UInt16.toNat_inj.mp
    show _ = (blk.blockNumber + 1).toNat
    rw [toNat_expected]
    omega

theorem taken_last (he : blk.eBit = true) :
    taken h bs blk now =
      { state := closed blk
        effects := [.deliver ((frameHeader h).bytes ++ (bs ++ [blk]).flatMap (·.body))]
        err := none } :=
  if_pos he

theorem taken_more (he : blk.eBit = false) :
    taken h bs blk now = { state := opened h bs blk now, effects := [], err := none } :=
  if_neg (by simp [he])

theorem feed_closed (hc : c.Repeated cfg) :
    ((closed c.first.block).feed cfg c.rest).1 = closed c.first.block ∧
      Yields ((closed c.first.block).feed cfg c.rest).2 [] :=
  feed_repeats rfl rfl hc nofun

-- Induction over the blocks that are still to come, with those that were taken in `bs`.
theorem feed_opened {todo : List Block} {last : Block} (hd : h.deviceID = cfg.deviceID)
    (hr : h.rBit ≠ cfg.isEquip) (hn : Numbered h 1 (bs ++ c.first.block :: todo))
    (hlh : last.messageHeader = h) (hle : last.eBit = true)
    (hln : last.blockNumber.toNat = bs.length + todo.length + 2)
    (hcs : cs.map (·.first.block) = todo ++ [last]) (hrep : ∀ d ∈ c :: cs, d.Repeated cfg)
    (ht : (c :: cs).IsChain (Timely cfg)) :
    ((opened h bs c.first.block c.first.now).feed cfg (c.rest ++ cs.flatMap Copies.arrivals)).1 =
        closed last ∧
      Yields
        ((opened h bs c.first.block c.first.now).feed cfg (c.rest ++ cs.flatMap Copies.arrivals)).2
        [(frameHeader h).bytes ++ (bs ++ c.first.block :: todo ++ [last]).flatMap (·.body)] := by
  induction todo generalizing bs c cs
  case nil =>
    match cs, hcs with
    | [d], hcs =>
      have hdl : d.first.block = last := by simpa using hcs
      have ⟨ht, _⟩ := isChain_cons_cons.mp ht
      have ⟨hs, hy⟩ := feed_repeats (a := opened h bs c.first.block c.first.now) rfl rfl
        (hrep c (by simp)) fun _ => ht.left
      have ⟨hs', hy'⟩ := feed_closed (hrep d (by simp))
      have hacc := accept_next (x := d.first) (t := c.first.now) hn
        (ours_of_header hd hr (by rw [hdl, hlh])) (by rw [hdl, hln]; simp) (by rw [hdl, hlh])
        ht.right
      rw [taken_last (by rw [hdl, hle])] at hacc
      rw [feed_append, hs, flatMap_singleton, Copies.arrivals, feed, hacc]
      rw [hdl] at hs' hy' ⊢
      refine ⟨hs', ?_⟩
      have hdel : Yields [Effect.deliver ((frameHeader h).bytes ++
          (bs ++ [c.first.block] ++ [last]).flatMap (·.body))] _ := ⟨rfl, nofun⟩
      exact hy.append (hdel.append hy')
  case cons b todo hi =>
    match cs, hcs with
    | d :: cs, hcs =>
      have ⟨hdb, hcs⟩ : d.first.block = b ∧ cs.map (·.first.block) = todo ++ [last] := by
        simpa using hcs
      have ⟨ht, hts⟩ := isChain_cons_cons.mp ht
      have hn' : Numbered h 1 ((bs ++ [c.first.block]) ++ d.first.block :: todo) := by
        rw [hdb]
        simpa using hn
      have ⟨hnc, hnd⟩ := numbered_append.mp hn'
      have ⟨⟨hbn, hbe, hbh⟩, _⟩ := numbered_cons.mp hnd
      rw [length_append, length_singleton, Nat.add_comm] at hbn
      have ⟨hs, hy⟩ := feed_repeats (a := opened h bs c.first.block c.first.now) rfl rfl
        (hrep c (by simp)) fun _ => ht.left
      have hacc := accept_next (x := d.first) (t := c.first.now) hnc (ours_of_header hd hr hbh) hbn
        hbh ht.right
      rw [taken_more hbe] at hacc
      have ⟨hs', hy'⟩ := hi hn' (by simp; simp at hln; omega) hcs
        (fun e he => hrep e (by simp at he ⊢; tauto)) hts
      rw [feed_append, hs, flatMap_cons, Copies.arrivals, cons_append, feed, hacc]
      refine ⟨hs', ?_⟩
      have := hy.append hy'
      simpa [hdb] using this

-- Whatever is open, a first block that is not a repetition starts its message.
theorem accept_first (hw : a.Whole) (ho : Ours cfg x.block) (hv : validFirst x.block)
    (hd : a.haveLast → x.block.header ≠ a.lastHeader) :
    (a.accept cfg x).state = (taken x.block.messageHeader [] x.block x.now).state ∧
      frames (a.accept cfg x).effects =
        frames (taken x.block.messageHeader [] x.block x.now).effects ∧
      (a.isOpen = false → violations (a.accept cfg x).effects = []) := by
  by_cases hl : a.isOpen ∧ x.now - a.lastBlockTime > x.t4
  case pos =>
    rw [accept_late ho hl.left hl.right, place, if_neg (fun ⟨h₁, h₂⟩ => hd h₁ h₂),
      if_neg (by simp [reset]), startMessage_valid hv]
    exact ⟨rfl, rfl, fun hc => absurd hl.left (by simp [hc])⟩
  case neg =>
    rw [accept_prompt ho fun hop => not_lt.mp fun hlt => hl ⟨hop, hlt⟩]
    have hn : a.isOpen →
        ¬(x.block.blockNumber = a.expected ∧ x.block.messageHeader = a.header) := by
      intro hop ⟨hb, _⟩
      have he := hb ▸ hw.expected hop
      have hne := length_pos_iff.mpr (hw.nonempty hop)
      rcases validFirst_number hv with hone | ⟨hzero, _⟩
      · omega
      · simp [hzero] at he
    have ⟨es, n, hf, hve, heq⟩ := place_other x.now (fun ⟨h₁, h₂⟩ => hd h₁ h₂) hn
    rw [heq, startMessage_valid hv]
    refine ⟨rfl, by simp [Outcome.after, hf], fun hc => ?_⟩
    have hp : a.place x.block x.now = a.startMessage x.block x.now true := by
      rw [place, if_neg (fun ⟨h₁, h₂⟩ => hd h₁ h₂), if_neg (by simp [hc])]
    rw [← startMessage_valid hv n, ← heq, hp, startMessage_valid hv]
    exact (taken_quiet ..).right

theorem validFirst_head (hb : b ∈ m.blocks.head?) : validFirst b := by
  unfold Message.blocks at hb
  cases hi : m.init
  case nil =>
    rw [hi] at hb
    cases hb
    rcases m.number with hn | ⟨_, hz⟩
    · rw [hi] at hn
      have : m.last.blockNumber = 1 := UInt16.toNat_inj.mp hn
      simp [validFirst, this]
    · simp [validFirst, hz, m.eBit]
  case cons c bs =>
    rw [hi] at hb
    cases hb
    have ⟨⟨hn, _, _⟩, _⟩ := numbered_cons.mp (hi ▸ m.numbered)
    have : b.blockNumber = 1 := UInt16.toNat_inj.mp hn
    simp [validFirst, this]

theorem feed_message (hw : a.Whole) (hm : cs.map (·.first.block) = m.blocks)
    (hrep : ∀ c ∈ cs, c.Repeated cfg) (ht : cs.IsChain (Timely cfg))
    (hd : ∀ c ∈ cs.head?, a.haveLast → c.first.block.header ≠ a.lastHeader) :
    (a.feed cfg (cs.flatMap Copies.arrivals)).1 = closed m.last ∧
      frames (a.feed cfg (cs.flatMap Copies.arrivals)).2 = [m.frame] ∧
      (a.isOpen = false → Yields (a.feed cfg (cs.flatMap Copies.arrivals)).2 [m.frame]) := by
  match cs with
  | [] => simp [Message.blocks] at hm
  | c :: cs =>
    have hmem : c.first.block ∈ m.blocks := by rw [← hm]; simp
    have hh : c.first.block.messageHeader = m.header := by
      rcases mem_append.mp hmem with hi | hi
      · exact m.numbered.header hi
      · exact mem_singleton.mp hi ▸ m.lastHeader
    have hv : validFirst c.first.block := validFirst_head (m := m) (by rw [← hm]; simp)
    have ⟨hs, hf, hvi⟩ := accept_first (x := c.first) hw (ours_of_header m.deviceID m.rBit hh) hv
      (hd c rfl)
    rw [hh] at hs hf
    have hrest : ((taken m.header [] c.first.block c.first.now).state.feed cfg
          (c.rest ++ cs.flatMap Copies.arrivals)).1 = closed m.last ∧
        ∃ fs, Yields ((taken m.header [] c.first.block c.first.now).state.feed cfg
          (c.rest ++ cs.flatMap Copies.arrivals)).2 fs ∧
        frames (taken m.header [] c.first.block c.first.now).effects ++ fs = [m.frame] := by
      cases hi : m.init
      case nil =>
        have ⟨hcl, hcs⟩ : c.first.block = m.last ∧ cs = [] := by
          simpa [Message.blocks, hi] using hm
        have ⟨hs', hy'⟩ := feed_closed (hrep c (by simp))
        rw [taken_last (by rw [hcl, m.eBit]), hcs, flatMap_nil, append_nil]
        refine ⟨by rw [hs', hcl], [], hy', ?_⟩
        simp [Message.frame, Message.blocks, hi, hcl]
      case cons b todo =>
        have ⟨hcb, hcs⟩ : c.first.block = b ∧ cs.map (·.first.block) = todo ++ [m.last] := by
          simpa [Message.blocks, hi] using hm
        have hn : Numbered m.header 1 ([] ++ b :: todo) := hi ▸ m.numbered
        have hln : m.last.blockNumber.toNat = ([] : List Block).length + todo.length + 2 := by
          rcases m.number with hl | ⟨hl, _⟩
          · rw [hl, hi]; simp
          · exact nomatch hi ▸ hl
        have ⟨hs', hy'⟩ := feed_opened m.deviceID m.rBit (hcb ▸ hn)
          m.lastHeader m.eBit hln hcs hrep ht
        have hce : c.first.block.eBit = false := hcb ▸ (numbered_cons.mp hn).left.right.left
        rw [taken_more hce]
        refine ⟨hs', _, hy', ?_⟩
        simp [Message.frame, Message.blocks, hi, hcb]
    have ⟨hs', fs, hy', hfs⟩ := hrest
    rw [flatMap_cons, Copies.arrivals, cons_append, feed]
    refine ⟨by rw [hs, hs'], ?_, fun hc => ?_⟩
    · rw [frames_append, hf, hs, hy'.left, hfs]
    · rw [← hfs]
      exact Yields.append ⟨hf, by simp [hvi hc]⟩ (hs ▸ hy')

end Feed

end Assembler

end Secs1
