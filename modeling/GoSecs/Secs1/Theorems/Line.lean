import GoSecs.Secs1.Line
import GoSecs.Secs1.Theorems.Block

open Secs2 List Function

namespace Secs1.Line

variable {s : State} {k : Bool} {r : Nat} {me me' you : Side} {b : UInt8} {o : Option UInt8}
variable {x : Bytes} {pc : Pc} {bs : List Block} {i : Bytes}

def Pc.pending : Pc → List Block
  | idle => []
  | attempt s | awaitEot s | writing s _ | awaitAck s => s.blk :: s.rest
  | granting p | awaitLength p | reading p _ _ | draining p | acking p _ | sinking p _ =>
    p.elim [] fun s => s.blk :: s.rest

def Pc.held : Pc → List Block
  | sinking _ blk => [blk]
  | _ => []

-- The block that the other end has acknowledged, while the ACK is on the line.
def due : Pc → Bytes → List Block
  | .awaitAck s, _ :: _ => [s.blk]
  | _, _ => []

-- The books of one end: nothing that it was asked for is lost or fails.
structure Books (me : Side) : Prop where
  asked : me.asked = me.returned.map (·.1) ++ me.pc.pending ++ me.requests.flatten
  accepted : me.accepted = me.sunk ++ me.pc.held
  nil : ∀ x ∈ me.returned, x.2 = true
  naks : me.naks = 0
  fits : ∀ b ∈ me.pc.pending ++ me.requests.flatten, b.body.length ≤ maxBlockBodySize

def Agreed (me you : Side) : Prop :=
  you.accepted = me.returned.map (·.1) ++ due me.pc me.inbox

section Books

theorem Books.move {inbox : Bytes} {n : Nat} (h : Books me)
    (hp : pc.pending = me.pc.pending) (hh : pc.held = me.pc.held) :
    Books { me with pc := pc, inbox := inbox, blockBytes := n } where
  asked := by rw [hp]; exact h.asked
  accepted := by rw [hh]; exact h.accepted
  nil := h.nil
  naks := h.naks
  fits := by rw [hp]; exact h.fits

theorem pc_sendNext (me : Side) (bs : List Block) :
    (me.sendNext bs).pc.pending = bs ∧ (me.sendNext bs).pc.held = [] ∧
      ∀ i, due (me.sendNext bs).pc i = [] := by
  cases bs <;> exact ⟨rfl, rfl, fun _ => rfl⟩

theorem sendNext_eq (me : Side) (bs : List Block) :
    me.sendNext bs = { me with pc := (me.sendNext bs).pc } := by
  cases bs <;> rfl

theorem Books.sendNext (hc : me.accepted = me.sunk)
    (ha : me.asked = me.returned.map (·.1) ++ bs ++ me.requests.flatten)
    (hn : ∀ x ∈ me.returned, x.2 = true) (hk : me.naks = 0)
    (hf : ∀ b ∈ bs ++ me.requests.flatten, b.body.length ≤ maxBlockBodySize) :
    Books (me.sendNext bs) := by
  have ⟨hp, hh, _⟩ := pc_sendNext me bs
  rw [sendNext_eq]
  exact {
    asked := by rw [hp]; exact ha
    accepted := by rw [hh, append_nil]; exact hc
    nil := hn
    naks := hk
    fits := by rw [hp]; exact hf
  }

theorem Books.sent {t : Sending} (h : Books me) (hp : me.pc = .awaitAck t) : Books (me.sent t) := by
  have ha := h.asked
  have hc := h.accepted
  have hf := h.fits
  rw [hp] at ha hc hf
  refine Books.sendNext (by simpa [Pc.held] using hc) (by simpa [Pc.pending] using ha) ?_ h.naks ?_
  · intro x hx
    rcases mem_append.mp hx with hx | hx
    · exact h.nil x hx
    · cases mem_singleton.mp hx
      rfl
  · exact fun b hb => hf b (mem_cons_of_mem _ hb)

theorem Books.read (h : Books me) (ha : ∀ s, me.pc = .awaitAck s → b = ack) (i : Bytes) :
    Books ({ me with inbox := i }.read k r b) := by
  unfold Side.read
  dsimp only
  split
  case h_1 hp => split <;> exact h.move (by simp [hp, Pc.pending]) (by simp [hp, Pc.held])
  case h_2 hp => (repeat' split) <;> exact h.move (by simp [hp, Pc.pending]) (by simp [hp, Pc.held])
  case h_3 t hp =>
    rw [if_pos (ha t hp)]
    exact Books.sent (h.move rfl rfl) hp
  case h_4 hp => split <;> exact h.move (by simp [hp, Pc.pending]) (by simp [hp, Pc.held])
  case h_5 hp => exact h.move (by simp [hp, Pc.pending]) (by simp [hp, Pc.held])
  case h_6 => exact h.move rfl rfl

theorem Books.act (h : Books me) (ha : me.act = some (me', o)) : Books me' := by
  unfold Side.act at ha
  split at ha
  case h_1 hp => cases ha; exact h.move (by simp [hp, Pc.pending]) (by simp [hp, Pc.held])
  case h_2 hp =>
    cases ha
    split <;> exact h.move (by simp [hp, Pc.pending]) (by simp [hp, Pc.held])
  case h_3 hp => cases ha; exact h.move (by simp [hp, Pc.pending]) (by simp [hp, Pc.held])
  case h_4 hp =>
    split at ha
    case isTrue  => exact nomatch ha
    case isFalse =>
      split at ha <;> cases ha <;>
        exact h.move (by simp [hp, Pc.pending]) (by simp [hp, Pc.held])
  case h_5 p blk hp =>
    cases ha
    have hc := h.accepted
    have hq := h.asked
    have hf := h.fits
    simp only [hp, Pc.held, append_nil] at hc
    rw [hp] at hq hf
    exact {
      asked := hq
      accepted := by simp [Pc.held, hc]
      nil := h.nil
      naks := h.naks
      fits := hf
    }
  case h_6 p blk hp =>
    cases ha
    have hc := h.accepted
    have hq := h.asked
    have hf := h.fits
    rw [hp] at hc hq hf
    cases p <;> exact {
      asked := hq
      accepted := by simpa [Side.resume, Pc.held] using hc
      nil := h.nil
      naks := h.naks
      fits := hf
    }
  case h_7 => exact nomatch ha

end Books

section Agreed

theorem due_of_pc (h : ∀ t, pc ≠ .awaitAck t) (i : Bytes) : due pc i = [] := by
  unfold due
  split
  case h_1 t _ _ => exact absurd rfl (h t)
  case h_2 => rfl

theorem due_nil (pc : Pc) : due pc [] = [] := by
  cases pc <;> rfl

theorem due_pending (pc : Pc) (i : Bytes) : due pc i <+: pc.pending := by
  unfold due
  split
  case h_1 => exact ⟨_, rfl⟩
  case h_2 => exact nil_prefix

theorem Agreed.read (h : Agreed me you) (ha : ∀ s, me.pc = .awaitAck s → b = ack)
    (hi : me.inbox = b :: i) : Agreed ({ me with inbox := i }.read k r b) you := by
  unfold Agreed at h ⊢
  unfold Side.read
  dsimp only
  split
  case h_3 t hp =>
    rw [hp, hi, due] at h
    have ⟨_, _, hd⟩ := pc_sendNext
      { me with inbox := i, returned := me.returned ++ [(t.blk, true)] } t.rest
    rw [if_pos (ha t hp), Side.sent, hd, sendNext_eq]
    simpa using h
  all_goals
    rw [due_of_pc (by simp_all)] at h
    (repeat' split) <;> (rw [due_of_pc (by simp_all)]; exact h)

end Agreed

-- Not in the middle of a transfer: all that the end waits for is on the line already.
inductive Calm : Pc → Bytes → Prop
  | idle : Calm .idle []
  | attempt {t} : Calm (.attempt t) []
  | sinking {p blk} : Calm (.sinking p blk) []
  | acked {t : Sending} : Calm (.awaitAck t) [ack]

-- The sender while it has `rest` to write, and the receiver when it has read `got`.
def Emits (t : Sending) (rest : Bytes) (pc : Pc) : Prop :=
  pc = if rest = [] then .awaitAck t else .writing t rest

inductive Absorbed (p : Option Sending) : Bytes → Pc → Prop
  | nothing : Absorbed p [] (.awaitLength p)
  | some {lengthByte buf} : Absorbed p (lengthByte :: buf) (.reading p lengthByte buf)

-- A block on its way: the sender's place and inbox, then the receiver's. An ENQ that the receiver
-- sent before it granted the line may be `left` in the sender's inbox.
inductive Transfer (left : Bytes) : Pc → Bytes → Pc → Bytes → Prop
  | granting {t p} : Transfer left (.awaitEot t) left (.granting p) []
  | granted {t p} : Transfer left (.awaitEot t) (left ++ [eot]) (.awaitLength p) []
  | moving {t p rest got inbox sp rp} :
    Emits t rest sp → Absorbed p got rp → got ++ inbox ++ rest = t.blk.appendTo [] →
    Transfer left sp [] rp inbox
  | acking {t p} : Transfer left (.awaitAck t) [] (.acking p t.blk) []

-- Where the two ends are together. Only the equipment ignores an ENQ.
inductive Phase (s : State) : Prop
  | quiet : (∀ k, Calm (s k).pc (s k).inbox) → Phase s
  | asks {k t x} :
    (s k).pc = .awaitEot t → (s k).inbox = [] → Calm (s !k).pc x → (s !k).inbox = x ++ [enq] →
    Phase s
  | contend {t u} :
    (s true).pc = .awaitEot t → ((s true).inbox = [] ∨ (s true).inbox = [enq]) →
    (s false).pc = .awaitEot u → (s false).inbox = [enq] → Phase s
  | transfer {k left} :
    (left = [] ∨ k = true ∧ left = [enq]) →
    Transfer left (s k).pc (s k).inbox (s !k).pc (s !k).inbox → Phase s

section Wire

theorem wire_cases {blk : Block} (hb : blk.body.length ≤ maxBlockBodySize) :
    ∃ lengthByte rest, blk.appendTo [] = lengthByte :: rest ∧ parseBlock lengthByte rest = .ok blk ∧
      ¬(lengthByte.toNat < minBlockLength ∨ lengthByte.toNat > maxBlockLength) ∧
      rest.length = lengthByte.toNat + checksumSize := by
  obtain ⟨lengthByte, rest, hw, hok⟩ := parseBlock_appendTo hb
  refine ⟨lengthByte, rest, hw, hok, ?_⟩
  rw [parseBlock] at hok
  split at hok
  case isTrue => cases hok
  case isFalse hn =>
    refine ⟨hn, ?_⟩
    split at hok
    case isTrue => cases hok
    case isFalse hl => exact not_not.mp hl

end Wire

section Act

variable {s' : State} {j : Bool}

theorem side_cases (j k : Bool) : j = k ∨ j = !k := by
  cases j <;> cases k <;> decide

theorem forall_side {P : Bool → Prop} (j : Bool) (h : P j) (h' : P (!j)) (k : Bool) : P k := by
  rcases side_cases k j with rfl | rfl
  · exact h
  · exact h'

theorem Calm.act (hc : Calm me.pc x) (ha : me.act = some (me', o)) :
    x = [] ∧ me'.inbox = me.inbox ∧ (∀ p blk, me.pc ≠ .acking p blk) ∧
      (∀ t l, me.pc ≠ .writing t l) ∧
      (o = none ∧ Calm me'.pc [] ∨ o = some enq ∧ ∃ t, me'.pc = .awaitEot t) := by
  unfold Side.act at ha
  generalize hpc : me.pc = pc at *
  cases hc
  case idle => exact nomatch ha
  case acked => exact nomatch ha
  case attempt =>
    cases ha
    exact ⟨rfl, rfl, nofun, nofun, .inr ⟨rfl, _, rfl⟩⟩
  case sinking p blk =>
    cases ha
    refine ⟨rfl, ?_, nofun, nofun, .inl ⟨rfl, ?_⟩⟩
    · cases p <;> rfl
    · cases p
      case none => exact .idle
      case some => exact .attempt

-- A byte written for an end that waits for an ACK is that ACK, or comes after it.
def Handed (me you : Side) (o : Option UInt8) : Prop :=
  (∃ p t, me.pc = .acking p t.blk ∧ you.pc = .awaitAck t ∧ you.inbox = [] ∧ o = some ack) ∨
    (∀ p blk, me.pc ≠ .acking p blk) ∧ (o = none ∨ (∀ t, you.pc ≠ .awaitAck t) ∨ you.inbox ≠ [])

theorem Calm.inbox_ne_nil {t : Sending} (hc : Calm me.pc me.inbox) (hp : me.pc = .awaitAck t) :
    me.inbox ≠ [] := by
  rw [hp] at hc
  generalize me.inbox = i at hc
  cases hc
  exact nofun

theorem Transfer.send {left : Bytes} (h : Transfer left me.pc me.inbox you.pc you.inbox)
    (ha : me.act = some (me', o)) :
    ∃ c, o = some c ∧ Transfer left me'.pc me'.inbox you.pc (you.inbox ++ [c]) ∧ me.inbox = [] ∧
      (∀ p blk, me.pc ≠ .acking p blk) ∧ ∀ t, you.pc ≠ .awaitAck t := by
  unfold Side.act at ha
  generalize hpc : me.pc = pc, hin : me.inbox = i, hpy : you.pc = py, hiy : you.inbox = iy at *
  cases h
  case granting => exact nomatch ha
  case granted  => exact nomatch ha
  case acking   => exact nomatch ha
  case moving t p rest got he hg hw =>
    cases rest
    case nil =>
      rw [Emits, if_pos rfl] at he
      rw [he] at ha
      exact nomatch ha
    case cons c rest =>
      rw [Emits, if_neg (by simp)] at he
      rw [he] at ha
      cases ha
      refine ⟨c, rfl, .moving rfl hg (by simpa using hw), rfl, by simp [he], ?_⟩
      cases hg <;> exact nofun

theorem Transfer.receive {left : Bytes} (h : Transfer left you.pc you.inbox me.pc me.inbox)
    (hb : Books you) (ha : me.act = some (me', o)) :
    (∀ t l, me.pc ≠ .writing t l) ∧
    (Transfer left you.pc (you.inbox ++ o.toList) me'.pc me'.inbox ∧
        (∀ p blk, me.pc ≠ .acking p blk) ∧ (o = none ∨ ∀ t, you.pc ≠ .awaitAck t) ∨
      ∃ p t, me.pc = .acking p t.blk ∧ you.pc = .awaitAck t ∧ you.inbox = [] ∧ o = some ack ∧
        me'.pc = .sinking p t.blk ∧ me'.inbox = []) := by
  have hf := hb.fits
  unfold Side.act at ha
  generalize hpc : me.pc = pc, hin : me.inbox = i, hpy : you.pc = py, hiy : you.inbox = iy at *
  cases h
  case granting t p =>
    cases ha
    exact ⟨nofun, .inl ⟨.granted, nofun, .inr nofun⟩⟩
  case granted => exact nomatch ha
  case acking t p =>
    cases ha
    exact ⟨nofun, .inr ⟨p, t, rfl, rfl, rfl, rfl, rfl, rfl⟩⟩
  case moving t p rest got he hg hw =>
    have ⟨lengthByte, wire, hw', hok, _, hlen⟩ := wire_cases (hf t.blk ?_)
    · cases hg
      case nothing => exact nomatch ha
      case some lb buf =>
        refine ⟨nofun, .inl ?_⟩
        dsimp only at ha
        split at ha
        case isTrue => exact nomatch ha
        case isFalse hfull =>
          have ⟨hlb, hbuf⟩ : lb = lengthByte ∧ buf ++ i ++ rest = wire := by
            rw [hw'] at hw
            simpa using hw
          have hsum : buf.length + i.length + rest.length = lengthByte.toNat + checksumSize := by
            rw [← hlen, ← hbuf]
            simp only [length_append]
          rw [hlb] at hfull ha
          have hi : i = [] := length_eq_zero_iff.mp (by omega)
          have hr : rest = [] := length_eq_zero_iff.mp (by omega)
          rw [hi, hr, append_nil, append_nil] at hbuf
          rw [hbuf, hok] at ha
          cases ha
          refine ⟨?_, nofun, .inl rfl⟩
          rw [hr, Emits, if_pos rfl] at he
          rw [he]
          simpa [hi] using Transfer.acking
    · rw [Emits] at he
      rw [he]
      split <;> simp [Pc.pending]

theorem Phase.act (hp : Phase s) (hb : ∀ k, Books (s k)) (ha : (s j).act = some (me', o))
    (hme : s' j = me') (hyou : s' (!j) = { s (!j) with inbox := (s (!j)).inbox ++ o.toList }) :
    Phase s' ∧ Handed (s j) (s !j) o ∧ ∀ t l, (s j).pc = .writing t l → (s j).inbox = [] := by
  cases hp
  case quiet hc =>
    have ⟨hx, hi, hna, hnw, hres⟩ := (hc j).act ha
    refine ⟨?_, .inr ⟨hna, ?_⟩, fun t l h => absurd h (hnw t l)⟩
    · rcases hres with ⟨rfl, hc'⟩ | ⟨rfl, t, ht⟩
      · refine .quiet (forall_side j ?_ ?_)
        · rw [hme, hi, hx]
          exact hc'
        · rw [hyou]
          simpa using hc (!j)
      · refine .asks (k := j) (t := t) (x := (s !j).inbox) ?_ ?_ ?_ ?_
        · rw [hme, ht]
        · rw [hme, hi, hx]
        · rw [hyou]
          exact hc (!j)
        · rw [hyou]
          rfl
    · by_cases hy : ∃ t, (s !j).pc = .awaitAck t
      case pos => exact .inr (.inr ((hc !j).inbox_ne_nil hy.choose_spec))
      case neg => exact .inr (.inl fun t ht => hy ⟨t, ht⟩)
  case asks k t x hk hki hc hi =>
    rcases side_cases j k with rfl | rfl
    · unfold Side.act at ha
      rw [hk] at ha
      exact nomatch ha
    · rw [Bool.not_not] at hyou ⊢
      have ⟨hx, hi', hna, hnw, hres⟩ := hc.act ha
      rw [hx] at hi
      refine ⟨?_, .inr ⟨hna, .inr (.inl ?_)⟩, fun t l h => absurd h (hnw t l)⟩
      · rcases hres with ⟨rfl, hc'⟩ | ⟨rfl, u, hu⟩
        · refine .asks (k := k) (t := t) (x := []) ?_ ?_ ?_ ?_
          · rw [hyou, hk]
          · rw [hyou, hki]
            rfl
          · rw [hme]
            exact hc'
          · rw [hme, hi', hi]
        · have hke : (s' k).pc = .awaitEot t ∧ (s' k).inbox = [enq] := by
            rw [hyou, hki]
            exact ⟨hk, rfl⟩
          have hne : (s' !k).pc = .awaitEot u ∧ (s' !k).inbox = [enq] := by
            rw [hme, hi', hi]
            exact ⟨hu, rfl⟩
          cases k
          case true  => exact .contend hke.left (.inr hke.right) hne.left hne.right
          case false => exact .contend hne.left (.inr hne.right) hke.left hke.right
      · rw [hk]
        exact nofun
  case contend t u ht hti hu hui =>
    unfold Side.act at ha
    cases j
    case true  => rw [ht] at ha; exact nomatch ha
    case false => rw [hu] at ha; exact nomatch ha
  case transfer k left hl ht =>
    rcases side_cases j k with rfl | rfl
    · have ⟨c, ho, ht', hi, hna, hny⟩ := ht.send ha
      refine ⟨.transfer (k := j) hl ?_, .inr ⟨hna, .inr (.inl hny)⟩, fun _ _ _ => hi⟩
      rw [hme, hyou, ho]
      exact ht'
    · rw [Bool.not_not] at hyou ⊢
      have ⟨hnw, hres⟩ := ht.receive (hb k) ha
      refine ⟨?_, ?_, fun t l h => absurd h (hnw t l)⟩
      · rcases hres with ⟨ht', _, _⟩ | ⟨p, t, _, hk, hki, ho, hpc, hin⟩
        · refine .transfer (k := k) hl ?_
          rw [hme, hyou]
          exact ht'
        · refine .quiet (forall_side k ?_ ?_)
          · rw [hyou, hk, hki, ho]
            exact .acked
          · rw [hme, hpc, hin]
            exact .sinking
      · rcases hres with ⟨_, hna, ho⟩ | ⟨p, t, hpc, hk, hki, ho, _⟩
        · exact .inr ⟨hna, ho.imp_right .inl⟩
        · exact .inl ⟨p, t, hpc, hk, hki, ho⟩

end Act

section Read

variable {s' : State} {j : Bool} {i : Bytes} {m : Side}

theorem calm_sent (me : Side) (t : Sending) : Calm (me.sent t).pc [] := by
  unfold Side.sent
  cases t.rest
  case nil  => exact .idle
  case cons => exact .attempt

theorem inbox_sent (me : Side) (t : Sending) : (me.sent t).inbox = me.inbox := by
  unfold Side.sent
  cases t.rest <;> rfl

theorem read_awaitAck {t : Sending} (hp : m.pc = .awaitAck t) :
    m.read k r ack = m.sent t := by
  unfold Side.read
  rw [hp]
  exact if_pos rfl

theorem read_awaitEot {t : Sending} (hp : m.pc = .awaitEot t) :
    m.read k r eot = { m with pc := .writing t (t.blk.appendTo []) } := by
  unfold Side.read
  rw [hp]
  exact if_pos rfl

-- The equipment ignores the ENQ of the host, and the host gives way to that of the equipment.
theorem read_enq {t : Sending} (hp : m.pc = .awaitEot t) :
    m.read k r enq = if k = true then m else { m with pc := .granting (some t) } := by
  unfold Side.read
  rw [hp]
  cases k <;> rfl

theorem read_idle (hp : m.pc = .idle) :
    m.read k r enq = { m with pc := .granting none } := by
  unfold Side.read
  rw [hp]
  exact if_pos rfl

theorem Calm.read {y : Bytes} (hc : Calm me.pc x) (hr : me.atRead = true) (hi : x ++ y = b :: i) :
    x = [] ∧ me.pc = .idle ∨ b = ack ∧ i = y ∧ ∃ t, me.pc = .awaitAck t := by
  unfold Side.atRead at hr
  generalize me.pc = pc at *
  cases hc
  case idle    => exact .inl ⟨rfl, rfl⟩
  case attempt => exact nomatch hr
  case sinking => exact nomatch hr
  case acked t =>
    have ⟨hb, hy⟩ := cons.inj hi
    exact .inr ⟨hb.symm, hy.symm, t, rfl⟩

theorem Transfer.sendRead {left : Bytes} (h : Transfer left me.pc me.inbox you.pc you.inbox)
    (hl : left = [] ∨ k = true ∧ left = [enq]) (hi : me.inbox = b :: i) :
    Transfer [] ({ me with inbox := i }.read k r b).pc ({ me with inbox := i }.read k r b).inbox
        you.pc you.inbox ∧
      ∀ t, me.pc ≠ .awaitAck t := by
  generalize hpc : me.pc = pc, hin : me.inbox = n, hpy : you.pc = py, hiy : you.inbox = iy at h
  rw [hin] at hi
  cases h
  case granting t p =>
    rcases hl with hl | ⟨rfl, hl⟩
    · cases hl.symm.trans hi
    · obtain ⟨hb, hi⟩ := cons.inj (hl.symm.trans hi)
      rw [← hb, read_enq rfl, if_pos rfl, ← hi]
      exact ⟨.granting, by simp⟩
  case granted t p =>
    rcases hl with hl | ⟨rfl, hl⟩
    · rw [hl] at hi
      obtain ⟨hb, hi⟩ := cons.inj hi
      have he : Emits t (t.blk.appendTo []) (.writing t (t.blk.appendTo [])) := by
        rw [Emits, if_neg (by simp [Block.appendTo])]
      rw [← hb, read_awaitEot rfl, ← hi]
      exact ⟨.moving he .nothing rfl, by simp⟩
    · rw [hl] at hi
      obtain ⟨hb, hi⟩ := cons.inj hi
      rw [← hb, read_enq rfl, if_pos rfl, ← hi]
      exact ⟨.granted, by simp⟩
  case moving => cases hi
  case acking => cases hi

theorem Transfer.receiveRead {left : Bytes} (h : Transfer left you.pc you.inbox me.pc me.inbox)
    (hb : Books you) (hi : me.inbox = b :: i) :
    Transfer left you.pc you.inbox ({ me with inbox := i }.read k r b).pc
        ({ me with inbox := i }.read k r b).inbox ∧
      ∀ t, me.pc ≠ .awaitAck t := by
  have hf := hb.fits
  generalize hpc : me.pc = pc, hin : me.inbox = n, hpy : you.pc = py, hiy : you.inbox = iy at *
  cases h
  case granting => exact nomatch hi
  case granted  => exact nomatch hi
  case acking   => exact nomatch hi
  case moving t p rest got he hg hw =>
    have ⟨lengthByte, wire, hw', hok, hlb, hlen⟩ := wire_cases (hf t.blk ?_)
    · rw [hi] at hw
      unfold Side.read
      cases hg
      case nothing =>
        have hbl : b = lengthByte := by
          rw [hw'] at hw
          exact (cons.inj hw).left
        dsimp only
        rw [if_neg (hbl ▸ hlb)]
        exact ⟨.moving he .some hw, nofun⟩
      case some lb buf =>
        exact ⟨.moving he .some (by simpa using hw), nofun⟩
    · rw [Emits] at he
      rw [he]
      split <;> simp [Pc.pending]

theorem Phase.read (hp : Phase s) (hb : ∀ k, Books (s k)) (hr : (s j).atRead = true)
    (hi : (s j).inbox = b :: i) (hme : s' j = { s j with inbox := i }.read j r b)
    (hyou : s' (!j) = s !j) : Phase s' ∧ ∀ t, (s j).pc = .awaitAck t → b = ack := by
  cases hp
  case quiet hc =>
    rcases (hc j).read (y := []) hr (by simpa using hi) with ⟨hx, _⟩ | ⟨rfl, hin, t, ht⟩
    · exact nomatch hx.symm.trans hi
    · refine ⟨.quiet (forall_side j ?_ ?_), fun _ _ => rfl⟩
      · rw [hme, read_awaitAck (m := { s j with inbox := i }) ht, inbox_sent, hin]
        exact calm_sent ..
      · rw [hyou]
        exact hc !j
  case asks k t x hk hki hc hin =>
    rcases side_cases j k with rfl | rfl
    · exact nomatch hki.symm.trans hi
    · rw [Bool.not_not] at hyou
      rcases hc.read hr (hin.symm.trans hi) with ⟨hx, hid⟩ | ⟨rfl, hin', u, hu⟩
      · rw [hx] at hin
        have ⟨hbe, hie⟩ := cons.inj (hin.symm.trans hi)
        refine ⟨.transfer (k := k) (.inl rfl) ?_, fun t ht => nomatch hid.symm.trans ht⟩
        rw [hme, hyou, ← hbe, read_idle (m := { s !k with inbox := i }) hid, ← hie, hk, hki]
        exact .granting
      · refine ⟨.asks (k := k) (t := t) (x := []) ?_ ?_ ?_ ?_, fun _ _ => rfl⟩
        · rw [hyou, hk]
        · rw [hyou, hki]
        · rw [hme, read_awaitAck (m := { s !k with inbox := i }) hu]
          exact calm_sent ..
        · rw [hme, read_awaitAck (m := { s !k with inbox := i }) hu, inbox_sent, hin']
          rfl
  case contend t u ht hti hu hui =>
    cases j
    case true =>
      have hyou : s' false = s false := hyou
      rcases hti with hti | hti
      · exact nomatch hti.symm.trans hi
      · have ⟨hbe, hie⟩ := cons.inj (hti.symm.trans hi)
        rw [← hbe, read_enq (m := { s true with inbox := i }) ht, if_pos rfl] at hme
        refine ⟨.contend (t := t) (u := u) ?_ (.inl ?_) ?_ ?_, fun v hv => nomatch ht.symm.trans hv⟩
        · rw [hme, ht]
        · rw [hme, ← hie]
        · rw [hyou, hu]
        · rw [hyou, hui]
    case false =>
      have hyou : s' true = s true := hyou
      have ⟨hbe, hie⟩ := cons.inj (hui.symm.trans hi)
      rw [← hbe, read_enq (m := { s false with inbox := i }) hu, if_neg (by decide)] at hme
      refine ⟨.transfer (k := true) (hti.imp_right fun h => ⟨rfl, h⟩) ?_,
        fun v hv => nomatch hu.symm.trans hv⟩
      rw [Bool.not_true, hme, hyou, ← hie, ht]
      exact .granting
  case transfer k left hl ht =>
    rcases side_cases j k with rfl | rfl
    · have ⟨ht', hna⟩ := ht.sendRead (k := j) (r := r) hl hi
      refine ⟨.transfer (k := j) (.inl rfl) ?_, fun t h => absurd h (hna t)⟩
      rw [hme, hyou]
      exact ht'
    · rw [Bool.not_not] at hyou
      have ⟨ht', hna⟩ := ht.receiveRead (k := !k) (r := r) (hb k) hi
      refine ⟨.transfer (k := k) hl ?_, fun t h => absurd h (hna t)⟩
      rw [hme, hyou]
      exact ht'

end Read

section Run

-- What holds of the two ends in every state of a run.
structure Agreement (s : State) : Prop where
  phase  : Phase s
  books  : ∀ k, Books (s k)
  agreed : ∀ k, Agreed (s k) (s !k)

variable {s' : State} {j : Bool} {a : Action}

theorem accepted_act (hna : ∀ p blk, me.pc ≠ .acking p blk) (ha : me.act = some (me', o)) :
    me'.accepted = me.accepted := by
  unfold Side.act at ha
  split at ha
  case h_4 =>
    split at ha
    case isTrue => exact nomatch ha
    case isFalse => split at ha <;> cases ha <;> rfl
  case h_5 hp => exact absurd hp (hna _ _)
  case h_6 p _ _ => cases ha; cases p <;> rfl
  case h_7 => exact nomatch ha
  all_goals cases ha; rfl

theorem due_append
    (h : o = none ∨ (∀ t, pc ≠ .awaitAck t) ∨ i ≠ []) : due pc (i ++ o.toList) = due pc i := by
  rcases h with rfl | h | h
  · simp
  · rw [due_of_pc h, due_of_pc h]
  · have ⟨c, i', hi⟩ := exists_cons_of_ne_nil h
    rw [hi]
    cases pc <;> rfl

theorem Handed.agreed (h : Handed me you o) (ha : me.act = some (me', o)) (hg : Agreed you me) :
    Agreed { you with inbox := you.inbox ++ o.toList } me' := by
  unfold Agreed at hg ⊢
  rcases h with ⟨p, t, hp, hy, hi, rfl⟩ | ⟨hna, hy⟩
  · unfold Side.act at ha
    rw [hp] at ha
    cases ha
    rw [hi, due_nil, append_nil] at hg
    simp [hg, hy, hi, due]
  · rw [accepted_act hna ha, due_append hy]
    exact hg

theorem Agreed.act (h : Agreed me you) (ha : me.act = some (me', o))
    (hw : ∀ t l, me.pc = .writing t l → me.inbox = []) :
    Agreed me' { you with inbox := you.inbox ++ o.toList } := by
  unfold Agreed at h ⊢
  unfold Side.act at ha
  split at ha
  case h_2 hp =>
    cases ha
    rw [hw _ _ hp, due_nil] at h
    rw [hw _ _ hp, due_nil]
    exact h
  case h_4 hp =>
    rw [due_of_pc (by simp [hp])] at h
    split at ha
    case isTrue  => exact nomatch ha
    case isFalse => split at ha <;> cases ha <;> (rw [due_of_pc (by simp)]; exact h)
  case h_6 p _ hp =>
    rw [due_of_pc (by simp [hp])] at h
    cases ha
    cases p <;> (rw [due_of_pc (by simp [Side.resume])]; exact h)
  case h_7 => exact nomatch ha
  all_goals
    rw [due_of_pc (by simp_all)] at h
    cases ha
    rw [due_of_pc (by simp)]
    exact h

theorem Phase.congr (h : Phase s) (hp : ∀ k, (s' k).pc = (s k).pc)
    (hi : ∀ k, (s' k).inbox = (s k).inbox) : Phase s' := by
  cases h
  case quiet hc => exact .quiet fun k => by rw [hp, hi]; exact hc k
  case asks k t x h₁ h₂ h₃ h₄ =>
    exact .asks (k := k) ((hp k).trans h₁) ((hi k).trans h₂) ((hp !k).symm ▸ h₃) ((hi !k).trans h₄)
  case contend h₁ h₂ h₃ h₄ =>
    exact .contend ((hp true).trans h₁) ((hi true).symm ▸ h₂) ((hp false).trans h₃)
      ((hi false).trans h₄)
  case transfer k left hl ht =>
    refine .transfer (k := k) hl ?_
    rw [hp, hp, hi, hi]
    exact ht

theorem Calm.not_draining (h : Calm pc x) : pc.isDraining = false := by
  cases h <;> rfl

theorem Transfer.busy {left si ri : Bytes} {sp rp : Pc} (h : Transfer left sp si rp ri) :
    (sp ≠ .idle ∧ sp.isDraining = false) ∧ rp ≠ .idle ∧ rp.isDraining = false := by
  cases h
  case granting => exact ⟨⟨nofun, rfl⟩, nofun, rfl⟩
  case granted  => exact ⟨⟨nofun, rfl⟩, nofun, rfl⟩
  case acking   => exact ⟨⟨nofun, rfl⟩, nofun, rfl⟩
  case moving he hg _ =>
    rw [Emits] at he
    rw [he]
    constructor
    case left  => split <;> exact ⟨nofun, rfl⟩
    case right => cases hg <;> exact ⟨nofun, rfl⟩

theorem Phase.take (h : Phase s) (hid : (s j).pc = .idle) (hc' : Calm (s' j).pc [])
    (hi : (s' j).inbox = (s j).inbox) (hyou : s' (!j) = s !j) : Phase s' := by
  cases h
  case quiet hc =>
    have hx := hc j
    rw [hid] at hx
    generalize hin : (s j).inbox = i at hx
    cases hx
    refine .quiet (forall_side j ?_ ?_)
    · rw [hi, hin]
      exact hc'
    · rw [hyou]
      exact hc !j
  case asks k t x h₁ h₂ h₃ h₄ =>
    rcases side_cases j k with rfl | rfl
    · exact nomatch hid.symm.trans h₁
    · rw [Bool.not_not] at hyou
      rw [hid] at h₃
      cases h₃
      exact .asks (k := k) (by rw [hyou, h₁]) (by rw [hyou, h₂]) hc' (hi.trans h₄)
  case contend h₁ h₂ h₃ h₄ =>
    cases j
    case true  => exact nomatch hid.symm.trans h₁
    case false => exact nomatch hid.symm.trans h₃
  case transfer k left hl ht =>
    have ⟨hs, hr⟩ := ht.busy
    rcases side_cases j k with rfl | rfl
    · exact absurd hid hs.left
    · exact absurd hid hr.left

theorem Phase.not_draining (h : Phase s) : (s j).pc.isDraining = false := by
  cases h
  case quiet hc => exact (hc j).not_draining
  case asks k t x h₁ h₂ h₃ h₄ =>
    rcases side_cases j k with rfl | rfl
    · rw [h₁]; rfl
    · exact h₃.not_draining
  case contend h₁ h₂ h₃ h₄ =>
    cases j
    case true  => rw [h₁]; rfl
    case false => rw [h₃]; rfl
  case transfer k left hl ht =>
    have ⟨hs, hr⟩ := ht.busy
    rcases side_cases j k with rfl | rfl
    · exact hs.right
    · exact hr.right

theorem not_self (j : Bool) : (!j) ≠ j := by
  cases j <;> decide

theorem put_self (s : State) (j : Bool) (me : Side) : s.put j me j = me :=
  update_self ..

theorem put_other (s : State) (j : Bool) (me : Side) : s.put j me (!j) = s !j :=
  update_of_ne (not_self j) ..

theorem next_act (hg : guard s ⟨j, .act⟩) :
    ∃ me' o, (s j).act = some (me', o) ∧ next r s ⟨j, .act⟩ j = me' ∧
      next r s ⟨j, .act⟩ (!j) = { s (!j) with inbox := (s (!j)).inbox ++ o.toList } := by
  have ⟨⟨me', o⟩, ha⟩ := Option.isSome_iff_exists.mp hg
  refine ⟨me', o, ha, ?_⟩
  simp only [next, ha]
  cases o
  case none => exact ⟨put_self .., (put_other ..).trans (by simp)⟩
  case some b =>
    refine ⟨?_, ?_⟩
    · exact (update_of_ne (not_self j).symm ..).trans (put_self ..)
    · show update _ _ _ _ = _
      rw [update_self, put_other]
      rfl

theorem next_read (hg : guard s ⟨j, .read⟩) :
    ∃ b i, (s j).inbox = b :: i ∧ (s j).atRead = true ∧
      next r s ⟨j, .read⟩ j = { s j with inbox := i }.read j r b ∧
      next r s ⟨j, .read⟩ (!j) = s !j := by
  have ⟨b, i, hi⟩ := exists_cons_of_ne_nil hg.right
  refine ⟨b, i, hi, hg.left, ?_⟩
  simp only [next, hi]
  exact ⟨put_self .., put_other ..⟩

theorem next_take (hg : guard s ⟨j, .take⟩) :
    ∃ bs rs, (s j).requests = bs :: rs ∧ (s j).pc = .idle ∧
      next r s ⟨j, .take⟩ j = { s j with requests := rs }.sendNext bs ∧
      next r s ⟨j, .take⟩ (!j) = s !j := by
  have ⟨bs, rs, hrs⟩ := exists_cons_of_ne_nil hg.right
  refine ⟨bs, rs, hrs, hg.left, ?_⟩
  simp only [next, hrs]
  exact ⟨put_self .., put_other ..⟩

theorem accepted_read (me : Side) (b : UInt8) : (me.read k r b).accepted = me.accepted := by
  unfold Side.read
  split
  case h_3 t _ =>
    split
    case isTrue  => rw [Side.sent, sendNext_eq]
    case isFalse => unfold Side.failed; split <;> rfl
  all_goals (repeat' split) <;> rfl

theorem next_request (bs : List Block) :
    next r s ⟨j, .request bs⟩ j =
        { s j with requests := (s j).requests ++ [bs], asked := (s j).asked ++ bs } ∧
      next r s ⟨j, .request bs⟩ (!j) = s !j :=
  ⟨put_self .., put_other ..⟩

theorem Books.request (h : Books me) (hb : ∀ b ∈ bs, b.body.length ≤ maxBlockBodySize) :
    Books { me with requests := me.requests ++ [bs], asked := me.asked ++ bs } where
  asked := by simp [h.asked]
  accepted := h.accepted
  nil := h.nil
  naks := h.naks
  fits b := by
    intro hm
    simp only [flatten_append, flatten_singleton, ← append_assoc] at hm
    exact (mem_append.mp hm).elim (h.fits b) (hb b)

theorem Books.take {rs : List (List Block)} (h : Books me) (hid : me.pc = .idle)
    (hrs : me.requests = bs :: rs) : Books ({ me with requests := rs }.sendNext bs) := by
  have ha := h.asked
  have hc := h.accepted
  have hf := h.fits
  rw [hid, hrs] at ha hf
  rw [hid] at hc
  exact .sendNext (by simpa [Pc.held] using hc) (by simpa [Pc.pending] using ha) h.nil h.naks
    (by simpa [Pc.pending] using hf)

theorem Agreement.next (h : Agreement s) (hg : guard s a) : Agreement (next r s a) := by
  obtain ⟨j, step⟩ := a
  have hn := h.agreed !j
  rw [Bool.not_not] at hn
  cases step
  case request bs =>
    have ⟨hme, hyou⟩ := next_request (s := s) (r := r) (j := j) bs
    refine ⟨h.phase.congr (forall_side j ?_ ?_) (forall_side j ?_ ?_), forall_side j ?_ ?_,
      forall_side j ?_ ?_⟩
    · rw [hme]
    · rw [hyou]
    · rw [hme]
    · rw [hyou]
    · rw [hme]
      exact (h.books j).request hg
    · rw [hyou]
      exact h.books !j
    · rw [hme, hyou]
      exact h.agreed j
    · rw [hyou, Bool.not_not, hme]
      exact hn
  case take =>
    have ⟨bs, rs, hrs, hid, hme, hyou⟩ := next_take (r := r) hg
    have ⟨_, _, hd⟩ := pc_sendNext { s j with requests := rs } bs
    refine ⟨h.phase.take hid ?_ ?_ hyou, forall_side j ?_ ?_, forall_side j ?_ ?_⟩
    · rw [hme]
      cases bs
      case nil  => exact .idle
      case cons => exact .attempt
    · rw [hme, sendNext_eq]
    · rw [hme]
      exact (h.books j).take hid hrs
    · rw [hyou]
      exact h.books !j
    · have ha := h.agreed j
      rw [Agreed, hid, due_of_pc (by simp)] at ha
      rw [hme, hyou, Agreed, hd, sendNext_eq]
      exact ha
    · rw [hyou, Bool.not_not, hme, Agreed, sendNext_eq]
      exact hn
  case read =>
    have ⟨b, i, hi, hr, hme, hyou⟩ := next_read (r := r) hg
    have ⟨hp, hack⟩ := h.phase.read h.books hr hi hme hyou
    refine ⟨hp, forall_side j ?_ ?_, forall_side j ?_ ?_⟩
    · rw [hme]
      exact (h.books j).read hack i
    · rw [hyou]
      exact h.books !j
    · rw [hme, hyou]
      exact (h.agreed j).read hack hi
    · rw [hyou, Bool.not_not, hme, Agreed, accepted_read]
      exact hn
  case act =>
    have ⟨me', o, ha, hme, hyou⟩ := next_act (r := r) hg
    have ⟨hp, hh, hw⟩ := h.phase.act h.books ha hme hyou
    refine ⟨hp, forall_side j ?_ ?_, forall_side j ?_ ?_⟩
    · rw [hme]
      exact (h.books j).act ha
    · rw [hyou]
      exact (h.books !j).move rfl rfl
    · rw [hme, hyou]
      exact (h.agreed j).act ha hw
    · rw [hyou, Bool.not_not, hme]
      exact hh.agreed ha hn
  case silence =>
    exact absurd (h.phase.not_draining.symm.trans hg) (by decide)

theorem agreement_of_reachable (hr : (line r).Reachable s) : Agreement s := by
  refine hr.invariant ?_ ?_
  · intro s h
    refine ⟨.quiet fun k => ?_, fun k => ?_, fun k => ?_⟩
    · rw [h k]
      exact .idle
    · rw [h k]
      exact ⟨rfl, rfl, nofun, rfl, nofun⟩
    · rw [h k, h !k]
      rfl
  · intro _ _ _ h hg
    exact h.next hg

theorem Agreement.accepted_grows (h : Agreement s) (hg : guard s a) :
    (s k).accepted <+: (Line.next r s a k).accepted := by
  obtain ⟨j, step⟩ := a
  revert k
  cases step
  case request bs =>
    have ⟨hme, hyou⟩ := next_request (s := s) (r := r) (j := j) bs
    exact forall_side j (by rw [hme]) (by rw [hyou])
  case take =>
    have ⟨bs, rs, hrs, hid, hme, hyou⟩ := next_take (r := r) hg
    exact forall_side j (by rw [hme, sendNext_eq]) (by rw [hyou])
  case read =>
    have ⟨b, i, hi, hr, hme, hyou⟩ := next_read (r := r) hg
    exact forall_side j (by rw [hme, accepted_read]) (by rw [hyou])
  case act =>
    have ⟨me', o, ha, hme, hyou⟩ := next_act (r := r) hg
    refine forall_side j ?_ (by rw [hyou])
    rw [hme]
    by_cases hac : ∃ p blk, (s j).pc = .acking p blk
    case pos =>
      have ⟨p, blk, hp⟩ := hac
      unfold Side.act at ha
      rw [hp] at ha
      cases ha
      exact prefix_append ..
    case neg => rw [accepted_act (fun p blk hp => hac ⟨p, blk, hp⟩) ha]
  case silence =>
    exact fun {_} => absurd (h.phase.not_draining.symm.trans hg) (by decide)

def Yielding : Pc → Prop
  | .granting p | .awaitLength p | .reading p _ _ | .acking p _ => p.isSome
  | _ => False

-- Since it began to yield, the host has not written, or it has accepted a block.
def Postponed (bytes : Nat) (before : List Block) (me : Side) : Prop :=
  Yielding me.pc ∧ me.blockBytes = bytes ∧ me.accepted = before ∨
    ∃ blk, before ++ [blk] <+: me.accepted

theorem Yielding.read (h : Yielding me.pc) (hr : me.atRead = true)
    (hd : ({ me with inbox := i }.read k r b).pc.isDraining = false) :
    Yielding ({ me with inbox := i }.read k r b).pc ∧
      ({ me with inbox := i }.read k r b).blockBytes = me.blockBytes := by
  unfold Side.read Side.atRead at *
  generalize hpc : me.pc = pc at *
  cases pc
  case awaitLength p =>
    dsimp only at hd ⊢
    split
    case isTrue hb => rw [if_pos hb] at hd; exact nomatch hd
    case isFalse   => exact ⟨h, rfl⟩
  case reading => exact ⟨h, rfl⟩
  case granting => exact nomatch hr
  case acking   => exact nomatch hr
  all_goals exact h.elim

theorem Yielding.act (h : Yielding me.pc) (ha : me.act = some (me', o))
    (hd : me'.pc.isDraining = false) :
    Yielding me'.pc ∧ me'.blockBytes = me.blockBytes ∧ me'.accepted = me.accepted ∨
      ∃ blk, me'.accepted = me.accepted ++ [blk] := by
  unfold Side.act at ha
  generalize hpc : me.pc = pc at *
  cases pc
  case granting => cases ha; exact .inl ⟨h, rfl, rfl⟩
  case acking   => cases ha; exact .inr ⟨_, rfl⟩
  case reading p lb buf =>
    dsimp only at ha
    split at ha
    case isTrue => exact nomatch ha
    case isFalse =>
      split at ha <;> cases ha
      · exact .inl ⟨h, rfl, rfl⟩
      · exact nomatch hd
  case awaitLength => exact nomatch ha
  all_goals exact h.elim

theorem Postponed.next {n : Nat} (hp : Postponed n bs (s false)) (h : Agreement s)
    (hg : guard s a) : Postponed n bs (Line.next r s a false) := by
  rcases hp with ⟨hy, hn, hb⟩ | ⟨blk, hb⟩
  case inr => exact .inr ⟨blk, hb.trans (h.accepted_grows hg)⟩
  have hd := (h.next (r := r) hg).phase.not_draining (j := false)
  obtain ⟨j, step⟩ := a
  have keep (i : Bytes) : Postponed n bs { s false with inbox := i } := .inl ⟨hy, hn, hb⟩
  cases step
  case request cs =>
    have ⟨hme, hyou⟩ := next_request (s := s) (r := r) (j := j) cs
    cases j
    case true  => rw [show Line.next r s _ false = _ from hyou]; exact keep _
    case false => rw [hme]; exact .inl ⟨hy, hn, hb⟩
  case take =>
    have ⟨bs, rs, hrs, hid, hme, hyou⟩ := next_take (r := r) hg
    cases j
    case true  => rw [show Line.next r s _ false = _ from hyou]; exact keep _
    case false => rw [hid] at hy; exact hy.elim
  case read =>
    have ⟨b, i, hi, hr, hme, hyou⟩ := next_read (r := r) hg
    cases j
    case true => rw [show Line.next r s _ false = _ from hyou]; exact keep _
    case false =>
      have ⟨hy', hn'⟩ := hy.read (k := false) (r := r) (b := b) (i := i) hr
        (by rw [← hme]; exact hd)
      rw [hme]
      exact .inl ⟨hy', hn'.trans hn, (accepted_read ..).trans hb⟩
  case act =>
    have ⟨me', o, ha, hme, hyou⟩ := next_act (r := r) hg
    cases j
    case true => rw [show Line.next r s _ false = _ from hyou]; exact keep _
    case false =>
      have hres := hy.act ha (by rw [← hme]; exact hd)
      rw [hme]
      rcases hres with ⟨hy', hn', hb'⟩ | ⟨blk, hb'⟩
      · exact .inl ⟨hy', hn'.trans hn, hb'.trans hb⟩
      · exact .inr ⟨blk, by rw [hb', hb]⟩
  case silence =>
    exact absurd (h.phase.not_draining.symm.trans hg) (by decide)

end Run

-- However the two ends take turns: each sink has a beginning of what the other end was asked to
-- send, no send failed, no NAK was sent, and a host that gives way gets its block before it writes
-- its own.
theorem line_agreement (hr : (line r).Reachable s) :
    (∀ k, (s k).sunk <+: (s !k).asked) ∧
    (∀ k, (∀ x ∈ (s k).returned, x.2 = true) ∧ (s k).returned.map (·.1) <+: (s !k).accepted ∧
      (s k).accepted <+: (s !k).asked) ∧
    (∀ k, (s k).naks = 0) ∧
    ∀ t i, (s false).pc = .awaitEot t → (s false).inbox = enq :: i →
      ∀ as, (line r).Run (next r s ⟨false, .read⟩) as →
        ((line r).exec (next r s ⟨false, .read⟩) as false).blockBytes = (s false).blockBytes ∨
          ∃ blk, (s false).accepted ++ [blk] <+:
            ((line r).exec (next r s ⟨false, .read⟩) as false).accepted := by
  have h := agreement_of_reachable hr
  have hacc k : (s k).accepted <+: (s !k).asked := by
    have ha := h.agreed !k
    rw [Bool.not_not] at ha
    rw [ha, (h.books !k).asked, List.append_assoc, List.prefix_append_right_inj]
    exact (due_pending ..).trans (List.prefix_append ..)
  refine ⟨fun k => ?_, fun k => ⟨(h.books k).nil, ?_, hacc k⟩, fun k => (h.books k).naks, ?_⟩
  · refine .trans ?_ (hacc k)
    rw [(h.books k).accepted]
    exact List.prefix_append ..
  · rw [h.agreed k]
    exact List.prefix_append ..
  · intro t i hp hi as hrun
    have hg : guard s ⟨false, .read⟩ := ⟨by simp [Side.atRead, hp], by simp [hi]⟩
    have hr' : (line r).Reachable (next r s ⟨false, .read⟩) :=
      .step (m := line r) (a := ⟨false, .read⟩) hr hg
    have hpost : Postponed (s false).blockBytes (s false).accepted
        (next r s ⟨false, .read⟩ false) := by
      have ⟨b, i', hi', _, hme, _⟩ := next_read (r := r) hg
      have ⟨hb, _⟩ := List.cons.inj (hi.symm.trans hi')
      rw [hme, ← hb, read_enq (m := { s false with inbox := i' }) hp, if_neg (by decide)]
      exact .inl ⟨rfl, rfl, rfl⟩
    have hend := hr'.keeps
      (P := fun s' => Postponed (s false).blockBytes (s false).accepted (s' false))
      (fun hr hp hg => hp.next (agreement_of_reachable hr) hg) hpost hrun
    exact hend.imp_left fun ⟨_, hn, _⟩ => hn

def contention : List Action :=
  let acts (k : Bool) (n : Nat) := replicate n (Action.mk k .act)
  let reads (k : Bool) (n : Nat) := replicate n (Action.mk k .read)
  [⟨true, .request [Block.mk .zero []]⟩, ⟨false, .request [Block.mk .zero [5]]⟩, ⟨true, .take⟩,
   ⟨false, .take⟩] ++
  acts true 1 ++ acts false 1 ++ reads true 1 ++ reads false 1 ++ acts false 1 ++ reads true 1 ++
  acts true 13 ++ reads false 13 ++ acts false 2 ++ reads true 1 ++ acts false 2 ++
  reads true 1 ++ acts true 1 ++ reads false 1 ++ acts false 14 ++ reads true 14 ++ acts true 3 ++
  reads false 1

theorem line_agreement_contention :
    let s := (line 3).exec (fun _ => {}) contention
    (s true).sunk = [Block.mk .zero [5]] ∧ (s false).sunk = [Block.mk .zero []] ∧
      (∀ k, (s k).sunk <+: (s !k).asked) ∧ ∀ k, (s k).naks = 0 := by
  have hr : (line 3).Reachable ((line 3).exec (fun _ => {}) contention) := by
    have hi : (line 3).Reachable fun _ => {} := .init fun _ => rfl
    refine hi.exec ?_
    decide +kernel
  have h := line_agreement hr
  exact ⟨by decide +kernel, by decide +kernel, h.left, h.right.right.left⟩

end Secs1.Line
