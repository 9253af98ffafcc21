import GoSecs.Secs1.Theorems.Line

open Secs2

namespace Secs1.Line

variable {s : State} {j k : Bool} {r : Nat} {m m' : Side} {b : UInt8} {o : Option UInt8}
variable {x i : Bytes} {a : Action}

-- A step that the two ends take on their own.
def Action.isOwn (a : Action) : Bool :=
  match a.step with
  | .request _ => false
  | _ => true

section Work

-- An ENQ may make the end `k` that reads it receive a block. The host that gives way has to send
-- another ENQ, so that of the equipment weighs more.
def byteWork (k : Bool) (b : UInt8) : Nat :=
  if b = enq then if k then 7 else 15 else 1

def blocksWork (k : Bool) (bs : List Block) : Nat :=
  (bs.map fun blk => byteWork (!k) enq + 1 + 16 * (blk.appendTo []).length).sum

def sendingWork (k : Bool) (p : Option Sending) : Nat :=
  p.elim 0 fun t => blocksWork k (t.blk :: t.rest)

def Pc.work (k : Bool) : Pc → Nat
  | idle | draining _ => 0
  | attempt t => sendingWork k (some t)
  | awaitEot t => 16 * (t.blk.appendTo []).length + blocksWork k t.rest
  | writing t left => 16 * left.length + blocksWork k t.rest
  | awaitAck t => blocksWork k t.rest
  | granting p => sendingWork k p + 6
  | awaitLength p | reading p _ _ => sendingWork k p + 4
  | acking p _ => sendingWork k p + 3
  | sinking p _ => sendingWork k p + 1

def Side.work (k : Bool) (m : Side) : Nat :=
  m.pc.work k + (m.inbox.map (byteWork k)).sum +
    (m.requests.map fun bs => blocksWork k bs + 1).sum

-- A bound for the steps that the two ends can still take.
def State.work (s : State) : Nat :=
  (s true).work true + (s false).work false

theorem State.work_eq (s : State) (j : Bool) : s.work = (s j).work j + (s !j).work !j := by
  cases j
  case true  => rfl
  case false => exact Nat.add_comm ..

theorem byteWork_pos (k : Bool) (b : UInt8) : 0 < byteWork k b ∧ byteWork k b ≤ 15 := by
  unfold byteWork
  split
  case isTrue  => cases k <;> decide
  case isFalse => decide

theorem work_sendNext (m : Side) (bs : List Block) :
    (m.sendNext bs).work k = { m with pc := .idle }.work k + blocksWork k bs := by
  cases bs <;> (simp [Side.sendNext, Side.work, Pc.work, sendingWork, blocksWork]; try omega)

theorem work_read (ha : ∀ t, m.pc = .awaitAck t → b = ack) :
    (m.read k r b).work k < m.work k + byteWork k b := by
  have hb := (byteWork_pos k b).left
  unfold Side.read
  split
  case h_1 hp =>
    split
    case isTrue he => cases k <;> simp [Side.work, hp, Pc.work, sendingWork, he, byteWork] <;> omega
    case isFalse => omega
  case h_2 t hp =>
    split
    case isTrue => simp [Side.work, hp, Pc.work]; omega
    case isFalse =>
      split
      case isTrue he =>
        simp [Side.work, hp, Pc.work, sendingWork, blocksWork, he, byteWork]
        omega
      case isFalse => omega
  case h_3 t hp =>
    rw [if_pos (ha t hp), Side.sent, work_sendNext]
    simp only [Side.work, hp, Pc.work]
    omega
  case h_4 p hp =>
    split <;> simp only [Side.work, hp, Pc.work] <;> omega
  case h_5 => simp_all [Side.work, Pc.work]
  case h_6 => omega

theorem work_act (ha : m.act = some (m', o)) :
    m'.work k + (o.toList.map (byteWork !k)).sum < m.work k := by
  unfold Side.act at ha
  split at ha
  case h_1 t hp =>
    cases ha
    simp [Side.work, hp, Pc.work, sendingWork, blocksWork]
    omega
  case h_2 t c left hp =>
    cases ha
    have hc := (byteWork_pos (!k) c).right
    simp only [Side.work, hp]
    split <;> simp_all [Pc.work] <;> omega
  case h_3 p hp =>
    cases ha
    simp [Side.work, hp, Pc.work, byteWork, eot, enq]
    omega
  case h_4 p lb buf hp =>
    split at ha
    case isTrue => cases ha
    case isFalse => split at ha <;> cases ha <;> simp [Side.work, hp, Pc.work]
  case h_5 p blk hp =>
    cases ha
    simp [Side.work, hp, Pc.work, byteWork, ack, enq]
    omega
  case h_6 p blk hp =>
    cases ha
    cases p <;> simp [Side.work, Side.resume, hp, Pc.work, sendingWork]
  case h_7 => cases ha

theorem work_next (h : Agreement s) (hg : guard s a) (ho : a.isOwn = true) :
    (next r s a).work < s.work := by
  obtain ⟨j, step⟩ := a
  rw [State.work_eq _ j, State.work_eq s j]
  cases step
  case request => cases ho
  case take =>
    obtain ⟨bs, rs, hrs, hid, hme, hyou⟩ := next_take (r := r) hg
    rw [hme, hyou, work_sendNext]
    simp [Side.work, hrs, hid]
    omega
  case read =>
    obtain ⟨b, i, hi, hr, hme, hyou⟩ := next_read (r := r) hg
    have hack := (h.phase.read h.books hr hi hme hyou).right
    have hw := work_read (m := { s j with inbox := i }) (k := j) (r := r) hack
    rw [hme, hyou]
    simp only [Side.work, hi, List.map_cons, List.sum_cons] at hw ⊢
    omega
  case act =>
    obtain ⟨m', o, ha, hme, hyou⟩ := next_act (r := r) hg
    have hw := work_act (k := j) ha
    rw [hme, hyou]
    simp only [Side.work, List.map_append, List.sum_append] at hw ⊢
    omega
  case silence => exact absurd (h.phase.not_draining.symm.trans hg) (by decide)

theorem length_le_work {as : List Action} (hr : (line r).Reachable s) (h : (line r).Run s as)
    (ho : ∀ a ∈ as, a.isOwn = true) : as.length ≤ s.work := by
  induction as generalizing s
  case nil => exact Nat.zero_le _
  case cons a as ih =>
    have ⟨ho, hos⟩ := List.forall_mem_cons.mp ho
    have hw := work_next (r := r) (agreement_of_reachable hr) h.left ho
    exact Nat.le_trans (Nat.succ_le_succ (ih (hr.step h.left) h.right hos)) hw

end Work

section Rest

-- No step is left to the two ends.
def Stuck (s : State) : Prop :=
  ∀ a : Action, a.isOwn = true → ¬guard s a

theorem Stuck.act (h : Stuck s) (k : Bool) : (s k).act = none :=
  Option.not_isSome_iff_eq_none.mp (h ⟨k, .act⟩ rfl)

theorem Stuck.read (h : Stuck s) (hr : (s k).atRead = true) : (s k).inbox = [] :=
  not_not.mp fun hi => h ⟨k, .read⟩ rfl ⟨hr, hi⟩

theorem Stuck.calm (h : Stuck s) (hc : Calm (s k).pc x) :
    (s k).inbox = [] ∧ (x = [] → (s k).pc = .idle) := by
  have ha := h.act k
  have hr := h.read (k := k)
  unfold Side.act at ha
  unfold Side.atRead at hr
  generalize (s k).pc = pc at *
  cases hc
  case idle    => exact ⟨hr rfl, fun _ => rfl⟩
  case acked   => exact ⟨hr rfl, nofun⟩
  case attempt => cases ha
  case sinking => cases ha

theorem Stuck.not_transfer {left : Bytes} (h : Stuck s) (hb : Books (s k)) :
    ¬Transfer left (s k).pc (s k).inbox (s !k).pc (s !k).inbox := by
  intro ht
  have hs := h.act k
  have hr := h.act !k
  have hsr := h.read (k := k)
  have hrr := h.read (k := !k)
  have hf := hb.fits
  unfold Side.act at hs hr
  unfold Side.atRead at hsr hrr
  generalize (s k).pc = sp, (s k).inbox = si, (s !k).pc = rp, (s !k).inbox = ri at *
  cases ht
  case granting => cases hr
  case granted => simp at hsr
  case acking => cases hr
  case moving t p rest got he hg hw =>
    rw [Emits] at he
    subst he
    cases rest
    case cons => simp at hs
    case nil =>
      obtain ⟨lb, wire, hw', _, _, hlen⟩ := wire_cases (hf t.blk (by simp [Pc.pending]))
      rw [hw'] at hw
      cases hg
      case nothing => simp [hrr rfl] at hw
      case some lb' buf =>
        by_cases hfull : buf.length < lb'.toNat + checksumSize
        case pos =>
          obtain ⟨rfl, rfl⟩ : lb' = lb ∧ buf = wire := by simpa [hrr (by simpa using hfull)] using hw
          omega
        case neg =>
          simp only [if_neg hfull] at hr
          split at hr <;> cases hr

theorem Stuck.idle (h : Stuck s) (hp : Phase s) (hb : ∀ k, Books (s k)) : (s k).pc = .idle := by
  cases hp
  case quiet hc =>
    have ⟨hi, hn⟩ := h.calm (hc k)
    exact hn hi
  case asks hc hi =>
    rw [(h.calm hc).left] at hi
    exact absurd hi.symm (by simp)
  case contend hu hui =>
    rw [h.read (by simp [Side.atRead, hu])] at hui
    cases hui
  case transfer ht => exact absurd ht (h.not_transfer (hb _))

end Rest

-- However the two ends take turns, they come to rest after a bounded number of steps, and then each
-- sink has what the other end was asked to send, and every send has returned nil.
theorem line_delivers (hr : (line r).Reachable s) :
    (∀ as, (line r).Run s as → (∀ a ∈ as, a.isOwn = true) → as.length ≤ s.work) ∧
    ((∀ a : Action, a.isOwn = true → ¬(line r).guard s a) → ∀ k,
      (s k).sunk = (s !k).asked ∧ (s k).returned = (s k).asked.map fun blk => (blk, true)) := by
  refine ⟨fun as hrun ho => length_le_work hr hrun ho, fun h k => ?_⟩
  have ha := agreement_of_reachable hr
  have hidle k : (s k).pc = .idle := Stuck.idle h ha.phase ha.books
  have hasked k : (s k).asked = (s k).returned.map (·.1) := by
    have hq : (s k).requests = [] := not_not.mp fun hq => h ⟨k, .take⟩ rfl ⟨hidle k, hq⟩
    simp [(ha.books k).asked, hidle, hq, Pc.pending]
  constructor
  case left =>
    have hacc := ha.agreed !k
    rw [Agreed, Bool.not_not, due_of_pc (by simp [hidle]), List.append_nil, ← hasked,
      (ha.books k).accepted, hidle] at hacc
    simpa [Pc.held] using hacc
  case right =>
    rw [hasked, List.map_map]
    refine (List.map_id _).symm.trans (List.map_congr_left fun x hx => ?_)
    exact Prod.ext rfl ((ha.books k).nil x hx)

theorem line_delivers_contention :
    let s := (line 3).exec (fun _ => {}) contention
    (∀ k, (s k).sunk = (s !k).asked) ∧ s.work = 0 := by
  intro s
  have hr : (line 3).Reachable s := .exec (.init fun _ => rfl) (by decide +kernel)
  have hw : s.work = 0 := by decide +kernel
  have h := line_delivers hr
  refine ⟨fun k => (h.right (fun a ho hg => ?_) k).left, hw⟩
  have := h.left [a] ⟨hg, trivial⟩ (by simpa using ho)
  rw [hw] at this
  cases this

end Secs1.Line
