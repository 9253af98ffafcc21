import GoSecs.Hsms.Notify

open List

namespace Hsms.Notify

open Supervisor (StateChange)

variable {cap : Nat} {s : State} {a : Action} {sc : StateChange}

-- What is left of the emitted changes, in order. The newest one is lost only after a drop.
structure Inv (cap : Nat) (s : State) : Prop where
  sub    : (s.received ++ s.notify).Sublist s.emitted
  bound  : s.notify.length ≤ cap
  room   : ∀ sc, s.pc = .sending sc → s.notify.length < cap
  newest : s.pc.isSending = false → (s.received ++ s.notify).getLast? = s.emitted.getLast?

theorem Inv.push (h : Inv cap s) (hl : s.notify.length < cap) :
    Inv cap (s.push sc) where
  sub := by
    show (s.received ++ (s.notify ++ [sc])).Sublist (s.emitted ++ [sc])
    rw [← append_assoc]
    exact h.sub.append (.refl _)
  bound := by
    show (s.notify ++ [sc]).length ≤ cap
    rw [length_append]
    exact hl
  room := nofun
  newest := fun _ => by
    show (s.received ++ (s.notify ++ [sc])).getLast? = (s.emitted ++ [sc]).getLast?
    rw [← append_assoc, getLast?_concat, getLast?_concat]

theorem Inv.trySend (h : Inv cap s) (hg : guard cap s (.trySend sc)) :
    Inv cap (next cap s (.trySend sc)) := by
  have hp : s.pc = .idle := of_decide_eq_true hg
  rw [next]
  split
  case isTrue hl => exact h.push hl
  case isFalse   =>
    exact { h with
      room   := nofun
      newest := fun _ => h.newest (hp ▸ rfl) }

theorem Inv.tryDrop (hc : 0 < cap) (h : Inv cap s) : Inv cap (next cap s .tryDrop) := by
  rw [next]
  split
  case h_1 sc hp =>
    have htail := s.notify.length_tail
    have hb := h.bound
    exact {
      sub := ((tail_sublist _).append_left _).trans h.sub
      bound := by
        show s.notify.tail.length ≤ cap
        omega
      room := fun _ _ => by
        show s.notify.tail.length < cap
        omega
      newest := nofun }
  case h_2 => exact h

theorem Inv.send (h : Inv cap s) (hg : guard cap s .send) : Inv cap (next cap s .send) := by
  have ⟨_, hl⟩ := Bool.and_eq_true_iff.mp hg
  rw [next]
  split
  case h_1 sc _ => exact h.push (of_decide_eq_true hl)
  case h_2 => exact h

-- A receive moves a change and keeps the order.
theorem receive_eq (cap : Nat) (s : State) :
    (next cap s .receive).received ++ (next cap s .receive).notify = s.received ++ s.notify ∧
    (next cap s .receive).emitted = s.emitted ∧ (next cap s .receive).pc = s.pc ∧
    (next cap s .receive).notify.length ≤ s.notify.length := by
  rw [next]
  split
  case h_1 => exact ⟨rfl, rfl, rfl, Nat.le_refl _⟩
  case h_2 sc rest hn =>
    rw [hn]
    exact ⟨append_assoc .., rfl, rfl, Nat.le_succ _⟩

theorem Inv.receive (h : Inv cap s) : Inv cap (next cap s .receive) := by
  have ⟨hsame, he, hp, hle⟩ := receive_eq cap s
  exact {
    sub := by rw [hsame, he]; exact h.sub
    bound := Nat.le_trans hle h.bound
    room := fun sc hs => Nat.lt_of_le_of_lt hle (h.room sc (hp ▸ hs))
    newest := by rw [hsame, he, hp]; exact h.newest }

theorem inv (hc : 0 < cap) (h : (queue cap).Reachable s) : Inv cap s := by
  refine h.invariant (fun hi => ?_) fun {s a} _ hs hg => ?_
  · subst hi
    exact ⟨.refl _, Nat.zero_le _, nofun, fun _ => rfl⟩
  · cases a
    case trySend sc => exact hs.trySend hg
    case tryDrop => exact hs.tryDrop hc
    case send => exact hs.send hg
    case receive => exact hs.receive

-- Every step that `emit` has begun can be taken at once.
theorem guard_pending (h : Inv cap s) (ha : pending s = some a) : guard cap s a := by
  rw [pending] at ha
  split at ha
  case h_1 => cases ha
  case h_2 hp => cases ha; simp [guard, hp, Pc.isDropping]
  case h_3 sc hp => cases ha; simp [guard, hp, Pc.isSending, h.room sc hp]

def State.Newest (s : State) : Prop :=
  s.received.getLast? = s.emitted.getLast? ∨ s.notify.getLast? = s.emitted.getLast?

theorem newest_of_append (h : (s.received ++ s.notify).getLast? = s.emitted.getLast?) :
    s.Newest := by
  rcases s.notify.eq_nil_or_concat with he | ⟨rest, sc, he⟩
  case inl =>
    rw [he, append_nil] at h
    exact .inl h
  case inr =>
    rw [he, concat_eq_append, ← append_assoc, getLast?_concat] at h
    refine .inr ?_
    rw [he, concat_eq_append, getLast?_concat, h]

theorem newest_receives (h : (s.received ++ s.notify).getLast? = s.emitted.getLast?) (k : Nat) :
    ((queue cap).exec s (.replicate k .receive)).Newest := by
  induction k generalizing s
  case zero => exact newest_of_append h
  case succ k hi =>
    have ⟨hsame, he, _⟩ := receive_eq cap s
    exact @hi (next cap s .receive) (by rw [hsame, he]; exact h)

-- Of several changes the drop leaves the newest, and of none it takes none.
theorem tryDrop_newest (h : (s.received ++ s.notify).getLast? = s.emitted.getLast?)
    (hn : s.notify.length ≠ 1) (hp : s.pc = .dropping sc) :
    ((next cap s .tryDrop).received ++ (next cap s .tryDrop).notify).getLast? =
      (next cap s .tryDrop).emitted.getLast? := by
  simp only [next, hp]
  rcases hl : s.notify with _ | ⟨x, _ | ⟨y, rest⟩⟩
  case nil => rwa [hl] at h
  case cons.nil => exact absurd (hl ▸ rfl) hn
  case cons.cons =>
    rw [hl] at h
    simpa [getLast?_append] using h

-- Emitting never waits, and the changes that are left are in order. The newest one is among them
-- unless the drop under way found it alone in the buffer.
theorem notifications_coalesce (h : (queue supervisorNotifyCap).Reachable s) :
    (∀ a, pending s = some a → (queue supervisorNotifyCap).guard s a) ∧
    (s.received ++ s.notify).Sublist s.emitted ∧
    (s.pc.isSending = false → s.Newest) ∧
    ∀ sc k, s.pc = .dropping sc → s.notify.length ≠ 1 →
      ((queue supervisorNotifyCap).exec s (.tryDrop :: .replicate k .receive)).Newest := by
  have hi := inv (by decide) h
  refine ⟨fun a => guard_pending hi, hi.sub, fun hp => newest_of_append (hi.newest hp), ?_⟩
  intro sc k hp hn
  exact newest_receives (@tryDrop_newest supervisorNotifyCap _ _ (hi.newest (hp ▸ rfl)) hn hp) k

section Window

def entered (gen : Nat) : StateChange where
  prev := .notSelected
  next := .selected
  cause := .selectAccepted
  gen := gen
  socket := gen

-- The notifier takes all but the newest change between the two looks of `emit`, which drops it.
def overtaken : List Action :=
  (List.range 17).map (fun n => .trySend (entered n)) ++ List.replicate 15 .receive ++ [.tryDrop]

theorem newest_dropped_before_send :
    (queue supervisorNotifyCap).Reachable ((queue supervisorNotifyCap).exec {} overtaken) ∧
    ((queue supervisorNotifyCap).exec {} overtaken).emitted.getLast? = some (entered 15) ∧
    ((queue supervisorNotifyCap).exec {} overtaken).received.getLast? = some (entered 14) ∧
    ((queue supervisorNotifyCap).exec {} overtaken).notify = [] :=
  ⟨.exec (.init rfl) (by decide +kernel), by decide +kernel, by decide +kernel, by decide +kernel⟩

theorem notifications_coalesce_after_send :
    ((queue supervisorNotifyCap).exec {} (overtaken ++ [.send])).notify.getLast? =
      some (entered 16) :=
  ((notifications_coalesce (.exec (.init rfl) (by decide +kernel : (queue supervisorNotifyCap).Run
    {} (overtaken ++ [.send])))).2.2.1 (by decide +kernel)).elim
    (fun h => absurd h (by decide +kernel)) fun h => h.trans (by decide +kernel)

end Window
end Hsms.Notify
