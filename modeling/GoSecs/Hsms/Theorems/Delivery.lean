import GoSecs.Hsms.Delivery
import GoSecs.Hsms.Theorems.Registry

open List Function

namespace Hsms

variable {opts : Options} {r : ReplyRegistry} {sb : SysBytes} {dm : DataMessage} {p : Nat}
  {mhead : Header} {c : Candidate}

-- A change of one waiter that was registered under the key.
structure Touches (key : SysBytes) (r r' : ReplyRegistry) : Prop where
  m : r'.m = r.m
  waiters : ∀ p, r'.waiters p ≠ r.waiters p → r.m key = some p

theorem Touches.refl (key : SysBytes) (r : ReplyRegistry) : Touches key r r :=
  ⟨rfl, fun _ h => absurd rfl h⟩

theorem Touches.complete {key : SysBytes} (h : r.m key = some p) (c : Candidate) :
    Touches key r (r.complete p c) where
  m := rfl
  waiters q hq := by
    by_cases hqp : q = p
    · exact hqp ▸ h
    · exact absurd (Registry.modify_of_ne hqp _) hq

theorem touches_route (key : SysBytes) (res : ReplyResult) (strict : Bool) :
    Touches key r (r.route key res strict).1 := by
  unfold ReplyRegistry.route
  split
  case h_1 => exact .refl key r
  case h_2 p hp =>
    dsimp only
    split
    case isTrue => exact .refl key r
    case isFalse =>
      split
      case isTrue => exact .refl key r
      case isFalse =>
        split
        case isTrue  => split <;> exact .refl key r
        case isFalse => exact .complete hp _

theorem touches_failS9 (mhead : Header) (policy : MheadPolicy) (res : ReplyResult) :
    Touches mhead.systemBytes r (r.failS9 mhead policy res).1 := by
  unfold ReplyRegistry.failS9
  split
  case h_1 => exact .refl _ r
  case h_2 p hp =>
    dsimp only
    split
    case isTrue => exact .refl _ r
    case isFalse =>
      split
      case isTrue  => exact .refl _ r
      case isFalse => exact .complete hp _

def Destined (opts : Options) (r : ReplyRegistry) (dm : DataMessage) : Delivery → Prop
  | .enqueue _ => False
  | .sessionDrop m => m = dm ∧ opts.validateSessionID ∧
    dm.header.sessionID ≠ opts.sessionID ∧ ¬dm.isS9F1
  | .routeReply m d => m = dm ∧ d ∧
    (routeReplyOn opts (correlateS9On opts (some r) dm) (.data dm)).2
  | .decodeHandler m err => m = dm ∧ opts.decodeErrorHandlers ∧ dm.decodeErr = some err
  | .dataHandler m => m = dm

theorem routeDataOn_destined :
    ∃ d, routeDataOn opts dm = [d] ∧ d.isDestination ∧ Destined opts r dm d := by
  unfold routeDataOn
  split
  case isFalse => exact ⟨_, rfl, rfl, rfl⟩
  case isTrue h =>
    split
    case h_1 err he => exact ⟨_, rfl, rfl, rfl, h, he⟩
    case h_2 => exact ⟨_, rfl, rfl, rfl⟩

theorem checkSessionID_some {e : Option ReplyRegistry} {effects : List Delivery}
    (h : checkSessionID opts e sb dm = some effects) :
    effects.filter Delivery.isDestination = [.sessionDrop dm] ∧
    dm.header.sessionID ≠ opts.sessionID ∧ ¬dm.isS9F1 ∧ ∀ m b, .routeReply m b ∉ effects := by
  unfold checkSessionID at h
  split at h
  case isTrue => exact nomatch h
  case isFalse hn =>
    refine ⟨?_, fun hs => hn (.inr hs), fun hs => hn (.inl hs), ?_⟩
    · split at h
      case isTrue  => split at h <;> cases h <;> rfl
      case isFalse => cases h; rfl
    · intro m b
      split at h
      case isTrue  => split at h <;> cases h <;> simp
      case isFalse => cases h; simp

theorem ofBytes_eq_some {b : Secs2.Bytes} (h : Header.ofBytes b = some mhead) :
    b = mhead.bytes := by
  unfold Header.ofBytes at h
  split at h
  case h_1 => cases h; rfl
  case h_2 => exact nomatch h

theorem correlatedMhead_eq_some (h : correlatedMhead opts dm = some mhead) :
    opts.s9Correlation ∧ dm.stream = 9 ∧
      ∃ item, dm.item = (some item, none) ∧ item.toBinary.toOption = some mhead.bytes := by
  unfold correlatedMhead at h
  split at h
  case isTrue => exact nomatch h
  case isFalse hn =>
    have ⟨hs, ho⟩ := not_or.mp hn
    refine ⟨not_not.mp ho, not_not.mp hs, ?_⟩
    split at h
    case isFalse => exact nomatch h
    case isTrue =>
      split at h
      case h_2 => exact nomatch h
      case h_1 item hi =>
        split at h
        case isTrue => exact nomatch h
        case isFalse =>
          split at h
          case h_2 => exact nomatch h
          case h_1 b hb => exact ⟨item, hi, by rw [hb, ← ofBytes_eq_some h]; rfl⟩

theorem correlateS9On_some (opts : Options) (r : ReplyRegistry) (dm : DataMessage) :
    ∃ r', correlateS9On opts (some r) dm = some r' ∧
      (r' = r ∨ ∃ mhead, correlatedMhead opts dm = some mhead ∧ Touches mhead.systemBytes r r') := by
  unfold correlateS9On
  refine ⟨_, rfl, ?_⟩
  split
  case h_1 => exact .inl rfl
  case h_2 mhead hm => exact .inr ⟨mhead, hm, touches_failS9 ..⟩

theorem deliverOn_destination (opts : Options) (r : ReplyRegistry) (sb : SysBytes)
    (dm : DataMessage) :
    ∃ d, (deliverOn opts (some r) sb dm).2.filter Delivery.isDestination = [d] ∧
      Destined opts r dm d := by
  unfold deliverOn
  split
  case h_1 effects h =>
    split at h
    case isFalse => exact nomatch h
    case isTrue hv =>
      have ⟨hf, hs, hx, _⟩ := checkSessionID_some h
      exact ⟨_, hf, rfl, hv, hs, hx⟩
  case h_2 =>
    have ⟨d, heq, hd, hdest⟩ : ∃ d, routeDataOn opts dm = [d] ∧ d.isDestination ∧
        Destined opts r dm d := routeDataOn_destined
    dsimp only
    split
    case isFalse => exact ⟨d, by rw [heq, filter_cons_of_pos hd]; rfl, hdest⟩
    case isTrue =>
      split
      case h_1 hr => exact ⟨_, rfl, rfl, rfl, by rw [hr]⟩
      case h_2    => exact ⟨d, by rw [heq, filter_cons_of_neg (by simp [Delivery.isDestination]),
          filter_cons_of_pos hd]; rfl, hdest⟩

theorem deliverOn_primary (h : dm.isPrimary) (m : DataMessage) (b : Bool) :
    .routeReply m b ∉ (deliverOn opts (some r) sb dm).2 := by
  have hs : isSecondaryReply dm = false := by rw [isSecondaryReply, h]; rfl
  have hd : .routeReply m b ∉ routeDataOn opts dm := by
    unfold routeDataOn
    split
    case isTrue  => split <;> simp
    case isFalse => simp
  unfold deliverOn
  split
  case h_1 effects he =>
    split at he
    case isFalse => exact nomatch he
    case isTrue  => exact (checkSessionID_some he).right.right.right m b
  case h_2 =>
    dsimp only
    rwa [hs, if_neg Bool.false_ne_true]

theorem deliverOn_waits (opts : Options) (r : ReplyRegistry) (sb : SysBytes) (dm : DataMessage) :
    ∃ r', (deliverOn opts (some r) sb dm).1 = some r' ∧
      ∀ p, r'.waiters p ≠ r.waiters p → r.m dm.header.systemBytes = some p ∨
        ∃ mhead, correlatedMhead opts dm = some mhead ∧ r.m mhead.systemBytes = some p := by
  unfold deliverOn
  split
  case h_1 => exact ⟨r, rfl, fun _ hp => absurd rfl hp⟩
  case h_2 =>
    have ⟨r₁, heq, h₁⟩ := correlateS9On_some opts r dm
    have hm : r₁.m = r.m := by
      rcases h₁ with rfl | ⟨_, _, ht⟩
      · rfl
      · exact ht.m
    have hs9 : ∀ p, r₁.waiters p ≠ r.waiters p →
        ∃ mhead, correlatedMhead opts dm = some mhead ∧ r.m mhead.systemBytes = some p := by
      intro p hp
      rcases h₁ with rfl | ⟨mhead, hc, ht⟩
      · exact absurd rfl hp
      · exact ⟨mhead, hc, ht.waiters p hp⟩
    dsimp only
    rw [heq]
    split
    case isFalse => exact ⟨r₁, rfl, fun p hp => .inr (hs9 p hp)⟩
    case isTrue =>
      have ht := touches_route (r := r₁) dm.header.systemBytes (Message.data dm).result
        opts.strictReplyMatching
      refine ⟨(r₁.route dm.header.systemBytes (Message.data dm).result opts.strictReplyMatching).1,
        ?_, fun p hp => ?_⟩
      · split <;> rename_i he <;> exact (congrArg Prod.fst he).symm
      · by_cases h₁p : r₁.waiters p = r.waiters p
        · exact .inl (hm ▸ ht.waiters p (h₁p ▸ hp))
        · exact .inr (hs9 p h₁p)

namespace Registry

def Call.target : Call → Option (Candidate × Nat)
  | .claiming c p => some (c, p)
  | .lost c p => some (c, p)
  | .sending c p => some (c, p)
  | _ => none

def Reaches {ι : Type} (s : State ι) (p : Nat) (c : Candidate) : Prop :=
  (∃ i, (s.calls i).target = some (c, p)) ∨ c ∈ (s.reg.waiters p).results

variable {r : ReplyRegistry} {call : Call}

theorem target_step (h : (call.step r).2.target = some (c, p)) :
    call.target = some (c, p) ∨ call = .loading c ∧ r.m c.key = some p := by
  cases call
  case loading d =>
    dsimp only [Call.step] at h
    split at h
    case h_1 => exact nomatch h
    case h_2 q hq =>
      split at h
      case isTrue  => cases h; exact .inr ⟨rfl, hq⟩
      case isFalse => exact nomatch h
  case claiming d q =>
    dsimp only [Call.step] at h
    split at h
    case isTrue  => exact .inl h
    case isFalse =>
      cases d
      case reply => exact .inl h
      case s9    => exact nomatch h
  all_goals exact nomatch h

theorem results_modify {f : ReplyWaiter → ReplyWaiter} {q : Nat}
    (hf : c ∈ (f (r.waiters p)).results → c ∈ (r.waiters p).results)
    (h : c ∈ ((r.modify p f).waiters q).results) : c ∈ (r.waiters q).results := by
  by_cases hq : q = p
  · subst hq
    rw [modify_self] at h
    exact hf h
  · rwa [modify_of_ne hq] at h

variable {w : ReplyWaiter}

theorem results_send {d : Candidate} (h : d ∈ (w.send c).results) :
    d = c ∨ d ∈ w.results := by
  unfold ReplyWaiter.send at h
  split at h
  case isTrue hc =>
    rcases mem_append.mp h with h | h
    · exact .inr (mem_append_left _ h)
    · exact .inl (mem_singleton.mp h)
  case isFalse => exact .inr h

theorem results_step (h : c ∈ ((call.step r).1.waiters p).results) :
    call.target = some (c, p) ∨ c ∈ (r.waiters p).results := by
  cases call
  case loading d =>
    dsimp only [Call.step] at h
    split at h
    case h_1 => exact .inr h
    case h_2 => split at h <;> exact .inr h
  case claiming d q =>
    dsimp only [Call.step] at h
    split at h
    case isFalse => cases d <;> exact .inr h
    case isTrue =>
      change c ∈ ((r.modify q ({ · with state := d.claim })).waiters p).results at h
      exact .inr (results_modify id h)
  case sending d q =>
    change c ∈ ((r.modify q (·.send d)).waiters p).results at h
    by_cases hq : p = q
    · subst hq
      rw [modify_self] at h
      exact (results_send h).imp_left fun hc => by rw [hc]; rfl
    · rw [modify_of_ne hq] at h
      exact .inr h
  all_goals exact .inr h

theorem results_store {k : SysBytes}
    (hw : w.results = []) (h : c ∈ ((r.store k w).waiters p).results) :
    c ∈ (r.waiters p).results := by
  by_cases hp : p = r.size
  · subst hp
    rw [store_size, hw] at h
    exact nomatch h
  · rwa [show (r.store k w).waiters p = r.waiters p from update_of_ne hp ..] at h

theorem reaches_next {ι : Type} [DecidableEq ι] {s : State ι} {a : Action ι}
    (h : Reaches (next s a) p c) :
    Reaches s p c ∨ ∃ i, s.calls i = .loading c ∧ s.reg.m c.key = some p := by
  rcases h with ⟨i, hi⟩ | h
  case inl =>
    rcases calls_next s a i with rfl | ⟨d, rfl⟩ | hc
    · rw [calls_step] at hi
      exact (target_step hi).imp (fun h => .inl ⟨i, h⟩) fun h => ⟨i, h⟩
    · rw [show (next s (.call i d)).calls i = .loading d from update_self ..] at hi
      exact nomatch hi
    · exact .inl (.inl ⟨i, hc ▸ hi⟩)
  case inr =>
    left
    cases a
    case registerData => exact .inr (results_store rfl h)
    case registerControl => exact .inr (results_store rfl h)
    case step i => exact (results_step h).imp_left fun h => ⟨i, h⟩
    case receive q => exact .inr (results_modify (fun h => ReplyWaiter.results_receive _ ▸ h) h)
    all_goals exact .inr h

end Registry

namespace Inbound

variable {s : State} {a : Action} {as : List (Nat × Action)}

theorem reg_next (s : State) (a : Action) :
    (∃ b, onRegistry s a = some b ∧ (next s a).reg = Registry.next s.reg b) ∨
      (next s a).reg = s.reg := by
  cases h : onRegistry s a
  case none   => exact .inr (by simp [next, h])
  case some b => exact .inl ⟨b, rfl, by simp [next, h]⟩

theorem reg_reachable (h : inbound.Reachable s) :
    (Registry.registry CallId).Reachable s.reg := by
  induction h
  case init h => rw [show _ = _ from h]; exact .init rfl
  case step s a _ hg ih =>
    have hg := hg.right
    show (Registry.registry CallId).Reachable (next s a).reg
    rcases reg_next s a with ⟨b, hb, hn⟩ | hn <;> rw [hn]
    case inl => rw [hb] at hg; exact ih.step hg
    case inr => exact ih

theorem msgs_next {t : Nat} {x : Options × DataMessage} (hg : guard s a) (h : s.msgs t = some x) :
    (next s a).msgs t = some x := by
  cases a
  case deliver u opts frame =>
    show admitFrame s u opts frame t = some x
    have hu : t ≠ u := by
      rintro rfl
      have hn : (s.msgs t).isNone := hg.left
      rw [h] at hn
      exact Bool.noConfusion hn
    unfold admitFrame
    rcases decodeOwnedFrame frame with _ | dm | _
    case ok.data =>
      dsimp only
      split
      case isTrue  => rwa [update_of_ne hu]
      case isFalse => exact h
    all_goals exact h
  all_goals exact h

-- The data message that a call carries is a secondary that was admitted, under its system bytes.
def Offered (s : State) (c : Candidate) : Prop :=
  ∀ dm, c.res.msg = some (.data dm) →
    ∃ t opts, s.msgs t = some (opts, dm) ∧ isSecondaryReply dm ∧ c.key = dm.header.systemBytes

theorem Offered.next (h : Offered s c) (hg : guard s a) :
    Offered (Inbound.next s a) c := by
  intro dm hm
  have ⟨t, opts, ht, hs⟩ := h dm hm
  exact ⟨t, opts, msgs_next hg ht, hs⟩

theorem offered_call {i : CallId} (hg : guard s a)
    (h : onRegistry s a = some (.call i c)) : Offered s c := by
  intro dm hm
  cases a
  case deliver => exact nomatch h
  case correlate t =>
    simp only [onRegistry, Option.bind_eq_bind, Option.bind_eq_some_iff] at h
    have ⟨_, _, _, _, h⟩ := h
    cases h
    exact nomatch hm
  case offer t =>
    simp only [onRegistry, Option.bind_eq_bind, Option.bind_eq_some_iff] at h
    have ⟨⟨opts, dm'⟩, ht, h⟩ := h
    split at h
    case isFalse => exact nomatch h
    case isTrue hs =>
      cases h
      cases hm
      exact ⟨t, opts, ht, hs, rfl⟩
  case control t opts msg =>
    cases h
    unfold Candidate.res Message.result at hm
    dsimp only at hm
    split at hm <;> exact nomatch hm
  case registry b =>
    cases h
    exact hg.left.elim

theorem step_ne_loading (r : ReplyRegistry) (call : Registry.Call) (c : Candidate) :
    (call.step r).2 ≠ .loading c := by
  intro h
  cases call <;> dsimp only [Registry.Call.step] at h
  case loading =>
    split at h
    case h_1 => exact nomatch h
    case h_2 => split at h <;> exact nomatch h
  case claiming d _ =>
    split at h
    case isTrue  => exact nomatch h
    case isFalse => cases d <;> exact nomatch h
  all_goals exact nomatch h

theorem offered_loading (h : inbound.Reachable s) :
    ∀ i c, s.reg.calls i = .loading c → Offered s c := by
  induction h
  case init h =>
    rw [show _ = _ from h]
    exact fun _ _ h => nomatch h
  case step s a _ hg ih =>
    intro i c hc
    change (next s a).reg.calls i = .loading c at hc
    rcases reg_next s a with ⟨b, hb, hn⟩ | hn <;> rw [hn] at hc
    case inr => exact (ih i c hc).next hg
    case inl =>
      rcases Registry.calls_next s.reg b i with rfl | ⟨d, rfl⟩ | heq
      · rw [Registry.calls_step] at hc
        exact absurd hc (step_ne_loading _ _ c)
      · rw [show (Registry.next s.reg (.call i d)).calls i = .loading d from
          update_self ..] at hc
        cases hc
        exact (offered_call hg hb).next hg
      · exact (ih i c (heq ▸ hc)).next hg

-- At some point of the run the call loaded the waiter, on that generation and while the waiter was
-- registered.
def Loaded (as : List (Nat × Action)) (e p : Nat) (c : Candidate) : Prop :=
  ∃ bs cs i, as = bs ++ cs ∧ (generations.exec start bs e).reg.calls i = .loading c ∧
    (generations.exec start bs e).reg.reg.m c.key = some p

theorem Loaded.append {e : Nat} (h : Loaded as e p c)
    (a : Nat × Action) : Loaded (as ++ [a]) e p c :=
  have ⟨bs, cs, i, has, hl⟩ := h
  ⟨bs, cs ++ [a], i, by rw [has, append_assoc], hl⟩

def AllLoaded (as : List (Nat × Action)) : Prop :=
  ∀ e p c, Registry.Reaches (generations.exec start as e).reg p c → Loaded as e p c

theorem allLoaded (r : generations.Run start as) : AllLoaded as := by
  refine Machine.run_induction (Q := AllLoaded) ?_ ?_ r
  · rintro e p c (⟨_, h⟩ | h)
    · exact nomatch h
    · exact nomatch h
  · intro as a _ ih _ e p c h
    rw [Machine.exec_append] at h
    change Registry.Reaches (update (generations.exec start as) a.1
      (next (generations.exec start as a.1) a.2) e).reg p c at h
    by_cases he : e = a.1
    case neg =>
      rw [update_of_ne he] at h
      exact (ih e p c h).append a
    case pos =>
      subst he
      rw [update_self] at h
      rcases reg_next (generations.exec start as a.1) a.2 with ⟨b, _, hn⟩ | hn <;> rw [hn] at h
      case inr => exact (ih _ p c h).append a
      case inl =>
        rcases Registry.reaches_next h with h | ⟨i, hi⟩
        · exact (ih _ p c h).append a
        · exact ⟨as, [a], i, rfl, hi⟩

-- A wait receives data only from a secondary on its own generation.
theorem reply_origin {e : Nat} {dm : DataMessage} (r : generations.Run start as)
    (hc : c ∈ ((generations.exec start as e).reg.reg.waiters p).results)
    (hm : c.res.msg = some (.data dm)) :
    ∃ bs cs t opts, as = bs ++ cs ∧ (generations.exec start bs e).msgs t = some (opts, dm) ∧
      isSecondaryReply dm ∧
      (((generations.exec start as e).reg.reg.waiters p).isData →
        ((generations.exec start as e).reg.reg.waiters p).header.systemBytes =
          dm.header.systemBytes) ∧
      (generations.exec start bs e).reg.reg.m dm.header.systemBytes = some p := by
  have hinit : generations.Reachable start := .init fun _ => rfl
  have ⟨bs, cs, i, has, hl, hreg⟩ := allLoaded r e p c (.inr hc)
  have hb : inbound.Reachable (generations.exec start bs e) := by
    subst has
    exact (hinit.exec (Machine.steps_append.mp r).left).of_pi e
  have ⟨t, opts, ht, hs, hk⟩ := offered_loading hb i c hl dm hm
  have ho := Registry.once (reg_reachable ((hinit.exec r).of_pi e))
  have hkey := ((ho.results p).right c hc).left.key
  exact ⟨bs, cs, t, opts, has, ht, hs, fun hd => (hkey hd).trans hk, hk ▸ hreg⟩

-- Every data frame ends up in exactly one place, a primary is never offered to the registry, and a
-- wait receives data messages only from its own generation, while it is registered.
theorem one_destination {frame : Secs2.Bytes} {as : List (Nat × Action)} (opts : Options)
    (r : ReplyRegistry) (sb : SysBytes) (hf : decodeOwnedFrame frame = .ok (.data dm))
    (run : generations.Run start as) :
    (∃ r' effects, deliverOwnedFrameOn opts (some r) sb frame = .ok (some r', effects) ∧
      (∃ d, effects.filter Delivery.isDestination = [d] ∧ Destined opts r dm d) ∧
      (dm.function % 2 = 1 ∨ dm.waitBit → ∀ m b, .routeReply m b ∉ effects) ∧
      ∀ p, r'.waiters p ≠ r.waiters p →
        r.m dm.header.systemBytes = some p ∨
        opts.s9Correlation ∧ ∃ (item : Secs2.Item) (mhead : Header), dm.item = (some item, none) ∧
          item.toBinary.toOption = some mhead.bytes ∧ r.m mhead.systemBytes = some p) ∧
    (∀ e p c m, c ∈ ((generations.exec start as e).reg.reg.waiters p).results →
      c.res.msg = some (.data m) →
      ∃ bs cs t opts, as = bs ++ cs ∧ (generations.exec start bs e).msgs t = some (opts, m) ∧
        isSecondaryReply m ∧
        (((generations.exec start as e).reg.reg.waiters p).isData →
          ((generations.exec start as e).reg.reg.waiters p).header.systemBytes =
            m.header.systemBytes) ∧
        (generations.exec start bs e).reg.reg.m m.header.systemBytes = some p) := by
  refine ⟨?_, fun e p c m hc hm => reply_origin run hc hm⟩
  have ⟨r', heq, hw⟩ := deliverOn_waits opts r sb dm
  refine ⟨r', (deliverOn opts (some r) sb dm).2, ?_, deliverOn_destination opts r sb dm, ?_, ?_⟩
  · rw [deliverOwnedFrameOn, hf, ← heq]
  · intro hp
    refine deliverOn_primary ?_
    rw [DataMessage.isPrimary]
    exact decide_eq_true hp.symm
  · intro p hp
    refine (hw p hp).imp_right fun ⟨mhead, hc, hm⟩ => ?_
    have ⟨hs, _, item, hi, hb⟩ := correlatedMhead_eq_some hc
    exact ⟨hs, item, mhead, hi, hb, hm⟩

def answered : List (Nat × Action) :=
  [(2, .registry (.registerData Registry.primary)),
    (2, .deliver 0 {} Registry.secondary.header.bytes), (2, .offer 0),
    (2, .registry (.step (.reply 0))), (2, .registry (.step (.reply 0))),
    (2, .registry (.step (.reply 0))), (2, .registry (.receive 0))]

theorem one_destination_answered :
    generations.Run start answered ∧
    (((generations.exec start answered 2).reg.reg.waiters 0).received.length = 1) ∧
    (∃ bs cs, answered = bs ++ cs ∧
      (generations.exec start bs 2).reg.reg.m Registry.primary.systemBytes = some 0) ∧
    ∃ r' effects, deliverOwnedFrameOn {} (some {}) Registry.primary.systemBytes
        Registry.primary.bytes = .ok (some r', effects) ∧
      ∀ m b, .routeReply m b ∉ effects :=
  have run : generations.Run start answered := by decide +kernel
  have ⟨⟨r', effects, h, _, hp, _⟩, ho⟩ :=
    one_destination {} {} Registry.primary.systemBytes
      (show decodeOwnedFrame Registry.primary.bytes = .ok (.data _) from rfl) run
  have ⟨bs, cs, _, _, has, _, _, _, hm⟩ := ho 2 0 _ _ (.head _) rfl
  ⟨run, rfl, ⟨bs, cs, has, hm⟩, r', effects, h, hp (.inr (by decide))⟩

end Inbound
end Hsms
