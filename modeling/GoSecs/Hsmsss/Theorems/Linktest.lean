import GoSecs.Hsmsss.Linktest

open Hsms List

namespace Hsmsss
namespace Linktest

variable {cfg : Config} {s s' : Loop} {t : Tick} {ts : List Tick} {e : Event}
variable {past pre post : List (Tick × Event)}

def Tick.stamps (t : Tick) : List Int :=
  [t.lastRecv, t.recvNow, t.finalRecv]

-- The receive stamp never goes back, within a turn and from one turn to the next.
def Ordered (ts : List Tick) : Prop :=
  (ts.flatMap Tick.stamps).Pairwise (· ≤ ·)

def probes (l : List (Tick × Event)) : List (Tick × Event) :=
  l.filter (·.2 ≠ .suppressed)

-- `t` and the probes before it make up a threshold of counted failures, the receive stamp stood
-- still from the first of them to the re-check, and no data was in flight.
structure Silent (cfg : Config) (pre : List (Tick × Event)) (t : Tick) : Prop where
  suffix : ∃ before fs, probes pre = before ++ fs ∧ fs.length + 1 = cfg.threshold ∧
               ∀ f ∈ fs, f.2 = .counted ∧ f.1.recvNow = t.finalRecv
  last : t.recvNow = t.finalRecv
  sent : t.finalRecv ≤ t.sentAt
  inflight : t.inflight ≤ 0
  final : t.finalInflight ≤ 0

-- A stamp that shows up between the evaluation of a failure and the re-check is later than the probe.
def Tick.Prompt (t : Tick) : Prop :=
  t.finalRecv = t.recvNow ∨ t.sentAt < t.finalRecv

inductive Counts (s : Loop) (t : Tick) : Nat → Prop
  | restart : 0 < s.fails → s.recvAtLastFail < t.recvNow → Counts s t 1
  | next    : (s.fails = 0 ∨ t.recvNow ≤ s.recvAtLastFail) → Counts s t (s.fails + 1)

inductive Turn (cfg : Config) (s : Loop) (t : Tick) : Event → Loop → Prop
  | left : Turn cfg s t .left s
  | suppressed : Turn cfg s t .suppressed s
  | closed : Turn cfg s t .closed s
  | answered : Turn cfg s t .answered { s with fails := 0 }
  | credited : Turn cfg s t .credited { s with fails := 0 }
  | counted : Counts s t n → n < cfg.threshold → Turn cfg s t .counted ⟨n, t.recvNow⟩
  | rechecked : Turn cfg s t .rechecked ⟨0, t.recvNow⟩
  | down : Counts s t n → cfg.threshold ≤ n → t.recvNow ≤ t.sentAt → t.inflight ≤ 0 →
                 t.finalInflight ≤ 0 → t.finalRecv ≤ t.sentAt → Turn cfg s t .down ⟨n, t.recvNow⟩

theorem linktestFailureStep_counts (h : ¬(t.recvNow > t.sentAt ∨ t.inflight > 0)) :
    ∃ n, linktestFailureStep true t.recvNow t.sentAt t.inflight s.fails s.recvAtLastFail =
      (n, t.recvNow, false) ∧ Counts s t n := by
  by_cases hr : s.fails > 0 ∧ t.recvNow > s.recvAtLastFail
  case pos =>
    refine ⟨1, ?_, .restart hr.1 hr.2⟩
    simp [linktestFailureStep, h, hr]
  case neg =>
    refine ⟨s.fails + 1, ?_, .next (by omega)⟩
    simp [linktestFailureStep, h, hr]

theorem failed_turn (hs : cfg.suppress = true) (ht : 1 ≤ cfg.threshold) :
    Turn cfg s t (failed cfg s t).1 (failed cfg s t).2 := by
  by_cases hc : t.recvNow > t.sentAt ∨ t.inflight > 0
  case pos =>
    have h : failed cfg s t = (.credited, { s with fails := 0 }) := by
      simp [failed, linktestFailureStep, hs, hc, Nat.ne_of_gt ht]
    rw [h]
    exact .credited
  case neg =>
    have ⟨n, hn, hcount⟩ := linktestFailureStep_counts (s := s) hc
    by_cases hthr : cfg.threshold ≤ n
    case neg =>
      have h : failed cfg s t = (.counted, ⟨n, t.recvNow⟩) := by
        simp [failed, hs, hn, hthr]
      rw [h]
      exact .counted hcount (Nat.lt_of_not_le hthr)
    case pos =>
      by_cases hr : t.finalInflight ≤ 0 ∧ t.finalRecv ≤ t.sentAt
      case pos =>
        have h : failed cfg s t = (.down, ⟨n, t.recvNow⟩) := by
          simp [failed, linktestDisconnectRecheck, hs, hn, hthr, hr]
        rw [h]
        exact .down hcount hthr (by omega) (by omega) hr.1 hr.2
      case neg =>
        have h : failed cfg s t = (.rechecked, ⟨0, t.recvNow⟩) := by
          simp [failed, linktestDisconnectRecheck, hs, hn, hr, hthr]
        rw [h]
        exact .rechecked

theorem step_turn (hs : cfg.suppress = true) (ht : 1 ≤ cfg.threshold) :
    Turn cfg s t (step cfg s t).1 (step cfg s t).2 := by
  unfold step
  split
  · exact .left
  split
  · exact .suppressed
  split
  · exact .suppressed
  split
  · exact .answered
  · exact .closed
  · exact failed_turn hs ht

theorem probes_append (l₁ l₂ : List (Tick × Event)) :
    probes (l₁ ++ l₂) = probes l₁ ++ probes l₂ :=
  filter_append ..

theorem mem_of_mem_probes (h : f ∈ probes past) : f ∈ past :=
  mem_of_mem_filter h

theorem Ordered.cons (h : Ordered (t :: ts)) :
    t.recvNow ≤ t.finalRecv ∧ (∀ u ∈ ts, t.recvNow ≤ u.recvNow) ∧ Ordered ts := by
  simp only [Ordered, flatMap_cons, pairwise_append] at h
  have ⟨ht, hts, hle⟩ := h
  refine ⟨?_, ?_, hts⟩
  · simp only [Tick.stamps, pairwise_cons] at ht
    exact ht.2.1 _ (mem_singleton_self _)
  · intro u hu
    refine hle _ (by simp [Tick.stamps]) _ (mem_flatMap.mpr ⟨u, hu, ?_⟩)
    simp [Tick.stamps]

-- The last `fails` probes were counted, all of them with the stamp `recvAtLastFail`.
structure Tally (cfg : Config) (past : List (Tick × Event)) (s : Loop) : Prop where
  below  : s.fails < cfg.threshold
  suffix : ∃ before fs, probes past = before ++ fs ∧ fs.length = s.fails ∧
             ∀ f ∈ fs, f.2 = .counted ∧ f.1.recvNow = s.recvAtLastFail

theorem Tally.reset (ht : 1 ≤ cfg.threshold) : Tally cfg past ⟨0, r⟩ where
  below  := ht
  suffix := ⟨probes past, [], (append_nil _).symm, rfl, forall_mem_nil _⟩

theorem Tally.counts (hi : Tally cfg past s) (hle : ∀ f ∈ past, f.1.recvNow ≤ t.recvNow)
    (h : Counts s t n) : n ≤ cfg.threshold ∧
    ∃ before fs, probes past = before ++ fs ∧ fs.length + 1 = n ∧
      ∀ f ∈ fs, f.2 = .counted ∧ f.1.recvNow = t.recvNow := by
  have hb := hi.below
  have ⟨before, fs, hp, hl, hf⟩ := hi.suffix
  cases h
  case restart => exact ⟨by omega, probes past, [], (append_nil _).symm, rfl, forall_mem_nil _⟩
  case next h  =>
    refine ⟨hb, before, fs, hp, by omega, fun f hmem => ⟨(hf f hmem).1, ?_⟩⟩
    have hpast : f ∈ past := mem_of_mem_probes (hp ▸ mem_append_right before hmem)
    have hpos := length_pos_of_mem hmem
    have heq := (hf f hmem).2
    have hlast := hle f hpast
    omega

theorem Tally.turn (ht : 1 ≤ cfg.threshold) (hi : Tally cfg past s)
    (hle : ∀ f ∈ past, f.1.recvNow ≤ t.recvNow) (h : Turn cfg s t e s') (he : e.isEnd = false) :
    Tally cfg (past ++ [(t, e)]) s' := by
  cases h
  case left => contradiction
  case closed => contradiction
  case down => contradiction
  case answered => exact .reset ht
  case credited => exact .reset ht
  case rechecked => exact .reset ht
  case suppressed =>
    have ⟨before, fs, hp, hl, hf⟩ := hi.suffix
    refine ⟨hi.below, before, fs, ?_, hl, hf⟩
    rw [probes_append, hp]
    exact append_nil _
  case counted hc hn =>
    have ⟨_, before, fs, hp, hl, hf⟩ := hi.counts hle hc
    refine ⟨hn, before, fs ++ [(t, .counted)], ?_, ?_, ?_⟩
    · rw [probes_append, hp, append_assoc]
      rfl
    · rw [length_append]
      exact hl
    · exact forall_mem_append.mpr ⟨hf, forall_mem_singleton.mpr ⟨rfl, rfl⟩⟩

theorem Tally.down (hi : Tally cfg past s) (hle : ∀ f ∈ past, f.1.recvNow ≤ t.recvNow)
    (h : Turn cfg s t .down s') : Silent cfg past t ↔ t.Prompt := by
  cases h
  case down hc hn hsent hin hfin hrecv =>
    have ⟨hle', before, fs, hp, hl, hf⟩ := hi.counts hle hc
    constructor
    · intro hsilent
      exact .inl hsilent.last.symm
    · intro hprompt
      have heq : t.finalRecv = t.recvNow := hprompt.resolve_right (by omega)
      rw [← heq] at hf
      exact ⟨⟨before, fs, hp, by omega, hf⟩, heq.symm, hrecv, hin, hfin⟩

-- The induction is on the turns still to come; `past` holds those that led to the loop state `s`.
theorem run_down (hs : cfg.suppress = true) (ht : 1 ≤ cfg.threshold) (hord : Ordered ts)
    (hle : ∀ f ∈ past, ∀ u ∈ ts, f.1.recvNow ≤ u.recvNow) (hi : Tally cfg past s)
    (h : run cfg s ts = pre ++ (t, .down) :: post) : Silent cfg (past ++ pre) t ↔ t.Prompt := by
  induction ts generalizing past s pre
  case nil => simp [run] at h
  case cons u us ih =>
    have ⟨_, hnext, hords⟩ := hord.cons
    have hturn := step_turn (s := s) (t := u) hs ht
    have hnow : ∀ f ∈ past, f.1.recvNow ≤ u.recvNow := fun f hf => hle f hf u (.head _)
    cases pre
    case nil =>
      have ⟨heq, _⟩ := List.cons.inj h
      have ⟨hu, hdown⟩ := Prod.mk.inj heq
      rw [hdown, hu] at hturn
      rw [append_nil]
      exact hi.down (hu ▸ hnow) hturn
    case cons x pre =>
      have ⟨hx, h⟩ := List.cons.inj h
      split at h
      case isTrue => simp at h
      case isFalse hne =>
        have hi := hi.turn ht hnow hturn (Bool.eq_false_iff.mpr hne)
        rw [append_cons, ← hx]
        refine ih hords (forall_mem_append.mpr ⟨?_, ?_⟩) hi h
        · exact fun f hf v hv => hle f hf v (.tail _ hv)
        · exact forall_mem_singleton.mpr hnext

-- A connection that the loop drops had a silent peer exactly when the receive stamp did not move between
-- the last evaluation and the re-check to a time before the probe.
theorem runLinktest_silent_iff (hs : cfg.suppress = true) (ht : 1 ≤ cfg.threshold)
    (hord : Ordered ts) (h : runLinktest cfg ts = pre ++ (t, .down) :: post) :
    Silent cfg pre t ↔ t.Prompt :=
  run_down hs ht hord (List.forall_mem_nil _) (.reset ht) h

theorem runLinktest_silent_iff_two :
    let t₁ : Tick := ⟨false, .selected, 0, 0, 10, 0, 10, .failed, 0, 0, 0, 0⟩
    let t₂ : Tick := ⟨false, .selected, 10, 0, 30, 0, 30, .failed, 0, 0, 0, 0⟩
    Silent ⟨10, 2, true⟩ [(t₁, .counted)] t₂ ↔ t₂.Prompt := by
  intro t₁ t₂
  have hord : Ordered [t₁, t₂] := by unfold Ordered; decide
  have hrun : runLinktest ⟨10, 2, true⟩ [t₁, t₂] = [(t₁, .counted)] ++ [(t₂, .down)] := by decide
  exact runLinktest_silent_iff rfl (by decide) hord hrun

-- A frame of time 25 is stamped only after the second failure was evaluated, and the re-check lets
-- the connection go down.
theorem down_with_frame_between_probes :
    let t₁ : Tick := ⟨false, .selected, 0, 0, 10, 0, 10, .failed, 0, 0, 0, 0⟩
    let t₂ : Tick := ⟨false, .selected, 10, 0, 30, 0, 30, .failed, 0, 0, 0, 25⟩
    Ordered [t₁, t₂] ∧ runLinktest ⟨10, 2, true⟩ [t₁, t₂] = [(t₁, .counted), (t₂, .down)] ∧
      ¬ Silent ⟨10, 2, true⟩ [(t₁, .counted)] t₂ := by
  refine ⟨by unfold Ordered; decide, by decide, ?_⟩
  intro hsilent
  exact absurd hsilent.last (by decide)

end Linktest
end Hsmsss
