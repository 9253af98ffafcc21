import GoSecs.Tracepack.TxRuns
import GoSecs.Tracepack.Theorems.Runs

open Run List

namespace Tracepack.TxRuns

variable {runs l m t : List TxRun} {seqs : Finset Nat} {q : TxRun} {seq x : Nat} {b : Budget}

-- The runs after an insertion: a new one is charged first, and one that was joined is released.
def Inserts (seqs : Finset Nat) (runs : List TxRun) (seq : Nat) (b : Budget)
    (res : Run Err (List TxRun × Budget)) : Prop :=
  ∃ runs', Covers (seqs ∪ {seq}) runs' ∧ runs'.length ≤ runs.length + 1 ∧ res =
    if runs'.length = runs.length + 1 then b.reserve txRunCharge >>= fun b => pure (runs', b)
    else .ok (runs', { b with used := b.used + (runs'.length - runs.length) * txRunCharge })

theorem inserts (h : Covers seqs runs) (hr : runs = l ++ m ++ t)
    (hs : ∀ x, q.first ≤ x ∧ x ≤ q.last ↔ x = seq ∨ x ∈ seqSet m)
    (hl : ∀ a ∈ l, a.last + 1 < q.first) (ht : ∀ a ∈ t, q.last + 1 < a.first)
    {res : Run Err (List TxRun × Budget)}
    (hres : res = if m = [] then b.reserve txRunCharge >>= fun b => pure (l ++ [q] ++ t, b)
      else .ok (l ++ [q] ++ t, { b with used := b.used + (1 - m.length) * txRunCharge })) :
    Inserts seqs runs seq b res := by
  subst hr
  have hq := (hs seq).mpr (.inl rfl)
  refine ⟨l ++ [q] ++ t, h.replace (by ext x; simpa using hs x) (hq.1.trans hq.2) hl ht,
    by simp; omega, hres.trans ?_⟩
  cases m
  case nil => simp [Nat.add_assoc]
  case cons a m =>
    rw [if_neg nofun, if_neg (by simp; omega)]
    congr 3
    simp

theorem joinsPrev_cases (t : List TxRun) (hp : l.Pairwise fun a b => a.last + 1 < b.first)
    (hr : ∀ r ∈ l, r.first ≤ r.last) (hl : ∀ r ∈ l, r.last < seq) (hs : seq < 2 ^ 64) :
    joinsPrev (l ++ t) l.length seq = true ∧ (∃ l' p, l = l' ++ [p] ∧ p.last + 1 = seq) ∨
      joinsPrev (l ++ t) l.length seq = false ∧ ∀ r ∈ l, r.last + 1 < seq := by
  rcases eq_nil_or_concat l with rfl | ⟨l, p, rfl⟩
  case inl => exact .inr ⟨rfl, nofun⟩
  case inr =>
    rw [concat_eq_append] at *
    have hlt := hl p (by simp)
    by_cases he : p.last + 1 = seq
    case pos => exact .inl ⟨by simp [joinsPrev]; omega, l, p, rfl, he⟩
    case neg =>
      refine .inr ⟨by simp [joinsPrev]; omega, fun r h => ?_⟩
      rcases mem_append.mp h with h | h
      · have := (pairwise_append.mp hp).2.2 r h p (by simp)
        have := hr p (by simp)
        omega
      · cases mem_singleton.mp h
        omega

theorem insertBefore_inserts (h : Covers seqs runs) (hlt : ∀ x ∈ seqs, x < 2 ^ 64)
    (hle : ∃ r ∈ runs, seq ≤ r.last) (b : Budget) :
    Inserts seqs runs seq b (insertBefore runs seq b) := by
  obtain ⟨l, t, rfl, hi, hl, ht, -⟩ := h.separated.search_cases seq
  cases t
  case nil =>
    have ⟨r, hr, hle⟩ := hle
    have := hl r (by simpa using hr)
    omega
  case cons r t =>
    have hr : r.first ≤ r.last := h.separated.first_le_last (by simp)
    have hlast : r.last < 2 ^ 64 := hlt _ (h.seqs ▸ h.separated.last_mem (by simp))
    have ⟨hpl, hpt, _⟩ := pairwise_append.mp (h.separated.pairwise)
    have hrt := (pairwise_cons.mp hpt).1
    have hidx : (index (l ++ r :: t) l.length : Run Err TxRun) = .ok r := by simp [index]
    rw [insertBefore, search, hi]
    simp only [hidx, bind_ok]
    by_cases hf : r.first ≤ seq
    case pos =>
      have hm : seq ∈ seqs := by
        rw [← h.seqs]
        exact mem_seqSet.mpr ⟨r, by simp, hf, ht r (by simp)⟩
      rw [if_pos hf]
      exact ⟨_, by rwa [Finset.union_eq_left.mpr (by simpa using hm)], Nat.le_succ _, by simp⟩
    case neg =>
      have hnext : (r.first + (2 ^ 64 - 1)) % 2 ^ 64 = seq ↔ seq + 1 = r.first := by omega
      have hright (hn : ¬seq + 1 = r.first) : ∀ a ∈ r :: t, seq + 1 < a.first := by
        refine forall_mem_cons.mpr ⟨by omega, fun a ha => ?_⟩
        have := hrt a ha
        omega
      rw [if_neg hf]
      rcases joinsPrev_cases (r :: t) hpl (fun r h' => h.separated.first_le_last (by simp [h'])) hl
        (by omega) with ⟨hprev, l, p, rfl, rfl⟩ | ⟨hprev, hgap⟩
      case inl =>
        have hp : p.first ≤ p.last := h.separated.first_le_last (by simp)
        have hpl : ∀ a ∈ l, a.last + 1 < p.first := by
          simpa using (pairwise_append.mp hpl).2.2
        have hmod (f : TxRun → TxRun) : (l ++ p :: r :: t).modify ((l ++ [p]).length - 1) f =
            l ++ f p :: r :: t := by
          simp [modify_eq_take_drop]
        simp only [hnext, hprev, true_and, if_true]
        rw [append_assoc, singleton_append] at *
        rw [hmod, hmod]
        split
        case isTrue hn =>
          refine inserts (m := [p, r]) (q := ⟨p.first, r.last⟩) h (by simp) (fun x => ?_) hpl hrt ?_
          · simp
            omega
          · simp [eraseIdx_append, Budget.release]
            rfl
        case isFalse hn =>
          refine inserts (m := [p]) (q := ⟨p.first, p.last + 1⟩) h (by simp) (fun x => ?_) hpl
            (hright hn) (by simp)
          simp
          omega
      case inr =>
        simp only [hnext, hprev, Bool.false_eq_true, false_and, if_false]
        split
        case isTrue hn =>
          refine inserts (m := [r]) (q := ⟨seq, r.last⟩) h (by simp) (fun x => ?_) hgap hrt
            (by simp)
          simp
          omega
        case isFalse hn =>
          refine inserts (m := []) (q := ⟨seq, seq⟩) h (by simp) (fun x => ?_) hgap (hright hn)
            (by simp)
          simp
          omega

theorem insert_inserts (h : Covers seqs runs) (hlt : ∀ x ∈ seqs, x < 2 ^ 64) (seq : Nat)
    (b : Budget) : Inserts seqs runs seq b (insert runs seq b) := by
  rcases eq_nil_or_concat runs with rfl | ⟨l, r, rfl⟩
  case inl => exact inserts (l := []) (m := []) (t := []) h rfl (by simp; omega) nofun nofun rfl
  case inr =>
    rw [concat_eq_append] at *
    have hr : r.first ≤ r.last := h.separated.first_le_last (by simp)
    have hl : ∀ a ∈ l, a.last + 1 < r.first := by
      simpa using (pairwise_append.mp (h.separated.pairwise)).2.2
    rw [insert, getLast?_concat]
    dsimp only
    split
    case isTrue hle => exact insertBefore_inserts h hlt ⟨r, by simp, hle⟩ b
    case isFalse hle =>
      split
      case isTrue h1 =>
        refine inserts (m := [r]) (t := []) (q := ⟨r.first, seq⟩) h (by simp) (fun x => ?_) hl nofun
          (by simp)
        simp
        omega
      case isFalse h1 =>
        refine inserts (l := l ++ [r]) (m := []) (t := []) (q := ⟨seq, seq⟩) h (by simp)
          (fun x => ?_) (fun a ha => ?_) nofun (by simp)
        · simp
          omega
        · rcases mem_append.mp ha with ha | ha
          · have := hl a ha
            simp
            omega
          · cases mem_singleton.mp ha
            simp
            omega

-- The set after insertions, beside what the budget held before.
structure Holds (seqs : Finset Nat) (b₀ : Budget) (s : List TxRun × Budget) : Prop where
  covers : Covers seqs s.1
  used   : s.2.used = b₀.used + s.1.length * txRunCharge

variable {b₀ : Budget} {s s' : List TxRun × Budget}

theorem Holds.insert (h : Holds seqs b₀ s) (hlt : ∀ x ∈ seqs, x < 2 ^ 64)
    (hs : TxRuns.insert s.1 seq s.2 = .ok s') : Holds (seqs ∪ {seq}) b₀ s' := by
  have ⟨runs, hc, _, he⟩ := insert_inserts h.covers hlt seq s.2
  have hu := h.used
  rw [hs] at he
  split at he
  case isTrue hl =>
    obtain ⟨b, hb, hp⟩ := bind_eq_ok.mp he.symm
    obtain ⟨_, _, hb⟩ := bind_eq_ok.mp hb
    cases hb
    cases hp
    refine ⟨hc, ?_⟩
    simp only [hu, hl]
    push_cast
    ring
  case isFalse =>
    cases he
    refine ⟨hc, ?_⟩
    simp only [hu]
    ring

-- An insertion charges one run at most.
theorem insert_ok (h : Covers seqs runs) (hlt : ∀ x ∈ seqs, x < 2 ^ 64) (seq : Nat)
    (hb : b.used + txRunCharge ≤ b.max) : ∃ s, TxRuns.insert runs seq b = .ok s ∧
      s.2.used ≤ b.used + txRunCharge ∧ s.2.max = b.max := by
  have ⟨runs', _, hl, he⟩ := insert_inserts h hlt seq b
  rw [he]
  split
  case isTrue =>
    have hf : ¬b.max - b.used < txRunCharge := by omega
    simp only [Budget.reserve, failIf, if_neg hf]
    exact ⟨_, rfl, le_rfl, rfl⟩
  case isFalse =>
    refine ⟨_, rfl, ?_, rfl⟩
    simp only [txRunCharge]
    omega

theorem Holds.insertAll (h : Holds seqs b₀ s) (hlt : ∀ x ∈ seqs, x < 2 ^ 64) {xs : List Nat}
    (hx : ∀ x ∈ xs, x < 2 ^ 64) :
    (s.2.used + xs.length * txRunCharge ≤ s.2.max →
      ∃ s', xs.foldlM (fun s x => TxRuns.insert s.1 x s.2) s = .ok s') ∧
    ∀ s', xs.foldlM (fun s x => TxRuns.insert s.1 x s.2) s = .ok s' →
      Holds (seqs ∪ xs.toFinset) b₀ s' := by
  induction xs generalizing seqs s
  case nil =>
    refine ⟨fun _ => ⟨s, rfl⟩, fun s' hs => ?_⟩
    cases hs
    simpa using h
  case cons x xs hi =>
    have ⟨hx, hxs⟩ := forall_mem_cons.mp hx
    have hlt' : ∀ y ∈ seqs ∪ {x}, y < 2 ^ 64 := by
      rintro y hy
      rcases Finset.mem_union.mp hy with hy | hy
      exacts [hlt y hy, Finset.mem_singleton.mp hy ▸ hx]
    simp only [foldlM_cons]
    constructor
    case left =>
      intro hb
      have hone : s.2.used + txRunCharge ≤ s.2.max := by
        simp only [txRunCharge, length_cons] at hb ⊢
        omega
      have ⟨s₁, hs, hu, hm⟩ := insert_ok h.covers hlt x hone
      rw [hs, bind_ok]
      refine (hi (h.insert hlt hs) hlt' hxs).1 ?_
      simp only [txRunCharge, length_cons, hm] at hb hu ⊢
      omega
    case right =>
      intro s' hs
      obtain ⟨s₁, hs, hrest⟩ := bind_eq_ok.mp hs
      have := (hi (h.insert hlt hs) hlt' hxs).2 s' hrest
      rwa [Finset.union_assoc, ← Finset.insert_eq, ← toFinset_cons] at this

theorem find_eq (h : Separated none runs) (x : Nat) :
    ((find runs x).isSome ↔ x ∈ seqSet runs) ∧
      ∀ r, find runs x = some r → r ∈ runs ∧ r.first ≤ x ∧ x ≤ r.last := by
  obtain ⟨l, t, rfl, hi, _, ht, hm⟩ := h.search_cases x
  rw [find, search, hi, getElem?_append_right le_rfl, Nat.sub_self, ← head?_eq_getElem?,
    hm]
  cases t
  case nil => simp
  case cons r t => simpa [Option.filter_eq_some_iff] using fun hf => ⟨hf, ht r (by simp)⟩

theorem contains_iff (h : Covers seqs runs) : contains runs x = true ↔ x ∈ seqs := by
  rw [← h.seqs]
  unfold contains
  split
  case h_1 f l hf hl =>
    split
    case isFalse => exact (find_eq h.separated x).1
    case isTrue ho =>
      refine iff_of_false Bool.false_ne_true fun hx => ?_
      obtain ⟨t, rfl⟩ := head?_eq_some_iff.mp hf
      have := h.separated.first_le hx
      have := h.separated.le_last hl hx
      omega
  case h_2 hn =>
    cases runs
    case nil => simp
    case cons r t => exact absurd getLast?_cons (hn r _ rfl)

section Window

variable {reads : List (List TxRun)} {p e cur k : Nat}
  (h : ∀ runs ∈ reads, Separated none runs ∧ ∀ x ∈ seqSet runs, x < 2 ^ 64) (he : e < 2 ^ 64)

def missing (reads : List (List TxRun)) (p e : Nat) : Set Nat :=
  { x | p < x ∧ x < e ∧ ∀ runs ∈ reads, x ∉ seqSet runs }

def LeastOf (s : Set Nat) : Option Nat → Prop
  | some x => IsLeast s x
  | none   => s = ∅

include h he

theorem firstMissingFrom_spec (hp : p < cur) (hc : cur < e) (hk : e - cur < k)
    (hv : ∀ x ∈ missing reads p e, cur ≤ x) :
    ∃ res, firstMissingFrom reads e k cur = .ok res ∧ LeastOf (missing reads p e) res := by
  induction k generalizing cur
  case zero => omega
  case succ k hi =>
    rw [firstMissingFrom]
    cases hf : visitedFrom reads cur
    case none =>
      refine ⟨some cur, rfl, ⟨hp, hc, fun runs hr hx => ?_⟩, hv⟩
      have hn := findSome?_eq_none_iff.mp hf runs hr
      have hs := (find_eq (h runs hr).1 cur).1.mpr hx
      rw [Option.map_eq_none_iff.mp hn] at hs
      cases hs
    case some last =>
      obtain ⟨runs, hr, hs⟩ := exists_of_findSome?_eq_some hf
      obtain ⟨r, hfind, rfl⟩ := Option.map_eq_some_iff.mp hs
      have ⟨hm, hfirst, hlast⟩ := (find_eq (h runs hr).1 cur).2 r hfind
      have hlt := (h runs hr).2 _ ((h runs hr).1.last_mem hm)
      have hv' : ∀ x ∈ missing reads p e, r.last < x := by
        intro x hx
        by_contra hn
        exact hx.2.2 runs hr (mem_seqSet.mpr ⟨r, hm, hfirst.trans (hv x hx), not_lt.mp hn⟩)
      have hw : (e + (2 ^ 64 - 1)) % 2 ^ 64 = e - 1 := by omega
      simp only [hw]
      split
      case isTrue =>
        refine ⟨none, rfl, Set.eq_empty_of_forall_notMem fun x hx => ?_⟩
        have := hv' x hx
        have := hx.2.1
        omega
      case isFalse =>
        rw [Nat.mod_eq_of_lt (by omega)]
        exact hi (by omega) (by omega) (by omega) hv'

theorem firstMissing_spec (hp : p ≤ e) :
    ∃ res, firstMissing reads p e = .ok res ∧ LeastOf (missing reads p e) res := by
  have hw : (e + (2 ^ 64 - p)) % 2 ^ 64 = e - p := by omega
  rw [firstMissing, hw]
  split
  case isTrue =>
    refine ⟨none, rfl, Set.eq_empty_of_forall_notMem fun x hx => ?_⟩
    have := hx.1
    have := hx.2.1
    omega
  case isFalse =>
    rw [Nat.mod_eq_of_lt (by omega)]
    exact firstMissingFrom_spec h he (by omega) (by omega) (by omega) fun x hx => hx.1

end Window

-- The runs are those of the seqs inserted, and a window finds the least seq in no set.
theorem runs_exact :
    (∀ (xs : List Nat) (b : Budget), (∀ x ∈ xs, x < 2 ^ 64) →
      (b.used + xs.length * txRunCharge ≤ b.max → ∃ s, insertAll xs b = .ok s) ∧
      ∀ s, insertAll xs b = .ok s →
        Covers xs.toFinset s.1 ∧ s.2.used = b.used + s.1.length * txRunCharge ∧
        ∀ x, contains s.1 x = true ↔ x ∈ xs) ∧
    ∀ (reads : List (List TxRun)) (p e : Nat),
      (∀ runs ∈ reads, Separated none runs ∧ ∀ x ∈ seqSet runs, x < 2 ^ 64) →
      e < 2 ^ 64 → p ≤ e → ∃ res, firstMissing reads p e = .ok res ∧
        LeastOf (missing reads p e) res := by
  refine ⟨fun xs b hx => ?_, fun reads p e h he hp => firstMissing_spec h he hp⟩
  have h₀ : Holds ∅ b ([], b) := ⟨⟨trivial, rfl⟩, by simp⟩
  have ⟨hok, hall⟩ := h₀.insertAll nofun hx
  refine ⟨hok, fun s hs => ?_⟩
  have h := hall s hs
  rw [Finset.empty_union] at h
  exact ⟨h.covers, h.used, fun x => (contains_iff h.covers).trans List.mem_toFinset⟩

theorem runs_exact_joined :
    (∃ s, insertAll [7, 5, 2 ^ 64 - 1, 6, 5] ⟨80, 0⟩ = .ok s ∧ contains s.1 6 = true) ∧
    ∃ res, firstMissing [[⟨5, 7⟩], [⟨8, 9⟩]] 4 12 = .ok res ∧
      LeastOf (missing [[⟨5, 7⟩], [⟨8, 9⟩]] 4 12) res := by
  have ⟨hok, h⟩ := runs_exact.1 [7, 5, 2 ^ 64 - 1, 6, 5] ⟨80, 0⟩ (by decide)
  have ⟨s, hs⟩ := hok (by decide)
  refine ⟨⟨s, hs, ((h s hs).2.2 6).mpr (by decide)⟩, runs_exact.2 _ 4 12 ?_ (by decide) (by decide)⟩
  intro runs hr
  fin_cases hr <;> exact ⟨by simp [Separated], by decide⟩

end Tracepack.TxRuns
