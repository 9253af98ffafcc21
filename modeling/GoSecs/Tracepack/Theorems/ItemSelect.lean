import GoSecs.Tracepack.Theorems.SecsItem

open List Option

namespace Tracepack.SecsItem

variable {b b' : Bytes} {room off count step k : Nat} {n m : Node} {ns : List Node} {h : Header}
variable {item item' : Nat → Option Node} {path : Bytes} {p q : Pattern}
variable {out out' : List (Bytes × Node)} {x y : Bytes × Node}
  {g : Node → Bytes → Option (List (Bytes × Node))}

theorem Node.Ok.body_le (hn : n.Ok) : n.body ≤ n.stop := by
  cases hn with
  | leaf h₁ h₂ => exact h₂
  | list h₁ hc hok hs =>
    have := stopOf_ge hc (Node.Ok.items_le hok)
    simp only [Node.body, Node.stop]
    omega

theorem Node.Ok.body_le_contents (hn : n.Ok) : ∀ r ∈ n.contents, n.body ≤ r.start := by
  intro r hr
  cases hn with
  | leaf h₁ h₂ =>
    simp only [Node.contents] at hr
    split at hr
    case isTrue  => simp at hr
    case isFalse =>
      obtain rfl := mem_singleton.mp hr
      exact leafStart_ge ..
  | list h₁ hc hok hs =>
    obtain ⟨m, hm, hr⟩ := mem_contentsOf.mp hr
    have h₁ := (hok m hm).contents_within r hr
    have h₂ := (hc.within (Node.Ok.items_le hok) hm).1
    simp only [Node.body]
    omega

theorem header?_congr (hl : b'.length = b.length) (hh : header? b off = some h)
    (hb : ∀ i, off ≤ i → i < h.body → b'[i]? = b[i]?) : header? b' off = some h := by
  have ⟨first, hf, hcode, hbody, hn, hle, hlen⟩ := header?_eq_some hh
  have hf' : b'[off]? = some first := by rw [hb off le_rfl (by omega), hf]
  have ht : (b'.drop (off + 1)).take (first &&& 0x03).toNat =
      (b.drop (off + 1)).take (first &&& 0x03).toNat := by
    apply ext_getElem?
    intro i
    rw [getElem?_take, getElem?_take]
    split
    case isTrue hi => rw [getElem?_drop, getElem?_drop, hb _ (by omega) (by omega)]
    case isFalse   => rfl
  unfold header?
  simp only [hf', hl, ht]
  rw [if_neg (by omega), ← hlen, ← hcode, ← hbody]

theorem Items.congr (hok : ∀ off n, item off = some n → n.Ok ∧ n.start = off)
    (hi : ∀ off n, item off = some n →
      (∀ i, n.start ≤ i → i < n.stop → (∀ r ∈ n.contents, ¬r.Holds i) → b'[i]? = b[i]?) →
      item' off = some n)
    (ht : Items item count off ns)
    (hb : ∀ i, off ≤ i → i < stopOf off ns → (∀ r ∈ contentsOf ns, ¬r.Holds i) → b'[i]? = b[i]?) :
    Items item' count off ns := by
  induction ht
  case nil => exact .nil
  case cons off x _ xs hx hxs ih =>
    obtain ⟨hxok, hstart⟩ := hok off x hx
    have hlt := hxok.start_lt
    have hge := hxs.stop_ge (le_stop hok)
    have hall := hxs.all (P := Node.Ok) fun off n hn => (hok off n hn).1
    have hcons := hxs.consecutive fun off n hn => (hok off n hn).2
    rw [contentsOf, stopOf] at hb
    -- The content of the items behind `x` lies behind it, and its own content in it.
    have hafter : ∀ r ∈ contentsOf xs, x.stop < r.start := by
      intro r hr
      obtain ⟨m, hm, hr⟩ := mem_contentsOf.mp hr
      have h₁ := (hall m hm).contents_within r hr
      have h₂ := (hcons.within (Node.Ok.items_le hall) hm).1
      omega
    refine .cons (hi off x hx ?_) (ih ?_)
    · intro i h₁ h₂ hc
      refine hb i (by omega) (by omega) fun r hr => ?_
      rcases mem_append.mp hr with hr | hr
      · exact hc r hr
      · rintro ⟨h₃, _⟩
        have := hafter r hr
        omega
    · intro i h₁ h₂ hc
      refine hb i (by omega) h₂ fun r hr => ?_
      rcases mem_append.mp hr with hr | hr
      · rintro ⟨_, h₃⟩
        have := (hxok.contents_within r hr).2.2
        omega
      · exact hc r hr

-- Texts of one length that agree outside the content have the same tree.
theorem tree_congr (hl : b'.length = b.length) (ht : tree b room off = some n)
    (hb : ∀ i, n.start ≤ i → i < n.stop → (∀ r ∈ n.contents, ¬r.Holds i) → b'[i]? = b[i]?) :
    tree b' room off = some n := by
  induction room using Nat.strong_induction_on generalizing off n
  case h room hi =>
    have ⟨hn, hstart, _⟩ := tree_ok ht
    have ⟨h, hh, ht⟩ := tree_eq_some.mp ht
    have hbounds := header?_bounds hh
    have hbody : n.body = h.body := by
      rcases ht with ⟨_, _, rfl⟩ | ⟨_, _, _, _, _, _, rfl⟩
      · rfl
      · rfl
    have hstop := hn.body_le
    have hh' : header? b' off = some h := by
      refine header?_congr hl hh fun i h₁ h₂ => hb i (by omega) (by omega) fun r hr => ?_
      rintro ⟨h₃, _⟩
      have := hn.body_le_contents r hr
      omega
    refine tree_eq_some.mpr ⟨h, hh', ?_⟩
    simp only [LeafOk, hl] at ht ⊢
    rcases ht with ht | ⟨hc, hlen, room, rfl, items, hit, rfl⟩
    · exact .inl ht
    · refine .inr ⟨hc, hlen, room, rfl, items, ?_, rfl⟩
      refine hit.congr (fun off n ht => ⟨(tree_ok ht).1, (tree_ok ht).2.1⟩)
        (fun off n ht hb => hi room (Nat.lt_succ_self room) ht hb) fun i h₁ h₂ hc => ?_
      refine hb i ?_ h₂ hc
      simp only [Node.start]
      omega

theorem select_cons : n.select (step :: p) path = some out ↔ ∃ start body stop items,
    n = .list start body stop items ∧ step ≤ items.length ∧
      selectNodes (Node.select p) step path 1 items = some out := by
  cases n with
  | leaf code start body stop => simp [Node.select]
  | list start body stop items =>
    simp only [Node.select]
    by_cases hs : items.length < step
    · simp [hs]
    · simp [hs, not_lt.mp hs]

theorem mem_selectNodes (hs : selectNodes g step path k ns = some out) (hx : x ∈ out) :
    ∃ j n out', ns[j]? = some n ∧ (step = 0 ∨ step = k + j) ∧
      g n (childPath path (k + j)) = some out' ∧ x ∈ out' := by
  induction ns generalizing k out
  case nil =>
    obtain rfl := some.inj hs
    simp at hx
  case cons n ns hi =>
    -- From the elements behind the first one.
    have later : ∀ {out'}, selectNodes g step path (k + 1) ns = some out' → x ∈ out' →
        ∃ j m out', (n :: ns)[j]? = some m ∧ (step = 0 ∨ step = k + j) ∧
          g m (childPath path (k + j)) = some out' ∧ x ∈ out' := by
      intro out' hs hx
      obtain ⟨j, m, o, hj, hst, hg, hx⟩ := hi hs hx
      rw [Nat.add_assoc, Nat.add_comm 1 j] at hst hg
      exact ⟨j + 1, m, o, by simpa using hj, hst, hg, hx⟩
    rw [selectNodes] at hs
    by_cases hk : step = 0 ∨ step = k
    · rw [if_pos hk] at hs
      cases hg : g n (childPath path k)
      case none => simp [hg] at hs
      case some o =>
        simp only [hg] at hs
        have first : x ∈ o → ∃ j m out', (n :: ns)[j]? = some m ∧ (step = 0 ∨ step = k + j) ∧
            g m (childPath path (k + j)) = some out' ∧ x ∈ out' :=
          fun hx => ⟨0, n, o, rfl, hk, hg, hx⟩
        by_cases hst : step = k
        · rw [if_pos hst] at hs
          obtain rfl := some.inj hs
          exact first hx
        · rw [if_neg hst] at hs
          obtain ⟨o', ho', he⟩ := map_eq_some_iff.mp hs
          rw [← he] at hx
          rcases mem_append.mp hx with hx | hx
          · exact first hx
          · exact later ho' hx
    · rw [if_neg hk] at hs
      exact later hs hx

theorem Node.Ok.items {start body stop : Nat} {items : List Node}
    (hn : (Node.list start body stop items).Ok) :
    Consecutive body items ∧ (∀ n ∈ items, n.Ok) ∧ start + 2 ≤ body ∧ stopOf body items = stop := by
  cases hn with | list h₁ hc hok hs => exact ⟨hc, hok, h₁, hs⟩

theorem select_within (hn : n.Ok) (hs : n.select p path = some out) (hx : x ∈ out) :
    x.2.Ok ∧ n.start ≤ x.2.start ∧ x.2.stop ≤ n.stop := by
  induction p generalizing n path out
  case nil =>
    obtain rfl := some.inj hs
    obtain rfl := mem_singleton.mp hx
    exact ⟨hn, le_rfl, le_rfl⟩
  case cons step p hi =>
    obtain ⟨start, body, stop, items, rfl, _, hs⟩ := select_cons.mp hs
    have ⟨j, m, o, hj, _, hg, hx⟩ := mem_selectNodes hs hx
    have ⟨hc, hok, hb, hst⟩ := hn.items
    have hm := mem_of_getElem? hj
    have h₁ := hi (hok m hm) hg hx
    have h₂ := hc.within (Node.Ok.items_le hok) hm
    have hl : start ≤ m.start := by omega
    have hr : m.stop ≤ stop := by omega
    exact ⟨h₁.1, hl.trans h₁.2.1, h₁.2.2.trans hr⟩

theorem select_tree (ht : tree b room off = some n) (hs : n.select p path = some out) (hx : x ∈ out) :
    ∃ room, tree b room x.2.start = some x.2 := by
  induction p generalizing room off n path out
  case nil =>
    obtain rfl := some.inj hs
    obtain rfl := mem_singleton.mp hx
    exact ⟨room, by rw [(tree_ok ht).2.1]; exact ht⟩
  case cons step p hi =>
    have ⟨h, _, ht⟩ := tree_eq_some.mp ht
    have ⟨start, body, stop, items, hn, _, hs⟩ := select_cons.mp hs
    have ⟨j, m, o, hj, _, hg, hx⟩ := mem_selectNodes hs hx
    rcases ht with ⟨_, _, rfl⟩ | ⟨_, _, room, _, items', hit, rfl⟩
    · simp at hn
    · obtain ⟨-, -, -, rfl⟩ := Node.list.inj hn
      have ⟨off, hm⟩ := hit.all (P := fun m => ∃ off, tree b room off = some m)
        (fun off n h => ⟨off, h⟩) m (mem_of_getElem? hj)
      exact hi hm hg hx

theorem select_contents (hs : n.select p path = some out) (hx : x ∈ out) :
    ∀ r ∈ x.2.contents, r ∈ n.contents := by
  induction p generalizing n path out
  case nil =>
    obtain rfl := some.inj hs
    obtain rfl := mem_singleton.mp hx
    exact fun r hr => hr
  case cons step p hi =>
    obtain ⟨start, body, stop, items, rfl, _, hs⟩ := select_cons.mp hs
    have ⟨j, m, o, hj, _, hg, hx⟩ := mem_selectNodes hs hx
    exact fun r hr => mem_contentsOf.mpr ⟨m, mem_of_getElem? hj, hi hg hx r hr⟩

def Apart (x y : Bytes × Node) : Prop :=
  x.2.stop ≤ y.2.start ∨ y.2.stop ≤ x.2.start

theorem apart_of_ne {i j : Nat} {ni nj : Node} (hc : Consecutive off ns) (hok : ∀ n ∈ ns, n.Ok)
    (hi : ns[i]? = some ni) (hj : ns[j]? = some nj) (hij : i ≠ j)
    (hx : ni.start ≤ x.2.start ∧ x.2.stop ≤ ni.stop)
    (hy : nj.start ≤ y.2.start ∧ y.2.stop ≤ nj.stop) : Apart x y := by
  have hp := hc.pairwise (Node.Ok.items_le hok)
  have ⟨hli, hi⟩ := List.getElem?_eq_some_iff.mp hi
  have ⟨hlj, hj⟩ := List.getElem?_eq_some_iff.mp hj
  rcases Nat.lt_or_gt_of_ne hij with hlt | hlt
  · have := pairwise_iff_getElem.mp hp i j hli hlj hlt
    rw [hi, hj] at this
    exact .inl (by omega)
  · have := pairwise_iff_getElem.mp hp j i hlj hli hlt
    rw [hi, hj] at this
    exact .inr (by omega)

theorem selectNodes_pairwise (hg : ∀ n ∈ ns, ∀ path out, g n path = some out →
      out.Pairwise Apart ∧ ∀ x ∈ out, n.start ≤ x.2.start ∧ x.2.stop ≤ n.stop)
    (hc : Consecutive off ns) (hok : ∀ n ∈ ns, n.Ok)
    (hs : selectNodes g step path k ns = some out) : out.Pairwise Apart := by
  induction ns generalizing off k out
  case nil =>
    obtain rfl := some.inj hs
    exact .nil
  case cons n ns hi =>
    obtain ⟨hgn, hgns⟩ := forall_mem_cons.mp hg
    obtain ⟨_, hoks⟩ := forall_mem_cons.mp hok
    rw [selectNodes] at hs
    by_cases hk : step = 0 ∨ step = k
    · rw [if_pos hk] at hs
      cases ho : g n (childPath path k)
      case none => simp [ho] at hs
      case some o =>
        simp only [ho] at hs
        obtain ⟨hop, hox⟩ := hgn _ _ ho
        by_cases hst : step = k
        · rw [if_pos hst] at hs
          obtain rfl := some.inj hs
          exact hop
        · rw [if_neg hst] at hs
          obtain ⟨o', ho', he⟩ := map_eq_some_iff.mp hs
          rw [← he]
          refine pairwise_append.mpr ⟨hop, hi hgns hc.2 hoks ho', fun x hx y hy => .inl ?_⟩
          obtain ⟨j, m, out', hj, _, hgm, hy⟩ := mem_selectNodes ho' hy
          have hm := mem_of_getElem? hj
          have h₁ := (hox x hx).2
          have h₂ := ((hgns m hm _ _ hgm).2 y hy).1
          have h₃ := (hc.2.within (Node.Ok.items_le hoks) hm).1
          omega
    · rw [if_neg hk] at hs
      exact hi hgns hc.2 hoks hs

-- The nodes that one pattern selects are apart from each other.
theorem select_pairwise (hn : n.Ok) (hs : n.select p path = some out) : out.Pairwise Apart := by
  induction p generalizing n path out
  case nil =>
    obtain rfl := some.inj hs
    exact pairwise_singleton ..
  case cons step p hi =>
    obtain ⟨start, body, stop, items, rfl, _, hs⟩ := select_cons.mp hs
    have ⟨hc, hok, _, _⟩ := hn.items
    refine selectNodes_pairwise (fun n hm path out ho => ⟨hi (hok n hm) ho, fun x hx => ?_⟩) hc hok hs
    exact (select_within (hok n hm) ho hx).2

-- Patterns that do not overlap select nodes apart from each other.
theorem select_apart (hn : n.Ok) (ho : overlaps p q = false) {path' : Bytes}
    (hp : n.select p path = some out) (hq : n.select q path' = some out') (hx : x ∈ out)
    (hy : y ∈ out') : Apart x y := by
  induction p generalizing n q path path' out out'
  case nil => simp [overlaps] at ho
  case cons step p hi =>
    cases q
    case nil => simp [overlaps] at ho
    case cons step' q =>
      obtain ⟨start, body, stop, items, rfl, _, hp⟩ := select_cons.mp hp
      obtain ⟨_, _, _, items', he, _, hq⟩ := select_cons.mp hq
      obtain ⟨-, -, -, rfl⟩ := Node.list.inj he
      have ⟨hc, hok, _, _⟩ := hn.items
      have ⟨i, ni, oi, hgi, hsi, hpi, hx⟩ := mem_selectNodes hp hx
      have ⟨j, nj, oj, hgj, hsj, hqj, hy⟩ := mem_selectNodes hq hy
      have hni := hok ni (mem_of_getElem? hgi)
      have hnj := hok nj (mem_of_getElem? hgj)
      by_cases hij : i = j
      · subst hij
        obtain rfl : ni = nj := some.inj (hgi.symm.trans hgj)
        have ho' : overlaps p q = false := by
          simp only [overlaps, Bool.and_eq_false_iff] at ho
          rcases ho with ho | ho
          · simp at ho
            omega
          · exact ho
        exact hi hni ho' hpi hqj hx hy
      · exact apart_of_ne hc hok hgi hgj hij (select_within hni hpi hx).2
          (select_within hnj hqj hy).2

end Tracepack.SecsItem
