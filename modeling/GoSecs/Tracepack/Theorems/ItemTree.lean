import GoSecs.Tracepack.ItemTree

open Run Option

namespace Tracepack.SecsItem

variable {P : Node → Prop}

@[elab_as_elim, induction_eliminator]
theorem Node.ind (leaf : ∀ code start body stop, P (.leaf code start body stop))
    (list : ∀ start body stop items, (∀ n ∈ items, P n) → P (.list start body stop items)) :
    ∀ n, P n := by
  intro n
  refine @Node.rec P (fun items => ∀ n ∈ items, P n) leaf
    (fun start body stop items h => list start body stop items h) ?_ ?_ n
  · simp
  · intro n ns hn hns
    simpa using ⟨hn, hns⟩

def Consecutive : Nat → List Node → Prop
  | _,   [] => True
  | off, n :: ns => n.start = off ∧ Consecutive n.stop ns

-- The positions of a node are those of a tree of headers.
inductive Node.Ok : Node → Prop
  | leaf {code start body stop} : start + 2 ≤ body → body ≤ stop → Ok (.leaf code start body stop)
  | list {start body stop items} : start + 2 ≤ body → Consecutive body items →
      (∀ n ∈ items, Ok n) → stopOf body items = stop → Ok (.list start body stop items)

inductive Items (item : Nat → Option Node) : Nat → Nat → List Node → Prop
  | nil  : Items item 0 off []
  | cons : item off = some x → Items item count x.stop xs → Items item (count + 1) off (x :: xs)

variable {item : Nat → Option Node}
variable {b b' : Bytes} {room off count stop : Nat} {n m : Node} {ns : List Node} {h : Header}

theorem stopOf_ge (hc : Consecutive off ns) (hn : ∀ n ∈ ns, n.start ≤ n.stop) :
    off ≤ stopOf off ns := by
  induction ns generalizing off
  case nil => exact le_rfl
  case cons n ns hi =>
    have h₁ := hn n List.mem_cons_self
    have h₂ := hi hc.2 fun n hm => hn n (List.mem_cons_of_mem _ hm)
    have h₃ := hc.1
    simp only [stopOf]
    omega

theorem Consecutive.within (hc : Consecutive off ns) (hn : ∀ n ∈ ns, n.start ≤ n.stop) (hm : m ∈ ns) :
    off ≤ m.start ∧ m.stop ≤ stopOf off ns := by
  induction ns generalizing off
  case nil => simp at hm
  case cons n ns hi =>
    have hns : ∀ n ∈ ns, n.start ≤ n.stop := fun n hm => hn n (List.mem_cons_of_mem _ hm)
    have h₁ := hn n List.mem_cons_self
    have h₂ := stopOf_ge hc.2 hns
    have h₃ := hc.1
    simp only [stopOf]
    rcases List.mem_cons.mp hm with rfl | hm
    · omega
    · have := hi hc.2 hns hm
      omega

theorem Consecutive.pairwise (hc : Consecutive off ns) (hn : ∀ n ∈ ns, n.start ≤ n.stop) :
    ns.Pairwise fun x y => x.stop ≤ y.start := by
  induction ns generalizing off
  case nil => exact .nil
  case cons n ns hi =>
    have hns : ∀ n ∈ ns, n.start ≤ n.stop := fun n hm => hn n (List.mem_cons_of_mem _ hm)
    exact .cons (fun m hm => (hc.2.within hns hm).1) (hi hc.2 hns)

namespace Node.Ok

theorem start_lt (hn : n.Ok) : n.start + 2 ≤ n.stop := by
  induction n
  case leaf code start body stop =>
    cases hn with | leaf h₁ h₂ => simp only [Node.start, Node.stop]; omega
  case list start body stop items hi =>
    cases hn with
    | list h₁ hc hn hs =>
      have := stopOf_ge hc fun n hm => by have := hi n hm (hn n hm); omega
      simp only [Node.start, Node.stop]
      omega

theorem items_le {items : List Node} (hn : ∀ n ∈ items, n.Ok) : ∀ n ∈ items, n.start ≤ n.stop :=
  fun n hm => by have := (hn n hm).start_lt; omega

end Node.Ok

theorem leafStart_ge (code : UInt8) (body stop : Nat) : body ≤ leafStart code body stop := by
  unfold leafStart
  split <;> omega

theorem mem_contentsOf {r : Range} : r ∈ contentsOf ns ↔ ∃ n ∈ ns, r ∈ n.contents := by
  induction ns
  case nil => simp [contentsOf]
  case cons n ns hi => simp [contentsOf, hi]

theorem Node.Ok.contents_within (hn : n.Ok) :
    ∀ r ∈ n.contents, n.start + 2 ≤ r.start ∧ r.start < r.stop ∧ r.stop ≤ n.stop := by
  induction n
  case leaf code start body stop =>
    cases hn with
    | leaf h₁ h₂ =>
      intro r hr
      have := leafStart_ge code body stop
      simp only [contents] at hr
      split at hr
      case isTrue  => simp at hr
      case isFalse =>
        obtain rfl := List.mem_singleton.mp hr
        simp only [Node.start, Node.stop]
        omega
  case list start body stop items hi =>
    cases hn with
    | list h₁ hc hn hs =>
      intro r hr
      have ⟨m, hm, hr⟩ := mem_contentsOf.mp hr
      have h₂ := hi m hm (hn m hm) r hr
      have h₃ := hc.within (Node.Ok.items_le hn) hm
      simp only [Node.start, Node.stop]
      omega

theorem contentsOf_separated (hc : Consecutive off ns) (hn : ∀ n ∈ ns, n.Ok)
    (hs : ∀ n ∈ ns, n.contents.Pairwise fun r s => r.stop < s.start) :
    (contentsOf ns).Pairwise fun r s => r.stop < s.start := by
  induction ns generalizing off
  case nil => exact .nil
  case cons n ns hi =>
    have hns : ∀ n ∈ ns, n.Ok := fun n hm => hn n (List.mem_cons_of_mem _ hm)
    refine List.pairwise_append.mpr ⟨hs n List.mem_cons_self,
      hi hc.2 hns fun n hm => hs n (List.mem_cons_of_mem _ hm), fun r hr s hs => ?_⟩
    have ⟨m, hm, hs⟩ := mem_contentsOf.mp hs
    have h₁ := (hn n List.mem_cons_self).contents_within r hr
    have h₂ := (hns m hm).contents_within s hs
    have h₃ := (hc.2.within (Node.Ok.items_le hns) hm).1
    omega

-- Between two leaves lies at least a header.
theorem Node.Ok.contents_separated (hn : n.Ok) :
    n.contents.Pairwise fun r s => r.stop < s.start := by
  induction n
  case leaf code start body stop =>
    simp only [contents]
    split <;> simp
  case list start body stop items hi =>
    cases hn with
    | list h₁ hc hn hs => exact contentsOf_separated hc hn fun m hm => hi m hm (hn m hm)

theorem header?_eq_some (hh : header? b off = some h) :
    ∃ first, b[off]? = some first ∧ h.code = first >>> 2 ∧
      h.body = off + 1 + (first &&& 0x03).toNat ∧ (first &&& 0x03).toNat ≠ 0 ∧ h.body ≤ b.length ∧
      h.length = BigEndian.nat ((b.drop (off + 1)).take (first &&& 0x03).toNat) := by
  unfold header? at hh
  split at hh
  case h_1 => simp at hh
  case h_2 first hf =>
    simp only at hh
    split at hh
    case isTrue => simp at hh
    case isFalse hc =>
      obtain rfl := some.inj hh
      rw [not_or] at hc
      exact ⟨first, hf, rfl, rfl, hc.1, by simp only; omega, rfl⟩

theorem header?_bounds (hh : header? b off = some h) : off + 2 ≤ h.body ∧ h.body ≤ b.length := by
  have ⟨first, _, _, hb, hn, hl, _⟩ := header?_eq_some hh
  omega

theorem readHeader_of_header? {ε : Type} (hh : header? b off = some h) :
    (readHeader b off : Run ε Header) = .ok h := by
  have ⟨first, hf, hcode, hbody, hn, hl, hlen⟩ := header?_eq_some hh
  have hi : (index b off : Run ε UInt8) = .ok first := by simp [index, hf]
  simp only [readHeader, hi, bind_ok]
  rw [slice_eq (by omega) (by omega)]
  have hk : off + 1 + (first &&& 0x03).toNat - (off + 1) = (first &&& 0x03).toNat := by omega
  rw [hk, bind_ok, pure_eq, ← hlen, ← hcode, ← hbody]

theorem treeItems_eq_some : treeItems item count off = some ns ↔ Items item count off ns := by
  constructor
  · intro ht
    induction count generalizing off ns
    case zero => obtain rfl := some.inj ht; exact .nil
    case succ count hi =>
      simp only [treeItems, bind_eq_bind, bind_eq_some_iff, pure_def,
        some.injEq] at ht
      obtain ⟨x, hx, xs, hxs, rfl⟩ := ht
      exact .cons hx (hi hxs)
  · intro ht
    induction ht
    case nil => rfl
    case cons hx _ hi => simp [treeItems, hx, hi]

theorem tree_eq_some : tree b room off = some n ↔ ∃ h, header? b off = some h ∧
    (h.code ≠ listCode ∧ LeafOk b h ∧ n = .leaf h.code off h.body (h.body + h.length) ∨
     h.code = listCode ∧ h.length ≤ (b.length - h.body) / 2 ∧ ∃ room', room = room' + 1 ∧
      ∃ items, Items (tree b room') h.length h.body items ∧
        n = .list off h.body (stopOf h.body items) items) := by
  simp only [← treeItems_eq_some]
  rw [tree.eq_def]
  cases hh : header? b off
  case none => simp [hh]
  case some h =>
    simp only [hh, bind_eq_bind, bind_some, some.injEq, exists_eq_left']
    by_cases hc : h.code = listCode
    · cases room
      case zero => simp [hc]
      case succ room =>
        by_cases hl : (b.length - h.body) / 2 < h.length
        · simp [hc, hl]
        · have hl' := not_lt.mp hl
          simp [hc, hl, hl', bind_eq_some_iff]
          simp only [eq_comm]
    · by_cases hk : LeafOk b h
      · simp [hc, hk, eq_comm]
      · simp [hc, hk]

theorem Items.length (ht : Items item count off ns) : ns.length = count := by
  induction ht
  case nil => rfl
  case cons _ _ hi => simp [hi]

theorem Items.all (hp : ∀ off n, item off = some n → P n)
    (ht : Items item count off ns) : ∀ n ∈ ns, P n := by
  induction ht
  case nil => exact nofun
  case cons hx _ hi => exact List.forall_mem_cons.mpr ⟨hp _ _ hx, hi⟩

theorem Items.consecutive (hs : ∀ off n, item off = some n → n.start = off)
    (ht : Items item count off ns) : Consecutive off ns := by
  induction ht
  case nil => trivial
  case cons hx _ hi => exact ⟨hs _ _ hx, hi⟩

theorem Items.stop_le (hl : off ≤ stop) (hs : ∀ off n, item off = some n → n.stop ≤ stop)
    (ht : Items item count off ns) : stopOf off ns ≤ stop := by
  induction ht
  case nil => exact hl
  case cons hx _ hi => exact hi (hs _ _ hx)

theorem tree_ok (ht : tree b room off = some n) : n.Ok ∧ n.start = off ∧ n.stop ≤ b.length := by
  induction room using Nat.strong_induction_on generalizing off n
  case h room hi =>
    have ⟨h, hh, ht⟩ := tree_eq_some.mp ht
    have hb := header?_bounds hh
    rcases ht with ⟨_, ⟨_, _, _, _, hl⟩, rfl⟩ | ⟨_, _, room, rfl, items, hit, rfl⟩
    · exact ⟨.leaf hb.1 (by omega), rfl, by simp only [Node.stop]; omega⟩
    · have hi {off n} (ht : tree b room off = some n) := hi room (Nat.lt_succ_self room) ht
      have hc := hit.consecutive fun off n ht => (hi ht).2.1
      have hn := hit.all (P := Node.Ok) fun off n ht => (hi ht).1
      exact ⟨.list hb.1 hc hn rfl, rfl, hit.stop_le hb.2 fun off n ht => (hi ht).2.2⟩

end Tracepack.SecsItem
