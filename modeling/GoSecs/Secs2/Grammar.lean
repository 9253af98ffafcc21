import GoSecs.Secs2.Decode

open BigEndian

namespace Secs2

def FormatCode.width : FormatCode → Nat
  | .int16 | .uint16 => 2
  | .int32 | .uint32 | .float32 => 4
  | .int64 | .uint64 | .float64 => 8
  | _ => 1

-- An item header with any number of length bytes that can hold the length.
inductive Header : FormatCode → Nat → Bytes → Prop
  | mk {fc} {lb : Bytes} : 1 ≤ lb.length → lb.length ≤ 3 → Header fc (nat lb) (formatByte fc lb.length :: lb)

-- The item grammar: the byte strings that encode one item, in which lists nest at most `room` deep.
inductive Wire : Nat → Bytes → Prop
  | leaf {room fc hd} {payload : Bytes} :
    fc ≠ .list →
    Header fc payload.length hd →
    fc.width ∣ payload.length →
    (fc = .localizedStr → payload.length = 0 ∨ 2 ≤ payload.length) →
    Wire room (hd ++ payload)
  | list {room hd} {children : List Bytes} :
    Header .list children.length hd →
    (∀ c ∈ children, Wire room c) →
    Wire (room + 1) (hd ++ children.flatten)

def numericLeaf {α : Type} [Inhabited α] (mk : Nat → Vec α → Leaf) (read : Bytes → α) (w : Nat)
    (payload : Bytes) : Option Leaf :=
  if w ∣ payload.length then
    some (mk w (.ofValues ((fields w (payload.length / w) payload).map read)))
  else
    none

def leafOf (fc : FormatCode) (payload : Bytes) : Option Leaf :=
  match fc with
  | .ascii   => some (.ascii payload)
  | .jis8    => some (.jis8 payload)
  | .binary  => some (.binary payload)
  | .boolean => some (.boolean (.ofValues (payload.map (· ≠ 0))))
  | .localizedStr =>
    match payload with
    | [] => some (.localizedStr 0 [] true)
    | [_] => none
    | hi :: lo :: s => some (.localizedStr (UInt16.ofNat (nat [hi, lo])) s false)
  | .int8    => numericLeaf .int int 1 payload
  | .int16   => numericLeaf .int int 2 payload
  | .int32   => numericLeaf .int int 4 payload
  | .int64   => numericLeaf .int int 8 payload
  | .uint8   => numericLeaf .uint nat 1 payload
  | .uint16  => numericLeaf .uint nat 2 payload
  | .uint32  => numericLeaf .uint nat 4 payload
  | .uint64  => numericLeaf .uint nat 8 payload
  | .float32 => numericLeaf .float (readFloat 4) 4 payload
  | .float64 => numericLeaf .float (readFloat 8) 8 payload
  | .list    => none

-- The grammar with the item that each byte string stands for. An item keeps the bytes it was read
-- from.
inductive Denotes : Nat → Bytes → Item → Prop
  | leaf {room fc hd l} {payload : Bytes} :
    Header fc payload.length hd →
    leafOf fc payload = some l →
    Denotes room (hd ++ payload) (.leaf { raw := hd ++ payload } l)
  | list {room hd} {children : List (Bytes × Item)} :
    Header .list children.length hd →
    (∀ c ∈ children, Denotes room c.1 c.2) →
    Denotes (room + 1) (hd ++ (children.map Prod.fst).flatten)
      (.list { raw := hd ++ (children.map Prod.fst).flatten } true (children.map Prod.snd))

variable {fc : FormatCode}

theorem leafOf_isSome_iff {payload : Bytes} :
    (leafOf fc payload).isSome ↔
      fc ≠ .list ∧ fc.width ∣ payload.length ∧
        (fc = .localizedStr → payload.length = 0 ∨ 2 ≤ payload.length) := by
  cases fc
  case localizedStr =>
    match payload with
    | [] => simp [leafOf]
    | [_] => simp [leafOf]
    | _ :: _ :: _ => simp [leafOf, FormatCode.width]
  all_goals simp [leafOf, FormatCode.width, numericLeaf]

variable {hd : Bytes}

theorem Header.two_le {n : Nat} (h : Header fc n hd) :
    2 ≤ hd.length := by
  cases h
  simpa

theorem Header.ne_nil {n : Nat} (h : Header fc n hd) : hd ≠ [] := by
  cases h
  simp

namespace Denotes

variable {room : Nat} {bs : Bytes} {x : Item}

theorem wire (h : Denotes room bs x) : Wire room bs := by
  induction h
  case leaf hh hl =>
    have ⟨h₁, h₂, h₃⟩ := leafOf_isSome_iff.mp (Option.isSome_of_eq_some hl)
    exact .leaf h₁ hh h₂ h₃
  case list children hh _ hi =>
    refine .list (by simpa using hh) ?_
    intro c hc
    obtain ⟨d, hd, rfl⟩ := List.mem_map.mp hc
    exact hi d hd

theorem exists_children {children : List Bytes} (h : ∀ c ∈ children, ∃ x, Denotes room c x) :
    ∃ cs : List (Bytes × Item), cs.map Prod.fst = children ∧ ∀ c ∈ cs, Denotes room c.1 c.2 := by
  induction children
  case nil => exact ⟨[], rfl, by simp⟩
  case cons c children hi =>
    have ⟨x, hx⟩ := h c (by simp)
    have ⟨cs, hf, hd⟩ := hi fun c hc => h c (by simp [hc])
    exact ⟨(c, x) :: cs, by simp [hf], by simpa [hx] using hd⟩

theorem of_wire (h : Wire room bs) : ∃ x, Denotes room bs x := by
  induction h
  case leaf h₁ hh h₂ h₃ =>
    have ⟨l, hl⟩ := Option.isSome_iff_exists.mp <| leafOf_isSome_iff.mpr ⟨h₁, h₂, h₃⟩
    exact ⟨_, .leaf hh hl⟩
  case list hh _ hi =>
    obtain ⟨cs, rfl, hd⟩ := exists_children hi
    exact ⟨_, .list (by simpa using hh) hd⟩

theorem two_le (h : Denotes room bs x) : 2 ≤ bs.length := by
  cases h
  case leaf hh _ => simp; have := hh.two_le; omega
  case list hh _ => rw [List.length_append]; have := hh.two_le; omega

theorem ne_nil (h : Denotes room bs x) : bs ≠ [] := by
  rintro rfl
  exact absurd h.two_le (by simp)

theorem raw_bytes {children : List (Bytes × Item)} (h : ∀ c ∈ children, Denotes room c.1 c.2) :
    2 * children.length ≤ (children.map Prod.fst).flatten.length := by
  induction children
  case nil => simp
  case cons c children hi =>
    have := (h c (by simp)).two_le
    have := hi fun c hc => h c (by simp [hc])
    simp only [List.map_cons, List.flatten_cons, List.length_append, List.length_cons]
    omega

theorem mono {room' : Nat} (h : Denotes room bs x) (hr : room ≤ room') : Denotes room' bs x := by
  induction h generalizing room'
  case leaf hh hl => exact .leaf hh hl
  case list hh _ hi =>
    obtain ⟨room', rfl⟩ : ∃ r, room' = r + 1 := ⟨room' - 1, by omega⟩
    exact .list hh fun c hc => hi c hc (by omega)

theorem error_eq (h : Denotes room bs x) : x.error = none := by
  cases h <;> simp [Item.error]

theorem toBytes_eq (h : Denotes room bs x) : x.toBytes = bs := by
  have hn := h.ne_nil
  cases h
  case leaf => simp_all [Item.toBytes, Item.appendTo, Leaf.appendTo]
  case list => simp_all [Item.toBytes, Item.appendTo]

theorem isEmpty_eq (h : Denotes room bs x) : x.isEmpty = false := by
  cases h <;> rfl

end Denotes
end Secs2
