import EcMaster.Api.Json

/-!
# The tree behind the token array

`ecm_json_parse` leaves a flat array: a container is followed by its children, and
every token has the index of its container.  `Tree` is the value that such an array
stands for, each part with its place in the text.  `Tree.toks` lays a tree out as
tokens from an index on, and `Tree.preorder` lists its subtrees in the same order,
so that subtree `i` of the list belongs to token `i`.  The name of a member is a
token and a subtree of its own.

`ecm_json_skip` has the parents only.  It goes on while the chain of parents of the
next token meets the token that it skips.  `Placed` is what makes that right: a
subtree is a run of tokens, and no token outside the run has its parent in it.
`ecmJsonSkip_of_placed` and `memberLoop_items` are the two readers of the array.
-/

namespace EcMaster.Api

open EcMaster.ByteImage EcMaster.CText

mutual

/-- A value in a text. -/
inductive Tree where
  | leaf (type : JType) (start stop : Nat)
  | node (obj : Bool) (start stop : Nat) (items : Items)

/-- The elements of an array, or the members of an object with the places of their
names. -/
inductive Items where
  | nil
  | cons (name : Option (Nat × Nat)) (value : Tree) (rest : Items)

end

/-- A name as a subtree. -/
def nameTree : Option (Nat × Nat) → List Tree
  | none => []
  | some (a, b) => [.leaf .str a b]

mutual

/-- The subtrees of a tree, each before its parts. -/
def Tree.preorder : Tree → List Tree
  | .leaf type a b => [.leaf type a b]
  | .node obj a b items => .node obj a b items :: items.preorder

def Items.preorder : Items → List Tree
  | .nil => []
  | .cons name v rest => nameTree name ++ (v.preorder ++ rest.preorder)

end

/-- The number of tokens of a tree. -/
def Tree.size (t : Tree) : Nat := t.preorder.length

/-- The number of elements or members. -/
def Items.length : Items → Nat
  | .nil => 0
  | .cons _ _ rest => rest.length + 1

/-- The children of a container for each of its items: a member has a name and a
value. -/
def childrenPerItem (obj : Bool) : Nat := if obj then 2 else 1

/-- The token of a name. -/
def nameToks (par : Nat) : Option (Nat × Nat) → List Tok
  | none => []
  | some (a, b) => [{ type := .str, start := a, stop := b, size := 0, parent := some par }]

mutual

/-- The tokens of a tree, from index `base` on. -/
def Tree.toks : Tree → Nat → Option Nat → List Tok
  | .leaf type a b, _, parent => [{ type, start := a, stop := b, size := 0, parent }]
  | .node obj a b items, base, parent =>
      { type := if obj then .obj else .arr, start := a, stop := b
        size := childrenPerItem obj * items.length, parent } ::
        items.toks (base + 1) base

/-- The tokens of the items of the container at `par`. -/
def Items.toks : Items → Nat → Nat → List Tok
  | .nil, _, _ => []
  | .cons name v rest, base, par =>
      nameToks par name ++
        (v.toks (base + (nameTree name).length) (some par) ++
          rest.toks (base + (nameTree name).length + v.size) par)

end

/-- The members of an object whose tokens begin at `base`: their names, and the
indices of their values. -/
def Items.members (s : Image) : Items → Nat → List (Text × Nat)
  | .nil, _ => []
  | .cons none v rest, base => rest.members s (base + v.size)
  | .cons (some (a, b)) v rest, base =>
      (slice s a (b - a), base + 1) :: rest.members s (base + 1 + v.size)

/-- Every item has a name. -/
def Items.Named : Items → Prop
  | .nil => True
  | .cons name _ rest => name.isSome = true ∧ rest.Named

/-! ## Lengths -/

theorem length_nameToks (par : Nat) (name : Option (Nat × Nat)) :
    (nameToks par name).length = (nameTree name).length := by
  rcases name with - | ⟨a, b⟩ <;> rfl

mutual

theorem Tree.length_toks : ∀ (t : Tree) (base : Nat) (parent : Option Nat),
    (t.toks base parent).length = t.size
  | .leaf .., _, _ => rfl
  | .node _ _ _ items, base, _ => congrArg (· + 1) (items.length_toks (base + 1) base)

theorem Items.length_toks : ∀ (items : Items) (base par : Nat),
    (items.toks base par).length = items.preorder.length
  | .nil, _, _ => rfl
  | .cons name v rest, base, par => by
      simp only [Items.toks, Items.preorder, List.length_append, length_nameToks,
        v.length_toks, rest.length_toks, Tree.size]

end

theorem Tree.size_pos (t : Tree) : 0 < t.size := by
  cases t <;> exact Nat.succ_pos _

theorem Tree.preorder_zero (t : Tree) : t.preorder[0]? = some t := by
  cases t <;> rfl

/-! ## Parents -/

theorem parent_nameToks {par : Nat} {name : Option (Nat × Nat)} {x : Tok}
    (h : x ∈ nameToks par name) : x.parent = some par := by
  rcases name with - | ⟨a, b⟩
  · cases h
  · rw [List.mem_singleton.1 h]

mutual

/-- Every token but the first has its parent before it in the tree. -/
theorem Tree.parent_toks : ∀ (t : Tree) (base : Nat) (parent : Option Nat) {k : Nat} {x : Tok},
    (t.toks base parent)[k]? = some x →
      (k = 0 ∧ x.parent = parent) ∨ ∃ q, x.parent = some q ∧ base ≤ q ∧ q < base + k
  | .leaf .., _, _, 0, _, h => .inl ⟨rfl, Option.some.inj h ▸ rfl⟩
  | .leaf .., _, _, _ + 1, _, h => nomatch h
  | .node .., _, _, 0, _, h => .inl ⟨rfl, Option.some.inj h ▸ rfl⟩
  | .node _ _ _ items, base, _, k + 1, x, h => by
      have hitem : (items.toks (base + 1) base)[k]? = some x := h
      obtain hpar | ⟨q, hq, hlo, hhi⟩ := items.parent_toks (base + 1) base hitem
      · exact .inr ⟨base, hpar, Nat.le_refl _, by omega⟩
      · exact .inr ⟨q, hq, by omega, by omega⟩

theorem Items.parent_toks : ∀ (items : Items) (base par : Nat) {k : Nat} {x : Tok},
    (items.toks base par)[k]? = some x →
      x.parent = some par ∨ ∃ q, x.parent = some q ∧ base ≤ q ∧ q < base + k
  | .nil, _, _, _, _, h => nomatch h
  | .cons name v rest, base, par, k, x, h => by
      simp only [Items.toks, List.getElem?_append, length_nameToks, v.length_toks] at h
      split at h
      · exact .inl (parent_nameToks (List.mem_of_getElem? h))
      · split at h
        · obtain ⟨-, hpar⟩ | ⟨q, hq, hlo, hhi⟩ := v.parent_toks _ _ h
          · exact .inl hpar
          · exact .inr ⟨q, hq, by omega, by omega⟩
        · obtain hpar | ⟨q, hq, hlo, hhi⟩ := rest.parent_toks _ _ h
          · exact .inl hpar
          · exact .inr ⟨q, hq, by omega, by omega⟩

end

theorem Tree.parent_of_mem {t : Tree} {base : Nat} {parent : Option Nat} {x : Tok}
    (h : x ∈ t.toks base parent) :
    x.parent = parent ∨ ∃ q, x.parent = some q ∧ base ≤ q ∧ q < base + t.size := by
  obtain ⟨k, hk⟩ := List.mem_iff_getElem?.1 h
  have hlt := (List.getElem?_eq_some_iff.1 hk).1
  rw [t.length_toks] at hlt
  obtain ⟨-, hpar⟩ | ⟨q, hq, hlo, hhi⟩ := t.parent_toks _ _ hk
  · exact .inl hpar
  · exact .inr ⟨q, hq, hlo, by omega⟩

theorem Items.parent_of_mem {items : Items} {base par : Nat} {x : Tok}
    (h : x ∈ items.toks base par) : x.parent = some par ∨ ∃ q, x.parent = some q ∧ base ≤ q := by
  obtain ⟨k, hk⟩ := List.mem_iff_getElem?.1 h
  obtain hpar | ⟨q, hq, hlo, -⟩ := items.parent_toks _ _ hk
  · exact .inl hpar
  · exact .inr ⟨q, hq, hlo⟩

/-! ## Where a subtree stands -/

/-- In the tokens `l`, which begin at index `base`, the subtree `sub` begins `i` tokens
behind, and no token around it has its parent in it. -/
def Placed (l : List Tok) (base i : Nat) (sub : Tree) : Prop :=
  ∃ pre post par, l = pre ++ (sub.toks (base + i) par ++ post) ∧ pre.length = i ∧
    ∀ x ∈ pre ++ post, ∀ q, x.parent = some q → q < base + i ∨ base + i + sub.size ≤ q

theorem placed_self (t : Tree) (base : Nat) (parent : Option Nat) :
    Placed (t.toks base parent) base 0 t :=
  ⟨[], [], parent, by simp, rfl, by simp⟩

/-- More tokens around. -/
theorem Placed.frame {l : List Tok} {base i : Nat} {sub : Tree} (h : Placed l base i sub)
    {base' : Nat} (a b : List Tok) (hbase : base = base' + a.length)
    (houter : ∀ x ∈ a ++ b, ∀ q, x.parent = some q → q < base ∨ base + l.length ≤ q) :
    Placed (a ++ (l ++ b)) base' (a.length + i) sub := by
  obtain ⟨pre, post, par, rfl, rfl, hclear⟩ := h
  have hindex : base' + (a.length + pre.length) = base + pre.length := by omega
  refine ⟨a ++ pre, post ++ b, par, ?_, by simp, ?_⟩
  · rw [hindex]
    simp only [List.append_assoc]
  · rw [hindex]
    intro x hx q hq
    simp only [List.length_append, sub.length_toks] at houter
    by_cases hin : x ∈ pre ++ post
    · exact hclear x hin q hq
    · have hout : x ∈ a ++ b := by
        simp only [List.mem_append] at hx hin ⊢
        tauto
      have := houter x hout q hq
      omega

mutual

theorem Tree.placed : ∀ (t : Tree) (base : Nat) (parent : Option Nat) {i : Nat} {sub : Tree},
    (∀ q, parent = some q → q < base) → t.preorder[i]? = some sub →
      Placed (t.toks base parent) base i sub
  | .leaf type a b, base, parent, 0, sub, _, h => by
      obtain rfl := Option.some.inj h
      exact placed_self _ base parent
  | .leaf .., _, _, _ + 1, _, _, h => nomatch h
  | .node obj a b items, base, parent, 0, sub, _, h => by
      obtain rfl := Option.some.inj h
      exact placed_self _ base parent
  | .node obj a b items, base, parent, i + 1, sub, hpar, h => by
      have hitem : items.preorder[i]? = some sub := h
      have hitems := items.placed (base + 1) base (Nat.lt_succ_self _) hitem
      have hhead : (Tree.node obj a b items).toks base parent =
          [{ type := if obj then .obj else .arr, start := a, stop := b
             size := childrenPerItem obj * items.length, parent }] ++
            (items.toks (base + 1) base ++ []) := by
        rw [List.append_nil]
        rfl
      rw [hhead, Nat.add_comm i 1]
      refine hitems.frame _ _ rfl fun x hx q hq => ?_
      rw [List.append_nil, List.mem_singleton] at hx
      subst hx
      have := hpar q hq
      omega

theorem Items.placed : ∀ (items : Items) (base par : Nat) {i : Nat} {sub : Tree},
    par < base → items.preorder[i]? = some sub → Placed (items.toks base par) base i sub
  | .nil, _, _, _, _, _, h => nomatch h
  | .cons name v rest, base, par, i, sub, hpar, h => by
      have hname : ∀ x ∈ nameToks par name, ∀ q, x.parent = some q → q < base := by
        intro x hx q hq
        rw [parent_nameToks hx] at hq
        exact Option.some.inj hq ▸ hpar
      have hrest : ∀ x ∈ rest.toks (base + (nameTree name).length + v.size) par, ∀ q,
          x.parent = some q → q < base ∨ base + (nameTree name).length + v.size ≤ q := by
        intro x hx q hq
        obtain hx | ⟨q', hx, hlo⟩ := Items.parent_of_mem hx
        · rw [hx] at hq
          exact .inl (Option.some.inj hq ▸ hpar)
        · rw [hx] at hq
          exact .inr (Option.some.inj hq ▸ hlo)
      have hvalue : ∀ x ∈ v.toks (base + (nameTree name).length) (some par), ∀ q,
          x.parent = some q → q < base ∨
            (base + (nameTree name).length ≤ q ∧ q < base + (nameTree name).length + v.size) := by
        intro x hx q hq
        obtain hx | ⟨q', hx, hlo, hhi⟩ := Tree.parent_of_mem hx
        · rw [hx] at hq
          exact .inl (Option.some.inj hq ▸ hpar)
        · rw [hx] at hq
          exact .inr (Option.some.inj hq ▸ ⟨hlo, hhi⟩)
      have hlen : (nameToks par name).length = (nameTree name).length := length_nameToks par name
      simp only [Items.preorder, List.getElem?_append] at h
      unfold Items.toks
      split at h
      · -- the name itself
        rcases name with - | ⟨a, b⟩
        · cases h
        · rename_i hi
          obtain rfl : i = 0 := by
            simp only [nameTree, List.length_singleton] at hi
            omega
          obtain rfl := Option.some.inj h
          refine ⟨[], _, some par, rfl, rfl, ?_⟩
          intro x hx q hq
          simp only [List.nil_append, List.mem_append] at hx
          have hone : (Tree.leaf JType.str a b).size = 1 := rfl
          rw [hone]
          simp only [nameTree, List.length_singleton] at hvalue hrest hx
          obtain hx | hx := hx
          · have := hvalue x hx q hq
            omega
          · have := hrest x hx q hq
            omega
      · rename_i hi
        split at h
        · -- in the value
          have hv := v.placed (base + (nameTree name).length) (some par)
            (fun q hq => Option.some.inj hq ▸ (by omega)) h
          have hindex : i = (nameToks par name).length + (i - (nameTree name).length) := by omega
          rw [hindex]
          refine hv.frame _ _ (by omega) fun x hx q hq => ?_
          rw [v.length_toks]
          obtain hx | hx := List.mem_append.1 hx
          · have := hname x hx q hq
            omega
          · have := hrest x hx q hq
            omega
        · -- behind the value
          rename_i hi'
          change ¬ i - (nameTree name).length < v.size at hi'
          have hr := rest.placed (base + (nameTree name).length + v.size) par (by omega) h
          have hindex : i = (nameToks par name ++
              v.toks (base + (nameTree name).length) (some par)).length +
              (i - (nameTree name).length - v.preorder.length) := by
            rw [List.length_append, hlen, v.length_toks]
            unfold Tree.size at hi' ⊢
            omega
          have happend : nameToks par name ++
              (v.toks (base + (nameTree name).length) (some par) ++
                rest.toks (base + (nameTree name).length + v.size) par) =
              (nameToks par name ++ v.toks (base + (nameTree name).length) (some par)) ++
                (rest.toks (base + (nameTree name).length + v.size) par ++ []) := by
            simp only [List.append_assoc, List.append_nil]
          rw [hindex, happend]
          refine hr.frame _ _ (by rw [List.length_append, hlen, v.length_toks]; omega)
            fun x hx q hq => ?_
          rw [List.append_nil] at hx
          obtain hx | hx := List.mem_append.1 hx
          · have := hname x hx q hq
            omega
          · have := hvalue x hx q hq
            omega

end

/-! ## `ecm_json_skip` -/

/-- Every token has its parent before it. -/
def ParentsBefore (l : List Tok) : Prop :=
  ∀ (k : Nat) (x : Tok), l[k]? = some x → ∀ q, x.parent = some q → q < k

theorem tokAt_of_getElem? {l : List Tok} {k : Nat} {x : Tok} (h : l[k]? = some x) :
    tokAt l k = x := by
  unfold tokAt
  rw [List.getD_eq_getElem?_getD, h]
  rfl

/-- The parent of a token of the subtree is in it, the parent of another is not. -/
theorem Placed.parent_iff {l : List Tok} {i : Nat} {sub : Tree} (h : Placed l 0 i sub)
    (hbefore : ParentsBefore l) {j : Nat} {x : Tok} (hj : l[j]? = some x) :
    (i < j ∧ j < i + sub.size → ∃ q, x.parent = some q ∧ i ≤ q) ∧
      (¬ (i < j ∧ j < i + sub.size) →
        ∀ q, x.parent = some q → q < i ∨ i + sub.size ≤ q) := by
  have hown := hbefore j x hj
  obtain ⟨pre, post, par, rfl, rfl, hclear⟩ := h
  simp only [Nat.zero_add] at hclear hj ⊢
  constructor
  · rintro ⟨hlo, hhi⟩
    rw [List.getElem?_append_right (by omega), List.getElem?_append_left
      (by rw [sub.length_toks]; omega)] at hj
    obtain ⟨hzero, -⟩ | ⟨q, hq, hle, -⟩ := sub.parent_toks _ _ hj
    · omega
    · exact ⟨q, hq, hle⟩
  · intro hout q hq
    by_cases hroot : j = pre.length
    · have := hown q hq
      omega
    · refine hclear x ?_ q hq
      rw [List.mem_append]
      by_cases hlo : j < pre.length
      · rw [List.getElem?_append_left hlo] at hj
        exact .inl (List.mem_of_getElem? hj)
      · rw [List.getElem?_append_right (by omega), List.getElem?_append_right
          (by rw [sub.length_toks]; omega)] at hj
        exact .inr (List.mem_of_getElem? hj)

/-- The chain of parents of a token meets the root of a subtree exactly if the token is
another one of that subtree. -/
theorem below_iff {l : List Tok} {i : Nat} {sub : Tree} (h : Placed l 0 i sub)
    (hbefore : ParentsBefore l) {j : Nat} (hj : j < l.length) {fuel : Nat} (hfuel : j ≤ fuel) :
    below l i fuel (tokAt l j).parent = true ↔ i < j ∧ j < i + sub.size := by
  induction j using Nat.strongRecOn generalizing fuel with
  | ind j ih =>
    have hget : l[j]? = some l[j] := List.getElem?_eq_getElem hj
    obtain ⟨hin, hout⟩ := h.parent_iff hbefore hget
    rw [tokAt_of_getElem? hget]
    cases hpar : l[j].parent with
    | none =>
      have hnone : below l i fuel none = false := by
        cases fuel <;> rfl
      rw [hnone]
      refine ⟨fun hfalse => (nomatch hfalse), fun hinside => ?_⟩
      obtain ⟨q, hq, -⟩ := hin hinside
      rw [hpar] at hq
      cases hq
    | some q =>
      have hq : q < j := hbefore j _ hget q hpar
      obtain ⟨f, rfl⟩ : ∃ f, fuel = f + 1 := ⟨fuel - 1, by omega⟩
      have hf : q ≤ f := by omega
      have hih := ih q hq (by omega) hf
      simp only [below, Bool.or_eq_true, decide_eq_true_eq, hih]
      constructor
      · intro hmeets
        by_contra hno
        have := hout hno q hpar
        have := sub.size_pos
        omega
      · intro hinside
        obtain ⟨q', hq', hle⟩ := hin hinside
        rw [hpar] at hq'
        obtain rfl := Option.some.inj hq'
        omega

theorem skipLoop_of_placed {l : List Tok} {i : Nat} {sub : Tree} (h : Placed l 0 i sub)
    (hbefore : ParentsBefore l) {j fuel : Nat} (hlo : i < j) (hhi : j ≤ i + sub.size)
    (hfuel : i + sub.size - j ≤ fuel) : skipLoop l i fuel j = i + sub.size := by
  have hlen : i + sub.size ≤ l.length := by
    obtain ⟨pre, post, par, rfl, rfl, -⟩ := h
    simp only [List.length_append, sub.length_toks]
    omega
  induction fuel generalizing j with
  | zero =>
    unfold skipLoop
    omega
  | succ fuel ih =>
    unfold skipLoop
    by_cases hend : j = i + sub.size
    · split
      · rename_i hj
        have hno : ¬ below l i l.length (tokAt l j).parent = true := by
          rw [below_iff h hbefore hj (Nat.le_of_lt hj)]
          omega
        rw [if_neg hno, hend]
      · exact hend
    · have hj : j < l.length := by omega
      have hyes : below l i l.length (tokAt l j).parent = true := by
        rw [below_iff h hbefore hj (Nat.le_of_lt hj)]
        omega
      rw [if_pos hj, if_pos hyes]
      exact ih (by omega) (by omega) (by omega)

/-- `ecm_json_skip` finds the end of a subtree. -/
theorem ecmJsonSkip_of_placed {l : List Tok} {i : Nat} {sub : Tree} (h : Placed l 0 i sub)
    (hbefore : ParentsBefore l) : ecmJsonSkip l i = i + sub.size := by
  have hlen : i + sub.size ≤ l.length := by
    obtain ⟨pre, post, par, rfl, rfl, -⟩ := h
    simp only [List.length_append, sub.length_toks]
    omega
  have hpos := sub.size_pos
  exact skipLoop_of_placed h hbefore (Nat.lt_succ_self i) (by omega) (by omega)

/-- The tokens of a whole text. -/
theorem parentsBefore_toks (t : Tree) : ParentsBefore (t.toks 0 none) := by
  intro k x hk q hq
  obtain ⟨-, hpar⟩ | ⟨q', hpar, -, hlt⟩ := t.parent_toks _ _ hk
  · rw [hpar] at hq
    cases hq
  · rw [hpar] at hq
    have := Option.some.inj hq
    omega

theorem placed_toks {t sub : Tree} {i : Nat} (h : t.preorder[i]? = some sub) :
    Placed (t.toks 0 none) 0 i sub :=
  t.placed 0 none (fun _ hq => nomatch hq) h

/-- The subtrees of the items of a container. -/
theorem Placed.item {l : List Tok} {i : Nat} {obj : Bool} {a b : Nat} {items : Items}
    (h : Placed l 0 i (.node obj a b items)) (hbefore : ParentsBefore l) {k : Nat} {sub : Tree}
    (hk : items.preorder[k]? = some sub) : Placed l 0 (i + 1 + k) sub := by
  obtain ⟨pre, post, par, rfl, rfl, hclear⟩ := h
  simp only [Nat.zero_add] at hclear hbefore ⊢
  have hitem := items.placed (pre.length + 1) pre.length (Nat.lt_succ_self _) hk
  have hsize : (Tree.node obj a b items).size = items.preorder.length + 1 := rfl
  have hhead : (Tree.node obj a b items).toks pre.length par =
      { type := if obj then .obj else .arr, start := a, stop := b
        size := childrenPerItem obj * items.length, parent := par } ::
        items.toks (pre.length + 1) pre.length := rfl
  rw [hhead] at hbefore ⊢
  generalize { type := if obj then .obj else .arr, start := a, stop := b
               size := childrenPerItem obj * items.length, parent := par : Tok } = header
    at hbefore ⊢
  have hheader : ∀ q, header.parent = some q → q < pre.length := by
    refine hbefore pre.length header ?_
    rw [List.getElem?_append_right (Nat.le_refl _), Nat.sub_self]
    rfl
  have hindex : pre.length + 1 = 0 + (pre ++ [header]).length := by simp
  have hframe := hitem.frame (pre ++ [header]) post hindex fun x hx q hq => by
    rw [items.length_toks]
    simp only [List.mem_append, List.mem_singleton] at hx hclear
    obtain (hx | rfl) | hx := hx
    · have := hclear x (.inl hx) q hq
      omega
    · have := hheader q hq
      omega
    · have := hclear x (.inr hx) q hq
      omega
  rw [List.append_assoc, List.length_append] at hframe
  exact hframe

/-! ## `ecm_json_get` -/

/-- The loop finds the first member of that name. -/
theorem memberLoop_items (s : Image) (key : Text) {l : List Tok} (par : Nat) (post : List Tok) :
    ∀ (items : Items) (q : Nat) (pre : List Tok), l = pre ++ (items.toks q par ++ post) →
      pre.length = q → items.Named →
      (∀ k sub, items.preorder[k]? = some sub →
        ecmJsonSkip l (q + k) = q + k + sub.size) →
      memberLoop s l key items.length q =
        ((items.members s q).find? (·.1 = key)).map (·.2) := by
  intro items q pre hl hq hnamed hskip
  match items with
  | .nil => rfl
  | .cons none v rest => exact absurd hnamed.1 (by decide)
  | .cons (some (a, b)) v rest =>
    have hpos := v.size_pos
    have hlength : q + 1 < l.length := by
      rw [hl]
      simp only [Items.toks, List.length_append, length_nameToks, nameTree, v.length_toks,
        List.length_singleton]
      omega
    have hname : tokAt l q =
        { type := .str, start := a, stop := b, size := 0, parent := some par } := by
      apply tokAt_of_getElem?
      rw [hl, List.getElem?_append_right (by omega), hq, Nat.sub_self]
      rfl
    -- the value of the member is the next token, and its subtree ends at the next member
    have hnext : ecmJsonSkip l (q + 1) = q + 1 + v.size := by
      apply hskip 1 v
      simp only [Items.preorder, nameTree, List.singleton_append, List.getElem?_cons_succ]
      rw [List.getElem?_append_left hpos]
      exact v.preorder_zero
    simp only [Items.length, memberLoop, Items.members, hname, if_pos (Nat.lt_of_succ_lt hlength),
      if_neg (Nat.not_le.2 hlength), true_and, hnext]
    by_cases hkey : slice s a (b - a) = key
    · rw [if_pos hkey, List.find?_cons_of_pos (by simpa using hkey)]
      rfl
    · rw [if_neg hkey, List.find?_cons_of_neg (by simpa using hkey)]
      refine memberLoop_items s key par post rest (q + 1 + v.size)
        (pre ++ (nameToks par (some (a, b)) ++ v.toks (q + 1) (some par))) ?_ ?_ hnamed.2 ?_
      · rw [hl]
        simp only [Items.toks, nameTree, List.length_singleton, List.append_assoc]
      · simp only [List.length_append, length_nameToks, nameTree, v.length_toks,
          List.length_singleton]
        omega
      · intro k sub hk
        have hat : (Items.cons (some (a, b)) v rest).preorder[v.size + k + 1]? = some sub := by
          have hle : v.preorder.length ≤ v.size + k := Nat.le_add_right _ _
          simp only [Items.preorder, nameTree, List.singleton_append, List.getElem?_cons_succ]
          rw [List.getElem?_append_right hle, ← hk]
          exact congrArg (rest.preorder[·]?) (Nat.add_sub_cancel_left _ _)
        have hend := hskip _ _ hat
        rw [show q + 1 + v.size + k = q + (v.size + k + 1) by omega]
        exact hend

end EcMaster.Api
