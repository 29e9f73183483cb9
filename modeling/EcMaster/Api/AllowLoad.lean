import EcMaster.Api.Allow
import EcMaster.Api.Document

/-!
# What loading the allowlist gives

`ecm_ctl_allow_load` walks over the tokens of the file: it begins at the token
behind the array `allow` and goes on with `ecm_json_skip`.  Here the walk is put
back on the tree of the file.

* `Items.elements` are the elements of an array, each with the index of its first
  token, and `Items.elements_iterate` says that the walk visits exactly these.
* `allowLoop_done` is the loop that comes to its end: the new entries are what the
  visited tokens say, one each and in order, no two for the same object, and the
  backend was asked about every one of them.
* `allowLoop_failed` is the loop that does not: the entries kept are those of the
  elements in front, and the error names the next one.

`allow_load_entries` puts the two together for every file.  A fault of the file as a
whole has no element to name: `FileError` lists these, each with its cause.
-/

namespace EcMaster.Api

open EcMaster.ByteImage EcMaster.CText

/-! ## The elements of an array -/

/-- The elements of an array whose tokens begin at `base`: the index of the first token
of each, and its subtree. -/
def Items.elements : Items → Nat → List (Nat × Tree)
  | .nil, _ => []
  | .cons _ v rest, base => (base, v) :: rest.elements (base + v.size)

/-- No item has a name. -/
def Items.Unnamed : Items → Prop
  | .nil => True
  | .cons name _ rest => name = none ∧ rest.Unnamed

theorem ShowsItems.unnamed {s : Image} : ∀ {items : Items} {a b : Nat},
    ShowsItems s false items a b → items.Unnamed
  | _, _, _, .empty _ => trivial
  | _, _, _, .last (.element _) _ _ => ⟨rfl, trivial⟩
  | _, _, _, .more (.element _) _ _ _ hrest _ => ⟨rfl, hrest.unnamed⟩

/-- An element is a subtree of the array, at its index. -/
theorem Items.preorder_of_mem_elements : ∀ (items : Items) (base : Nat), items.Unnamed →
    ∀ el ∈ items.elements base, ∃ k, el.1 = base + k ∧ items.preorder[k]? = some el.2
  | .nil, _, _, _, h => nomatch h
  | .cons name v rest, base, hunnamed, el, h => by
      obtain ⟨rfl, hrest⟩ := hunnamed
      rcases List.mem_cons.1 h with rfl | hmem
      · refine ⟨0, rfl, ?_⟩
        rw [Items.preorder, nameTree, List.nil_append, List.getElem?_append_left v.size_pos]
        exact v.preorder_zero
      · obtain ⟨k, hk, hat⟩ := rest.preorder_of_mem_elements (base + v.size) hrest el hmem
        refine ⟨v.size + k, by omega, ?_⟩
        rw [Items.preorder, nameTree, List.nil_append,
          List.getElem?_append_right (Nat.le_add_right v.size k)]
        rw [← hat]
        exact congrArg (rest.preorder[·]?) (Nat.add_sub_cancel_left v.size k)

/-- Repeated skipping visits the elements. -/
theorem Items.elements_iterate (skip : Nat → Nat) : ∀ (items : Items) (base : Nat),
    items.Unnamed →
    (∀ k sub, items.preorder[k]? = some sub → skip (base + k) = base + k + sub.size) →
    (items.elements base).map Prod.fst = List.iterate skip base items.length
  | .nil, _, _, _ => rfl
  | .cons name v rest, base, hunnamed, hskip => by
      obtain ⟨rfl, hrest⟩ := hunnamed
      have hfirst : skip base = base + v.size := by
        apply hskip 0 v
        rw [Items.preorder, nameTree, List.nil_append, List.getElem?_append_left v.size_pos]
        exact v.preorder_zero
      rw [Items.elements, List.map_cons, Items.length, List.iterate, hfirst,
        rest.elements_iterate skip (base + v.size) hrest]
      intro k sub hk
      have hat : (Items.cons none v rest).preorder[v.size + k]? = some sub := by
        rw [Items.preorder, nameTree, List.nil_append,
          List.getElem?_append_right (Nat.le_add_right v.size k), ← hk]
        exact congrArg (rest.preorder[·]?) (Nat.add_sub_cancel_left v.size k)
      have hend := hskip _ _ hat
      rw [Nat.add_assoc base, hend]

/-! ## One element -/

section Load

variable {σ D : Type} {fp : Fp D} {be : Option (Backend σ)} {s : Image}
  {t : List Tok} {path : Text} {k i : Nat} {e e' : List (Allow D)} {x y : World σ}

/-- The calls of a load that accepts the entries `l`: one for each, answered with `0`, where
the backend has the function. -/
def asked (be : Option (Backend σ)) (l : List (Allow D)) : List Call :=
  if (be.bind Backend.deny).isSome then l.map fun a => .deny 0 a.index a.sub 0 else []

/-- The two entries are for different objects, or for different kinds of slave. -/
def Allow.Apart (a b : Allow D) : Prop :=
  (a.vendor, a.product, a.index, a.sub) ≠ (b.vendor, b.product, b.index, b.sub)

theorem asked_append (be : Option (Backend σ)) (l l' : List (Allow D)) :
    asked be (l ++ l') = asked be l ++ asked be l' := by
  unfold asked
  split
  · exact List.map_append
  · rfl

/-- An entry that the backend does not deny. -/
theorem hardListed_calls (a : Allow D) (h : (hardListed be a.index a.sub x).1.1 = 0) :
    (hardListed be a.index a.sub x).2.calls = x.calls ++ asked be [a] := by
  cases be with
  | none => exact (List.append_nil _).symm
  | some be =>
    unfold hardListed World.deny at h ⊢
    dsimp only at h ⊢
    split at h
    · rename_i hdeny
      simp only [asked, Option.bind_some, hdeny]
      exact (List.append_nil _).symm
    · rename_i f hdeny
      have hzero : (f x.ctx 0 a.index a.sub).1.1 = 0 := h
      simp only [asked, Option.bind_some, hdeny, World.after, Option.isSome_some, if_true, hzero,
        List.map_cons, List.map_nil]

theorem apart_of_same {o a : Allow D} (h : o.same a.vendor a.product a.index a.sub = false) :
    o.Apart a := by
  intro heq
  simp only [Prod.mk.injEq] at heq
  obtain ⟨hv, hp, hi, hs⟩ := heq
  simp [Allow.same, hv, hp, hi, hs] at h

/-- A turn of the loop that adds an entry. -/
theorem loadEntry_eq_ok {a : Allow D} (h : loadEntry fp be s t path k i e x = (.ok a, y)) :
    entryOf fp s t path k i = .ok a ∧ y.calls = x.calls ++ asked be [a] ∧
      ∀ o ∈ e, o.Apart a := by
  unfold loadEntry at h
  split at h
  · cases h
  rename_i b hb
  dsimp only at h
  split at h
  · cases h
  rename_i hdenied
  split at h
  · cases h
  rename_i hfresh
  cases h
  refine ⟨hb, hardListed_calls _ (not_ne_iff.1 hdenied), ?_⟩
  intro o ho
  apply apart_of_same
  rw [Bool.not_eq_true, List.any_eq_false] at hfresh
  exact Bool.eq_false_iff.2 (hfresh o ho)

/-- The text begins with the file and the element. -/
def NamesElement (path : Text) (k : Nat) (msg : Text) : Prop :=
  ∃ what, msg = elementText path k ++ what

theorem namesElement_element (what : Text) : NamesElement path k (elementText path k ++ what) :=
  ⟨what, rfl⟩

theorem namesElement_object (idx sub : Nat) (what : Text) :
    NamesElement path k (objectText path k idx sub ++ what) := by
  refine ⟨txt " 0x" ++ hexUpper 4 idx ++ txt ":" ++ dec sub ++ txt ": " ++ what, ?_⟩
  simp only [objectText, List.append_assoc]

theorem entryOf_error {msg : Text} (h : entryOf fp s t path k i = .error msg) :
    NamesElement path k msg := by
  unfold entryOf at h
  split at h
  · cases h
    exact namesElement_element _
  split at h
  rotate_left
  · cases h
    exact namesElement_element _
  split at h
  rotate_left
  · cases h
    exact namesElement_element _
  dsimp only at h
  split at h
  rotate_left
  · cases h
    exact namesElement_element _
  split at h
  · split at h
    · cases h
      exact namesElement_object ..
    · cases h
  · cases h
    simp only [List.append_assoc]
    exact namesElement_object ..

theorem loadEntry_error {msg : Text} (h : loadEntry fp be s t path k i e x = (.error msg, y)) :
    NamesElement path k msg := by
  unfold loadEntry at h
  split at h
  · rename_i hentry
    cases h
    exact entryOf_error hentry
  dsimp only at h
  split at h
  · cases h
    rw [List.append_assoc]
    exact namesElement_object ..
  split at h
  · cases h
    exact namesElement_object ..
  · cases h

/-! ## The loop over the elements -/

/-- The loop that comes to its end. -/
theorem allowLoop_done (m : Nat) : ∀ (k i : Nat) (e : List (Allow D)) (x : World σ),
    allowLoop fp be s t path m k i e x = (e', none, y) → e.Pairwise Allow.Apart →
      e'.Pairwise Allow.Apart ∧ ∃ new, e' = e ++ new ∧ y.calls = x.calls ++ asked be new ∧
        List.Forall₂ (Describes fp s t) (List.iterate (ecmJsonSkip t) i m) new := by
  induction m with
  | zero =>
    intro k i e x h hapart
    cases h
    refine ⟨hapart, [], (List.append_nil _).symm, ?_, .nil⟩
    simp [asked]
  | succ m ih =>
    intro k i e x h hapart
    rw [allowLoop] at h
    split at h
    · cases h
    split at h
    · cases h
    rename_i a z hentry
    obtain ⟨hok, hcalls, hnew⟩ := loadEntry_eq_ok hentry
    have hgrown : (e ++ [a]).Pairwise Allow.Apart := by
      refine List.pairwise_append.2 ⟨hapart, List.pairwise_singleton .., ?_⟩
      intro o ho b hb
      rw [List.mem_singleton.1 hb]
      exact hnew o ho
    obtain ⟨hall, new, hlist, hrest, hsaid⟩ := ih _ _ _ _ h hgrown
    refine ⟨hall, a :: new, ?_, ?_, .cons (entryOf_eq_ok hok).1 hsaid⟩
    · rw [hlist, List.append_assoc]
      rfl
    · rw [hrest, hcalls, List.append_assoc, ← asked_append]
      rfl

/-- `more than 64 entries`. -/
def tooMany (path : Text) : Text := path ++ txt ": more than " ++ dec ctlAllowMax ++ txt " entries"

/-- The loop that ends with an error. -/
theorem allowLoop_failed {msg : Text} (m : Nat) :
    ∀ (i : Nat) (e : List (Allow D)) (x : World σ),
      allowLoop fp be s t path m e.length i e x = (e', some msg, y) →
        e'.length < e.length + m ∧
          (NamesElement path e'.length msg ∨ ctlAllowMax ≤ e'.length ∧ msg = tooMany path) := by
  induction m with
  | zero => exact fun i e x h => nomatch h
  | succ m ih =>
    intro i e x h
    rw [allowLoop] at h
    split at h
    · rename_i hfull
      cases h
      exact ⟨by omega, .inr ⟨hfull, rfl⟩⟩
    split at h
    · rename_i hentry
      cases h
      exact ⟨by omega, .inl (loadEntry_error hentry)⟩
    · rename_i a z hentry
      have hlength : e.length + 1 = (e ++ [a]).length := by simp
      rw [hlength] at h
      obtain ⟨hlt, hnames⟩ := ih _ _ _ h
      exact ⟨by omega, hnames⟩

end Load

/-! ## The whole file -/

section File

variable {σ D : Type}

/-- The file has the text `text`, its tokens are `toks`, the tree of it is `tree`, and the
array `allow` is the node at token `a`, with the elements `items`. -/
structure HasArray (text : Text) (toks : List Tok) (tree : Tree) (a : Nat) (items : Items) :
    Prop where
  parsed : ecmJsonParse (ofText text) text.length 4096 = .ok toks
  document : IsDocument (ofText text) text.length tree
  laid : toks = tree.toks 0 none
  found : ecmJsonGet (ofText text) toks 0 (txt "allow") = some a
  array : ∃ lo hi, tree.preorder[a]? = some (.node false lo hi items)

/-- The errors that are about the file as a whole, each with its cause. -/
inductive FileError (path : Text) : Except Text Text → Text → Prop
  | unread (why : Text) : FileError path (.error why) (path ++ txt ": " ++ why)
  | large {text : Text} (h : 64 * 1024 - 1 ≤ text.length) :
      FileError path (.ok text)
        (path ++ txt ": larger than " ++ dec (64 * 1024 - 1) ++ txt " bytes")
  | json {text : Text} {err : JErr} {pos : Nat}
      (h : ecmJsonParse (ofText text) text.length 4096 = .error (err, pos)) :
      FileError path (.ok text) (path ++ txt ": JSON error at byte " ++ dec pos)
  | schema {text : Text} {toks : List Tok}
      (h : ecmJsonParse (ofText text) text.length 4096 = .ok toks)
      (hschema : ∀ v, ecmJsonGet (ofText text) toks 0 (txt "schema") = some v →
        ecmJsonU64 (ofText text) (tokAt toks v) ≠ some 1) :
      FileError path (.ok text) (path ++ txt ": \"schema\": 1 expected")
  | allow {text : Text} {toks : List Tok}
      (h : ecmJsonParse (ofText text) text.length 4096 = .ok toks)
      (hallow : ∀ a, ecmJsonGet (ofText text) toks 0 (txt "allow") = some a →
        (tokAt toks a).type ≠ .arr) :
      FileError path (.ok text) (path ++ txt ": \"allow\": [...] expected")

/-- The value is one of the type: an integer between the bounds of an integer type, or a
double in the range of a float. -/
def CType.Admits (fp : Fp D) (t : CType) (v : Val D) : Prop :=
  (t.IsInt ∧ (∀ d, v ≠ .d d) ∧ t.least ≤ v.toInt ∧ v.toInt ≤ t.greatest) ∨
    (t = .f32 ∧ ∃ d, v = .d d ∧ |fp.val d| ≤ 2 ^ 128 - 2 ^ 104)

theorem admits_of_fits {fp : Fp D} {t : CType} {v : Val D} (hraw : t ≠ .raw) (hof : v.Of t)
    (hfits : ecmCtlValFits fp t v = true) : t.Admits fp v := by
  by_cases hint : t.IsInt
  · exact .inl ⟨hint, (fits_iff hint).1 hfits⟩
  · obtain rfl : t = .f32 := by
      rw [CType.IsInt, not_or] at hint
      cases t <;> simp_all [isSigned, isUnsigned]
    cases v with
    | i x => cases hof
    | u x => cases hof
    | d x => exact .inr ⟨rfl, x, rfl, (fitsF32_iff fp x).1 hfits⟩

/-- An entry that may be written: its object is outside of the communication area, its type
is a number type and its limits are two numbers of this type in order. -/
structure Allow.Safe (fp : Fp D) (e : Allow D) : Prop where
  area : ¬ (0x1000 ≤ e.index.toNat ∧ e.index.toNat ≤ 0x1FFF)
  type : e.type.IsInt ∨ e.type = .f32
  min : e.type.Admits fp e.min
  max : e.type.Admits fp e.max
  ordered : e.min.Le fp e.max

theorem Allow.Proper.safe {fp : Fp D} {e : Allow D} (h : e.Proper fp) : e.Safe fp := by
  have hmin := admits_of_fits h.type h.minOf h.minFits
  refine ⟨?_, hmin.imp (·.1) (·.1), hmin, admits_of_fits h.type h.maxOf h.maxFits, h.ordered⟩
  have harea := h.area
  simp only [commArea, Bool.and_eq_false_iff, decide_eq_false_iff_not] at harea
  rintro ⟨hlo, hhi⟩
  exact harea.elim (absurd (UInt16.le_iff_toNat_le.2 hlo)) (absurd (UInt16.le_iff_toNat_le.2 hhi))

theorem memberLoop_lt {s : Image} {t : List Tok} {key : Text} {a : Nat} (m : Nat) :
    ∀ i, memberLoop s t key m i = some a → a < t.length := by
  induction m with
  | zero => exact fun i h => nomatch h
  | succ m ih =>
    intro i h
    rw [memberLoop] at h
    split at h
    rotate_left
    · cases h
    dsimp only at h
    split at h
    · cases h
    rename_i hlt
    split at h
    · cases h
      exact Nat.not_le.1 hlt
    · exact ih _ h

/-- The array that the load found. -/
theorem hasArray_of_get {text : Text} {toks : List Tok} {a : Nat}
    (hparse : ecmJsonParse (ofText text) text.length 4096 = .ok toks)
    (hget : ecmJsonGet (ofText text) toks 0 (txt "allow") = some a)
    (harr : (tokAt toks a).type = .arr) :
    ∃ tree items, HasArray text toks tree a items ∧ (tokAt toks a).size = items.length := by
  obtain ⟨tree, hdoc, rfl⟩ := document_of_parse hparse
  have hlt : a < tree.preorder.length := by
    unfold ecmJsonGet at hget
    split at hget
    · cases hget
    · rw [← Tree.size, ← tree.length_toks 0 none]
      exact memberLoop_lt _ _ hget
  have hsub := List.getElem?_eq_getElem hlt
  have hreads := tokenReads_of_document hdoc hsub
  cases hnode : tree.preorder[a] with
  | leaf type lo hi =>
    obtain ⟨htype, -, hne⟩ := hreads.scalar _ _ _ hnode
    exact absurd (htype.symm.trans harr) hne
  | node obj lo hi items =>
    obtain ⟨htype, hsize⟩ := hreads.container _ _ _ _ hnode
    rw [harr] at htype
    cases obj with
    | true => cases htype
    | false =>
      rw [hnode] at hsub
      exact ⟨tree, items, ⟨hparse, hdoc, rfl, hget, lo, hi, hsub⟩, hsize⟩

/-- The walk of the load over the array. -/
theorem HasArray.elements {text : Text} {toks : List Tok} {tree : Tree} {a : Nat} {items : Items}
    (h : HasArray text toks tree a items) :
    (items.elements (a + 1)).map Prod.fst =
        List.iterate (ecmJsonSkip toks) (a + 1) items.length ∧
      ∀ el ∈ items.elements (a + 1), Placed toks 0 el.1 el.2 := by
  obtain ⟨-, ⟨first, last, -, hshows, -⟩, rfl, -, lo, hi, harray⟩ := h
  have hbefore := parentsBefore_toks tree
  have hplaced := placed_toks harray
  have hunnamed : items.Unnamed := by
    obtain ⟨_, _, hnode⟩ := hshows.stands _ (List.mem_of_getElem? harray)
    cases hnode with
    | node _ hitems _ => exact hitems.unnamed
  refine ⟨items.elements_iterate _ _ hunnamed fun k sub hk => ?_, fun el hel => ?_⟩
  · exact ecmJsonSkip_of_placed (hplaced.item hbefore hk) hbefore
  · obtain ⟨k, hindex, hk⟩ := items.preorder_of_mem_elements _ hunnamed el hel
    rw [hindex]
    exact hplaced.item hbefore hk

/-- The entries of a load that succeeds. -/
structure Loaded.Complete (fp : Fp D) (be : Option (Backend σ)) (text : Text) (x : World σ)
    (r : Loaded σ D) (toks : List Tok) (a : Nat) (items : Items) : Prop where
  each : List.Forall₂ (fun el e => Placed toks 0 el.1 el.2 ∧ Describes fp (ofText text) toks el.1 e)
    (items.elements (a + 1)) r.al.e
  apart : r.al.e.Pairwise Allow.Apart
  allowed : r.world.calls = x.calls ++ asked be r.al.e
  safe : ∀ e ∈ r.al.e, e.Safe fp

/-- The entries of the elements that the walk has visited. -/
theorem HasArray.each {fp : Fp D} {text : Text} {toks : List Tok} {tree : Tree} {a : Nat}
    {items : Items} (h : HasArray text toks tree a items) {l : List (Allow D)}
    (hsaid : List.Forall₂ (Describes fp (ofText text) toks)
      (List.iterate (ecmJsonSkip toks) (a + 1) items.length) l) :
    List.Forall₂ (fun el e => Placed toks 0 el.1 el.2 ∧ Describes fp (ofText text) toks el.1 e)
      (items.elements (a + 1)) l := by
  obtain ⟨hwalk, hplaced⟩ := h.elements
  rw [← hwalk, List.forall₂_map_left_iff] at hsaid
  rw [List.forall₂_iff_get] at hsaid ⊢
  refine ⟨hsaid.1, fun j hj hj' => ⟨hplaced _ (List.get_mem ..), hsaid.2 j hj hj'⟩⟩

/-- What an error text of the load is about: the file as a whole, one of its elements, or the
number of them. -/
def Loaded.Blames (path : Text) (file : Except Text Text) (r : Loaded σ D) (whole : Text) : Prop :=
  (FileError path file whole ∧ r.al.e = []) ∨
    ∃ text toks tree a items, file = .ok text ∧ HasArray text toks tree a items ∧
      r.al.e.length < items.length ∧
      (NamesElement path r.al.e.length whole ∨
        ctlAllowMax ≤ r.al.e.length ∧ whole = tooMany path)

/-- The result for a list, an error text and a world. -/
def loadedOf (path : Text) (errlen : Nat) (l : List (Allow D) × Option Text × World σ) :
    Loaded σ D :=
  { al := { path := clip 256 path, e := l.1 }, err := l.2.1.map (clip errlen), world := l.2.2 }

/-- What is behind the checks on the whole text. -/
theorem loadText_cases (fp : Fp D) (be : Option (Backend σ)) (path text : Text) (x : World σ) :
    (∃ whole, FileError path (.ok text) whole ∧ loadText fp be path text x = ([], some whole, x)) ∨
      ∃ toks tree a items, HasArray text toks tree a items ∧ loadText fp be path text x =
        allowLoop fp be (ofText text) toks path items.length 0 (a + 1) [] x := by
  unfold loadText
  dsimp only
  split
  · rename_i hparse
    exact .inl ⟨_, .json hparse, rfl⟩
  rename_i toks hparse
  split
  · rename_i hschema
    refine .inl ⟨_, .schema hparse fun v hv => ?_, rfl⟩
    rwa [hv] at hschema
  split
  · rename_i hallow
    refine .inl ⟨_, .allow hparse fun a ha harr => ?_, rfl⟩
    rw [ha, Option.filter_some, if_pos (by simpa using harr)] at hallow
    cases hallow
  · rename_i a hallow
    obtain ⟨hget, harr⟩ := Option.filter_eq_some_iff.1 hallow
    obtain ⟨tree, items, harray, hsize⟩ := hasArray_of_get hparse hget (by simpa using harr)
    exact .inr ⟨toks, tree, a, items, harray, by rw [hsize]⟩

/-- The load ends with an error about the file, or with what the loop over the array leaves. -/
theorem allowLoad_cases (fp : Fp D) (be : Option (Backend σ)) (path : Text)
    (file : Except Text Text) (errlen : Nat) (x : World σ) :
    (∃ whole, FileError path file whole ∧
      ecmCtlAllowLoad fp be (some path) file errlen x = loadedOf path errlen ([], some whole, x)) ∨
    ∃ text toks tree a items, file = .ok text ∧ HasArray text toks tree a items ∧
      ecmCtlAllowLoad fp be (some path) file errlen x = loadedOf path errlen
        (allowLoop fp be (ofText text) toks path items.length 0 (a + 1) [] x) := by
  cases file with
  | error why => exact .inl ⟨_, .unread why, rfl⟩
  | ok text =>
    simp only [ecmCtlAllowLoad]
    split
    · rename_i hlarge
      exact .inl ⟨_, .large hlarge, rfl⟩
    · obtain ⟨whole, herror, hload⟩ | ⟨toks, tree, a, items, harray, hload⟩ :=
        loadText_cases fp be path text x
      · rw [hload]
        exact .inl ⟨whole, herror, rfl⟩
      · rw [hload]
        exact .inr ⟨text, toks, tree, a, items, rfl, harray, rfl⟩

/-- A load that succeeds has one entry for each element of the array, in order and as the
element says; no two are for the same object, the backend has denied none, and each is safe.
A load that fails names the element, unless the fault is in the file as a whole or in the
number of its entries. -/
theorem allow_load_entries (fp : Fp D) (be : Option (Backend σ)) (path : Text)
    (file : Except Text Text) (errlen : Nat) (x : World σ) :
    let r := ecmCtlAllowLoad fp be (some path) file errlen x
    (r.err = none → ∃ text toks tree a items, file = .ok text ∧
      HasArray text toks tree a items ∧ r.Complete fp be text x toks a items) ∧
    ∀ msg, r.err = some msg → ∃ whole, msg = clip errlen whole ∧ r.Blames path file whole := by
  intro r
  have hproper : ∀ e ∈ r.al.e, e.Proper fp := ecmCtlAllowLoad_proper be (some path) file errlen x
  obtain ⟨whole, herror, hr⟩ | ⟨text, toks, tree, a, items, rfl, harray, hr⟩ :=
    allowLoad_cases fp be path file errlen x
  · have herr : r.err = some (clip errlen whole) := congrArg Loaded.err hr
    have he : r.al.e = [] := congrArg (·.al.e) hr
    refine ⟨fun hnone => absurd (herr.symm.trans hnone) nofun, fun msg hmsg => ?_⟩
    exact ⟨whole, Option.some.inj (hmsg.symm.trans herr), .inl ⟨herror, he⟩⟩
  generalize hloop : allowLoop fp be (ofText text) toks path items.length 0 (a + 1) [] x = l at hr
  obtain ⟨e, err, y⟩ := l
  have he : r.al.e = e := congrArg (·.al.e) hr
  have herr : r.err = err.map (clip errlen) := congrArg Loaded.err hr
  have hworld : r.world = y := congrArg Loaded.world hr
  cases err with
  | none =>
    refine ⟨fun _ => ⟨text, toks, tree, a, items, rfl, harray, ?_⟩, fun msg hmsg => ?_⟩
    · obtain ⟨hapart, new, hnew, hcalls, hsaid⟩ := allowLoop_done _ _ _ _ _ hloop .nil
      obtain rfl : e = new := hnew
      exact {
        each := he ▸ harray.each hsaid
        apart := he ▸ hapart
        allowed := by rw [hworld, he, hcalls]
        safe := fun e he => (hproper e he).safe }
    · exact absurd (herr.symm.trans hmsg) nofun
  | some whole =>
    refine ⟨fun hnone => absurd (herr.symm.trans hnone) nofun, fun msg hmsg => ?_⟩
    obtain ⟨hlt, hnames⟩ := allowLoop_failed items.length (a + 1) [] x hloop
    rw [List.length_nil, Nat.zero_add] at hlt
    refine ⟨whole, Option.some.inj (hmsg.symm.trans herr), .inr ?_⟩
    rw [he]
    exact ⟨text, toks, tree, a, items, rfl, harray, hlt, hnames⟩

/-- A file with two entries, an integer and a float whose limits are given as strings. -/
def twoAllowed : Text :=
  txt "\x7b\"schema\":1," ++ txt "\"allow\":[\x7b" ++ txt "\"vendor\":1," ++
    txt "\"product\":2," ++ txt "\"index\":24698," ++ txt "\"sub\":0," ++
    txt "\"type\":\"i32\"," ++ txt "\"min\":-5," ++ txt "\"max\":5\x7d,\x7b" ++
    txt "\"vendor\":1," ++ txt "\"product\":2," ++ txt "\"index\":8200," ++ txt "\"sub\":1," ++
    txt "\"type\":\"f32\"," ++ txt "\"min\":\"0\"," ++ txt "\"max\":\"9\"\x7d]\x7d"

/-- Both are loaded, each as its element says, after the backend was asked about each. -/
theorem allow_load_entries_twoAllowed :
    let r := ecmCtlAllowLoad noFp (some oneSlave) (some (txt "f")) (.ok twoAllowed) 256
      { ctx := (), calls := [] }
    r.err = none ∧ r.al.e.map Allow.type = [.i32, .f32] ∧
      r.world.calls = [.deny 0 24698 0 0, .deny 0 8200 1 0] ∧
      ∃ text toks tree a items, Except.ok (ε := Text) twoAllowed = .ok text ∧
        HasArray text toks tree a items ∧
        r.Complete noFp (some oneSlave) text { ctx := (), calls := [] } toks a items := by
  intro r
  have hr : r.err = none ∧ r.al.e.map Allow.type = [.i32, .f32] ∧
      r.world.calls = [.deny 0 24698 0 0, .deny 0 8200 1 0] := by decide +kernel
  exact ⟨hr.1, hr.2.1, hr.2.2, (allow_load_entries noFp (some oneSlave) (txt "f")
    (.ok twoAllowed) 256 { ctx := (), calls := [] }).1 hr.1⟩

/-- A file whose only element is not an object, without its schema: the error names no
element. -/
theorem schema_error_names_no_element :
    (ecmCtlAllowLoad (σ := Unit) noFp none (some (txt "f")) (.ok (txt "\x7b\"allow\":[1]\x7d")) 256
      { ctx := (), calls := [] }).err = some (txt "f: \"schema\": 1 expected") ∧
    ∀ k, ¬ NamesElement (txt "f") k (txt "f: \"schema\": 1 expected") := by
  refine ⟨by decide +kernel, ?_⟩
  rintro k ⟨what, hwhat⟩
  have htake := congrArg (List.take 4) hwhat
  rw [elementText, List.append_assoc, List.append_assoc,
    List.take_append_of_le_length (by decide)] at htake
  exact absurd htake (by decide)

end File

end EcMaster.Api
