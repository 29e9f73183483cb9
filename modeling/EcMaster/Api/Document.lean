import EcMaster.Api.Strict
import EcMaster.Api.Tree

/-!
# The tree of an accepted text

What `ecm_json_parse` leaves in the token array is the tree of the text.  `Shows`
says that a tree stands in a text from one position to another: brackets, commas,
names and blanks where the grammar has them, and numbers, strings and words at
the places of its leaves.

The parser is followed function by function, as for the grammar itself.  `Builds` is
what a function that reads one value does: it appends the tokens of a tree that
stands in front of it.  While a container is read its token is in the array
already.  `containerLoop_builds` says what the loop makes of it: the items that the
loop reads are added to its size, and its end is set.

`token_tree` is the result: for every accepted text `ecm_json_skip` and
`ecm_json_get` answer as the tree does.  A container's size counts its children,
so it is twice the number of members for an object (`object_size_counts_names`).
-/

namespace EcMaster.Api

open EcMaster.ByteImage EcMaster.CText EcMaster.Rfc8259

/-! ## A tree in a text -/

/-- Blanks from `a` to `b`. -/
def Blank (s : Image) (a b : Nat) : Prop := a ≤ b ∧ ∀ i, a ≤ i → i < b → isWs (s i) = true

/-- A string from its opening quote at `a` to its closing quote at `b`. -/
structure Quoted (s : Image) (a b : Nat) : Prop where
  opens : s a = quote
  lt : a < b
  chars : Chars isEscape (slice s (a + 1) (b - (a + 1)))
  closes : s b = quote

/-- What stands before a value in a container: blanks, and for an object the name of
the member. -/
inductive ShowsName (s : Image) : Bool → Option (Nat × Nat) → Nat → Nat → Prop
  | element {a b : Nat} (h : Blank s a b) : ShowsName s false none a b
  | member {a n m c b : Nat} (hbefore : Blank s a n) (hname : Quoted s n m)
      (hbehind : Blank s (m + 1) c) (hcolon : s c = ch ':') (hvalue : Blank s (c + 1) b) :
      ShowsName s true (some (n + 1, m)) a b

/-- The words and their tokens. -/
def wordTypes : List (Text × JType) :=
  [(txt "true", .true), (txt "false", .false), (txt "null", .null)]

mutual

/-- The text has the tree from `a` to `b`. -/
inductive Shows (s : Image) : Tree → Nat → Nat → Prop
  | word {type : JType} {a b : Nat} (h : (slice s a (b - a), type) ∈ wordTypes) :
      Shows s (.leaf type a b) a b
  | number {a b : Nat} (h : Number (slice s a (b - a))) : Shows s (.leaf .num a b) a b
  | string {a b : Nat} (h : Quoted s a b) : Shows s (.leaf .str (a + 1) b) a (b + 1)
  | node {obj : Bool} {items : Items} {a b : Nat} (hopen : s a = opening obj)
      (hitems : ShowsItems s obj items (a + 1) b) (hclose : s b = closing obj) :
      Shows s (.node obj a (b + 1) items) a (b + 1)

/-- The text has the items of a container from `a` to `b`. -/
inductive ShowsItems (s : Image) : Bool → Items → Nat → Nat → Prop
  | empty {obj : Bool} {a b : Nat} (h : Blank s a b) : ShowsItems s obj .nil a b
  | last {obj : Bool} {name : Option (Nat × Nat)} {v : Tree} {a b c d : Nat}
      (hname : ShowsName s obj name a c) (hvalue : Shows s v c d) (hblank : Blank s d b) :
      ShowsItems s obj (.cons name v .nil) a b
  | more {obj : Bool} {name : Option (Nat × Nat)} {v : Tree} {rest : Items} {a b c d e : Nat}
      (hname : ShowsName s obj name a c) (hvalue : Shows s v c d) (hblank : Blank s d e)
      (hcomma : s e = ch ',') (hrest : ShowsItems s obj rest (e + 1) b) (hne : rest ≠ .nil) :
      ShowsItems s obj (.cons name v rest) a b

end

/-- A text of `len` bytes is the tree between blanks. -/
def IsDocument (s : Image) (len : Nat) (t : Tree) : Prop :=
  ∃ a b, Blank s 0 a ∧ Shows s t a b ∧ Blank s b len

section Parse

variable {s : Image} {len max : Nat} {p p' p'' : Jp} {t : Text} {n k k' : Nat}
  {parent : Option Nat}

theorem Blank.trans {a b c : Nat} (h : Blank s a b) (h' : Blank s b c) : Blank s a c := by
  refine ⟨Nat.le_trans h.1 h'.1, fun i hlo hhi => ?_⟩
  by_cases hi : i < b
  · exact h.2 i hlo hi
  · exact h'.2 i (Nat.le_of_not_lt hi) hhi

theorem blank_ws (s : Image) (len : Nat) (p : Jp) : Blank s p.pos (ws s len p).pos := by
  obtain ⟨w, hw, hread⟩ := reads_ws s len 0 p
  refine ⟨by rw [hread.span.stop]; omega, fun i hlo hhi => hw (s i) ?_⟩
  rw [← hread.span.slice_eq]
  unfold slice
  refine List.mem_map.2 ⟨i - p.pos, List.mem_range.2 (by omega), ?_⟩
  rw [Nat.add_sub_cancel' hlo]

/-- What the parser of one value does, at the value itself. -/
structure Builds (s : Image) (p : Jp) (parent : Option Nat) (k : Nat) (p' : Jp) (tree : Tree) :
    Prop where
  index : k = p.t.length
  toks : p'.t = p.t ++ tree.toks k parent
  shows : Shows s tree p.pos p'.pos

theorem modify_append_left {l l' : List Tok} (f : Tok → Tok) (hk : k < l.length) :
    (l ++ l').modify k f = l.modify k f ++ l' := by
  induction l generalizing k with
  | nil => simp at hk
  | cons x l ih =>
      cases k with
      | zero => rfl
      | succ k =>
          rw [List.cons_append, List.modify_succ_cons, List.modify_succ_cons,
            ih (by simpa using hk), List.cons_append]

theorem modify_last (l : List Tok) (x : Tok) (f : Tok → Tok) :
    (l ++ [x]).modify l.length f = l ++ [f x] := by
  induction l with
  | nil => rfl
  | cons y l ih =>
      rw [List.cons_append, List.length_cons, List.modify_succ_cons, ih, List.cons_append]

/-! ## Values without parts -/

theorem tok_eq {type : JType} {start : Nat} (h : tok max p type start parent = (some k, p')) :
    k = p.t.length ∧
      p' = { p with t := p.t ++ [{ type, start, stop := start, size := 0, parent }] } := by
  unfold tok at h
  split at h
  · cases h
  · injection h with hk hp
    exact ⟨(Option.some.inj hk).symm, hp.symm⟩

theorem stringLoop_tokens {fuel : Nat} (h : stringLoop s len k fuel p = (some k', p')) :
    ∃ q, p'.pos = q + 1 ∧ p'.t = p.t.modify k fun x => { x with stop := q } := by
  induction fuel generalizing p with
  | zero => cases h
  | succ fuel ih =>
      obtain ⟨rfl, -⟩ | ⟨c, p₁, -, -, hloop, ht⟩ := stringLoop_turn 0 h
      · exact ⟨p.pos, rfl, rfl⟩
      · obtain ⟨q, hpos, htoks⟩ := ih hloop
        exact ⟨q, hpos, by rw [htoks, ht]⟩

theorem stringLoop_index {fuel : Nat} (h : stringLoop s len k fuel p = (some k', p')) : k' = k := by
  induction fuel generalizing p with
  | zero => cases h
  | succ fuel ih =>
      unfold stringLoop at h
      simp only at h
      split_ifs at h
      all_goals first
        | exact ih h
        | exact (Option.some.inj (congrArg Prod.fst h)).symm
        | cases h

theorem string_builds (hquote : s p.pos = quote)
    (h : string s len max p parent = (some k, p')) :
    ∃ q, p'.pos = q + 1 ∧ Quoted s p.pos q ∧ k = p.t.length ∧
      p'.t = p.t ++ (Tree.leaf .str (p.pos + 1) q).toks k parent := by
  unfold string at h
  cases htok : tok max p .str (p.pos + 1) parent with
  | mk found p₁ =>
      rw [htok] at h
      cases found with
      | none => cases h
      | some k' =>
          obtain ⟨rfl, rfl⟩ := tok_eq htok
          obtain ⟨q, hpos, htoks⟩ := stringLoop_tokens h
          obtain ⟨t, ht, hread⟩ := stringLoop_sound max h
          have hindex : k = p.t.length := stringLoop_index h
          have hstop : q = p.pos + 1 + t.length := by
            have := hread.span.stop
            rw [hpos, List.length_append, List.length_singleton] at this
            change q + 1 = p.pos + 1 + (t.length + 1) at this
            omega
          have htext := hread.span.text
          rw [List.append_assoc] at htext
          obtain ⟨hspan, hrest⟩ := Spans.of_remaining htext
          change Spans s len (p.pos + 1) (p.pos + 1 + t.length) t at hspan
          refine ⟨q, hpos, ⟨hquote, by omega, ?_, ?_⟩, hindex, ?_⟩
          · rw [hstop, hspan.slice_eq]
            exact ht
          · rw [hstop]
            exact (of_remaining_cons hrest).2.1
          · exact htoks.trans (modify_last p.t _ _)

theorem number_builds (h : number s len max p parent = (some k, p')) :
    ∃ tree, Builds s p parent k p' tree := by
  obtain ⟨v, hv, hread⟩ := number_sound h
  unfold number at h
  cases htok : tok max p .num p.pos parent with
  | mk found p₁ =>
      rw [htok] at h
      cases found with
      | none => cases h
      | some k' =>
          obtain ⟨rfl, rfl⟩ := tok_eq htok
          simp only at h
          cases hend : numberEnd s len p.pos with
          | none =>
              rw [hend] at h
              cases h
          | some i =>
              rw [hend] at h
              injection h with hk hp
              subst hp
              have htext : slice s p.pos (i - p.pos) = v := hread.span.slice_eq
              exact ⟨.leaf .num p.pos i, (Option.some.inj hk).symm, modify_last p.t _ _,
                .number (htext ▸ hv)⟩

theorem literal_builds {w : Text} {type : JType} (hw : (w, type) ∈ wordTypes)
    (h : literal s len max p parent w type = (some k, p')) :
    ∃ tree, Builds s p parent k p' tree := by
  have hread := literal_sound h
  unfold literal at h
  split at h
  · cases h
  cases htok : tok max p type p.pos parent with
  | mk found p₁ =>
      rw [htok] at h
      cases found with
      | none => cases h
      | some k' =>
          obtain ⟨rfl, rfl⟩ := tok_eq htok
          injection h with hk hp
          subst hp
          have htext : slice s p.pos (p.pos + w.length - p.pos) = w := hread.span.slice_eq
          exact ⟨.leaf type p.pos (p.pos + w.length), (Option.some.inj hk).symm,
            modify_last p.t _ _, .word (by rw [htext]; exact hw)⟩

/-! ## Containers -/

/-- The parser of a value appends the tokens of a tree that stands behind blanks. -/
def ValueBuilds (s : Image) (value : Jp → Option Nat → Parsed) : Prop :=
  ∀ p parent k p', value p parent = (some k, p') →
    ∃ tree a, k = p.t.length ∧ p'.t = p.t ++ tree.toks k parent ∧ Blank s p.pos a ∧
      Shows s tree a p'.pos

/-- The container's token, with some children more. -/
def growBy (m : Nat) (x : Tok) : Tok := { x with size := x.size + m }

theorem memberName_builds (hk : k < p.t.length)
    (h : memberName s len max k p = (true, p')) :
    ∃ q c, Quoted s p.pos q ∧ Blank s (q + 1) c ∧ s c = ch ':' ∧ Blank s (c + 1) p'.pos ∧
      p'.t = p.t.modify k (growBy 1) ++ nameToks k (some (p.pos + 1, q)) := by
  unfold memberName at h
  split at h
  · cases h
  rename_i hfirst
  rw [not_or, Nat.not_le, not_ne_iff] at hfirst
  cases hstring : string s len max p (some k) with
  | mk found p₁ =>
      rw [hstring] at h
      cases found with
      | none => cases h
      | some k' =>
          simp only at h
          split at h
          · cases h
          rename_i hcolon
          rw [not_or, Nat.not_le, not_ne_iff] at hcolon
          injection h with _ hp
          subst hp
          obtain ⟨q, hpos, hquoted, hindex, ht⟩ := string_builds hfirst.2 hstring
          have hblank : Blank s (q + 1) (ws s len (p₁.grow k)).pos := hpos ▸ blank_ws s len (p₁.grow k)
          refine ⟨q, _, hquoted, hblank, hcolon.2, blank_ws s len (ws s len (p₁.grow k)).bump, ?_⟩
          change p₁.t.modify k (growBy 1) = _
          rw [ht, modify_append_left _ hk]
          rfl

theorem named_builds {obj : Bool} (hk : k < p.t.length)
    (h : (named s len max k obj p).1 = true) :
    ∃ name, ShowsName s obj name p.pos (named s len max k obj p).2.pos ∧
      (named s len max k obj p).2.t =
        p.t.modify k (growBy (nameTree name).length) ++ nameToks k name := by
  cases obj with
  | false =>
      refine ⟨none, .element (blank_ws s len p), ?_⟩
      change p.t = p.t.modify k id ++ []
      rw [List.modify_id, List.append_nil]
  | true =>
      have hmember : memberName s len max k (ws s len p) =
          (true, (named s len max k true p).2) := Prod.ext h rfl
      have hk' : k < (ws s len p).t.length := hk
      obtain ⟨q, c, hquoted, hbehind, hcolon, hvalue, ht⟩ := memberName_builds hk' hmember
      exact ⟨some (_, q), .member (blank_ws s len p) hquoted hbehind hcolon hvalue, ht⟩

theorem length_nameTree_of_shows {obj : Bool} {name : Option (Nat × Nat)} {a b : Nat}
    (h : ShowsName s obj name a b) : (nameTree name).length + 1 = childrenPerItem obj := by
  cases h <;> rfl

theorem ShowsName.blank {obj : Bool} {name : Option (Nat × Nat)} {a b c : Nat}
    (h : ShowsName s obj name a b) (hblank : Blank s b c) : ShowsName s obj name a c := by
  cases h with
  | element h => exact .element (h.trans hblank)
  | member hbefore hname hbehind hcolon hvalue =>
      exact .member hbefore hname hbehind hcolon (hvalue.trans hblank)

theorem containerLoop_index {value : Jp → Option Nat → Parsed} {obj : Bool} {fuel : Nat}
    (h : containerLoop s len max value k obj fuel p = (some k', p')) : k' = k := by
  induction fuel generalizing p with
  | zero => cases h
  | succ fuel ih =>
      unfold containerLoop at h
      simp only at h
      generalize (if obj then memberName s len max k (ws s len p) else (true, ws s len p)) = nm at h
      split at h
      · cases h
      · split at h
        · cases h
        · split_ifs at h
          all_goals first
            | exact ih h
            | exact (Option.some.inj (congrArg Prod.fst h)).symm
            | cases h

/-- The loop reads items of the container `k`, counts their children and closes it. -/
theorem containerLoop_builds {value : Jp → Option Nat → Parsed} (hvalue : ValueBuilds s value)
    {obj : Bool} {fuel : Nat} (hk : k < p.t.length)
    (h : containerLoop s len max value k obj fuel p = (some k', p')) :
    ∃ items b, ShowsItems s obj items p.pos b ∧ items ≠ .nil ∧ s b = Rfc8259.closing obj ∧
      p'.pos = b + 1 ∧
      p'.t = (p.t.modify k fun x =>
          { growBy (childrenPerItem obj * items.length) x with stop := p'.pos }) ++
        items.toks p.t.length k := by
  induction fuel generalizing p with
  | zero => cases h
  | succ fuel ih =>
      obtain ⟨hnamed, k₁, p₁, hone, -, hnext⟩ := containerLoop_turn h
      obtain ⟨name, hname, htname⟩ := named_builds hk hnamed
      obtain ⟨tree, a, hindex, ht, hblank, htree⟩ := hvalue _ _ _ _ hone
      have hper := length_nameTree_of_shows hname
      have hshow := hname.blank hblank
      have hbase : k₁ = p.t.length + (nameTree name).length := by
        rw [hindex, htname, List.length_append, List.length_modify, length_nameToks]
      -- what the item has done to the array
      have hitem : (p₁.grow k).t = p.t.modify k (growBy (childrenPerItem obj)) ++
          (nameToks k name ++ tree.toks (p.t.length + (nameTree name).length) (some k)) := by
        change p₁.t.modify k (growBy 1) = _
        rw [ht, htname, List.append_assoc, modify_append_left _ (by simpa using hk),
          List.modify_modify_eq, ← hper, hbase]
        rfl
      have hspace : Blank s p₁.pos (ws s len (p₁.grow k)).pos := blank_ws s len (p₁.grow k)
      obtain ⟨hcomma, hloop⟩ | ⟨hclose, rfl⟩ := hnext
      · have hk₂ : k < (ws s len (p₁.grow k)).bump.t.length := by
          change k < (p₁.grow k).t.length
          rw [hitem, List.length_append, List.length_modify]
          omega
        obtain ⟨rest, b, hrest, hne, hclose, hpos, htoks⟩ := ih hk₂ hloop
        refine ⟨.cons name tree rest, b, .more hshow htree hspace hcomma hrest hne,
          Items.noConfusion, hclose, hpos, ?_⟩
        have hlen : (p₁.grow k).t.length =
            p.t.length + (nameTree name).length + tree.size := by
          rw [hitem, List.length_append, List.length_modify, List.length_append, length_nameToks,
            tree.length_toks, Nat.add_assoc]
        rw [htoks]
        change (p₁.grow k).t.modify k _ ++ rest.toks (p₁.grow k).t.length k = _
        rw [hlen, hitem, modify_append_left _ (by simpa using hk), List.modify_modify_eq]
        simp only [Items.toks, Items.length, List.append_assoc]
        congr 2
        funext x
        simp only [growBy, Function.comp_apply, Nat.mul_add, Nat.mul_one]
        congr 1
        omega
      · refine ⟨.cons name tree .nil, _, .last hshow htree hspace, Items.noConfusion, hclose, rfl, ?_⟩
        change (p₁.grow k).t.modify k _ = _
        rw [hitem, modify_append_left _ (by simpa using hk), List.modify_modify_eq]
        simp only [Items.toks, Items.length, List.append_nil]
        congr 1
        simp only [Nat.zero_add, Nat.mul_one]
        rfl

/-- A container as a function reads it, at its opening bracket. -/
def NestedBuilds (s : Image) (nested : Jp → Option Nat → Bool → Parsed) : Prop :=
  ∀ p parent obj k p', s p.pos = opening obj → nested p parent obj = (some k, p') →
    ∃ tree, Builds s p parent k p' tree

theorem container_builds {value : Jp → Option Nat → Parsed} (hvalue : ValueBuilds s value) :
    NestedBuilds s (container s len max value) := by
  intro p parent obj k p' hopen h
  unfold container at h
  generalize htype : (if obj then JType.obj else JType.arr) = type at h
  cases htok : tok max p type p.pos parent with
  | mk found p₁ =>
      rw [htok] at h
      cases found with
      | none => cases h
      | some k' =>
          obtain ⟨rfl, rfl⟩ := tok_eq htok
          simp only at h
          split at h
          · rename_i hclose
            injection h with hk hp
            subst hp
            have hblank := blank_ws s len (Jp.bump { p with t := p.t ++
              [{ type, start := p.pos, stop := p.pos, size := 0, parent }] })
            refine ⟨.node obj p.pos _ .nil, (Option.some.inj hk).symm, ?_,
              .node hopen (.empty hblank) hclose.2⟩
            subst htype
            exact modify_last p.t _ _
          · rw [containerLoop_ws] at h
            have hroom : p.t.length <
                (Jp.bump { p with t := p.t ++
                  [{ type, start := p.pos, stop := p.pos, size := 0, parent }] }).t.length := by
              simp [Jp.bump]
            obtain ⟨items, b, hitems, -, hclose, hpos, ht⟩ := containerLoop_builds hvalue hroom h
            obtain rfl := containerLoop_index h
            refine ⟨.node obj p.pos (b + 1) items, rfl, ?_, ?_⟩
            · rw [ht, hpos]
              change (p.t ++ [_]).modify _ _ ++ _ = _
              rw [modify_last, List.append_assoc]
              simp only [growBy, Nat.zero_add, Jp.bump, List.length_append, List.length_singleton,
                List.singleton_append, ← htype]
              rfl
            · rw [hpos]
              exact .node hopen hitems hclose

theorem valueOf_builds {nested : Jp → Option Nat → Bool → Parsed}
    (hnested : NestedBuilds s nested) : ValueBuilds s (valueOf s len max nested) := by
  intro p parent k p' h
  have hblank := blank_ws s len p
  have htoks : (ws s len p).t = p.t := rfl
  -- a value that is read behind the blanks
  have hbehind : (∃ tree, Builds s (ws s len p) parent k p' tree) →
      ∃ tree a, k = p.t.length ∧ p'.t = p.t ++ tree.toks k parent ∧ Blank s p.pos a ∧
        Shows s tree a p'.pos :=
    fun ⟨tree, hbuilds⟩ =>
      ⟨tree, (ws s len p).pos, hbuilds.index, hbuilds.toks, hblank, hbuilds.shows⟩
  apply hbehind
  unfold valueOf at h
  simp only at h
  generalize ws s len p = p₁ at h
  by_cases hend : len ≤ p₁.pos
  · rw [if_pos hend] at h
    cases h
  rw [if_neg hend] at h
  split at h
  · exact hnested _ _ true _ _ ‹_› h
  split at h
  · exact hnested _ _ false _ _ ‹_› h
  split at h
  · obtain ⟨q, hpos, hquoted, hindex, ht⟩ := string_builds ‹_› h
    exact ⟨_, hindex, ht, hpos ▸ .string hquoted⟩
  split at h
  · exact number_builds h
  split at h
  · exact literal_builds (by decide) h
  split at h
  · exact literal_builds (by decide) h
  split at h
  · exact literal_builds (by decide) h
  · cases h

theorem value_builds (s : Image) (len max left : Nat) : ValueBuilds s (value s len max left) := by
  induction left with
  | zero =>
      apply valueOf_builds
      intro p parent obj k p' _ h
      cases h
  | succ left ih => exact valueOf_builds (container_builds ih)

/-- The tokens of an accepted text are those of its tree. -/
theorem document_of_parse {toks : List Tok} (h : ecmJsonParse s len max = .ok toks) :
    ∃ tree, IsDocument s len tree ∧ toks = tree.toks 0 none := by
  unfold ecmJsonParse at h
  cases hvalue : value s len max jsonMaxDepth { pos := 0, t := [], err := none } none with
  | mk found p =>
      rw [hvalue] at h
      cases found with
      | none => cases h
      | some k =>
          simp only at h
          split at h
          · cases h
          rename_i hpos
          rw [not_ne_iff] at hpos
          cases h
          obtain ⟨tree, a, hindex, ht, hblank, hshows⟩ := value_builds s len max _ _ _ _ _ hvalue
          refine ⟨tree, ⟨a, p.pos, hblank, hshows, hpos ▸ blank_ws s len p⟩, ?_⟩
          obtain rfl : k = 0 := hindex
          exact ht

end Parse

/-! ## Subtrees -/

/-- A subtree stands in the text. -/
def Stands (s : Image) (t : Tree) : Prop := ∃ a b, Shows s t a b

theorem ShowsName.stands {s : Image} {obj : Bool} {name : Option (Nat × Nat)} {a b : Nat}
    (h : ShowsName s obj name a b) : ∀ sub ∈ nameTree name, Stands s sub := by
  intro sub hsub
  cases h with
  | element => cases hsub
  | member _ hname =>
      rw [List.mem_singleton.1 hsub]
      exact ⟨_, _, .string hname⟩

mutual

theorem Shows.stands {s : Image} : ∀ {t : Tree} {a b : Nat}, Shows s t a b →
    ∀ sub ∈ t.preorder, Stands s sub
  | _, a, b, .word h, sub, hsub => by
      rw [List.mem_singleton.1 hsub]
      exact ⟨a, b, .word h⟩
  | _, a, b, .number h, sub, hsub => by
      rw [List.mem_singleton.1 hsub]
      exact ⟨a, b, .number h⟩
  | _, a, _, .string h, sub, hsub => by
      rw [List.mem_singleton.1 hsub]
      exact ⟨a, _, .string h⟩
  | _, a, _, .node hopen hitems hclose, sub, hsub => by
      obtain rfl | hsub := List.mem_cons.1 hsub
      · exact ⟨a, _, .node hopen hitems hclose⟩
      · exact hitems.stands sub hsub

theorem ShowsItems.stands {s : Image} : ∀ {obj : Bool} {items : Items} {a b : Nat},
    ShowsItems s obj items a b → ∀ sub ∈ items.preorder, Stands s sub
  | _, _, _, _, .empty _, sub, hsub => nomatch hsub
  | _, _, _, _, .last hname hvalue _, sub, hsub => by
      simp only [Items.preorder, List.append_nil, List.mem_append] at hsub
      obtain hsub | hsub := hsub
      · exact hname.stands sub hsub
      · exact hvalue.stands sub hsub
  | _, _, _, _, .more hname hvalue _ _ hrest _, sub, hsub => by
      simp only [Items.preorder, List.mem_append] at hsub
      obtain hsub | hsub | hsub := hsub
      · exact hname.stands sub hsub
      · exact hvalue.stands sub hsub
      · exact hrest.stands sub hsub

end

theorem ShowsItems.named {s : Image} : ∀ {items : Items} {a b : Nat},
    ShowsItems s true items a b → items.Named
  | _, _, _, .empty _ => trivial
  | _, _, _, .last (.member ..) _ _ => ⟨rfl, trivial⟩
  | _, _, _, .more (.member ..) _ _ _ hrest _ => ⟨rfl, hrest.named⟩

/-! ## The readers of the array -/

/-- What the functions of `ecm_json.c` make of token `i`, whose subtree is `sub`. -/
structure TokenReads (s : Image) (toks : List Tok) (i : Nat) (sub : Tree) : Prop where
  skip : ecmJsonSkip toks i = i + sub.size
  scalar : ∀ type a b, sub = .leaf type a b →
    (tokAt toks i).type = type ∧ type ≠ .obj ∧ type ≠ .arr
  container : ∀ obj a b items, sub = .node obj a b items →
    (tokAt toks i).type = (if obj then .obj else .arr) ∧
      (tokAt toks i).size = if obj then 2 * items.length else items.length
  get : ∀ a b items, sub = .node true a b items → ∀ key, ecmJsonGet s toks i key =
    ((items.members s (i + 1)).find? (·.1 = key)).map (·.2)

theorem tokAt_of_split {l pre post : List Tok} {x : Tok} (hl : l = pre ++ (x :: post)) :
    tokAt l pre.length = x := by
  apply tokAt_of_getElem?
  rw [hl, List.getElem?_append_right (Nat.le_refl _), Nat.sub_self]
  rfl

theorem leaf_type_of_stands {s : Image} {type : JType} {a b : Nat}
    (h : Stands s (.leaf type a b)) : type ≠ .obj ∧ type ≠ .arr := by
  obtain ⟨a', b', hshows⟩ := h
  cases hshows with
  | number | string => exact ⟨nofun, nofun⟩
  | word h =>
      simp only [wordTypes, List.mem_cons, Prod.mk.injEq, List.not_mem_nil, or_false] at h
      obtain ⟨-, rfl⟩ | ⟨-, rfl⟩ | ⟨-, rfl⟩ := h <;> exact ⟨nofun, nofun⟩

theorem named_of_stands {s : Image} {a b : Nat} {items : Items}
    (h : Stands s (.node true a b items)) : items.Named := by
  obtain ⟨a', b', hshows⟩ := h
  cases hshows with
  | node _ hitems _ => exact hitems.named

theorem tokenReads_of_document {s : Image} {len : Nat} {t : Tree} (hdoc : IsDocument s len t)
    {i : Nat} {sub : Tree} (hi : t.preorder[i]? = some sub) :
    TokenReads s (t.toks 0 none) i sub := by
  have hbefore := parentsBefore_toks t
  have hplaced := placed_toks hi
  have hstands : Stands s sub := by
    obtain ⟨a, b, -, hshows, -⟩ := hdoc
    exact hshows.stands sub (List.mem_of_getElem? hi)
  obtain ⟨pre, post, par, hl, hpre, -⟩ := id hplaced
  rw [Nat.zero_add] at hl
  refine ⟨ecmJsonSkip_of_placed hplaced hbefore, ?_, ?_, ?_⟩
  · rintro type a b rfl
    refine ⟨?_, leaf_type_of_stands hstands⟩
    rw [← hpre, tokAt_of_split hl]
  · rintro obj a b items rfl
    rw [← hpre, tokAt_of_split hl]
    cases obj
    · exact ⟨rfl, Nat.one_mul _⟩
    · exact ⟨rfl, rfl⟩
  · rintro a b items rfl key
    have htok : tokAt (t.toks 0 none) i =
        { type := .obj, start := a, stop := b, size := 2 * items.length, parent := par } := by
      rw [← hpre, tokAt_of_split hl]
      rfl
    have hlt : ¬ (t.toks 0 none).length ≤ i := by
      rw [t.length_toks]
      exact Nat.not_le.2 (List.getElem?_eq_some_iff.1 hi).1
    unfold ecmJsonGet
    rw [htok]
    simp only [hlt, ne_eq, not_true_eq_false, or_self, if_false,
      Nat.mul_div_cancel_left _ (Nat.zero_lt_two)]
    refine memberLoop_items s key i post items (i + 1)
      (pre ++ [{ type := .obj, start := a, stop := b, size := 2 * items.length, parent := par }])
      ?_ ?_ (named_of_stands hstands) ?_
    · rw [hl, List.append_assoc]
      rfl
    · rw [List.length_append, hpre]
      rfl
    · intro k sub hk
      exact ecmJsonSkip_of_placed (hplaced.item hbefore hk) hbefore

/-- The token of a leaf has its type and its place. -/
theorem leaf_of_parse {s : Image} {len max : Nat} {toks : List Tok}
    (h : ecmJsonParse s len max = .ok toks) {tk : Tok} (htk : tk ∈ toks) (hobj : tk.type ≠ .obj)
    (harr : tk.type ≠ .arr) : Stands s (.leaf tk.type tk.start tk.stop) := by
  obtain ⟨tree, hdoc, rfl⟩ := document_of_parse h
  obtain ⟨i, hi⟩ := List.mem_iff_getElem?.1 htk
  have hlt := (List.getElem?_eq_some_iff.1 hi).1
  rw [tree.length_toks] at hlt
  have hsub : tree.preorder[i]? = some tree.preorder[i] := List.getElem?_eq_getElem hlt
  obtain ⟨pre, post, par, hl, hpre, -⟩ := placed_toks hsub
  rw [Nat.zero_add] at hl
  have hstands : Stands s tree.preorder[i] := by
    obtain ⟨a, b, -, hshows, -⟩ := hdoc
    exact hshows.stands _ (List.mem_of_getElem? hsub)
  rw [hl, List.getElem?_append_right (by omega), hpre, Nat.sub_self] at hi
  cases hnode : tree.preorder[i] with
  | leaf type a b =>
      rw [hnode] at hi hstands
      obtain rfl := Option.some.inj hi
      exact hstands
  | node obj a b items =>
      rw [hnode] at hi
      obtain rfl := Option.some.inj hi
      cases obj
      · exact absurd rfl harr
      · exact absurd rfl hobj

/-- For every accepted text there is a tree that the text shows and whose tokens the
array has, and the functions answer for every token as for its subtree. -/
theorem token_tree (s : Image) (len max : Nat) (toks : List Tok)
    (h : ecmJsonParse s len max = .ok toks) :
    ∃ tree, IsDocument s len tree ∧ toks = tree.toks 0 none ∧
      ∀ i < toks.length, ∃ sub, tree.preorder[i]? = some sub ∧ TokenReads s toks i sub := by
  obtain ⟨tree, hdoc, rfl⟩ := document_of_parse h
  refine ⟨tree, hdoc, rfl, fun i hi => ?_⟩
  rw [tree.length_toks] at hi
  have hsub : tree.preorder[i]? = some tree.preorder[i] := List.getElem?_eq_getElem hi
  exact ⟨_, hsub, tokenReads_of_document hdoc hsub⟩

/-- An object in an object. -/
def nestedText : Text :=
  [ch '\x7b', quote, ch 'a', quote, ch ':', ch '\x7b', quote, ch 'b', quote, ch ':', ch '1',
    ch '\x7d', ch '\x7d']

def nestedToks : List Tok :=
  [{ type := .obj, start := 0, stop := 13, size := 2, parent := none },
    { type := .str, start := 2, stop := 3, size := 0, parent := some 0 },
    { type := .obj, start := 5, stop := 12, size := 2, parent := some 0 },
    { type := .str, start := 7, stop := 8, size := 0, parent := some 2 },
    { type := .num, start := 10, stop := 11, size := 0, parent := some 2 }]

theorem token_tree_nested :
    ecmJsonParse (ofText nestedText) 13 8 = .ok nestedToks ∧
    ∃ tree, IsDocument (ofText nestedText) 13 tree ∧ nestedToks = tree.toks 0 none ∧
      ∀ i < nestedToks.length, ∃ sub, tree.preorder[i]? = some sub ∧
        TokenReads (ofText nestedText) nestedToks i sub :=
  have hparse : ecmJsonParse (ofText nestedText) 13 8 = .ok nestedToks := by rfl
  ⟨hparse, token_tree _ _ _ _ hparse⟩

/-- The text of an object with one member. -/
def oneMember : Text :=
  [ch '\x7b', quote, ch 'a', quote, ch ':', ch '1', ch '\x7d']

def oneMemberToks : List Tok :=
  [{ type := .obj, start := 0, stop := 7, size := 2, parent := none },
    { type := .str, start := 2, stop := 3, size := 0, parent := some 0 },
    { type := .num, start := 5, stop := 6, size := 0, parent := some 0 }]

def oneMemberItems : Items := .cons (some (2, 3)) (.leaf .num 5 6) .nil

/-- An object of one member has size two: its size is not its number of members. -/
theorem object_size_counts_names :
    ecmJsonParse (ofText oneMember) 7 8 = .ok oneMemberToks ∧
      IsDocument (ofText oneMember) 7 (.node true 0 7 oneMemberItems) ∧
      oneMemberToks = (Tree.node true 0 7 oneMemberItems).toks 0 none ∧
      (tokAt oneMemberToks 0).size ≠ oneMemberItems.length := by
  have hblank : ∀ a, Blank (ofText oneMember) a a := fun a => ⟨Nat.le_refl a, by omega⟩
  have hname : Quoted (ofText oneMember) 1 3 :=
    ⟨rfl, by decide, .unescaped (ch 'a') (by decide) .nil, rfl⟩
  have hone : IntPart [ch '1'] := .digits (ch '1') (by decide) (by decide) (fun _ h => nomatch h)
  have hnumber : Number (slice (ofText oneMember) 5 1) :=
    ⟨[], [ch '1'], [], [], .inl rfl, hone, .none, .none, rfl⟩
  refine ⟨by rfl, ⟨0, 7, hblank 0, ?_, hblank 7⟩, by decide, by decide⟩
  exact .node rfl (.last (.member (hblank 1) hname (hblank 4) rfl (hblank 5)) (.number hnumber)
    (hblank 6)) rfl

end EcMaster.Api
