import NetlinkSchema.Cbor.Reader
import NetlinkSchema.Proofs.Bytes
import NetlinkSchema.Proofs.Object

/-!
# The bytes of data items

What is written for a data item can be told from what follows it, and read back. Only the items
that manifests consist of are considered: numbers, texts, simple values, arrays, and maps whose
keys are texts.

Everything starts from the head, which says how far the item reaches: in bytes for a text, in
members for a collection. So two items of which one begins with the bytes of the other have the
same head, and by induction the same bytes. A reader goes the same way. It gives the item with the
entries of its maps in the order in which they were written, and gives up only where a collection
has more members than it accepts.

Heads have numbers of eight bytes, so the items considered are shorter than `2 ^ 64` bytes.

## Main definitions

* `Cbor.Plain`: The items that manifests consist of, with the number of levels that they nest in.
* `Cbor.Delimited`: No other item begins with the bytes of an item, nor the item with those of it.
* `Cbor.isReadable`: Whether no collection has more members than can be read.
* `Cbor.arranged`: An item with the entries of its maps in written order.

## Theorems

* `Cbor.read_head`: A head is read back, whatever follows it.
* `Cbor.Plain.delimited`: Plain items are told apart by their bytes, whatever follows them.
* `Cbor.Plain.readsBack`: A plain item is read back, whatever follows it.
* `Cbor.Plain.decode?_encode`: The bytes of a plain item are read as the arranged item.
-/

namespace NetlinkSchema

namespace Cbor

section Heads

variable {major : UInt8} {info : Nat}

-- The leading byte of a head keeps the major type and the low bits apart.
theorem lead_div (hmajor : major < 8) (hinfo : info < 32) :
    (major * 32 + UInt8.ofNat info) / 32 = major := by
  have hlt : major.toNat < 8 := UInt8.lt_iff_toNat_lt.1 hmajor
  apply UInt8.toNat_inj.1
  simp only [UInt8.toNat_div, UInt8.toNat_add, UInt8.toNat_mul, UInt8.toNat_ofNat',
    UInt8.reduceToNat]
  omega

theorem lead_mod (hmajor : major < 8) (hinfo : info < 32) :
    (major * 32 + UInt8.ofNat info) % 32 = UInt8.ofNat info := by
  have hlt : major.toNat < 8 := UInt8.lt_iff_toNat_lt.1 hmajor
  apply UInt8.toNat_inj.1
  simp only [UInt8.toNat_mod, UInt8.toNat_add, UInt8.toNat_mul, UInt8.toNat_ofNat',
    UInt8.reduceToNat]
  omega

/-- A number in the leading byte itself is read back. -/
theorem read_small (hmajor : major < 8) (hinfo : info < 24) (rest : Bytes) :
    Head.read ((major * 32 + UInt8.ofNat info) :: rest)
      = some (⟨major, UInt8.ofNat info, info⟩, rest) := by
  have hnat : (UInt8.ofNat info).toNat = info := by
    rw [UInt8.toNat_ofNat', Nat.mod_eq_of_lt (by omega)]
  have hlt : UInt8.ofNat info < 24 := by
    rw [UInt8.lt_iff_toNat_lt, hnat]
    exact hinfo
  simp only [Head.read, lead_div hmajor (show info < 32 by omega),
    lead_mod hmajor (show info < 32 by omega), if_pos hlt, hnat]

/-- A number in the bytes after the leading one is read back. -/
theorem read_sized (hmajor : major < 7) {size n : Nat}
    (hinfo : (info, size) ∈ [(24, 1), (25, 2), (26, 4), (27, 8)]) (hn : n < 256 ^ size)
    (rest : Bytes) :
    Head.read ((major * 32 + UInt8.ofNat info) :: Bytes.ofNatBig size n ++ rest)
      = some (⟨major, UInt8.ofNat info, n⟩, rest) := by
  have hlt : major.toNat < 7 := UInt8.lt_iff_toNat_lt.1 hmajor
  have hmajor' : major < 8 := UInt8.lt_iff_toNat_lt.2 (Nat.lt_succ_of_lt hlt)
  have hne : (major == 7) = false := by
    rw [beq_eq_false_iff_ne]
    intro h
    rw [h] at hlt
    exact absurd hlt (by decide)
  have hlow : info < 32 := by
    simp only [List.mem_cons, Prod.mk.injEq, List.not_mem_nil, or_false] at hinfo
    omega
  have htake : (Bytes.ofNatBig size n ++ rest).take size = Bytes.ofNatBig size n := by
    rw [List.take_left' (Bytes.length_ofNatBig size n)]
  have hdrop : (Bytes.ofNatBig size n ++ rest).drop size = rest := by
    rw [List.drop_left' (Bytes.length_ofNatBig size n)]
  have hlen : size ≤ (Bytes.ofNatBig size n ++ rest).length := by
    rw [List.length_append, Bytes.length_ofNatBig]
    omega
  have hval : Bytes.toNatBig (Bytes.ofNatBig size n) = n := by
    rw [Bytes.toNatBig_ofNatBig, Nat.mod_eq_of_lt hn]
  simp only [Head.read, List.cons_append, lead_div hmajor' hlow, lead_mod hmajor' hlow, hne,
    Bool.false_and, Bool.false_eq_true, if_false]
  simp only [List.mem_cons, Prod.mk.injEq, List.not_mem_nil, or_false] at hinfo
  rcases hinfo with ⟨rfl, rfl⟩ | ⟨rfl, rfl⟩ | ⟨rfl, rfl⟩ | ⟨rfl, rfl⟩
  all_goals
    rw [htake, hdrop, if_pos hlen, hval]
    rfl

/-- A head is read back, whatever follows it. -/
theorem read_head {n : Nat} (hmajor : major < 7 ∨ major = 7 ∧ n < 24) (hn : n < 2 ^ 64)
    (rest : Bytes) :
    ∃ info : UInt8, info ≠ 31
      ∧ Head.read (head major n ++ rest) = some (⟨major, info, n⟩, rest) := by
  unfold head
  by_cases h0 : n < 24
  · have hmajor' : major < 8 := by
      rcases hmajor with hmajor | ⟨rfl, -⟩
      · exact UInt8.lt_iff_toNat_lt.2 (Nat.lt_succ_of_lt (UInt8.lt_iff_toNat_lt.1 hmajor))
      · decide
    rw [if_pos h0]
    refine ⟨UInt8.ofNat n, ?_, read_small hmajor' h0 rest⟩
    intro h
    have hnat := congrArg UInt8.toNat h
    simp only [UInt8.toNat_ofNat', UInt8.reduceToNat] at hnat
    omega
  replace hmajor : major < 7 := hmajor.resolve_right fun h => h0 h.2
  rw [if_neg h0]
  by_cases h1 : n < 0x100
  · rw [if_pos h1]
    exact ⟨24, by decide, read_sized hmajor (by decide) h1 rest⟩
  rw [if_neg h1]
  by_cases h2 : n < 0x10000
  · rw [if_pos h2]
    exact ⟨25, by decide, read_sized hmajor (by decide) h2 rest⟩
  rw [if_neg h2]
  by_cases h4 : n < 0x100000000
  · rw [if_pos h4]
    exact ⟨26, by decide, read_sized hmajor (by decide) h4 rest⟩
  rw [if_neg h4]
  exact ⟨27, by decide, read_sized hmajor (by decide) hn rest⟩

theorem head_ne_nil (major : UInt8) (n : Nat) : head major n ≠ [] := by
  unfold head
  split_ifs <;> exact List.cons_ne_nil _ _

theorem length_head (major : UInt8) (n : Nat) : (head major n).length ≤ 9 := by
  unfold head
  split_ifs <;> simp

end Heads

/-- The entries of a map in the order in which they are written. -/
def sortEntries (entries : List (Cbor × Cbor)) : List (Cbor × Cbor) :=
  sortBy (fun a b => Bytes.le a.1.encode b.1.encode) entries

theorem sortEntries_perm (entries : List (Cbor × Cbor)) : (sortEntries entries).Perm entries :=
  sortBy_perm _ entries

theorem encodeItems_eq (items : List Cbor) : encodeItems items = items.flatMap encode := by
  induction items with
  | nil => rfl
  | cons item rest ih => rw [encodeItems, ih, List.flatMap_cons]

theorem encodeEntries_eq (entries : List (Cbor × Cbor)) :
    encodeEntries entries = entries.map fun e => (e.1.encode, e.2.encode) := by
  induction entries with
  | nil => rfl
  | cons e rest ih => rw [encodeEntries, ih, List.map_cons]

/-- The items that a collection is written as, after its head. -/
def members : Cbor → List Cbor
  | array items => items
  | map entries => (sortEntries entries).flatMap fun e => [e.1, e.2]
  | _ => []

theorem encode_array (items : List Cbor) :
    (array items).encode = head 4 items.length ++ (array items).members.flatMap encode := by
  rw [encode, encodeItems_eq, members]

theorem encode_map (entries : List (Cbor × Cbor)) :
    (map entries).encode = head 5 entries.length ++ (map entries).members.flatMap encode := by
  rw [encode, encodeEntries_eq, sortBy_map, List.flatMap_map, members, List.flatMap_assoc]
  simp only [List.flatMap_cons, List.flatMap_nil, List.append_nil]
  rfl

/-- The order of the entries of a map does not matter for the number of its bytes. -/
theorem length_encode_map (entries : List (Cbor × Cbor)) : (map entries).encode.length
    = (head 5 entries.length).length
      + (entries.map fun e => e.1.encode.length + e.2.encode.length).sum := by
  have hsum := ((sortEntries_perm entries).map fun e =>
    e.1.encode.length + e.2.encode.length).sum_nat
  rw [encode_map, List.length_append, members, List.flatMap_assoc, List.length_flatMap, ← hsum]
  simp only [List.flatMap_cons, List.flatMap_nil, List.append_nil, List.length_append]

theorem length_members_map (entries : List (Cbor × Cbor)) :
    (map entries).members.length = 2 * entries.length := by
  have hlen := (sortEntries_perm entries).length_eq
  simp only [members, List.length_flatMap, List.length_cons, List.length_nil, List.map_const',
    List.sum_replicate_nat]
  omega

theorem mem_members_map {entries : List (Cbor × Cbor)} {c : Cbor} :
    c ∈ (map entries).members ↔ ∃ e ∈ entries, c = e.1 ∨ c = e.2 := by
  simp only [members, List.mem_flatMap, (sortEntries_perm entries).mem_iff, List.mem_cons,
    List.not_mem_nil, or_false]

/-- The items that manifests consist of: numbers, texts, simple values, and collections of them
    whose maps have texts as keys. Collections nest in at most `levels` levels. -/
inductive Plain : (levels : Nat) → Cbor → Prop
  | unsigned {levels : Nat} (n : UInt64) : Plain levels (.unsigned n)
  | negative {levels : Nat} (n : UInt64) : Plain levels (.negative n)
  | text {levels : Nat} (t : Text) : Plain levels (.text t)
  | simple {levels : Nat} {n : UInt8} (h : n < 24) : Plain levels (.simple n)
  | array {levels : Nat} {items : List Cbor} (h : ∀ c ∈ items, Plain levels c) :
      Plain (levels + 1) (.array items)
  | map {levels : Nat} {entries : List (Cbor × Cbor)}
      (hkeys : ∀ e ∈ entries, ∃ t, e.1 = .text t) (h : ∀ e ∈ entries, Plain levels e.2) :
      Plain (levels + 1) (.map entries)

/-- The major type of an item. -/
def major : Cbor → UInt8
  | unsigned _ => 0
  | negative _ => 1
  | bytes _ => 2
  | text _ | pieces _ => 3
  | array _ => 4
  | map _ => 5
  | tag _ _ => 6
  | simple _ | float _ _ => 7

/-- The number in the head of an item. -/
def number : Cbor → Nat
  | unsigned n | negative n | tag n _ | float _ n => n.toNat
  | bytes b => b.length
  | text t => t.size
  | pieces _ => 0
  | array items => items.length
  | map entries => entries.length
  | simple n => n.toNat

/-- Whether an item is an array or a map. -/
def isCollection (c : Cbor) : Bool := c.major == 4 || c.major == 5

/-- What follows the head of a plain item. -/
def body : Cbor → Bytes
  | text t => t.utf8
  | c => c.members.flatMap encode

namespace Plain

variable {levels levels' : Nat} {c c' : Cbor}

theorem head_major (h : Plain levels c) : c.major < 7 ∨ c.major = 7 ∧ c.number < 24 := by
  cases h with
  | simple h => exact Or.inr ⟨rfl, UInt8.lt_iff_toNat_lt.1 h⟩
  | _ => exact Or.inl (by rw [major]; decide)

theorem encode_eq (h : Plain levels c) : c.encode = head c.major c.number ++ c.body := by
  cases h with
  | unsigned n => exact (List.append_nil _).symm
  | negative n => exact (List.append_nil _).symm
  | text t => rfl
  | @simple _ n h =>
      have hlt : n.toNat < 24 := UInt8.lt_iff_toNat_lt.1 h
      rw [encode, if_pos h, head, number, if_pos hlt]
      simp only [UInt8.ofNat_toNat]
      rfl
  | array h => exact encode_array _
  | map hkeys h => exact encode_map _

theorem encode_ne_nil (h : Plain levels c) : c.encode ≠ [] := by
  rw [h.encode_eq]
  exact List.append_ne_nil_of_left_ne_nil (head_ne_nil _ _) _

/-- The members of a plain item are plain. -/
theorem of_mem_members (h : Plain levels c) {x : Cbor} (hx : x ∈ c.members) :
    ∃ levels, Plain levels x := by
  cases h with
  | array h => exact ⟨_, h x hx⟩
  | map hkeys h =>
      obtain ⟨e, he, rfl | rfl⟩ := mem_members_map.1 hx
      · obtain ⟨t, ht⟩ := hkeys e he
        exact ⟨0, ht ▸ Plain.text t⟩
      · exact ⟨_, h e he⟩
  | _ => cases hx

/-- Items have no more members than bytes. -/
theorem length_le_flatMap_encode {items : List Cbor} (h : ∀ x ∈ items, ∃ levels, Plain levels x) :
    items.length ≤ (items.flatMap encode).length := by
  induction items with
  | nil => exact Nat.le_refl 0
  | cons item rest ih =>
      obtain ⟨levels, hitem⟩ := h item List.mem_cons_self
      have hpos := List.length_pos_iff.2 hitem.encode_ne_nil
      have hrest := ih fun c hc => h c (List.mem_cons_of_mem _ hc)
      rw [List.length_cons, List.flatMap_cons, List.length_append]
      omega

theorem length_body_lt (h : Plain levels c) : c.body.length < c.encode.length := by
  have hpos := List.length_pos_iff.2 (head_ne_nil c.major c.number)
  rw [h.encode_eq, List.length_append]
  omega

theorem number_lt (h : Plain levels c) (hsize : c.encode.length < 2 ^ 64) : c.number < 2 ^ 64 := by
  have hbody := h.length_body_lt
  -- The number of a collection counts members, and each of them has a byte at least.
  have hmembers := length_le_flatMap_encode fun x hx => h.of_mem_members (x := x) hx
  cases h with
  | unsigned n => exact n.toNat_lt
  | negative n => exact n.toNat_lt
  | text t => exact Nat.lt_trans hbody hsize
  | @simple _ n h => exact Nat.lt_trans n.toNat_lt (by decide)
  | array h => exact Nat.lt_trans (Nat.lt_of_le_of_lt hmembers hbody) hsize
  | map hkeys h =>
      have hentries := Nat.lt_trans (Nat.lt_of_le_of_lt hmembers hbody) hsize
      rw [length_members_map] at hentries
      exact Nat.lt_of_le_of_lt (Nat.le_mul_of_pos_left _ (by decide)) hentries

theorem length_encode_member (h : Plain levels c) {x : Cbor} (hx : x ∈ c.members) :
    x.encode.length < c.encode.length := by
  have hbody : c.body = c.members.flatMap encode := by
    cases h with
    | text t => cases hx
    | _ => rfl
  have hpart := (List.sublist_flatten_of_mem (List.mem_map_of_mem (f := encode) hx)).length_le
  rw [← List.flatMap_def, ← hbody] at hpart
  exact Nat.lt_of_le_of_lt hpart h.length_body_lt

/-- The head of a plain item is read back, whatever follows it. -/
theorem read_encode (h : Plain levels c) (hsize : c.encode.length < 2 ^ 64) (rest : Bytes) :
    ∃ info : UInt8, info ≠ 31
      ∧ Head.read (c.encode ++ rest) = some (⟨c.major, info, c.number⟩, c.body ++ rest) := by
  rw [h.encode_eq, List.append_assoc]
  exact read_head h.head_major (h.number_lt hsize) (c.body ++ rest)

end Plain

/-- No other plain item begins with the bytes of the item, and the item with those of none. -/
def Delimited (c : Cbor) : Prop :=
  ∀ ⦃levels : Nat⦄ ⦃c' : Cbor⦄, Plain levels c' → c'.encode.length < 2 ^ 64 →
    ∀ ⦃r r' : Bytes⦄, c.encode ++ r = c'.encode ++ r' → c.encode = c'.encode

/-- Lists of as many items that are told apart are told apart item by item. -/
theorem map_encode_of_delimited {xs ys : List Cbor} (hxs : ∀ x ∈ xs, Delimited x)
    (hys : ∀ y ∈ ys, (∃ levels, Plain levels y) ∧ y.encode.length < 2 ^ 64)
    (hlen : xs.length = ys.length) {r r' : Bytes}
    (h : xs.flatMap encode ++ r = ys.flatMap encode ++ r') : xs.map encode = ys.map encode := by
  induction xs generalizing ys with
  | nil =>
      cases ys with
      | nil => rfl
      | cons y ys => cases hlen
  | cons x xs ih =>
      cases ys with
      | nil => cases hlen
      | cons y ys =>
          rw [List.flatMap_cons, List.flatMap_cons, List.append_assoc, List.append_assoc] at h
          obtain ⟨⟨levels, hplain⟩, hsize⟩ := hys y List.mem_cons_self
          have hfirst := hxs x List.mem_cons_self hplain hsize h
          rw [hfirst] at h
          have hrest := ih (fun c hc => hxs c (List.mem_cons_of_mem _ hc))
            (fun c hc => hys c (List.mem_cons_of_mem _ hc)) (Nat.succ.inj hlen)
            (List.append_cancel_left h)
          rw [List.map_cons, List.map_cons, hfirst, hrest]

namespace Plain

variable {levels levels' : Nat} {c c' : Cbor}

theorem isCollection_congr (h : c.major = c'.major) : c.isCollection = c'.isCollection := by
  rw [isCollection, isCollection, h]

/-- Plain items of which one begins with the bytes of the other have the same head. -/
theorem same_head (h : Plain levels c) (hsize : c.encode.length < 2 ^ 64) (h' : Plain levels' c')
    (hsize' : c'.encode.length < 2 ^ 64) {r r' : Bytes} (heq : c.encode ++ r = c'.encode ++ r') :
    c.major = c'.major ∧ c.number = c'.number ∧ c.body ++ r = c'.body ++ r' := by
  obtain ⟨info, -, hread⟩ := h.read_encode hsize r
  obtain ⟨info', -, hread'⟩ := h'.read_encode hsize' r'
  rw [heq, hread'] at hread
  simp only [Option.some.injEq, Prod.mk.injEq, Head.mk.injEq] at hread
  exact ⟨hread.1.1.symm, hread.1.2.2.symm, hread.2.symm⟩

-- How far the body of an item reaches is said by its head.
theorem length_body (h : Plain levels c) (hscalar : c.isCollection = false) :
    c.body.length = if c.major = 3 then c.number else 0 := by
  cases h with
  | array h => cases hscalar
  | map hkeys h => cases hscalar
  | _ => rfl

theorem body_eq (h : Plain levels c) (hcollection : c.isCollection = true) :
    c.body = c.members.flatMap encode := by
  cases h with
  | text t => cases hcollection
  | _ => rfl

theorem length_members (h : Plain levels c) (hcollection : c.isCollection = true) :
    c.members.length = if c.major = 4 then c.number else 2 * c.number := by
  cases h with
  | array h => rfl
  | map hkeys h => exact length_members_map _
  | _ => cases hcollection

theorem delimited_of_scalar (h : Plain levels c) (hsize : c.encode.length < 2 ^ 64)
    (hscalar : c.isCollection = false) : Delimited c := by
  intro levels' c' h' hsize' r r' heq
  obtain ⟨hmajor, hnumber, hrest⟩ := h.same_head hsize h' hsize' heq
  have hscalar' : c'.isCollection = false := isCollection_congr hmajor ▸ hscalar
  have hlen : c.body.length = c'.body.length := by
    rw [h.length_body hscalar, h'.length_body hscalar', hmajor, hnumber]
  have hbody := (List.append_inj hrest hlen).1
  rw [h.encode_eq, h'.encode_eq, hmajor, hnumber, hbody]

-- What is said here of the members carries over to the collection, below.
theorem map_encode_members (h : Plain levels c) (hsize : c.encode.length < 2 ^ 64)
    (hcollection : c.isCollection = true) (hmembers : ∀ x ∈ c.members, Delimited x)
    (h' : Plain levels' c') (hsize' : c'.encode.length < 2 ^ 64) {r r' : Bytes}
    (heq : c.encode ++ r = c'.encode ++ r') : c.members.map encode = c'.members.map encode := by
  obtain ⟨hmajor, hnumber, hrest⟩ := h.same_head hsize h' hsize' heq
  have hcollection' : c'.isCollection = true := isCollection_congr hmajor ▸ hcollection
  have hlen : c.members.length = c'.members.length := by
    rw [h.length_members hcollection, h'.length_members hcollection', hmajor, hnumber]
  have hplain : ∀ y ∈ c'.members, (∃ levels, Plain levels y) ∧ y.encode.length < 2 ^ 64 :=
    fun y hy => ⟨h'.of_mem_members hy, Nat.lt_trans (h'.length_encode_member hy) hsize'⟩
  rw [h.body_eq hcollection, h'.body_eq hcollection'] at hrest
  exact map_encode_of_delimited hmembers hplain hlen hrest

theorem delimited_of_members (h : Plain levels c) (hsize : c.encode.length < 2 ^ 64)
    (hcollection : c.isCollection = true) (hmembers : ∀ x ∈ c.members, Delimited x) :
    Delimited c := by
  intro levels' c' h' hsize' r r' heq
  obtain ⟨hmajor, hnumber, -⟩ := h.same_head hsize h' hsize' heq
  have hcollection' : c'.isCollection = true := isCollection_congr hmajor ▸ hcollection
  have hsame := h.map_encode_members hsize hcollection hmembers h' hsize' heq
  rw [h.encode_eq, h'.encode_eq, h.body_eq hcollection, h'.body_eq hcollection', hmajor, hnumber,
    List.flatMap_def, List.flatMap_def, hsame]

/-- Plain items are told apart by their bytes, whatever follows them. -/
theorem delimited (h : Plain levels c) (hsize : c.encode.length < 2 ^ 64) : Delimited c := by
  induction h with
  | unsigned n => exact (unsigned n : Plain 0 _).delimited_of_scalar hsize rfl
  | negative n => exact (negative n : Plain 0 _).delimited_of_scalar hsize rfl
  | text t => exact (text t : Plain 0 _).delimited_of_scalar hsize rfl
  | simple h => exact (simple h : Plain 0 _).delimited_of_scalar hsize rfl
  | array h ih =>
      refine (Plain.array h).delimited_of_members hsize rfl fun x hx => ?_
      exact ih x hx (Nat.lt_trans ((Plain.array h).length_encode_member hx) hsize)
  | map hkeys h ih =>
      refine (Plain.map hkeys h).delimited_of_members hsize rfl fun x hx => ?_
      have hxsize := Nat.lt_trans ((Plain.map hkeys h).length_encode_member hx) hsize
      obtain ⟨e, he, rfl | rfl⟩ := mem_members_map.1 hx
      · -- The keys are texts, and need no induction hypothesis.
        obtain ⟨t, ht⟩ := hkeys e he
        rw [ht] at hxsize ⊢
        exact (text t : Plain 0 _).delimited_of_scalar hxsize rfl
      · exact ih e he hxsize

/-- Plain collections of the same bytes have members of the same bytes. -/
theorem members_of_encode_eq (h : Plain levels c) (hsize : c.encode.length < 2 ^ 64)
    (hcollection : c.isCollection = true) (h' : Plain levels' c') (heq : c.encode = c'.encode) :
    c.members.map encode = c'.members.map encode := by
  have hmembers : ∀ x ∈ c.members, Delimited x := by
    intro x hx
    obtain ⟨levels, hplain⟩ := h.of_mem_members hx
    exact hplain.delimited (Nat.lt_trans (h.length_encode_member hx) hsize)
  have heq' : c.encode ++ [] = c'.encode ++ [] := by rw [heq]
  exact h.map_encode_members hsize hcollection hmembers h' (heq ▸ hsize) heq'

end Plain

mutual

/-- Whether no collection has more members than can be read. -/
def isReadable : Cbor → Bool
  | array items => decide (items.length ≤ maxMembers) && itemsReadable items
  | map entries => decide (entries.length ≤ maxMembers) && entriesReadable entries
  | tag _ content => content.isReadable
  | _ => true

/-- Whether no collection among items has more members than can be read. -/
def itemsReadable : List Cbor → Bool
  | [] => true
  | item :: rest => item.isReadable && itemsReadable rest

/-- Whether no collection among keys and values has more members than can be read. -/
def entriesReadable : List (Cbor × Cbor) → Bool
  | [] => true
  | (key, value) :: rest => key.isReadable && value.isReadable && entriesReadable rest

end

mutual

/-- The item with the entries of its maps in the order in which they are written. -/
def arranged : Cbor → Cbor
  | array items => array (arrangedItems items)
  | map entries => map ((sortBy (fun a b => Bytes.le a.1 b.1) (arrangedEntries entries)).map (·.2))
  | tag number content => tag number content.arranged
  | item => item

/-- The items, each arranged. -/
def arrangedItems : List Cbor → List Cbor
  | [] => []
  | item :: rest => item.arranged :: arrangedItems rest

/-- The bytes of each key with the arranged entry. -/
def arrangedEntries : List (Cbor × Cbor) → List (Bytes × Cbor × Cbor)
  | [] => []
  | (key, value) :: rest => (key.encode, key.arranged, value.arranged) :: arrangedEntries rest

end

theorem itemsReadable_eq (items : List Cbor) : itemsReadable items = items.all isReadable := by
  induction items with
  | nil => rfl
  | cons item rest ih => rw [itemsReadable, ih, List.all_cons]

theorem entriesReadable_eq (entries : List (Cbor × Cbor)) :
    entriesReadable entries = entries.all fun e => e.1.isReadable && e.2.isReadable := by
  induction entries with
  | nil => rfl
  | cons e rest ih => rw [entriesReadable, ih, List.all_cons]

theorem arrangedItems_eq (items : List Cbor) : arrangedItems items = items.map arranged := by
  induction items with
  | nil => rfl
  | cons item rest ih => rw [arrangedItems, ih, List.map_cons]

theorem arrangedEntries_eq (entries : List (Cbor × Cbor)) :
    arrangedEntries entries
      = entries.map fun e => (e.1.encode, e.1.arranged, e.2.arranged) := by
  induction entries with
  | nil => rfl
  | cons e rest ih => rw [arrangedEntries, ih, List.map_cons]

theorem arranged_map (entries : List (Cbor × Cbor)) :
    (map entries).arranged
      = map ((sortEntries entries).map fun e => (e.1.arranged, e.2.arranged)) := by
  rw [arranged, arrangedEntries_eq, sortBy_map, List.map_map]
  rfl

theorem all_members_map (entries : List (Cbor × Cbor)) :
    (map entries).members.all isReadable = entriesReadable entries := by
  rw [Bool.eq_iff_iff, entriesReadable_eq, List.all_eq_true, List.all_eq_true]
  simp only [mem_members_map, Bool.and_eq_true]
  constructor
  · intro h e he
    exact ⟨h e.1 ⟨e, he, Or.inl rfl⟩, h e.2 ⟨e, he, Or.inr rfl⟩⟩
  · rintro h c ⟨e, he, rfl | rfl⟩
    · exact (h e he).1
    · exact (h e he).2

/-- What becomes of the bytes of an item when they are read at a depth. -/
def ReadsBack (depth : Nat) (c : Cbor) : Prop :=
  ∀ ⦃fuel : Nat⦄, 2 * c.encode.length ≤ fuel + 1 → ∀ rest : Bytes,
    readItem fuel depth (c.encode ++ rest) = if c.isReadable then some (c.arranged, rest) else none

/-- Items are read back one after another if each one is. -/
theorem readItems_encode {depth : Nat} {items : List Cbor} (h : ∀ c ∈ items, ReadsBack depth c)
    (hpos : ∀ c ∈ items, c.encode ≠ []) {fuel : Nat}
    (hfuel : 2 * (items.flatMap encode).length ≤ fuel) (rest : Bytes) :
    readItems fuel depth items.length (items.flatMap encode ++ rest)
      = if items.all isReadable then some (items.map arranged, rest) else none := by
  induction items generalizing fuel with
  | nil => simp [readItems]
  | cons item items ih =>
      rw [List.flatMap_cons, List.length_append] at hfuel
      have hitem := List.length_pos_iff.2 (hpos item List.mem_cons_self)
      -- An item has a byte at least, so there is fuel for a step.
      obtain ⟨fuel, rfl⟩ : ∃ n, fuel = n + 1 := ⟨fuel - 1, by omega⟩
      have hfirst := h item List.mem_cons_self (show 2 * item.encode.length ≤ fuel + 1 by omega)
        (items.flatMap encode ++ rest)
      have hrest := ih (fun c hc => h c (List.mem_cons_of_mem _ hc))
        (fun c hc => hpos c (List.mem_cons_of_mem _ hc))
        (show 2 * (items.flatMap encode).length ≤ fuel by omega)
      rw [List.length_cons, readItems, List.flatMap_cons, List.append_assoc, hfirst, List.all_cons,
        List.map_cons]
      by_cases hr : item.isReadable = true
      · by_cases hrs : items.all isReadable = true
        · simp [hr, hrs, hrest]
        · simp [hr, hrs, hrest]
      · simp [hr]

/-- Keys and values that take turns are paired up. -/
theorem pairUp_flatMap (f : Cbor × Cbor → Cbor × Cbor) (entries : List (Cbor × Cbor)) :
    pairUp (entries.flatMap fun e => [(f e).1, (f e).2]) = some (entries.map f) := by
  induction entries with
  | nil => rfl
  | cons e rest ih =>
      rw [List.flatMap_cons, List.cons_append, List.cons_append, List.nil_append, pairUp, ih,
        Option.map_some, List.map_cons]

namespace Plain

variable {levels : Nat} {c : Cbor}

-- A number, a text or a simple value is read from its head and body alone.
theorem readsBack_of_scalar (h : Plain levels c) (hsize : c.encode.length < 2 ^ 64)
    (hscalar : c.isCollection = false) (depth : Nat) : ReadsBack depth c := by
  intro fuel hfuel rest
  have hpos := List.length_pos_iff.2 h.encode_ne_nil
  obtain ⟨fuel, rfl⟩ : ∃ n, fuel = n + 1 := ⟨fuel - 1, by omega⟩
  obtain ⟨info, hopen, hread⟩ := h.read_encode hsize rest
  rw [readItem]
  cases h with
  | unsigned n => simp [hread, major, number, body, members, isReadable, arranged]
  | negative n => simp [hread, major, number, body, members, isReadable, arranged]
  | text t =>
      simp [hread, major, number, body, isReadable, arranged, Head.isOpen, hopen, takeBytes,
        Text.size]
  | @simple _ n h =>
      have hlt : n.toNat < 24 := UInt8.lt_iff_toNat_lt.1 h
      have hinfo : Head.read ((Cbor.simple n).encode ++ rest) = some (⟨7, n, n.toNat⟩, rest) := by
        have hsmall := read_small (show (7 : UInt8) < 8 by decide) hlt rest
        rw [UInt8.ofNat_toNat] at hsmall
        rw [encode, if_pos h]
        exact hsmall
      have hne : n ≠ 25 ∧ n ≠ 26 ∧ n ≠ 27 := by
        refine ⟨?_, ?_, ?_⟩ <;> rintro rfl <;> exact absurd hlt (by decide)
      simp [hinfo, hne, isReadable, arranged]
  | array h => cases hscalar
  | map hkeys h => cases hscalar

theorem readItems_members (h : Plain levels c) (hcollection : c.isCollection = true) {depth : Nat}
    (hmembers : ∀ x ∈ c.members, ReadsBack depth x) {fuel : Nat}
    (hfuel : 2 * c.encode.length ≤ fuel + 2) (rest : Bytes) :
    readItems fuel depth c.members.length (c.body ++ rest)
      = if c.members.all isReadable then some (c.members.map arranged, rest) else none := by
  have hbody := h.length_body_lt
  rw [h.body_eq hcollection] at hbody ⊢
  refine readItems_encode hmembers (fun x hx => ?_) (by omega) rest
  obtain ⟨levels, hplain⟩ := h.of_mem_members hx
  exact hplain.encode_ne_nil

theorem readsBack_array {items : List Cbor} (h : Plain levels (.array items))
    (hsize : (Cbor.array items).encode.length < 2 ^ 64) {depth : Nat} (hdepth : depth < maxDepth)
    (hmembers : ∀ x ∈ items, ReadsBack (depth + 1) x) : ReadsBack depth (.array items) := by
  intro fuel hfuel rest
  have hpos := List.length_pos_iff.2 h.encode_ne_nil
  obtain ⟨fuel, rfl⟩ : ∃ n, fuel = n + 1 := ⟨fuel - 1, by omega⟩
  obtain ⟨info, hopen, hread⟩ := h.read_encode hsize rest
  have hitems := h.readItems_members rfl hmembers hfuel rest
  -- The limit on members is checked before any of them is read.
  rw [members] at hitems
  simp only [readItem, hread, major, number, Head.isOpen, Option.bind_eq_bind, Option.bind_some,
    if_neg (Nat.not_le.2 hdepth), beq_eq_false_iff_ne.2 hopen, Bool.false_eq_true, if_false,
    isReadable, itemsReadable_eq, arranged, arrangedItems_eq, Bool.and_eq_true, decide_eq_true_eq]
  by_cases hlen : items.length ≤ maxMembers
  · rw [if_neg (Nat.not_lt.2 hlen), hitems]
    by_cases hall : items.all isReadable = true
    · rw [if_pos hall, if_pos ⟨hlen, hall⟩]
      rfl
    · rw [if_neg hall, if_neg fun h => hall h.2]
      rfl
  · rw [if_pos (Nat.lt_of_not_le hlen), if_neg fun h => hlen h.1]
    rfl

theorem readsBack_map {entries : List (Cbor × Cbor)} (h : Plain levels (.map entries))
    (hsize : (Cbor.map entries).encode.length < 2 ^ 64) {depth : Nat} (hdepth : depth < maxDepth)
    (hmembers : ∀ x ∈ (Cbor.map entries).members, ReadsBack (depth + 1) x) :
    ReadsBack depth (.map entries) := by
  intro fuel hfuel rest
  have hpos := List.length_pos_iff.2 h.encode_ne_nil
  obtain ⟨fuel, rfl⟩ : ∃ n, fuel = n + 1 := ⟨fuel - 1, by omega⟩
  obtain ⟨info, hopen, hread⟩ := h.read_encode hsize rest
  have hitems := h.readItems_members rfl hmembers hfuel rest
  -- Keys and values are read as one list of items, which is paired up afterwards.
  have hpairs := pairUp_flatMap (fun e => (e.1.arranged, e.2.arranged)) (sortEntries entries)
  rw [length_members_map, all_members_map] at hitems
  simp only [readItem, hread, major, number, Head.isOpen, Option.bind_eq_bind, Option.bind_some,
    if_neg (Nat.not_le.2 hdepth), beq_eq_false_iff_ne.2 hopen, Bool.false_eq_true, if_false,
    isReadable, arranged_map, Bool.and_eq_true, decide_eq_true_eq]
  by_cases hlen : entries.length ≤ maxMembers
  · rw [if_neg (Nat.not_lt.2 hlen), hitems]
    by_cases hall : entriesReadable entries = true
    · rw [if_pos hall, if_pos ⟨hlen, hall⟩, Option.bind_some, members, List.map_flatMap]
      simp only [List.map_cons, List.map_nil]
      rw [hpairs]
      rfl
    · rw [if_neg hall, if_neg fun h => hall h.2]
      rfl
  · rw [if_pos (Nat.lt_of_not_le hlen), if_neg fun h => hlen h.1]
    rfl

/-- A plain item is read back as it was arranged, unless a collection in it has too many members. -/
theorem readsBack (h : Plain levels c) (hsize : c.encode.length < 2 ^ 64) {depth : Nat}
    (hdepth : depth + levels ≤ maxDepth) : ReadsBack depth c := by
  induction h generalizing depth with
  | unsigned n => exact (unsigned n : Plain 0 _).readsBack_of_scalar hsize rfl depth
  | negative n => exact (negative n : Plain 0 _).readsBack_of_scalar hsize rfl depth
  | text t => exact (text t : Plain 0 _).readsBack_of_scalar hsize rfl depth
  | simple h => exact (simple h : Plain 0 _).readsBack_of_scalar hsize rfl depth
  | array h ih =>
      refine (Plain.array h).readsBack_array hsize (by omega) fun x hx => ?_
      exact ih x hx (Nat.lt_trans ((Plain.array h).length_encode_member hx) hsize) (by omega)
  | map hkeys h ih =>
      refine (Plain.map hkeys h).readsBack_map hsize (by omega) fun x hx => ?_
      have hxsize := Nat.lt_trans ((Plain.map hkeys h).length_encode_member hx) hsize
      obtain ⟨e, he, rfl | rfl⟩ := mem_members_map.1 hx
      · obtain ⟨t, ht⟩ := hkeys e he
        rw [ht] at hxsize ⊢
        exact (text t : Plain 0 _).readsBack_of_scalar hxsize rfl _
      · exact ih e he hxsize (by omega)

/-- The bytes of a plain item are those of the item as it was arranged, unless a collection in it
    has too many members. -/
theorem decode?_encode (h : Plain levels c) (hsize : c.encode.length < 2 ^ 64)
    (hlevels : levels ≤ maxDepth) :
    decode? c.encode = if c.isReadable then some c.arranged else none := by
  have hread := h.readsBack hsize (show 0 + levels ≤ maxDepth by omega)
    (show 2 * c.encode.length ≤ 2 * c.encode.length + 2 + 1 by omega) []
  rw [List.append_nil] at hread
  rw [decode?, hread]
  by_cases hc : c.isReadable = true
  · rw [if_pos hc, if_pos hc]
  · rw [if_neg hc, if_neg hc]

end Plain

end Cbor

end NetlinkSchema
